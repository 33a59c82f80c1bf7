import Firo.Lib.Interpolation
import Firo.LibSpark.Primitives

/-! The proofs of `schnorr.cpp` for several statements `Y = G y` at once: one response answers for
all of them, each weighted by its power of the challenge. From one more accepting proof than there
are statements, all for the same commitment, the scalar of each statement is computed. -/
namespace Firo.LibSpark

open Firo.Lib List

variable {K P : Type}

structure Schnorr (P : Type) where
  G : P

structure SchnorrProof (K P : Type) where
  A : P
  t : K

namespace Schnorr

variable (sc : Schnorr P) (hash : Transcript K P → K)

def challenge (Y : List P) (A : P) : K :=
  (({ domain := "SCHNORR_V1" } : Transcript K P)
    |>.add "G" (.point sc.G)
    |>.add "Y" (.points Y)
    |>.add "A" (.point A)
    |>.challenge hash "c").1

variable [Field K] [DecidableEq K] [AddCommGroup P] [DecidableEq P] [Module K P]

/-- `r` is the random scalar. -/
def prove (r : K) (y : List K) (Y : List P) : Except String (SchnorrProof K P) :=
  if y.length ≠ Y.length then .error "Bad Schnorr statement!"
  else if y.map (· • sc.G) ≠ Y then .error "Bad Schnorr statement!"
  else
    let A := r • sc.G
    let c := sc.challenge hash Y A
    if 0 ∈ challengePowers c y.length then .error "Unexpected challenge!"
    else .ok ⟨A, r + (List.zipWith (fun y c => -y * c) y (challengePowers c y.length)).sum⟩

def verify (Y : List P) (proof : SchnorrProof K P) : Except String Bool :=
  if 0 ∈ Y then .error "Bad Schnorr input key!"
  else
    let c := sc.challenge hash Y proof.A
    let cPowers := challengePowers c Y.length
    if 0 ∈ cPowers then .error "Unexpected challenge!"
    else .ok (decide (multiExponent (sc.G :: proof.A :: Y) (proof.t :: -1 :: cPowers) = 0))

variable {proof : SchnorrProof K P}

lemma verify_eq_ok_true {Y} : sc.verify hash Y proof = .ok true ↔
      0 ∉ Y ∧ 0 ∉ challengePowers (sc.challenge hash Y proof.A) Y.length ∧
      proof.t • sc.G + multiExponent Y (challengePowers (sc.challenge hash Y proof.A) Y.length) =
        proof.A := by
  have hequation : ∀ cPowers : List K,
      multiExponent (sc.G :: proof.A :: Y) (proof.t :: -1 :: cPowers) = 0 ↔
        proof.t • sc.G + multiExponent Y cPowers = proof.A := by
    intro cPowers
    rw [multiExponent_cons, multiExponent_cons, ← sub_eq_zero (b := proof.A)]
    apply Eq.congr_left
    module
  simp only [verify, hequation]
  split_ifs with hY hc
  · simp [hY]
  · simp [hc]
  · simp [hY, hc]

omit [DecidableEq K] [DecidableEq P] in
lemma response_smul_add (y cPowers : List K) (h : y.length = cPowers.length) :
    (zipWith (fun y c => -y * c) y cPowers).sum • sc.G +
      multiExponent (y.map (· • sc.G)) cPowers = 0 := by
  induction y generalizing cPowers with
  | nil => simp
  | cons a y ih =>
    obtain ⟨c, cPowers, rfl⟩ := exists_cons_of_length_eq_add_one h.symm
    have htail := ih cPowers (Nat.succ.inj h)
    rw [zipWith_cons_cons, sum_cons, map_cons, multiExponent_cons]
    calc (-a * c + (zipWith (fun y c => -y * c) y cPowers).sum) • sc.G +
          (c • a • sc.G + multiExponent (y.map (· • sc.G)) cPowers)
        = (zipWith (fun y c => -y * c) y cPowers).sum • sc.G +
            multiExponent (y.map (· • sc.G)) cPowers := by module
      _ = 0 := htail

lemma prove_eq_ok {r : K} {y} {Y} : sc.prove hash r y Y = .ok proof ↔ y.map (· • sc.G) = Y ∧
      0 ∉ challengePowers (sc.challenge hash Y (r • sc.G)) y.length ∧
      proof = ⟨r • sc.G, r + (zipWith (fun y c => -y * c) y
        (challengePowers (sc.challenge hash Y (r • sc.G)) y.length)).sum⟩ := by
  simp only [prove]
  constructor
  · intro h
    split_ifs at h with hlength hY hc
    cases h
    exact ⟨not_not.mp hY, hc, rfl⟩
  · rintro ⟨rfl, hc, rfl⟩
    rw [if_neg (by simp), if_neg (by simp), if_neg hc]

lemma verify_of_prove {r : K} {y} {Y} (h : sc.prove hash r y Y = .ok proof)
    (hY : 0 ∉ Y) : sc.verify hash Y proof = .ok true := by
  obtain ⟨rfl, hpowers, rfl⟩ := (sc.prove_eq_ok hash).mp h
  rw [verify_eq_ok_true, length_map]
  refine ⟨hY, hpowers, ?_⟩
  rw [add_smul, add_assoc, response_smul_add _ _ _ (length_challengePowers _ _).symm, add_zero]

/-- The scalar of statement `i`, from the challenges and responses of `n + 1` proofs. -/
noncomputable def extract {n : ℕ} (c t : Fin (n + 1) → K) (i : Fin n) : K :=
  -interpolate c t i.succ

/-- Proofs for the same statements and the same commitment, with pairwise different challenges
and one more than there are statements, give the scalar of every statement. -/
lemma smul_extract {n : ℕ} {Y : List P} (hn : Y.length = n) {A : P}
    (hash : Fin (n + 1) → Transcript K P → K) (t : Fin (n + 1) → K)
    (hverify : ∀ k, sc.verify (hash k) Y ⟨A, t k⟩ = .ok true)
    (hc : Function.Injective fun k => sc.challenge (hash k) Y A) (i : Fin n) :
    extract (fun k => sc.challenge (hash k) Y A) t i • sc.G = Y.getD i 0 := by
  subst hn
  -- the commitment and the negated statements are the coefficients of a polynomial whose
  -- value at each challenge is the response times the generator
  have hvalue : ∀ k, ∑ l : Fin (Y.length + 1), sc.challenge (hash k) Y A ^ (l : ℕ) •
      (Fin.cons A (fun i => -Y.getD i 0) : Fin (Y.length + 1) → P) l =
        ∑ b : Fin 1, (fun _ => t) b k • (fun _ => sc.G) b := by
    intro k
    obtain ⟨-, -, hequation⟩ := (sc.verify_eq_ok_true (hash k)).mp (hverify k)
    rw [multiExponent_eq_sum Y _ le_rfl, Finset.sum_range] at hequation
    rw [Fin.sum_univ_succ]
    simp only [Fin.cons_zero, Fin.cons_succ, Fin.val_zero, pow_zero, one_smul, Fin.val_succ,
      smul_neg, Finset.sum_neg_distrib, Finset.univ_unique, Finset.sum_const, Finset.card_singleton]
    rw [← sub_eq_add_neg, sub_eq_iff_eq_add]
    refine hequation.symm.trans ?_
    simp [challengePowers]
  have hcoeff := eq_sum_interpolate hc hvalue i.succ
  simp only [Fin.cons_succ, Finset.univ_unique, Finset.sum_const, Finset.card_singleton,
    one_smul] at hcoeff
  rw [extract, neg_smul, ← hcoeff, neg_neg]

end Schnorr

end Firo.LibSpark
