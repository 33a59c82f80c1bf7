import Firo.LibSpark.GrootleBatch
import Firo.LibSpark.GrootleProver

/-! The masks and the indicator of the secret index give the matrix of the proof at the challenge.
With it the commitment equation holds entry by entry, and the membership equations because the
polynomials of the other commitments have degree below `m`. -/
namespace Firo.LibSpark

open Finset Firo.Lib

variable {F G : Type} [Field F] [AddCommGroup G] [Module F G]

lemma foldl_sub_eq (u : ℕ → F) (start k : ℕ) (init : F) :
    (List.range' start k).foldl (fun s i => s - u i) init =
      init - ∑ i ∈ range k, u (start + i) := by
  induction k with
  | zero => simp
  | succ k ih =>
    rw [List.range'_concat, List.foldl_append, ih, List.foldl_cons, List.foldl_nil,
      sum_range_succ, one_mul, sub_sub]

lemma sum_entry_maskMatrix (rand : ℕ → F) {n m j : ℕ} (hn : 0 < n) (hj : j < m) :
    ∑ i ∈ range n, entry (maskMatrix rand n m) n j i = 0 := by
  obtain ⟨k, rfl⟩ : ∃ k, n = k + 1 := ⟨n - 1, by omega⟩
  have hread : ∀ i < k + 1, entry (maskMatrix rand (k + 1) m) (k + 1) j i =
      if i = 0 then 0 - ∑ i ∈ range k, rand (j * (k + 1) + (1 + i))
      else rand (j * (k + 1) + i) := by
    intro i hi
    refine (getD_rows _ _ hj hi).trans ?_
    rw [foldl_sub_eq (fun i => rand (j * (k + 1) + i)), Nat.add_sub_cancel]
  rw [sum_congr rfl fun i hi => hread i (mem_range.mp hi), sum_range_succ']
  simp [add_comm 1]

lemma sum_entry_sigma {n l m j : ℕ} (hn : 0 < n) (hj : j < m) :
    ∑ i ∈ range n, entry (convertToSigma n l m : List F) n j i = 1 := by
  rw [sum_congr rfl fun i hi => entry_convertToSigma hj (mem_range.mp hi), sum_ite_eq',
    if_pos (mem_range.mpr (digit_lt hn))]

namespace Grootle

variable (g : Grootle G) (rand : GrootleRandom F) (l : ℕ)

omit [AddCommGroup G] [Module F G] in
lemma entry_respond (s v x : F) (com : Commitments G) {j i : ℕ} (hj : j < g.m) (hi : i < g.n) :
    entry (fMatrix (g.respond rand l s v x com) x g.n g.m) g.n j i =
      entry (convertToSigma g.n l g.m) g.n j i * x +
        entry (maskMatrix rand.a g.n g.m) g.n j i := by
  obtain ⟨k, hk⟩ : ∃ k, g.n = k + 1 := ⟨g.n - 1, by have := g.one_lt_n; omega⟩
  -- an entry that is part of the proof
  have hpart : ∀ i < k, (g.respond rand l s v x com).f.getD (j * k + i) 0 =
      entry (convertToSigma g.n l g.m) g.n j (i + 1) * x +
        entry (maskMatrix rand.a g.n g.m) g.n j (i + 1) := by
    intro i hi
    have hrows : (g.respond rand l s v x com).f = rows g.m k fun j i =>
        entry (convertToSigma g.n l g.m) g.n j (i + 1) * x +
          entry (maskMatrix rand.a g.n g.m) g.n j (i + 1) := by
      simp only [respond, rows, hk, Nat.add_sub_cancel, List.range'_eq_map_range, List.map_map]
      simp only [Function.comp_def, add_comm 1]
      rfl
    rw [hrows, getD_rows _ _ hj hi]
  have hread : entry (fMatrix (g.respond rand l s v x com) x g.n g.m) g.n j i =
      if i = 0 then x - ∑ i ∈ range (g.n - 1),
        (g.respond rand l s v x com).f.getD (j * (g.n - 1) + i) 0
      else (g.respond rand l s v x com).f.getD (j * (g.n - 1) + (i - 1)) 0 :=
    getD_rows _ _ hj hi
  rw [hread, hk, Nat.add_sub_cancel]
  by_cases hzero : i = 0
  · -- the first entry of a row completes its sum
    have hmask := sum_entry_maskMatrix rand.a (show 0 < g.n by omega) hj
    have hsigma := sum_entry_sigma (F := F) (l := l) (show 0 < g.n by omega) hj
    rw [hk, sum_range_succ', ← hk] at hmask hsigma
    rw [if_pos hzero, hzero, sum_congr rfl fun i hi => hpart i (mem_range.mp hi),
      sum_add_distrib, ← sum_mul, eq_sub_of_add_eq hsigma, eq_neg_of_add_eq_zero_left hmask, hk]
    ring
  · rw [if_neg hzero, hpart (i - 1) (by omega), show i - 1 + 1 = i by omega, hk]

lemma getD_eq_entry (f : List F) {n p : ℕ} : f.getD p 0 = entry f n (p / n) (p % n) := by
  rw [entry, Nat.div_add_mod']

lemma getD_map_of_zero {α : Type*} (φ : α → F) {d : α} (hφ : φ d = 0) (f : List α) (p : ℕ) :
    (f.map φ).getD p 0 = φ (f.getD p d) := by
  rw [← hφ, List.getD_map]

variable (s v x : F) (com : Commitments G)

omit [AddCommGroup G] [Module F G] in
lemma getD_respond {p : ℕ} (hp : p < g.n * g.m) :
    (fMatrix (g.respond rand l s v x com) x g.n g.m).getD p 0 =
      (convertToSigma g.n l g.m).getD p 0 * x + (maskMatrix rand.a g.n g.m).getD p 0 := by
  have hn : 0 < g.n := Nat.zero_lt_of_lt g.one_lt_n
  rw [getD_eq_entry _ (n := g.n), getD_eq_entry (convertToSigma _ _ _) (n := g.n),
    getD_eq_entry (maskMatrix _ _ _) (n := g.n)]
  exact g.entry_respond rand l s v x com (Nat.div_lt_of_lt_mul hp) (Nat.mod_lt _ hn)

omit [AddCommGroup G] [Module F G] in
lemma sigma_idempotent {p : ℕ} (hp : p < g.n * g.m) :
    (convertToSigma g.n l g.m : List F).getD p 0 * (convertToSigma g.n l g.m).getD p 0 =
      (convertToSigma g.n l g.m).getD p 0 := by
  have hn : 0 < g.n := Nat.zero_lt_of_lt g.one_lt_n
  rw [getD_eq_entry _ (n := g.n), entry_convertToSigma (Nat.div_lt_of_lt_mul hp) (Nat.mod_lt _ hn)]
  split <;> simp

lemma multiExponent_respond_Gi :
    multiExponent g.Gi (fMatrix (g.respond rand l s v x com) x g.n g.m) =
      multiExponent g.Gi (maskMatrix rand.a g.n g.m) +
        x • multiExponent g.Gi (convertToSigma g.n l g.m : List F) := by
  simp only [multiExponent_eq_sum g.Gi _ g.length_Gi.le, smul_sum, ← sum_add_distrib]
  apply sum_congr rfl
  intro p hp
  rw [g.getD_respond rand l s v x com (mem_range.mp hp)]
  module

lemma multiExponent_respond_Hi :
    multiExponent g.Hi ((fMatrix (g.respond rand l s v x com) x g.n g.m).map fun a => a * (x - a)) =
      multiExponent g.Hi ((maskMatrix rand.a g.n g.m).map fun a => -(a ^ 2)) +
        x • multiExponent g.Hi (List.zipWith (fun a sigma => a * (1 - 2 * sigma))
          (maskMatrix rand.a g.n g.m) (convertToSigma g.n l g.m)) := by
  simp only [multiExponent_eq_sum g.Hi _ g.length_Hi.le, smul_sum, ← sum_add_distrib]
  apply sum_congr rfl
  intro p hp
  rw [mem_range] at hp
  have hf := getD_map_of_zero (fun a => a * (x - a)) (zero_mul _)
    (fMatrix (g.respond rand l s v x com) x g.n g.m) p
  have hd := getD_map_of_zero (fun a => -(a ^ 2)) (show -((0 : F) ^ 2) = 0 by simp)
    (maskMatrix rand.a g.n g.m) p
  have hc : (List.zipWith (fun a sigma => a * (1 - 2 * sigma)) (maskMatrix rand.a g.n g.m)
      (convertToSigma g.n l g.m)).getD p 0 = (maskMatrix rand.a g.n g.m).getD p 0 *
        (1 - 2 * (convertToSigma g.n l g.m).getD p 0) := by
    have hmask : p < (maskMatrix rand.a g.n g.m).length := by
      rwa [maskMatrix, length_rows, mul_comm]
    have hsigma : p < (convertToSigma g.n l g.m : List F).length := by
      rwa [length_convertToSigma, mul_comm]
    simp only [List.getD_eq_getElem?_getD, List.getElem?_zipWith,
      List.getElem?_eq_getElem hmask, List.getElem?_eq_getElem hsigma, Option.getD_some]
  rw [hf, hd, hc, g.getD_respond rand l s v x com hp, smul_smul, ← add_smul]
  congr 1
  -- `σ² = σ` removes the term of degree two in the challenge
  linear_combination (-x ^ 2) * g.sigma_idempotent (F := F) l hp

lemma commitmentEquation_respond (size : ℕ) (offsetS offsetV : List G) : g.commitmentEquation x
      (g.respond rand l s v x (g.commitments rand l size offsetS offsetV)) = 0 := by
  rw [commitmentEquation, g.multiExponent_respond_Gi, g.multiExponent_respond_Hi]
  simp only [respond, commitments, vectorCommit, TWO_eq]
  module

lemma lastElement_append (front S : List G) (i : ℕ) :
    lastElement S.length (front ++ S) i = S.getD i 0 := by
  rw [lastElement, List.length_append, Nat.add_sub_cancel,
    List.getD_append_right _ _ _ _ (by omega), Nat.add_sub_cancel_left]

lemma membershipEquation_respond {f : List F} (front : List G) {S : List G} {S1 : G} {z : F}
    (rho : ℕ → F) (hl : l < S.length) (hsize : S.length ≤ g.n ^ g.m)
    (hf : ∀ j < g.m, ∀ k < g.n, entry f g.n j k =
      entry (convertToSigma g.n l g.m) g.n j k * x + entry (maskMatrix rand.a g.n g.m) g.n j k)
    (hlog : S.getD l 0 + -S1 = z • g.H) :
    g.membershipEquation x f S.length (lastElement S.length (front ++ S)) S1
      ((g.maskedSums (S.map (· + -S1)) (convolutionTerms (convertToSigma g.n l g.m)
        (maskMatrix rand.a g.n g.m) g.n g.m S.length l) rho).getD · 0)
      (z * x ^ g.m - ((List.range g.m).map fun j => rho j * x ^ j).sum) = 0 := by
  -- the commitments `X` without their masks
  let P := convolutionTerms (convertToSigma g.n l g.m) (maskMatrix rand.a g.n g.m) g.n g.m
    S.length l
  have hX : ∀ t < g.m, (g.maskedSums (S.map (· + -S1)) P rho).getD t 0 =
      ∑ i ∈ range S.length, (P.getD i []).getD t 0 • (S.getD i 0 - S1) + rho t • g.H := by
    intro t ht
    have hread : (g.maskedSums (S.map (· + -S1)) P rho).getD t 0 =
        multiExponent (S.map (· + -S1)) (P.map fun coefficients => coefficients.getD t 0) +
          rho t • g.H := by
      simp [maskedSums, ht]
    rw [hread, multiExponent_eq_sum (k := S.length) _ _ (by simp)]
    congr 1
    apply sum_congr rfl
    intro i hi
    rw [getD_map_of_zero (fun coefficients : List F => coefficients.getD t 0)
      (show ([] : List F).getD t 0 = 0 from rfl)]
    simp [mem_range.mp hi, sub_eq_add_neg]
  have hplain : ∀ i < S.length, plainCoefficient f g.n g.m S.length i =
      ∑ t ∈ range g.m, (P.getD i []).getD t 0 * x ^ t + (if i = l then 1 else 0) * x ^ g.m := by
    intro i hi
    exact (sum_convolutionTerms g.one_lt_n (fun j hj => sum_entry_maskMatrix rand.a
      (Nat.zero_lt_of_lt g.one_lt_n) hj) hl hsize hf hi).symm
  have hset : ∑ i ∈ range S.length,
      plainCoefficient f g.n g.m S.length i • (lastElement S.length (front ++ S) i - S1) =
      ∑ t ∈ range g.m, x ^ t • ∑ i ∈ range S.length,
        (P.getD i []).getD t 0 • (S.getD i 0 - S1) + (z * x ^ g.m) • g.H := by
    have hterm : ∀ i ∈ range S.length,
        plainCoefficient f g.n g.m S.length i • (lastElement S.length (front ++ S) i - S1) =
          ∑ t ∈ range g.m, x ^ t • (P.getD i []).getD t 0 • (S.getD i 0 - S1) +
            if i = l then x ^ g.m • (S.getD i 0 - S1) else 0 := by
      intro i hi
      rw [hplain i (mem_range.mp hi), lastElement_append, add_smul, sum_smul]
      congr 1
      · apply sum_congr rfl
        intro t _
        rw [mul_comm, mul_smul]
      · split <;> simp
    rw [sum_congr rfl hterm, sum_add_distrib, sum_comm, sum_ite_eq', if_pos (mem_range.mpr hl),
      sub_eq_add_neg, hlog, smul_smul, mul_comm z]
    simp only [smul_sum]
  have hmasks : ∑ j ∈ range g.m, x ^ j • (g.maskedSums (S.map (· + -S1)) P rho).getD j 0 =
      ∑ t ∈ range g.m, x ^ t • ∑ i ∈ range S.length, (P.getD i []).getD t 0 • (S.getD i 0 - S1) +
          (∑ j ∈ range g.m, rho j * x ^ j) • g.H := by
    rw [sum_smul, ← sum_add_distrib]
    apply sum_congr rfl
    intro t ht
    rw [hX t (mem_range.mp ht)]
    module
  rw [membershipEquation, sum_padded f (by omega) hsize fun i =>
    lastElement S.length (front ++ S) i - S1, hset, hmasks]
  change _ - (z * x ^ g.m - ∑ j ∈ range g.m, rho j * x ^ j) • g.H = 0
  module

section

variable [DecidableEq F] [DecidableEq G] (hash : Transcript F G → F)

structure Statement (l : ℕ) (s : F) (S : List G) (S1 : G) (v : F) (V : List G) (V1 : G) :
    Prop where
  index_lt : l < S.length
  length_eq : V.length = S.length
  length_le : S.length ≤ g.n ^ g.m
  serial_eq : S.getD l 0 + -S1 = s • g.H
  value_eq : V.getD l 0 + -V1 = v • g.H
  serial_offset_ne : 0 ∉ S.map (· + -S1)
  value_offset_ne : 0 ∉ V.map (· + -V1)

def proverChallenge (S : List G) (S1 : G) (V : List G) (V1 : G) (root : List UInt8) : F :=
  let com := g.commitments rand l S.length (S.map (· + -S1)) (V.map (· + -V1))
  g.challenge hash root S1 V1 com.A com.B com.X com.X1

variable {rand l s v} {S V : List G} {S1 V1 : G} {root : List UInt8} {proof : GrootleProof F G}

lemma prove_eq_ok : g.prove hash rand l s S S1 v V V1 root = .ok proof ↔
    g.Statement l s S S1 v V V1 ∧ g.proverChallenge rand l hash S S1 V V1 root ≠ 0 ∧
      g.respond rand l s v (g.proverChallenge rand l hash S S1 V V1 root)
        (g.commitments rand l S.length (S.map (· + -S1)) (V.map (· + -V1))) = proof := by
  unfold prove
  constructor
  · intro h
    dsimp only at h
    split_ifs at h with hl hV hsize hS hVl hoffset hx
    push Not at hl hV hsize hS hVl hoffset
    refine ⟨⟨hl, hV, hsize.1, hS, hVl, hoffset.1, hoffset.2⟩, ?_, Except.ok.inj h⟩
    exact fun hzero => hx ((g.zero_mem_challengePowers _).mpr hzero)
  · rintro ⟨⟨hl, hV, hsize, hS, hVl, hoffS, hoffV⟩, hx, rfl⟩
    dsimp only
    rw [if_neg (by omega), if_neg (not_not.mpr hV), if_neg (by omega), if_neg (not_not.mpr hS),
      if_neg (not_not.mpr hVl), if_neg (not_or.mpr ⟨hoffS, hoffV⟩)]
    exact if_neg fun hzero => hx ((g.zero_mem_challengePowers _).mp hzero)

section

omit [DecidableEq F] [DecidableEq G]

lemma equations_respond (hst : g.Statement l s S S1 v V V1) (frontS frontV : List G) (x : F) :
    let proof := g.respond rand l s v x
      (g.commitments rand l S.length (S.map (· + -S1)) (V.map (· + -V1)))
    g.commitmentEquation x proof = 0 ∧ g.serialEquation x (frontS ++ S) S1 S.length proof = 0 ∧
      g.valueEquation x (frontV ++ V) V1 S.length proof = 0 := by
  intro proof
  have hf : ∀ j < g.m, ∀ k < g.n, entry (fMatrix proof x g.n g.m) g.n j k =
      entry (convertToSigma g.n l g.m) g.n j k * x + entry (maskMatrix rand.a g.n g.m) g.n j k :=
    fun j hj k hk => g.entry_respond rand l s v x _ hj hk
  have hserial := g.membershipEquation_respond rand l x frontS rand.rhoS hst.index_lt
    hst.length_le hf hst.serial_eq
  have hvalue := g.membershipEquation_respond rand l x frontV rand.rhoV
    (hst.index_lt.trans_eq hst.length_eq.symm) (hst.length_eq.trans_le hst.length_le) hf
    hst.value_eq
  rw [hst.length_eq] at hvalue
  exact ⟨g.commitmentEquation_respond rand l s v x _ _ _, hserial, hvalue⟩

lemma structureOk_respond (hst : g.Statement l s S S1 v V V1) {S' V' : List G}
    (hS : S.length ≤ S'.length) (hle : S'.length ≤ g.n ^ g.m) (hSV : S'.length = V'.length)
    (x : F) :
    g.structureOk S' [S1] V' [V1] [root] [S.length] [g.respond rand l s v x
      (g.commitments rand l S.length (S.map (· + -S1)) (V.map (· + -V1)))] = true := by
  have hne : S' ≠ [] := List.ne_nil_of_length_pos (by have := hst.index_lt; omega)
  simp [structureOk, hne, ← hSV, hle, respond, commitments, maskedSums]

end

/-- Honest proofs verify. The prover returns a proof for every statement that meets its
checks, unless the challenge is zero; and a proof whose entries differ from the challenge is
accepted, with all weights, also against longer lists that end with the lists of the prover. -/
theorem honest_proof_verifies (rand : GrootleRandom F) (l : ℕ) (s v : F) (S V : List G)
    (S1 V1 : G) (root : List UInt8) :
    ((∃ proof, g.prove hash rand l s S S1 v V V1 root = .ok proof) ↔
      g.Statement l s S S1 v V V1 ∧ g.proverChallenge rand l hash S S1 V V1 root ≠ 0) ∧
    ∀ proof, g.prove hash rand l s S S1 v V V1 root = .ok proof →
      g.proverChallenge rand l hash S S1 V V1 root ∉ proof.f →
      ∀ (bindWeight : F) (weights : ℕ → F × F) (S' V' : List G), S <:+ S' → V <:+ V' →
        S'.length = V'.length → S'.length ≤ g.n ^ g.m →
        g.verify hash bindWeight weights S' S1 V' V1 root S.length proof = true := by
  constructor
  · simp only [prove_eq_ok]
    constructor
    · rintro ⟨proof, hst, hx, -⟩
      exact ⟨hst, hx⟩
    · rintro ⟨hst, hx⟩
      exact ⟨_, hst, hx, rfl⟩
  · rintro proof hprove hf b weights _ _ ⟨frontS, rfl⟩ ⟨frontV, rfl⟩ hSV hle
    obtain ⟨hst, hx, rfl⟩ := (g.prove_eq_ok hash).mp hprove
    have hS : S.length ≤ (frontS ++ S).length := by simp
    have hpos : 1 ≤ S.length := by
      have := hst.index_lt
      omega
    obtain ⟨hcommitment, hserial, hvalue⟩ : _ ∧ _ ∧ _ :=
      g.equations_respond hst frontS frontV (g.proverChallenge rand l hash S S1 V V1 root)
    have hok : g.structureOk (frontS ++ S) [S1] (frontV ++ V) [V1] [root] [S.length]
        [g.respond rand l s v (g.proverChallenge rand l hash S S1 V V1 root)
          (g.commitments rand l S.length (S.map (· + -S1)) (V.map (· + -V1)))] = true :=
      g.structureOk_respond hst hS hle hSV _
    have helement := g.batchElement_eq_some hash b weights hok (fun t ht => by
        obtain rfl : t = 0 := by simpa using ht
        exact ⟨hpos, hS⟩)
      (fun t ht => by
        obtain rfl : t = 0 := by simpa using ht
        exact ⟨hf, hx⟩)
    have hzero : g.weightedEquations b (weights 0).1 (weights 0).2
        (g.proverChallenge rand l hash S S1 V V1 root) (frontS ++ S) (frontV ++ V) S1 V1 S.length
        (g.respond rand l s v (g.proverChallenge rand l hash S S1 V V1 root)
          (g.commitments rand l S.length (S.map (· + -S1)) (V.map (· + -V1)))) = 0 := by
      rw [weightedEquations, hcommitment, hserial, hvalue]
      simp
    rw [List.length_singleton, sum_range_one] at helement
    unfold verify verifyBatch
    rw [helement]
    exact beq_iff_eq.mpr (congrArg some hzero)

end

end Grootle

def smallRandom : GrootleRandom ℚ := ⟨fun i => i + 5, 1, 2, fun i => i + 3, fun i => i + 4⟩

theorem honest_proof_verifies_two : ∃ proof,
    smallGrootle.prove (fun _ => 1) smallRandom 1 2 [12, 21] 3 3 [13, 31] 4 [] = .ok proof ∧
    smallGrootle.verify (fun _ => 1) 7 (fun _ => (5, 6)) [100, 12, 21] 3 [100, 13, 31] 4 [] 2
      proof = true := by
  have hst : smallGrootle.Statement 1 (2 : ℚ) [12, 21] 3 3 [13, 31] 4 :=
    ⟨by decide, by decide, by decide, by norm_num [smallGrootle], by norm_num [smallGrootle],
      by norm_num, by norm_num⟩
  obtain ⟨hexists, hverify⟩ := smallGrootle.honest_proof_verifies (fun _ => (1 : ℚ)) smallRandom
    1 2 3 [12, 21] [13, 31] 3 4 []
  obtain ⟨proof, hprove⟩ := hexists.mpr ⟨hst, one_ne_zero⟩
  refine ⟨proof, hprove, hverify proof hprove ?_ 7 (fun _ => (5, 6)) _ _ ⟨[100], rfl⟩
    ⟨[100], rfl⟩ rfl (by decide)⟩
  obtain ⟨-, -, rfl⟩ := (smallGrootle.prove_eq_ok _).mp hprove
  decide +kernel

end Firo.LibSpark
