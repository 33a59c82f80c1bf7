import Firo.LibSpark.Chaum

/-! An honest proof is accepted, and two accepting proofs of the second version that answer
different challenges to the same commitments open every input. The first version checks the weighted
sum of two equations; for one input they are the equations of `verify_single_input`. -/
namespace Firo.LibSpark.Chaum

variable {K P : Type} [Field K] [DecidableEq K] [AddCommGroup P] [DecidableEq P] [Module K P]
variable (ch : Chaum P) (hash : Transcript K P → K)

omit [DecidableEq K] [DecidableEq P] in
lemma multiExponent_map_mul (a : K) (points : List P) (scalars : List K) :
    multiExponent points (scalars.map fun s => a * s) = a • multiExponent points scalars := by
  induction points generalizing scalars with
  | nil => simp
  | cons g points ih =>
    cases scalars with
    | nil => simp [multiExponent]
    | cons s scalars =>
      rw [List.map_cons, multiExponent_cons, multiExponent_cons, ih]
      module

def firstResidue (c : K) (S : List P) (proof : ChaumProofV1 K P) : P :=
  proof.A1 + multiExponent S (challengePowers c S.length) -
    (proof.t1.sum • ch.F + proof.t2 • ch.G + proof.t3 • ch.H)

def secondResidue (c : K) (T : List P) (proof : ChaumProofV1 K P) : P :=
  proof.A2.sum + (challengePowers c T.length).sum • ch.U -
    (multiExponent T proof.t1 + proof.t2 • ch.G)

variable {S T : List P} {proof : ChaumProofV1 K P}

omit [DecidableEq K] [DecidableEq P] in
lemma weightedElement_eq (w c : K) (hT : T.length = S.length) : ch.weightedElement w c S T proof =
      ch.firstResidue c S proof + w • ch.secondResidue c T proof := by
  have hpowers : S.length = (challengePowers c S.length).length := by simp [challengePowers]
  simp only [weightedElement, firstResidue, secondResidue, List.cons_append, List.nil_append,
    multiExponent_cons, multiExponent_append hpowers, multiExponent_map_mul, hT]
  module

def ChecksV1 (mu : K) (S T : List P) (proof : ChaumProofV1 K P) : Prop :=
  S.length ≠ 0 ∧ (T.length = S.length ∧ proof.A2.length = S.length ∧
    proof.t1.length = S.length) ∧ (0 ∉ S ∧ 0 ∉ T) ∧
    ch.challengeV1 hash mu S T proof.A1 proof.A2 ≠ 0

lemma verifyV1_eq_ok_true {w mu : K} :
    ch.verifyV1 hash w mu S T proof = .ok true ↔ ch.ChecksV1 hash mu S T proof ∧
      ch.firstResidue (ch.challengeV1 hash mu S T proof.A1 proof.A2) S proof +
        w • ch.secondResidue (ch.challengeV1 hash mu S T proof.A1 proof.A2) T proof = 0 := by
  simp only [verifyV1, ChecksV1]
  by_cases hsizes : S.length = 0 ∨
      ¬(T.length = S.length ∧ proof.A2.length = S.length ∧ proof.t1.length = S.length)
  · rw [if_pos hsizes]
    constructor
    · intro h
      cases h
    · rintro ⟨⟨hn, hlengths, -⟩, -⟩
      exact absurd hsizes (by tauto)
  · obtain ⟨hn, hlengths⟩ := not_or.mp hsizes
    have hlengths := not_not.mp hlengths
    rw [if_neg hsizes, ch.weightedElement_eq w _ hlengths.1]
    simp only [zero_mem_challengePowers (Nat.pos_of_ne_zero hn)]
    split_ifs with hzero hc
    · simp only [false_iff, not_and]
      tauto
    · simp [hc]
    · simp only [Except.ok.injEq, decide_eq_true_eq]
      tauto

lemma verifySingleInput_eq_ok_true {mu : K} {S T : P} :
    ch.verifySingleInput hash mu [S] [T] proof = .ok true ↔ ch.ChecksV1 hash mu [S] [T] proof ∧
        ch.firstResidue (ch.challengeV1 hash mu [S] [T] proof.A1 proof.A2) [S] proof = 0 ∧
        ch.secondResidue (ch.challengeV1 hash mu [S] [T] proof.A1 proof.A2) [T] proof = 0 := by
  simp only [verifySingleInput, ChecksV1]
  by_cases hsizes : proof.A2.length = 1 ∧ proof.t1.length = 1
  · obtain ⟨A2, hA2⟩ := List.length_eq_one_iff.mp hsizes.1
    obtain ⟨t1, ht1⟩ := List.length_eq_one_iff.mp hsizes.2
    -- with one input the sums of the residues have one term
    have hfirst : ∀ c : K, ch.firstResidue c [S] proof = 0 ↔
        proof.A1 + c • S = t1 • ch.F + proof.t2 • ch.G + proof.t3 • ch.H := by
      intro c
      simp [firstResidue, challengePowers, ht1, sub_eq_zero]
    have hsecond : ∀ c : K, ch.secondResidue c [T] proof = 0 ↔
        A2 + c • ch.U = t1 • T + proof.t2 • ch.G := by
      intro c
      simp [secondResidue, challengePowers, hA2, ht1, sub_eq_zero]
    rw [hfirst, hsecond]
    simp only [hA2, ht1, List.length_singleton, List.getD_cons_zero, List.mem_singleton,
      ne_eq, not_true_eq_false, or_self, false_or, if_false, eq_comm (a := (0 : P))]
    split_ifs with hbad hc hne
    · simp only [false_iff]
      tauto
    · simp [hc]
    · simp only [Except.ok.injEq, decide_eq_true_eq]
      tauto
    · simp [hne]
  · split_ifs <;> simp_all

/-- For one input, the two equations of `verify_single_input` hold exactly if the historical
multi-exponentiation is the identity for two different weights; it is then the identity for
every weight. -/
theorem verifySingleInput_iff_two_weights (mu : K) (S T : P) (proof : ChaumProofV1 K P)
    (w w' : K) (hw : w ≠ w') :
    (ch.verifySingleInput hash mu [S] [T] proof = .ok true ↔
      ch.verifyV1 hash w mu [S] [T] proof = .ok true ∧
        ch.verifyV1 hash w' mu [S] [T] proof = .ok true) ∧
    (ch.verifySingleInput hash mu [S] [T] proof = .ok true →
      ∀ w, ch.verifyV1 hash w mu [S] [T] proof = .ok true) := by
  simp only [verifySingleInput_eq_ok_true, verifyV1_eq_ok_true]
  generalize ch.firstResidue _ [S] proof = first
  generalize ch.secondResidue _ [T] proof = second
  constructor
  · constructor
    · rintro ⟨hchecks, rfl, rfl⟩
      simp [hchecks]
    · rintro ⟨⟨hchecks, h⟩, -, h'⟩
      -- the difference of the two sums is a nonzero multiple of the second equation
      have hdiff : (w - w') • second = 0 := by
        calc (w - w') • second = first + w • second - (first + w' • second) := by module
          _ = 0 := by rw [h, h', sub_zero]
      have hsecond := (smul_eq_zero.mp hdiff).resolve_left (sub_ne_zero.mpr hw)
      rw [hsecond, smul_zero, add_zero] at h
      exact ⟨hchecks, h, hsecond⟩
  · rintro ⟨hchecks, rfl, rfl⟩ w
    simp [hchecks]

/-- Generators over the rationals; a statement for `x = y = z = 1` is `S = 3`, `T = 2`. -/
def smallChaum : Chaum ℚ := ⟨1, 1, 1, 3⟩

theorem verifySingleInput_iff_two_weights_one :
    smallChaum.verifySingleInput (fun _ => (1 : ℚ)) 0 [3] [2] ⟨0, [0], [1], 1, 1⟩ = .ok true ∧
    smallChaum.verifyV1 (fun _ => (1 : ℚ)) 5 0 [3] [2] ⟨0, [0], [1], 1, 1⟩ = .ok true := by
  have hone : smallChaum.verifySingleInput (fun _ => (1 : ℚ)) 0 [3] [2] ⟨0, [0], [1], 1, 1⟩ =
      .ok true := by decide +kernel
  have htwo : (1 : ℚ) ≠ 2 := by decide
  exact ⟨hone, (smallChaum.verifySingleInput_iff_two_weights (fun _ => 1) 0 3 2
    ⟨0, [0], [1], 1, 1⟩ 1 2 htwo).2 hone 5⟩

/-- What `prove_v2` checks: up to 100 inputs, none with the identity, and a witness of each. -/
structure StatementV2 (x y z : List K) (S T : List P) : Prop where
  pos : 0 < S.length
  le : S.length ≤ maxChaumV2Inputs
  length_x : x.length = S.length
  length_y : y.length = S.length
  length_z : z.length = S.length
  length_T : T.length = S.length
  S_ne : 0 ∉ S
  T_ne : 0 ∉ T
  opens : ∀ i < S.length, ch.Opens (x.getD i 0) (y.getD i 0) (z.getD i 0) (S.getD i 0) (T.getD i 0)

structure AcceptsV2 (c : K) (S T : List P) (proof : ChaumProofV2 K P) : Prop where
  pos : 0 < S.length
  le : S.length ≤ maxChaumV2Inputs
  length_T : T.length = S.length
  length_A1 : proof.A1.length = S.length
  length_A2 : proof.A2.length = S.length
  length_t1 : proof.t1.length = S.length
  length_t2 : proof.t2.length = S.length
  length_t3 : proof.t3.length = S.length
  S_ne : 0 ∉ S
  T_ne : 0 ∉ T
  A1_ne : 0 ∉ proof.A1
  A2_ne : 0 ∉ proof.A2
  c_ne : c ≠ 0
  equations : ∀ i < S.length, ch.EquationsV2 c (S.getD i 0) (T.getD i 0) (proof.A1.getD i 0)
    (proof.A2.getD i 0) (proof.t1.getD i 0) (proof.t2.getD i 0) (proof.t3.getD i 0)

lemma verifyV2_eq_true {mu : K} {context} {proof} : ch.verifyV2 hash mu context S T proof = true ↔
      ch.AcceptsV2 (ch.challengeV2 hash mu context S T proof.A1 proof.A2) S T proof := by
  simp only [verifyV2]
  constructor
  · intro h
    split_ifs at h with hsizes hzero hc
    simp only [not_or, not_not, not_lt] at hsizes hzero
    obtain ⟨hpos, hle, hT, hA1, hA2, ht1, ht2, ht3⟩ := hsizes
    obtain ⟨hS0, hT0, hA10, hA20⟩ := hzero
    exact ⟨Nat.pos_of_ne_zero hpos, hle, hT, hA1, hA2, ht1, ht2, ht3, hS0, hT0, hA10, hA20, hc,
      of_decide_eq_true h⟩
  · intro h
    rw [if_neg, if_neg, if_neg h.c_ne]
    · exact decide_eq_true h.equations
    · simp only [not_or]
      exact ⟨h.S_ne, h.T_ne, h.A1_ne, h.A2_ne⟩
    · simp only [not_or, not_not, not_lt]
      exact ⟨h.pos.ne', h.le, h.length_T, h.length_A1, h.length_A2, h.length_t1, h.length_t2,
        h.length_t3⟩

def respondV2 (rand : RandomV2 K) (c : K) (x y z : List K) (A : List P × List P) :
    ChaumProofV2 K P where
  A1 := A.1
  A2 := A.2
  t1 := (List.range x.length).map fun i => rand.r i + c * x.getD i 0
  t2 := (List.range x.length).map fun i => rand.s i + c * y.getD i 0
  t3 := (List.range x.length).map fun i => rand.t i + c * z.getD i 0

variable {ch} in
lemma StatementV2.proveV2_eq_ok {x y z} (hst : ch.StatementV2 x y z S T)
    (rand) (mu : K) (context) {A}
    (hA : A = ch.commitV2 rand S.length T) (hc : ch.challengeV2 hash mu context S T A.1 A.2 ≠ 0) :
    ch.proveV2 hash rand mu context x y z S T =
      .ok (respondV2 rand (ch.challengeV2 hash mu context S T A.1 A.2) x y z A) := by
  obtain ⟨hpos, hle, hx, hy, hz, hT, hS0, hT0, hopens⟩ := hst
  have hne : ∀ {l : List P}, 0 ∉ l → ∀ i < l.length, l.getD i 0 ≠ 0 := by
    intro l hl i hi hzero
    rw [List.getD_eq_getElem _ _ hi] at hzero
    exact hl (hzero ▸ List.getElem_mem hi)
  rw [← hx] at hA
  simp only [proveV2, ← hA]
  rw [if_neg, if_neg, if_neg hc, respondV2]
  · rw [not_not, hx]
    exact fun i hi => ⟨hne hS0 i hi, hne hT0 i (hT ▸ hi), hopens i hi⟩
  · simp only [not_or, not_not, not_lt]
    exact ⟨by omega, hx ▸ hle, by omega, by omega, by omega, by omega⟩

omit [DecidableEq K] [DecidableEq P] in
lemma Opens.equationsV2 {x y z : K} {S T : P} (h : ch.Opens x y z S T) (c r s t : K) :
    ch.EquationsV2 c S T (r • ch.F + s • ch.G + t • ch.H) (r • T + s • ch.G)
      (r + c * x) (s + c * y) (t + c * z) := by
  obtain ⟨rfl, hU⟩ := h
  constructor
  · module
  · rw [← hU]
    module

section

omit [DecidableEq K] [DecidableEq P]

variable {ch} in
lemma StatementV2.acceptsV2 {x y z} (hst : ch.StatementV2 x y z S T) (rand)
    {c : K} (hc : c ≠ 0) {A} (hA : A = ch.commitV2 rand S.length T)
    (hA1 : 0 ∉ A.1) (hA2 : 0 ∉ A.2) : ch.AcceptsV2 c S T (respondV2 rand c x y z A) := by
  obtain ⟨hpos, hle, hx, hy, hz, hT, hS0, hT0, hopens⟩ := hst
  refine ⟨hpos, hle, hT, ?_, ?_, ?_, ?_, ?_, hS0, hT0, hA1, hA2, hc, ?_⟩
  · simp [respondV2, hA, commitV2]
  · simp [respondV2, hA, commitV2]
  · simp [respondV2, hx]
  · simp [respondV2, hx]
  · simp [respondV2, hx]
  · intro i hi
    have hequations := (hopens i hi).equationsV2 ch c (rand.r i) (rand.s i) (rand.t i)
    have hget : ∀ {α : Type} (f : ℕ → α) (d : α), ((List.range S.length).map f).getD i d = f i := by
      intro α f d
      simp [hi]
    simpa only [respondV2, hA, commitV2, hx, hget] using hequations

def extract (c c' t t' : K) : K := (t - t') / (c - c')

lemma EquationsV2.opens {c c' t1 t1' t2 t2' t3 t3' : K} {S T A1 A2 : P} (hc : c ≠ c')
    (h : ch.EquationsV2 c S T A1 A2 t1 t2 t3) (h' : ch.EquationsV2 c' S T A1 A2 t1' t2' t3') :
    ch.Opens (extract c c' t1 t1') (extract c c' t2 t2') (extract c c' t3 t3') S T := by
  have hne : c - c' ≠ 0 := sub_ne_zero.mpr hc
  have hscale : ∀ t t' : K, extract c c' t t' = (c - c')⁻¹ * (t - t') := by
    intro t t'
    rw [extract, div_eq_mul_inv, mul_comm]
  -- subtracting the equations leaves the challenge difference times the statement
  have hS : (t1 - t1') • ch.F + (t2 - t2') • ch.G + (t3 - t3') • ch.H = (c - c') • S := by
    calc (t1 - t1') • ch.F + (t2 - t2') • ch.G + (t3 - t3') • ch.H
        = (t1 • ch.F + t2 • ch.G + t3 • ch.H) - (t1' • ch.F + t2' • ch.G + t3' • ch.H) := by module
      _ = (A1 + c • S) - (A1 + c' • S) := by rw [h.1, h'.1]
      _ = (c - c') • S := by module
  have hU : (t1 - t1') • T + (t2 - t2') • ch.G = (c - c') • ch.U := by
    calc (t1 - t1') • T + (t2 - t2') • ch.G
        = (t1 • T + t2 • ch.G) - (t1' • T + t2' • ch.G) := by module
      _ = (A2 + c • ch.U) - (A2 + c' • ch.U) := by rw [h.2, h'.2]
      _ = (c - c') • ch.U := by module
  simp only [hscale]
  constructor
  · calc _ = (c - c')⁻¹ • ((t1 - t1') • ch.F + (t2 - t2') • ch.G + (t3 - t3') • ch.H) := by module
      _ = S := by rw [hS, smul_smul, inv_mul_cancel₀ hne, one_smul]
  · calc _ = (c - c')⁻¹ • ((t1 - t1') • T + (t2 - t2') • ch.G) := by module
      _ = ch.U := by rw [hU, smul_smul, inv_mul_cancel₀ hne, one_smul]

end

/-- Completeness and special soundness of the second version. A valid statement is proved and
the proof accepted, if the challenge is not zero and no commitment is the identity; and two
accepting proofs with the same commitments and different challenges open every input. The two
may come from different hash functions and contexts. -/
theorem proveV2_complete_and_sound (S T : List P) :
    (∀ (rand : RandomV2 K) (mu : K) (context : ChaumV2Context) (x y z : List K),
      ch.StatementV2 x y z S T →
      ch.challengeV2 hash mu context S T (ch.commitV2 rand S.length T).1
        (ch.commitV2 rand S.length T).2 ≠ 0 →
      0 ∉ (ch.commitV2 rand S.length T).1 → 0 ∉ (ch.commitV2 rand S.length T).2 →
      ∃ proof, ch.proveV2 hash rand mu context x y z S T = .ok proof ∧
        ch.verifyV2 hash mu context S T proof = true) ∧
    ∀ (hash' : Transcript K P → K) (mu mu' : K) (context context' : ChaumV2Context)
      (proof proof' : ChaumProofV2 K P),
      ch.verifyV2 hash mu context S T proof = true →
      ch.verifyV2 hash' mu' context' S T proof' = true →
      proof.A1 = proof'.A1 → proof.A2 = proof'.A2 →
      ∀ c c', c = ch.challengeV2 hash mu context S T proof.A1 proof.A2 →
        c' = ch.challengeV2 hash' mu' context' S T proof'.A1 proof'.A2 → c ≠ c' →
        ∀ i < S.length, ch.Opens (extract c c' (proof.t1.getD i 0) (proof'.t1.getD i 0))
          (extract c c' (proof.t2.getD i 0) (proof'.t2.getD i 0))
          (extract c c' (proof.t3.getD i 0) (proof'.t3.getD i 0)) (S.getD i 0) (T.getD i 0) := by
  constructor
  · intro rand mu context x y z hst hc hA1 hA2
    refine ⟨_, hst.proveV2_eq_ok hash rand mu context rfl hc, ?_⟩
    rw [verifyV2_eq_true]
    exact hst.acceptsV2 rand hc rfl hA1 hA2
  · rintro hash' mu mu' context context' proof proof' h h' hA1 hA2 _ _ rfl rfl hne i hi
    rw [verifyV2_eq_true] at h h'
    have hequations := h'.equations i hi
    rw [← hA1, ← hA2] at hequations hne ⊢
    exact (h.equations i hi).opens ch hne hequations

/-- The proof of the statement for two inputs with all random scalars one, at challenge `c`. -/
def smallProofV2 (c : ℚ) : ChaumProofV2 ℚ ℚ :=
  ⟨[3, 3], [3, 3], [1 + c, 1 + c], [1 + c, 1 + c], [1 + c, 1 + c]⟩

theorem proveV2_complete_and_sound_two :
    (∃ proof, smallChaum.proveV2 (fun _ => (1 : ℚ)) ⟨fun _ => 1, fun _ => 1, fun _ => 1⟩ 0 {}
        [1, 1] [1, 1] [1, 1] [3, 3] [2, 2] = .ok proof ∧
      smallChaum.verifyV2 (fun _ => (1 : ℚ)) 0 {} [3, 3] [2, 2] proof = true) ∧
    smallChaum.Opens (extract (1 : ℚ) 2 2 3) (extract (1 : ℚ) 2 2 3) (extract (1 : ℚ) 2 2 3) 3 2 :=
      by
  obtain ⟨hcomplete, hsound⟩ := smallChaum.proveV2_complete_and_sound (fun _ => (1 : ℚ))
    [3, 3] [2, 2]
  constructor
  · have hst : smallChaum.StatementV2 [(1 : ℚ), 1] [1, 1] [1, 1] [3, 3] [2, 2] :=
      ⟨by decide, by decide, rfl, rfl, rfl, rfl, by decide, by decide, by decide +kernel⟩
    exact hcomplete _ 0 _ _ _ _ hst one_ne_zero (by decide +kernel) (by decide +kernel)
  · have hfirst : smallChaum.verifyV2 (fun _ => 1) 0 {} [3, 3] [2, 2] (smallProofV2 1) =
        true := by decide +kernel
    have hsecond : smallChaum.verifyV2 (fun _ => 2) 0 {} [3, 3] [2, 2] (smallProofV2 2) =
        true := by decide +kernel
    have hopens := hsound (fun _ => 2) 0 0 _ _ _ _ hfirst hsecond rfl rfl 1 2 rfl rfl
      (by decide) 0 (by decide)
    have hone : (1 : ℚ) + 1 = 2 := by norm_num
    have htwo : (1 : ℚ) + 2 = 3 := by norm_num
    simpa only [smallProofV2, List.getD_cons_zero, hone, htwo] using hopens

end Firo.LibSpark.Chaum
