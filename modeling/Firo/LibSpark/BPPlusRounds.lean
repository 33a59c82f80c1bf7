import Firo.Lib.Folding
import Firo.LibSpark.BPPlus

/-! What the vectors of the prover commit to is changed by a round only by the elements that the
round publishes, each with the square of its challenge. After all rounds the generators are
combinations of the first ones whose coefficients the bits of the index select. -/
namespace Firo.LibSpark

open Finset Firo.Lib

variable {F P : Type} [Field F] [AddCommGroup P] [Module F P] (bp : BPPlus P)
  (hash : Transcript F P → F)

lemma yPower_eq {y : F} {i : ℕ} (hi : i ≠ 0) : yPower y i = y ^ i :=
  if_neg hi

def RoundState.commitment (y : F) (n : ℕ) (st : RoundState F P) : P :=
  combine n (st.a1.getD · 0) (st.Gi1.getD · 0) + combine n (st.b1.getD · 0) (st.Hi1.getD · 0) +
    combine n (st.a1.getD · 0) (fun i => y ^ (i + 1) * st.b1.getD i 0) • bp.G +
    st.alpha1 • bp.H

section

variable {y : F} (d : F) {N1 : ℕ} (st : RoundState F P)

lemma roundL_eq (hN1 : N1 ≠ 0) : roundL bp y d N1 st =
    y⁻¹ ^ N1 • combine N1 (st.a1.getD · 0) (fun i => st.Gi1.getD (i + N1) 0) +
      combine N1 (fun i => st.b1.getD (i + N1) 0) (st.Hi1.getD · 0) +
      combine N1 (st.a1.getD · 0) (fun i => y ^ (i + 1) * st.b1.getD (i + N1) 0) • bp.G +
      d • bp.H := by
  have hc : ((List.range N1).map fun i =>
      st.a1.getD i 0 * yPower y (i + 1) * st.b1.getD (i + N1) 0).sum =
      combine N1 (st.a1.getD · 0) (fun i => y ^ (i + 1) * st.b1.getD (i + N1) 0) := by
    change ∑ i ∈ range N1, _ = ∑ i ∈ range N1, _
    apply sum_congr rfl
    intro i _
    rw [yPower_eq (by omega), smul_eq_mul, mul_assoc]
  have hscale : ∑ i ∈ range N1, (st.a1.getD i 0 * (yPower y N1)⁻¹) • st.Gi1.getD (i + N1) 0 =
      y⁻¹ ^ N1 • combine N1 (st.a1.getD · 0) (fun i => st.Gi1.getD (i + N1) 0) := by
    rw [combine, smul_sum, yPower_eq hN1, inv_pow]
    apply sum_congr rfl
    intro i _
    rw [smul_smul, mul_comm]
  rw [roundL, multiExponent_append (by simp), multiExponent_interleave, hc, hscale]
  simp only [multiExponent_cons, multiExponent_nil, add_zero]
  exact (add_assoc _ _ _).symm

lemma roundR_eq (hN1 : N1 ≠ 0) : roundR bp y d N1 st =
    y ^ N1 • combine N1 (fun i => st.a1.getD (i + N1) 0) (st.Gi1.getD · 0) +
      combine N1 (st.b1.getD · 0) (fun i => st.Hi1.getD (i + N1) 0) +
      (y ^ N1 * combine N1 (fun i => st.a1.getD (i + N1) 0)
        (fun i => y ^ (i + 1) * st.b1.getD i 0)) • bp.G +
      d • bp.H := by
  have hc : ((List.range N1).map fun i =>
      st.a1.getD (i + N1) 0 * yPower y N1 * yPower y (i + 1) * st.b1.getD i 0).sum =
      y ^ N1 * combine N1 (fun i => st.a1.getD (i + N1) 0)
        (fun i => y ^ (i + 1) * st.b1.getD i 0) := by
    rw [combine, mul_sum]
    change ∑ i ∈ range N1, _ = _
    apply sum_congr rfl
    intro i _
    rw [yPower_eq hN1, yPower_eq (by omega), smul_eq_mul]
    ring
  have hscale : ∑ i ∈ range N1, (st.a1.getD (i + N1) 0 * yPower y N1) • st.Gi1.getD i 0 =
      y ^ N1 • combine N1 (fun i => st.a1.getD (i + N1) 0) (st.Gi1.getD · 0) := by
    rw [combine, smul_sum, yPower_eq hN1]
    apply sum_congr rfl
    intro i _
    rw [smul_smul, mul_comm]
  rw [roundR, multiExponent_append (by simp), multiExponent_interleave, hc, hscale]
  simp only [multiExponent_cons, multiExponent_nil, add_zero]
  exact (add_assoc _ _ _).symm

end

section

variable (y dL dR e : F) {N1 : ℕ} (L R : P) (t : Transcript F P) (st : RoundState F P)

lemma getD_map_range {α} (f) (d : α) {n i : ℕ} (hi : i < n) :
    ((List.range n).map f).getD i d = f i := by
  simp [hi]

lemma compress_Gi1 (hN1 : N1 ≠ 0) {i : ℕ} (hi : i < N1) :
    (compress y dL dR e N1 L R t st).Gi1.getD i 0 =
      foldPair e⁻¹ (e * (y⁻¹) ^ N1) N1 (st.Gi1.getD · 0) i := by
  rw [compress, getD_map_range _ _ hi, foldPair, yPower_eq hN1, inv_pow]

lemma compress_Hi1 {i : ℕ} (hi : i < N1) : (compress y dL dR e N1 L R t st).Hi1.getD i 0 =
      foldPair e e⁻¹ N1 (st.Hi1.getD · 0) i := by
  rw [compress, getD_map_range _ _ hi, foldPair]

lemma compress_a1 (hN1 : N1 ≠ 0) {i : ℕ} (hi : i < N1) :
    (compress y dL dR e N1 L R t st).a1.getD i 0 =
      foldPair e (y ^ N1 * e⁻¹) N1 (st.a1.getD · 0) i := by
  rw [compress, getD_map_range _ _ hi, foldPair, yPower_eq hN1, smul_eq_mul, smul_eq_mul]
  ring

lemma compress_b1 {i : ℕ} (hi : i < N1) :
    (compress y dL dR e N1 L R t st).b1.getD i 0 = foldPair e⁻¹ e N1 (st.b1.getD · 0) i := by
  rw [compress, getD_map_range _ _ hi, foldPair, smul_eq_mul, smul_eq_mul]
  ring

lemma commitment_compress (hy : y ≠ 0) (he : e ≠ 0) (hN1 : N1 ≠ 0) :
    (compress y dL dR e N1 (roundL bp y dL N1 st) (roundR bp y dR N1 st) t st).commitment bp y N1 =
      st.commitment bp y (N1 + N1) + e ^ 2 • roundL bp y dL N1 st +
        e⁻¹ ^ 2 • roundR bp y dR N1 st := by
  have hyN : y ^ N1 * y⁻¹ ^ N1 = 1 := by
    rw [← mul_pow, mul_inv_cancel₀ hy, one_pow]
  have hee : e * e⁻¹ = 1 := mul_inv_cancel₀ he
  have hcross : y ^ N1 * e⁻¹ * (e * y⁻¹ ^ N1) = 1 := by
    linear_combination (e * e⁻¹) * hyN + hee
  set st' := compress y dL dR e N1 (roundL bp y dL N1 st) (roundR bp y dR N1 st) t st
  have hG : combine N1 (st'.a1.getD · 0) (st'.Gi1.getD · 0) = _ :=
    (combine_congr (fun i hi => compress_a1 y dL dR e _ _ t st hN1 hi)
      (fun i hi => compress_Gi1 y dL dR e _ _ t st hN1 hi)).trans
      (combine_foldPair hee hcross N1 _ _)
  have hH : combine N1 (st'.b1.getD · 0) (st'.Hi1.getD · 0) = _ :=
    (combine_congr (fun i hi => compress_b1 y dL dR e _ _ t st hi)
      (fun i hi => compress_Hi1 y dL dR e _ _ t st hi)).trans
      (combine_foldPair (mul_comm e e⁻¹ ▸ hee) hee N1 _ _)
  -- with its powers of `y` the vector `b1` folds like the generators `Gi1`
  have hb : ∀ i < N1, y ^ (i + 1) * st'.b1.getD i 0 =
      foldPair e⁻¹ (e * y⁻¹ ^ N1) N1 (fun i => y ^ (i + 1) * st.b1.getD i 0) i := by
    intro i hi
    rw [compress_b1 y dL dR e _ _ t st hi]
    simp only [foldPair, smul_eq_mul]
    linear_combination (-y ^ (i + 1) * e * st.b1.getD (i + N1) 0) * hyN
  have hc : combine N1 (st'.a1.getD · 0) (fun i => y ^ (i + 1) * st'.b1.getD i 0) = _ :=
    (combine_congr (fun i hi => compress_a1 y dL dR e _ _ t st hN1 hi) hb).trans
      (combine_foldPair hee hcross N1 _ _)
  rw [RoundState.commitment, hG, hH, hc, roundL_eq bp dL st hN1, roundR_eq bp dR st hN1,
    RoundState.commitment, show st'.alpha1 = dL * e ^ 2 + st.alpha1 + dR * e⁻¹ ^ 2 from rfl]
  -- the cross term of `b1` has the power of `y` of the upper half
  have hshift : y⁻¹ ^ N1 * combine N1 (st.a1.getD · 0)
      (fun i => y ^ (i + N1 + 1) * st.b1.getD (i + N1) 0) =
      combine N1 (st.a1.getD · 0) (fun i => y ^ (i + 1) * st.b1.getD (i + N1) 0) := by
    rw [combine, combine, mul_sum]
    apply sum_congr rfl
    intro i _
    simp only [smul_eq_mul]
    linear_combination (st.a1.getD i 0 * y ^ (i + 1) * st.b1.getD (i + N1) 0) * hyN
  simp only [smul_eq_mul, ← hshift]
  module

end

def roundSum (es : List F) (Ls Rs : List P) : P :=
  ∑ j ∈ range es.length, (es.getD j 0 ^ 2 • Ls.getD j 0 + (es.getD j 0)⁻¹ ^ 2 • Rs.getD j 0)

lemma roundSum_cons (e : F) (es) (L R : P) (Ls Rs) : roundSum (e :: es) (L :: Ls) (R :: Rs) =
      e ^ 2 • L + e⁻¹ ^ 2 • R + roundSum es Ls Rs := by
  rw [roundSum, List.length_cons, sum_range_succ', add_comm]
  rfl

/-- The rounds with the challenges `es` lead from the first state to the second. -/
structure RoundsDone (y : F) (es : List F) (Ls Rs : List P) (st st' : RoundState F P) :
    Prop where
  commitment : st'.commitment bp y 1 = st.commitment bp y (2 ^ es.length) + roundSum es Ls Rs
  Gi1 : st'.Gi1.getD 0 0 = combine (2 ^ es.length) (bitProduct (·⁻¹) id es)
    (fun i => y⁻¹ ^ i • st.Gi1.getD i 0)
  Hi1 : st'.Hi1.getD 0 0 = combine (2 ^ es.length) (bitProduct id (·⁻¹) es) (st.Hi1.getD · 0)

lemma RoundsDone.refl (y : F) (st) : RoundsDone bp y [] [] [] st st where
  commitment := by simp [roundSum]
  Gi1 := by simp [combine, bitProduct]
  Hi1 := by simp [combine, bitProduct]

variable {bp} in
lemma RoundsDone.cons {y e : F} {es} {Ls Rs} {st st'}
    {dL dR : F} {t} (hy : y ≠ 0) (he : e ≠ 0)
    (h : RoundsDone bp y es Ls Rs (compress y dL dR e (2 ^ es.length)
      (roundL bp y dL (2 ^ es.length) st) (roundR bp y dR (2 ^ es.length) st) t st) st') :
    RoundsDone bp y (e :: es) (roundL bp y dL (2 ^ es.length) st :: Ls)
      (roundR bp y dR (2 ^ es.length) st :: Rs) st st' := by
  have hpos : 2 ^ es.length ≠ 0 := by positivity
  constructor
  · rw [h.commitment, commitment_compress bp y dL dR e t st hy he hpos, roundSum_cons,
      List.length_cons, pow_succ 2, Nat.mul_two]
    abel
  · rw [h.Gi1, ← combine_bitProduct_foldPair]
    apply combine_congr (fun _ _ => rfl)
    intro i hi
    rw [compress_Gi1 y dL dR e _ _ t st hpos hi]
    exact (foldPair_pow_smul e⁻¹ e y⁻¹ _ _ i).symm
  · rw [h.Hi1, ← combine_bitProduct_foldPair]
    apply combine_congr (fun _ _ => rfl)
    intro i hi
    exact compress_Hi1 y dL dR e _ _ t st hi

variable [DecidableEq F]

/-- The loop of the prover: `k` rounds for vectors of length `2 ^ k`. The verifier finds the
challenges of the prover. -/
lemma proverRounds_spec (rand) (y : F) {k fuel : ℕ} (hfuel : k ≤ fuel)
    (st) : ∃ Ls Rs, Ls.length = k ∧ Rs.length = k ∧
      (proverRounds bp hash rand y fuel (2 ^ k) st).L = st.L ++ Ls ∧
      (proverRounds bp hash rand y fuel (2 ^ k) st).R = st.R ++ Rs ∧
      ∀ es t, roundChallenges hash st.transcript Ls Rs = some (es, t) →
        es.length = k ∧ (proverRounds bp hash rand y fuel (2 ^ k) st).transcript = t ∧
        (y ≠ 0 → RoundsDone bp y es Ls Rs st (proverRounds bp hash rand y fuel (2 ^ k) st)) := by
  induction k generalizing fuel st with
  | zero =>
    have hrun : proverRounds bp hash rand y fuel (2 ^ 0) st = st := by
      cases fuel <;> rfl
    rw [hrun]
    refine ⟨[], [], rfl, rfl, by simp, by simp, ?_⟩
    intro es t hes
    cases hes
    exact ⟨rfl, rfl, fun _ => RoundsDone.refl bp y st⟩
  | succ k ih =>
    obtain ⟨fuel, rfl⟩ : ∃ f, fuel = f + 1 := ⟨fuel - 1, by omega⟩
    have hrun : proverRounds bp hash rand y (fuel + 1) (2 ^ (k + 1)) st =
        proverRounds bp hash rand y fuel (2 ^ k) (proverRound bp hash rand y (2 ^ k) st) := by
      have hlt : 1 < 2 ^ (k + 1) := Nat.one_lt_two_pow (by omega)
      rw [proverRounds, if_pos hlt, pow_succ, Nat.mul_div_cancel _ (by omega)]
    rw [hrun]
    obtain ⟨Ls, Rs, hLs, hRs, hL, hR, hspec⟩ :=
      ih (Nat.le_of_succ_le_succ hfuel) (proverRound bp hash rand y (2 ^ k) st)
    refine ⟨roundL bp y (rand.dL st.L.length) (2 ^ k) st :: Ls,
      roundR bp y (rand.dR st.L.length) (2 ^ k) st :: Rs, congrArg (· + 1) hLs,
        congrArg (· + 1) hRs, ?_, ?_, ?_⟩
    · rw [hL]
      exact List.append_assoc _ _ _
    · rw [hR]
      exact List.append_assoc _ _ _
    · intro es t hes
      rw [roundChallenges] at hes
      split at hes
      · cases hes
      rename_i he
      obtain ⟨⟨es', t'⟩, hes', heq⟩ := Option.map_eq_some_iff.mp hes
      cases heq
      obtain ⟨rfl, htranscript, hdone⟩ := hspec es' t' hes'
      exact ⟨rfl, htranscript, fun hy => RoundsDone.cons hy he (hdone hy)⟩

end Firo.LibSpark
