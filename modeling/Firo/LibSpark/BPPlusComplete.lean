import Firo.LibSpark.BPPlusBatch
import Firo.LibSpark.BPPlusRounds

/-! A proof made for values in range satisfies the equation of the verifier, so it is accepted alone
and in every batch. -/
namespace Firo.LibSpark

open Finset Firo.Lib BPPlus
open List hiding mem_range prod_range_succ range smul_sum sum_range_succ sum_smul

lemma isNonzeroPowerOf2_iff {n : ℕ} : isNonzeroPowerOf2 n = true ↔ ∃ k, n = 2 ^ k := by
  rw [isNonzeroPowerOf2, Bool.and_eq_true, decide_eq_true_eq, beq_iff_eq]
  constructor
  · rintro ⟨hpos, hand⟩
    exact (Nat.and_sub_one_eq_zero_iff_isPowerOfTwo (by omega)).mp hand
  · rintro ⟨k, rfl⟩
    exact ⟨by positivity, (Nat.and_sub_one_eq_zero_iff_isPowerOfTwo (by positivity)).mpr ⟨k, rfl⟩⟩

lemma paddedM_eq_two_pow (n : ℕ) : ∃ m, paddedM n = 2 ^ m := by
  rw [paddedM]
  split
  · exact isNonzeroPowerOf2_iff.mp ‹_›
  · exact ⟨_, Nat.one_shiftLeft _⟩

lemma sum_range_rows {M : Type*} [AddCommMonoid M] (f : ℕ → M) (n m : ℕ) :
    ∑ i ∈ range (n * m), f i = ∑ j ∈ range m, ∑ i ∈ range n, f (j * n + i) := by
  induction m with
  | zero => simp
  | succ m ih => rw [Nat.mul_succ, sum_range_add, ih, sum_range_succ, Nat.mul_comm]

section

variable {F : Type} [Field F]

lemma indexScalars_eq (e : List F) (i : ℕ) (g h : F) : indexScalars e e.length i g h =
      (g * bitProduct (·⁻¹) id e i, h * bitProduct id (·⁻¹) e i) := by
  have hprefix : ∀ n, (List.range n).foldl (fun gh j =>
      let ej := e.getD (e.length - j - 1) 0
      if i.testBit j then (gh.1 * ej, gh.2 * ej⁻¹) else (gh.1 * ej⁻¹, gh.2 * ej)) (g, h) =
      (g * ∏ j ∈ range n, (if i.testBit j then e.getD (e.length - j - 1) 0
        else (e.getD (e.length - j - 1) 0)⁻¹),
       h * ∏ j ∈ range n, (if i.testBit j then (e.getD (e.length - j - 1) 0)⁻¹
        else e.getD (e.length - j - 1) 0)) := by
    intro n
    induction n with
    | zero => simp
    | succ n ih =>
      rw [range_succ, foldl_append, ih, prod_range_succ, prod_range_succ]
      simp only [foldl_cons, List.foldl_nil]
      split <;> simp only [mul_assoc]
  exact hprefix e.length

lemma yNM_eq (rounds : ℕ) (y : F) : yNM rounds y = y ^ 2 ^ rounds := by
  rw [yNM, pow_iterate]

lemma sumY_eq (n : ℕ) (y : F) : sumY n y = ∑ i ∈ range n, y ^ (i + 1) := by
  have hstate : ∀ n, (List.range n).foldl (fun st _ => (st.1 + st.2, st.2 * y))
      ((0 : F), y) = (∑ i ∈ range n, y ^ (i + 1), y ^ (n + 1)) := by
    intro n
    induction n with
    | zero => simp
    | succ n ih =>
      rw [range_succ, foldl_append, ih, sum_range_succ, pow_succ y (n + 1)]
      rfl
  exact congrArg Prod.fst (hstate n)

lemma dVector_double (zSquare : F) (N M : ℕ) :
    dVector (fun t => t + t) zSquare N M = dVector (2 * ·) zSquare N M := by
  simp only [two_mul]

lemma getD_dVector (zSquare : F) {N M j i : ℕ} (hj : j < M) (hi : i < N) :
    (dVector (2 * ·) zSquare N M).getD (j * N + i) 0 = zSquare ^ (j + 1) * 2 ^ i := by
  rw [dVector, getD_rows _ _ hj hi, mul_right_iterate, mul_left_iterate]
  ring

lemma twoNMinusOne_eq (n : ℕ) : (twoNMinusOne (2 ^ n) : F) = ∑ i ∈ range (2 ^ n), 2 ^ i := by
  have hsquare : (fun t : F => t * t)^[n] 2 = 2 ^ 2 ^ n := by
    rw [show (fun t : F => t * t) = (· ^ 2) from funext fun t => (sq t).symm, pow_iterate]
  have hgeom := mul_geom_sum (2 : F) (2 ^ n)
  rw [twoNMinusOne, log2, Nat.log2_two_pow, hsquare, ← hgeom]
  ring

lemma sumDLoop_eq (m fuel : ℕ) (hfuel : m ≤ fuel) (s t : F) :
    sumDLoop fuel (2 * 2 ^ m) s t = s * ∑ j ∈ range (2 ^ m), t ^ j := by
  induction m generalizing fuel s t with
  | zero =>
    cases fuel with
    | zero => simp [sumDLoop]
    | succ fuel => simp [sumDLoop]
  | succ m ih =>
    obtain ⟨fuel, rfl⟩ : ∃ f, fuel = f + 1 := ⟨fuel - 1, by omega⟩
    have hlt : 2 < 2 * 2 ^ (m + 1) := by
      have := Nat.one_lt_two_pow (show m + 1 ≠ 0 by omega)
      omega
    rw [sumDLoop, if_pos hlt, Nat.mul_div_cancel_left _ (by omega), pow_succ' 2 m,
      ih fuel (by omega), geom_sum_double]
    ring

lemma sumD_eq (n m : ℕ) (zSquare : F) : sumD (2 ^ n) (2 ^ m) zSquare =
      ∑ i ∈ range (2 ^ n * 2 ^ m), (dVector (2 * ·) zSquare (2 ^ n) (2 ^ m)).getD i 0 := by
  have hfuel : m ≤ 2 * 2 ^ m := by
    have := Nat.lt_two_pow_self (n := m)
    omega
  have hz : zSquare * ∑ j ∈ range (2 ^ m), zSquare ^ j =
      ∑ j ∈ range (2 ^ m), zSquare ^ (j + 1) := by
    simp only [mul_sum, pow_succ']
  rw [sumD, sumDLoop_eq m _ hfuel, twoNMinusOne_eq, sum_range_rows, hz, sum_mul_sum]
  apply sum_congr rfl
  intro j hj
  apply sum_congr rfl
  intro i hi
  rw [getD_dVector _ (mem_range.mp hj) (mem_range.mp hi)]

lemma combine_first {NM : ℕ} (y z : F) (aL d : ℕ → F) (hbit : ∀ i < NM, aL i * (aL i - 1) = 0) :
    combine NM (fun i => aL i - z) (fun i => y ^ (i + 1) * (aL i - 1 + d i * y ^ (NM - i) + z)) =
      y ^ (NM + 1) * ∑ i ∈ range NM, aL i * d i - (y ^ (NM + 1) * z * ∑ i ∈ range NM, d i +
          (z ^ 2 - z) * ∑ i ∈ range NM, y ^ (i + 1)) := by
  rw [mul_sum, mul_sum, mul_sum, ← sum_add_distrib, ← sum_sub_distrib, combine]
  apply sum_congr rfl
  intro i hi
  rw [mem_range] at hi
  have hpow : y ^ (i + 1) * y ^ (NM - i) = y ^ (NM + 1) := by
    rw [← pow_add]
    congr 1
    omega
  rw [smul_eq_mul]
  linear_combination y ^ (i + 1) * hbit i hi + (aL i - z) * d i * hpow

end

section

variable {F P : Type} [Field F] [AddCommGroup P] [Module F P] (bp : BPPlus P)

lemma commitBits_eq (alpha : F) (aL aR : List F) (NM : ℕ) :
    commitBits bp alpha aL aR NM = alpha • bp.H +
      (combine NM (aL.getD · 0) (bp.Gi.getD · 0) + combine NM (aR.getD · 0) (bp.Hi.getD · 0)) := by
  rw [commitBits, multiExponent_cons, multiExponent_interleave]
  rfl

omit [AddCommGroup P] [Module F P] in
lemma firstRound_alpha1 (rand) (r aL aR : List F) (M : ℕ) (y z : F) (t) :
    (firstRound bp rand r aL aR M y z t).alpha1 =
      rand.alpha + y ^ (bp.N * M + 1) * ∑ j ∈ range M, (z ^ 2) ^ (j + 1) * r.getD j 0 := by
  have hstate : ∀ n, (List.range n).foldl (fun st j =>
      (st.1 + st.2 * z ^ 2 * r.getD j 0 * yPower y (bp.N * M + 1), st.2 * z ^ 2)) (rand.alpha, 1) =
      (rand.alpha + y ^ (bp.N * M + 1) * ∑ j ∈ range n, (z ^ 2) ^ (j + 1) * r.getD j 0,
        (z ^ 2) ^ n) := by
    intro n
    have hpower : yPower y (bp.N * M + 1) = y ^ (bp.N * M + 1) := yPower_eq (by omega)
    induction n with
    | zero => simp
    | succ n ih =>
      rw [range_succ, foldl_append, ih, sum_range_succ]
      simp only [foldl_cons, List.foldl_nil, Prod.mk.injEq, hpower]
      constructor <;> ring
  exact congrArg Prod.fst (hstate M)

lemma firstRound_commitment (rand) (r aL aR : List F) (M : ℕ) (y z : F)
    (t) (hR : ∀ i < bp.N * M, aR.getD i 0 = aL.getD i 0 - 1) :
    (firstRound bp rand r aL aR M y z t).commitment bp y (bp.N * M) =
      combine (bp.N * M) (fun i => aL.getD i 0 - z) (bp.Gi.getD · 0) +
        combine (bp.N * M) (fun i => aL.getD i 0 - 1 +
          (dVector (2 * ·) (z ^ 2) bp.N M).getD i 0 * y ^ (bp.N * M - i) + z)
          (bp.Hi.getD · 0) +
        combine (bp.N * M) (fun i => aL.getD i 0 - z) (fun i => y ^ (i + 1) * (aL.getD i 0 - 1 +
            (dVector (2 * ·) (z ^ 2) bp.N M).getD i 0 * y ^ (bp.N * M - i) + z)) • bp.G +
        (rand.alpha + y ^ (bp.N * M + 1) *
          ∑ j ∈ range M, (z ^ 2) ^ (j + 1) * r.getD j 0) • bp.H := by
  have ha : ∀ i < bp.N * M, (firstRound bp rand r aL aR M y z t).a1.getD i 0 = aL.getD i 0 - z := by
    intro i hi
    rw [firstRound, getD_map_range _ _ hi]
  have hb : ∀ i < bp.N * M, (firstRound bp rand r aL aR M y z t).b1.getD i 0 =
      aL.getD i 0 - 1 + (dVector (2 * ·) (z ^ 2) bp.N M).getD i 0 * y ^ (bp.N * M - i) + z := by
    intro i hi
    rw [firstRound, getD_map_range _ _ hi, hR i hi, yPower_eq (by omega)]
  rw [RoundState.commitment, firstRound_alpha1, combine_congr ha (fun _ _ => rfl),
    combine_congr hb (fun _ _ => rfl),
    combine_congr ha (fun i hi => congrArg (y ^ (i + 1) * ·) (hb i hi))]
  rfl

lemma generatorTerms_eq (M : ℕ) (proof : BPPlusProof F P) (ch : BPPlusChallenges F)
    (hy : ch.y ≠ 0) (he : ch.e.length = proof.L.length) (hNM : bp.N * M = 2 ^ proof.L.length) :
    bp.generatorTerms M proof ch =
      (proof.r1 * ch.e1) • combine (2 ^ ch.e.length) (bitProduct (·⁻¹) id ch.e)
        (fun i => ch.y⁻¹ ^ i • bp.Gi.getD i 0) +
      (proof.s1 * ch.e1) • combine (2 ^ ch.e.length) (bitProduct id (·⁻¹) ch.e) (bp.Hi.getD · 0) +
      ch.e1 ^ 2 • (combine (bp.N * M) (fun _ => ch.z) (bp.Gi.getD · 0) -
        combine (bp.N * M) (fun i => (dVector (2 * ·) (ch.z ^ 2) bp.N M).getD i 0 *
          ch.y ^ (bp.N * M - i) + ch.z) (bp.Hi.getD · 0)) := by
  rw [generatorTerms, he, ← hNM]
  simp only [combine, smul_sum, ← sum_add_distrib, ← sum_sub_distrib]
  apply sum_congr rfl
  intro i hi
  rw [mem_range] at hi
  have hpow : ch.y ^ (bp.N * M - i) = ch.y ^ (bp.N * M) * ch.y⁻¹ ^ i := by
    rw [pow_sub₀ ch.y hy hi.le, inv_pow]
  rw [gScalarAt, hScalarAt, ← he, indexScalars_eq, dVector_double, yNM_eq, he, ← hNM, hpow]
  module

def statementTerms (z : F) (unpaddedC : List P) : P :=
  ∑ j ∈ range (paddedM unpaddedC.length), (z ^ 2) ^ (j + 1) • (BPPlus.paddedC unpaddedC).getD j 0

lemma commitmentTerms_eq (unpaddedC : List P) (proof : BPPlusProof F P) (ch : BPPlusChallenges F) :
    commitmentTerms unpaddedC proof ch =
      -(ch.e1 ^ 2 * ch.y ^ (2 ^ proof.L.length + 1)) • statementTerms ch.z unpaddedC := by
  rw [commitmentTerms, statementTerms, smul_sum]
  apply sum_congr rfl
  intro j _
  rw [smul_smul, yNM_eq]
  congr 1
  ring

variable {ch : BPPlusChallenges F}

lemma roundTerms_eq {proof : BPPlusProof F P} (he : ch.e.length = proof.L.length) :
    roundTerms proof ch = -(ch.e1 ^ 2) • roundSum ch.e proof.L proof.R := by
  rw [roundTerms, roundSum, smul_sum, he]
  apply sum_congr rfl
  intro j _
  module

/-- The vectors of the first round commit to what the verifier computes from `A` and the
commitments of the statement. -/
def FirstEquation (M : ℕ) (y z : F) (A : P) (unpaddedC : List P) (st : RoundState F P) : Prop :=
  st.commitment bp y (bp.N * M) = A - combine (bp.N * M) (fun _ => z) (bp.Gi.getD · 0) +
    combine (bp.N * M) (fun i => (dVector (fun t => t + t) (z ^ 2) bp.N M).getD i 0 *
      y ^ (bp.N * M - i) + z) (bp.Hi.getD · 0) +
    y ^ (bp.N * M + 1) • statementTerms z unpaddedC -
    (y ^ (bp.N * M + 1) * z * sumD bp.N M (z ^ 2) + (z ^ 2 - z) * sumY (bp.N * M) y) • bp.G

variable (hash : Transcript F P → F) (rand : BPPlusRandom F) {unpaddedC : List P}

lemma equation_finishProof {A : P} (st : RoundState F P) {st' : RoundState F P}
    (hNM : bp.N * paddedM unpaddedC.length = 2 ^ ch.e.length) (hy : ch.y ≠ 0)
    (he : ch.e.length = st'.L.length)
    (he1 : ch.e1 = lastChallenge hash st'.transcript (finishProof bp hash rand A ch.y st').A1
      (finishProof bp hash rand A ch.y st').B)
    (hGi : st.Gi1 = bp.Gi) (hHi : st.Hi1 = bp.Hi)
    (hfirst : FirstEquation bp (paddedM unpaddedC.length) ch.y ch.z A unpaddedC st)
    (hdone : RoundsDone bp ch.y ch.e st'.L st'.R st st') :
    bp.equation unpaddedC (finishProof bp hash rand A ch.y st') ch = 0 := by
  rw [FirstEquation, dVector_double] at hfirst
  have hlast : st'.commitment bp ch.y 1 =
      st'.a1.getD 0 0 • st'.Gi1.getD 0 0 + st'.b1.getD 0 0 • st'.Hi1.getD 0 0 +
        (st'.a1.getD 0 0 * (ch.y * st'.b1.getD 0 0)) • bp.G + st'.alpha1 • bp.H := by
    simp [RoundState.commitment, combine]
  have hrounds : roundSum ch.e st'.L st'.R = st'.commitment bp ch.y 1 -
      st.commitment bp ch.y (bp.N * paddedM unpaddedC.length) := by
    rw [hdone.commitment, hNM]
    abel
  set proof := finishProof bp hash rand A ch.y st' with hproof
  have hL : proof.L.length = ch.e.length := he.symm
  have hgenerators := generatorTerms_eq bp (paddedM unpaddedC.length) proof ch hy hL.symm (hL ▸ hNM)
  rw [← hGi, ← hdone.Gi1, ← hHi, ← hdone.Hi1, hGi, hHi] at hgenerators
  rw [equation, hgenerators, commitmentTerms_eq, roundTerms_eq hL.symm, gTerm,
    show roundSum ch.e proof.L proof.R = roundSum ch.e st'.L st'.R from rfl, hrounds, hlast,
    hfirst, yNM_eq, hL, ← hNM,
    show proof.A1 = rand.r • st'.Gi1.getD 0 0 + rand.s • st'.Hi1.getD 0 0 +
      (rand.r * ch.y * st'.b1.getD 0 0 + rand.s * ch.y * st'.a1.getD 0 0) • bp.G +
        rand.d • bp.H from rfl,
    show proof.B = (rand.r * ch.y * rand.s) • bp.G + rand.eta • bp.H from rfl,
    show proof.A = A from rfl,
    show proof.r1 = rand.r + st'.a1.getD 0 0 * ch.e1 by rw [he1]; rfl,
    show proof.s1 = rand.s + st'.b1.getD 0 0 * ch.e1 by rw [he1]; rfl,
    show proof.d1 = rand.eta + rand.d * ch.e1 + st'.alpha1 * ch.e1 ^ 2 by rw [he1]; rfl]
  module

variable [DecidableEq F]

omit [AddCommGroup P] [Module F P] in
lemma BPPlus.of_challenges {proof} (h : bp.challenges hash unpaddedC proof = some ch) :
    let y := ((bp.statement unpaddedC).add "A" (.point proof.A)).challenge hash "y"
    let z := y.2.challenge hash "z"
    ch.y = y.1 ∧ ch.y ≠ 0 ∧ ch.z = z.1 ∧ ∃ t,
      roundChallenges hash z.2 proof.L proof.R = some (ch.e, t) ∧
        ch.e1 = lastChallenge hash t proof.A1 proof.B := by
  intro y z
  rw [challenges] at h
  dsimp only at h
  split at h
  · cases h
  rename_i hy
  split at h
  · cases h
  obtain ⟨⟨e, t⟩, he, h⟩ := Option.bind_eq_some_iff.mp h
  dsimp only at h
  split at h
  · cases h
  cases h
  exact ⟨rfl, hy, rfl, t, he, rfl⟩

/-- The bit vectors of a statement with `2 ^ m` padded values of `2 ^ n` bits. -/
structure BitsOk (r aL aR : List F) (v : ℕ → F) (n m : ℕ) (unpaddedC : List P) : Prop where
  bitLength : bp.N = 2 ^ n
  padded : paddedM unpaddedC.length = 2 ^ m
  aR_eq : ∀ i < bp.N * 2 ^ m, aR.getD i 0 = aL.getD i 0 - 1
  bit : ∀ i < bp.N * 2 ^ m, aL.getD i 0 * (aL.getD i 0 - 1) = 0
  value : ∀ j < 2 ^ m, ∑ i ∈ range bp.N, aL.getD (j * bp.N + i) 0 * 2 ^ i = v j
  opens : ∀ j < 2 ^ m, (BPPlus.paddedC unpaddedC).getD j 0 = v j • bp.G + r.getD j 0 • bp.H

variable {bp} {r aL aR : List F} {v : ℕ → F} {n m : ℕ}

section

omit [DecidableEq F]

lemma BitsOk.sum_mul_d (h : BitsOk bp r aL aR v n m unpaddedC) (z : F) :
    ∑ i ∈ range (bp.N * 2 ^ m), aL.getD i 0 * (dVector (2 * ·) (z ^ 2) bp.N (2 ^ m)).getD i 0 =
      ∑ j ∈ range (2 ^ m), (z ^ 2) ^ (j + 1) * v j := by
  rw [sum_range_rows]
  apply sum_congr rfl
  intro j hj
  rw [mem_range] at hj
  rw [← h.value j hj, mul_sum]
  apply sum_congr rfl
  intro i hi
  rw [getD_dVector _ hj (mem_range.mp hi)]
  ring

lemma BitsOk.statementTerms_eq (h : BitsOk bp r aL aR v n m unpaddedC) (z : F) :
    statementTerms z unpaddedC = (∑ j ∈ range (2 ^ m), (z ^ 2) ^ (j + 1) * v j) • bp.G +
      (∑ j ∈ range (2 ^ m), (z ^ 2) ^ (j + 1) * r.getD j 0) • bp.H := by
  rw [statementTerms, h.padded, sum_smul, sum_smul, ← sum_add_distrib]
  apply sum_congr rfl
  intro j hj
  rw [h.opens j (mem_range.mp hj)]
  module

lemma BitsOk.firstEquation (h : BitsOk bp r aL aR v n m unpaddedC) (y z : F) (t) :
    FirstEquation bp (2 ^ m) y z (commitBits bp rand.alpha aL aR (bp.N * 2 ^ m)) unpaddedC
      (firstRound bp rand r aL aR (2 ^ m) y z t) := by
  have hsumD : sumD bp.N (2 ^ m) (z ^ 2) = ∑ i ∈ range (bp.N * 2 ^ m),
      (dVector (2 * ·) (z ^ 2) bp.N (2 ^ m)).getD i 0 := by
    rw [h.bitLength, sumD_eq]
  have hG : combine (bp.N * 2 ^ m) (fun i => aL.getD i 0 - z) (bp.Gi.getD · 0) =
      combine (bp.N * 2 ^ m) (aL.getD · 0) (bp.Gi.getD · 0) -
        combine (bp.N * 2 ^ m) (fun _ => z) (bp.Gi.getD · 0) := by
    simp only [combine, sub_smul, sum_sub_distrib]
  have hH : combine (bp.N * 2 ^ m) (fun i => aL.getD i 0 - 1 +
      (dVector (2 * ·) (z ^ 2) bp.N (2 ^ m)).getD i 0 * y ^ (bp.N * 2 ^ m - i) + z)
        (bp.Hi.getD · 0) =
      combine (bp.N * 2 ^ m) (aR.getD · 0) (bp.Hi.getD · 0) +
        combine (bp.N * 2 ^ m) (fun i => (dVector (2 * ·) (z ^ 2) bp.N (2 ^ m)).getD i 0 *
          y ^ (bp.N * 2 ^ m - i) + z) (bp.Hi.getD · 0) := by
    simp only [combine, ← sum_add_distrib]
    apply sum_congr rfl
    intro i hi
    rw [h.aR_eq i (mem_range.mp hi)]
    module
  rw [FirstEquation, dVector_double, firstRound_commitment bp rand r aL aR _ y z t h.aR_eq, hG, hH,
    combine_first y z _ _ h.bit, h.sum_mul_d, commitBits_eq, h.statementTerms_eq, hsumD, sumY_eq]
  module

end

lemma BitsOk.equation_proveBits (h : BitsOk bp r aL aR v n m unpaddedC) :
    (proveBits bp hash rand unpaddedC r aL aR (2 ^ m)).L.length = n + m ∧
      (proveBits bp hash rand unpaddedC r aL aR (2 ^ m)).R.length = n + m ∧
      ∀ ch, bp.challenges hash unpaddedC (proveBits bp hash rand unpaddedC r aL aR (2 ^ m)) =
          some ch →
        bp.equation unpaddedC (proveBits bp hash rand unpaddedC r aL aR (2 ^ m)) ch = 0 := by
  have hNM : bp.N * 2 ^ m = 2 ^ (n + m) := by rw [h.bitLength, pow_add]
  have hfuel : n + m ≤ bp.N * 2 ^ m := hNM ▸ Nat.lt_two_pow_self.le
  set A := commitBits bp rand.alpha aL aR (bp.N * 2 ^ m) with hA
  set y := ((bp.statement unpaddedC).add "A" (.point A)).challenge hash "y" with hy
  set z := y.2.challenge hash "z" with hz
  set st := firstRound bp rand r aL aR (2 ^ m) y.1 z.1 z.2 with hst
  obtain ⟨Ls, Rs, hLs, hRs, hL, hR, hspec⟩ := proverRounds_spec bp hash rand y.1 hfuel st
  rw [← hNM] at hL hR hspec
  set st' := proverRounds bp hash rand y.1 (bp.N * 2 ^ m) (bp.N * 2 ^ m) st with hst'
  have hproof : proveBits bp hash rand unpaddedC r aL aR (2 ^ m) =
      finishProof bp hash rand A y.1 st' := rfl
  rw [hproof]
  have hL' : st'.L = Ls := hL
  have hR' : st'.R = Rs := hR
  refine ⟨(congrArg List.length hL').trans hLs, (congrArg List.length hR').trans hRs, ?_⟩
  intro ch hch
  obtain ⟨hchy, hy0, hchz, t, he, he1⟩ := bp.of_challenges hash hch
  have hchy' : ch.y = y.1 := hchy
  have hchz' : ch.z = z.1 := hchz
  rw [show (finishProof bp hash rand A y.1 st').L = Ls from hL',
    show (finishProof bp hash rand A y.1 st').R = Rs from hR'] at he
  obtain ⟨hlength, htranscript, hdone⟩ := hspec ch.e t he
  rw [← hchy'] at hdone ⊢
  apply equation_finishProof bp hash rand st
  · rw [h.padded, hlength, hNM]
  · exact hy0
  · rw [hlength, hL', hLs]
  · rw [hchy', htranscript]
    exact he1
  · rfl
  · rfl
  · rw [h.padded, hchy', hchz']
    exact h.firstEquation rand y.1 z.1 z.2
  · rw [hL', hR']
    exact hdone hy0

end

lemma sum_range_testBit (x N : ℕ) :
    ∑ i ∈ range N, (if x.testBit i then 1 else 0) * 2 ^ i = x % 2 ^ N := by
  induction N with
  | zero => simp [Nat.mod_one]
  | succ N ih =>
    rw [sum_range_succ, ih, Nat.mod_pow_succ, ← Nat.toNat_testBit, Nat.mul_comm]
    cases x.testBit N <;> rfl

lemma getD_append_replicate {α : Type} [Zero α] (l : List α) (k j : ℕ) :
    (l ++ replicate k 0).getD j 0 = l.getD j 0 := by
  by_cases hj : j < l.length
  · rw [getD_append _ _ _ _ hj]
  · rw [getD_append_right _ _ _ _ (by omega), getD_eq_default l _ (by omega)]
    rw [getD_eq_getElem?_getD, getElem?_replicate]
    split <;> rfl

section

variable {q : ℕ} [Fact q.Prime] {P : Type} [AddCommGroup P] [Module (ZMod q) P]

omit [Fact q.Prime] in
lemma getD_getBits (x : ZMod q) {i : ℕ} (hi : i < 256) :
    (getBits x).getD ((getBits x).length - (i + 1)) false = x.val.testBit i := by
  have hlength : (getBits x).length = 256 := by simp [getBits]
  rw [hlength, getBits, getD_map_range _ _ (by omega)]
  congr 1
  omega

lemma getD_bitVector {v : List (ZMod q)} {N M j i : ℕ} (hv : v.length = M) (hN : N ≤ 256)
    (hj : j < M) (hi : i < N) :
    (bitVector v N M).getD (j * N + i) 0 = if (v.getD j 0).val.testBit i then 1 else 0 := by
  have hbits : (v.map getBits).getD j [] = getBits (v.getD j 0) := by
    simp [hv ▸ hj]
  rw [bitVector, getD_rows _ _ hj hi, hbits]
  dsimp only
  rw [getD_getBits _ (by omega)]

lemma bitVector_bit (v : List (ZMod q)) {N M i : ℕ} (hi : i < N * M) :
    (bitVector v N M).getD i 0 * ((bitVector v N M).getD i 0 - 1) = 0 := by
  have hmem : (bitVector v N M).getD i 0 ∈ bitVector v N M := by
    rw [getD_eq_getElem _ _ (by rw [bitVector, length_rows, Nat.mul_comm]; exact hi)]
    exact getElem_mem _
  obtain ⟨j, -, hrow⟩ := mem_flatMap.mp hmem
  obtain ⟨k, -, heq⟩ := List.mem_map.mp hrow
  rw [← heq]
  dsimp only
  split <;> simp

lemma sum_bitVector {v : List (ZMod q)} {N M j : ℕ} (hv : v.length = M) (hN : N ≤ 256)
    (hj : j < M) (hrange : (v.getD j 0).val < 2 ^ N) :
    ∑ i ∈ range N, (bitVector v N M).getD (j * N + i) 0 * 2 ^ i = v.getD j 0 := by
  have hnat := sum_range_testBit (v.getD j 0).val N
  rw [Nat.mod_eq_of_lt hrange] at hnat
  calc ∑ i ∈ range N, (bitVector v N M).getD (j * N + i) 0 * 2 ^ i
      = ((∑ i ∈ range N, (if (v.getD j 0).val.testBit i then 1 else 0) * 2 ^ i : ℕ) :
          ZMod q) := by
        push_cast
        apply sum_congr rfl
        intro i hi
        rw [getD_bitVector hv hN hj (mem_range.mp hi)]
    _ = v.getD j 0 := by rw [hnat, ZMod.natCast_zmod_val]

/-- A statement that the prover accepts, with values in range: the commitments open to the
values, and there are enough generators for the padded number of values. -/
structure BPPlus.Statement (bp : BPPlus P) (v r : List (ZMod q)) (unpaddedC : List P) :
    Prop where
  nonempty : unpaddedC.length ≠ 0
  length_v : v.length = unpaddedC.length
  length_r : r.length = unpaddedC.length
  bound : bp.N * paddedM unpaddedC.length ≤ bp.Gi.length
  range : ∀ x ∈ v, x.val < 2 ^ bp.N
  opens : ∀ j < unpaddedC.length, unpaddedC.getD j 0 = v.getD j 0 • bp.G + r.getD j 0 • bp.H

variable {bp : BPPlus P} {v r : List (ZMod q)} {unpaddedC : List P}
  (hash : Transcript (ZMod q) P → ZMod q) (rand : BPPlusRandom (ZMod q))

lemma BPPlus.Statement.bitsOk (h : bp.Statement v r unpaddedC) (hN : bp.N ≤ 64) {n m : ℕ}
    (hn : bp.N = 2 ^ n) (hm : paddedM unpaddedC.length = 2 ^ m) {k : ℕ}
    (hk : unpaddedC.length + k = 2 ^ m) :
    BitsOk bp (r ++ replicate k 0) (bitVector (v ++ replicate k 0) bp.N (2 ^ m))
      ((bitVector (v ++ replicate k 0) bp.N (2 ^ m)).map (· - 1))
      (v.getD · 0) n m unpaddedC where
  bitLength := hn
  padded := hm
  aR_eq i hi := by
    have hlength : i < (bitVector (v ++ replicate k 0) bp.N (2 ^ m)).length := by
      rw [bitVector, length_rows, Nat.mul_comm]
      exact hi
    simp [hlength]
  bit i hi := bitVector_bit _ hi
  value j hj := by
    have hrange : (v.getD j 0).val < 2 ^ bp.N := by
      by_cases hlt : j < v.length
      · rw [getD_eq_getElem _ _ hlt]
        exact h.range _ (getElem_mem hlt)
      · rw [getD_eq_default _ _ (by omega), ZMod.val_zero]
        positivity
    rw [← getD_append_replicate v k j] at hrange ⊢
    exact sum_bitVector (by simp [h.length_v, hk]) (by omega) hj hrange
  opens j hj := by
    rw [paddedC, getD_append_replicate, getD_append_replicate]
    by_cases hlt : j < unpaddedC.length
    · exact h.opens j hlt
    · rw [getD_eq_default _ _ (by omega), getD_eq_default v _ (by rw [h.length_v]; omega),
        getD_eq_default r _ (by rw [h.length_r]; omega), zero_smul, zero_smul, add_zero]

lemma BPPlus.Statement.prove_ok [DecidableEq P] (h : bp.Statement v r unpaddedC) (hN : bp.N ≤ 64) :
    ∃ proof, bp.prove hash rand v r unpaddedC = .ok proof ∧ bp.SizesOk (unpaddedC, proof) ∧
      ∀ ch, bp.challenges hash unpaddedC proof = some ch →
        bp.equation unpaddedC proof ch = 0 := by
  obtain ⟨n, hn⟩ := isNonzeroPowerOf2_iff.mp bp.bitLength
  obtain ⟨m, hm⟩ := paddedM_eq_two_pow unpaddedC.length
  have hpad := le_paddedM unpaddedC.length
  have hk : unpaddedC.length + (paddedM unpaddedC.length - unpaddedC.length) = 2 ^ m := by
    omega
  have hbits := h.bitsOk hN hn hm hk
  have hbound := h.bound
  obtain ⟨hL, hR, hequation⟩ := hbits.equation_proveBits hash rand
  have hopens : ∀ j ∈ List.range (paddedM unpaddedC.length),
      (v ++ replicate (paddedM unpaddedC.length - unpaddedC.length) 0).getD j 0 • bp.G +
        (r ++ replicate (paddedM unpaddedC.length - unpaddedC.length) 0).getD j 0 • bp.H =
      (unpaddedC ++ replicate (paddedM unpaddedC.length - unpaddedC.length) 0).getD j 0 := by
    intro j hj
    rw [getD_append_replicate v]
    exact (hbits.opens j (hm ▸ List.mem_range.mp hj)).symm
  refine ⟨_, ?_, ?_, hequation⟩
  · rw [prove]
    dsimp only
    rw [if_neg h.nonempty, if_neg (by simp; omega), if_neg (by
        simp only [Bool.not_eq_true', Bool.not_eq_false]
        exact isNonzeroPowerOf2_iff.mpr ⟨m, hm⟩),
      if_neg (by omega), if_neg (by simp [h.length_v, h.length_r]; omega),
      if_neg (not_not.mpr hopens)]
    simp only [hm]
  · refine ⟨?_, hbound⟩
    have hlog : log2 (bp.N * paddedM unpaddedC.length) = n + m := by
      rw [hn, hm, ← pow_add, log2, Nat.log2_two_pow]
    rw [sizesOk, hlog, hL, hR]
    simp [h.nonempty]

lemma BPPlus.verifyBatch_of_equations [DecidableEq P] (weight : ℕ → ZMod q)
    (pairs : List (List P × BPPlusProof (ZMod q) P))
    (h : ∀ pair ∈ pairs, bp.SizesOk pair ∧ ∃ ch,
      bp.challenges hash pair.1 pair.2 = some ch ∧ bp.equation pair.1 pair.2 ch = 0) :
    bp.verifyBatch hash weight (pairs.map Prod.fst) (pairs.map Prod.snd) = true := by
  have hzero : ∀ k (hk : k < pairs.length), bp.pairElement hash pairs[k] = some 0 := by
    intro k hk
    obtain ⟨-, ch, hch, hequation⟩ := h pairs[k] (getElem_mem hk)
    rw [pairElement, hch, Option.map_some, hequation]
  rw [verifyBatch, batchElement_eq_some hash weight pairs (fun _ => 0)
    (fun pair hpair => (h pair hpair).1) hzero]
  simp

/-- For bit lengths up to 64 the prover makes a proof for every statement
with values in range, whatever its randomness. When no challenge of the transcript is zero
the proof is accepted alone, for every weight, and every batch of such proofs, with any
numbers of values, is accepted for all weights. -/
theorem honest_range_proof_verifies [DecidableEq P] (bp : BPPlus P) (hN : bp.N ≤ 64)
    (hash : Transcript (ZMod q) P → ZMod q) :
    (∀ rand v r unpaddedC, bp.Statement v r unpaddedC →
      ∃ proof, bp.prove hash rand v r unpaddedC = .ok proof ∧
        ((bp.challenges hash unpaddedC proof).isSome →
          ∀ w, bp.verify hash w unpaddedC proof = true)) ∧
      ∀ pairs : List (List P × BPPlusProof (ZMod q) P),
        (∀ pair ∈ pairs, ∃ rand v r, bp.Statement v r pair.1 ∧
          bp.prove hash rand v r pair.1 = .ok pair.2 ∧
          (bp.challenges hash pair.1 pair.2).isSome) →
        ∀ weight, bp.verifyBatch hash weight (pairs.map Prod.fst) (pairs.map Prod.snd) =
          true := by
  constructor
  · intro rand v r unpaddedC h
    obtain ⟨proof, hprove, hsizes, hequation⟩ := h.prove_ok hash rand hN
    refine ⟨proof, hprove, ?_⟩
    intro hsome w
    obtain ⟨ch, hch⟩ := Option.isSome_iff_exists.mp hsome
    apply verifyBatch_of_equations hash (fun _ => w) [(unpaddedC, proof)]
    intro pair hpair
    obtain rfl := List.mem_singleton.mp hpair
    exact ⟨hsizes, ch, hch, hequation ch hch⟩
  · intro pairs hpairs weight
    apply verifyBatch_of_equations
    intro pair hpair
    obtain ⟨rand, v, r, h, hprove, hsome⟩ := hpairs pair hpair
    obtain ⟨ch, hch⟩ := Option.isSome_iff_exists.mp hsome
    obtain ⟨proof, hprove', hsizes, hequation⟩ := h.prove_ok hash rand hN
    obtain rfl : proof = pair.2 := Except.ok.inj (hprove'.symm.trans hprove)
    exact ⟨hsizes, ch, hch, hequation ch hch⟩

end

section

local instance primeThirteen : Fact (Nat.Prime 13) := ⟨by decide⟩

/-- Generators over a small prime field for two bits and up to four values. -/
def fieldBPPlus : BPPlus (ZMod 13) where
  G := 1
  H := (2 : ℕ)
  Gi := List.map Nat.cast [3, 4, 5, 6, 7, 8, 9, 10]
  Hi := List.map Nat.cast [11, 12, 1, 2, 3, 4, 5, 6]
  N := 2
  sizes := rfl
  bitLength := by decide

def fieldRandom : BPPlusRandom (ZMod 13) where
  alpha := (5 : ℕ)
  dL i := i + 1
  dR i := (i + 3 : ℕ)
  r := (2 : ℕ)
  s := (3 : ℕ)
  d := (4 : ℕ)
  eta := (6 : ℕ)

/-- Three values, padded to four. -/
theorem honest_range_proof_verifies_three :
    fieldBPPlus.Statement ([3, 0, 2] : List (ZMod 13)) [1, 5, 7] [5, 10, 3] ∧
      ∃ proof, fieldBPPlus.prove (fun _ => 2) fieldRandom [3, 0, 2] [1, 5, 7] [5, 10, 3] =
          .ok proof ∧
        ∀ w, fieldBPPlus.verify (fun _ => 2) w [5, 10, 3] proof = true := by
  have hstatement : fieldBPPlus.Statement ([3, 0, 2] : List (ZMod 13)) [1, 5, 7] [5, 10, 3] :=
    ⟨by decide, by decide, by decide, by decide, by decide, by decide⟩
  obtain ⟨proof, hprove, hverify⟩ :=
    (honest_range_proof_verifies fieldBPPlus (by decide) (fun _ => 2)).1 fieldRandom _ _ _
      hstatement
  refine ⟨hstatement, proof, hprove, hverify ?_⟩
  have hrun : (fieldBPPlus.prove (fun _ => 2) fieldRandom [3, 0, 2] [1, 5, 7]
      [5, 10, 3]).toOption.any
        (fun proof => (fieldBPPlus.challenges (fun _ => 2) [5, 10, 3] proof).isSome) = true := by
    decide +kernel
  rw [hprove] at hrun
  exact hrun

end

end Firo.LibSpark
