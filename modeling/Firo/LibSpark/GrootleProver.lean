import Firo.LibSpark.GrootleTail

/-! The prover commits to the coefficients of the polynomials `∏ (σ X + a)` of all indices. The
lists of coefficients that it computes are those of the polynomials, and the list of the last
commitment those of a sum, up to the degree that it uses. -/
namespace Firo.LibSpark

open Finset Firo.Lib Polynomial
open List hiding Ico mem_range prod_eq_zero prod_range_succ range sigma sum sum_le_card_nsmul
  sum_range_succ

variable {F : Type} [Field F]

noncomputable def toPoly (c : List F) : F[X] :=
  ∑ i ∈ range c.length, monomial i (c.getD i 0)

lemma coeff_toPoly (c : List F) (t : ℕ) : (toPoly c).coeff t = c.getD t 0 := by
  rw [toPoly, finsetSum_coeff]
  simp only [coeff_monomial, sum_ite_eq', mem_range]
  split
  case isTrue => rfl
  case isFalse h => rw [getD_eq_default _ _ (by omega)]

lemma getD_convolve {c} (hc : c ≠ []) (x₁ x₀ : F) (t : ℕ) : (convolve x₁ x₀ c).getD t 0 =
      x₀ * c.getD t 0 + if t = 0 then 0 else x₁ * c.getD (t - 1) 0 := by
  obtain ⟨b, c, rfl⟩ := exists_cons_of_ne_nil hc
  cases t with
  | zero => simp [convolve]
  | succ t =>
    have hlength : (zipWith (fun c c' => x₀ * c + x₁ * c') c (b :: c)).length =
        c.length := by simp
    change (zipWith (fun c c' => x₀ * c + x₁ * c') c (b :: c) ++
      [x₁ * (b :: c).getLastD 0]).getD t 0 = x₀ * c.getD t 0 + x₁ * (b :: c).getD t 0
    rcases lt_trichotomy t c.length with hlt | rfl | hgt
    · rw [getD_append _ _ _ _ (by omega)]
      have hlt' : t < (b :: c).length := by simp; omega
      simp only [getD_eq_getElem?_getD, getElem?_zipWith,
        getElem?_eq_getElem hlt, getElem?_eq_getElem hlt', Option.getD_some]
    · rw [getD_append_right _ _ _ _ (by omega), hlength, Nat.sub_self, getD_eq_default c _ le_rfl]
      simp [getLastD_eq_getLast?, getLast?_eq_getElem?]
    · rw [getD_append_right _ _ _ _ (by omega), getD_eq_default _ _ (by simp; omega),
        getD_eq_default _ _ hgt.le, getD_eq_default _ _ (by simp; omega)]
      simp

lemma length_convolve {c} (hc : c ≠ []) (x₁ x₀ : F) : (convolve x₁ x₀ c).length = c.length + 1 := by
  obtain ⟨b, c, rfl⟩ := exists_cons_of_ne_nil hc
  simp [convolve]

lemma convolve_ne_nil (x₁ x₀ : F) (c) : convolve x₁ x₀ c ≠ [] := by
  simp [convolve]

lemma toPoly_convolve {c : List F} (hc : c ≠ []) (x₁ x₀ : F) :
    toPoly (convolve x₁ x₀ c) = toPoly c * (C x₁ * X + C x₀) := by
  ext t
  rw [coeff_toPoly, getD_convolve hc, mul_comm (toPoly c), add_mul, mul_assoc, coeff_add,
    coeff_C_mul, coeff_C_mul, coeff_toPoly, add_comm]
  cases t with
  | zero => simp
  | succ t => simp [coeff_X_mul, coeff_toPoly]

noncomputable def polyEntry (sigma a : List F) (n j k : ℕ) : F[X] :=
  C (entry sigma n j k) * X + C (entry a n j k)

lemma toPoly_pair (x₁ x₀ : F) : toPoly [x₀, x₁] = C x₁ * X + C x₀ := by
  ext t
  rw [coeff_toPoly]
  match t with
  | 0 => simp
  | 1 => simp [coeff_C]
  | t + 2 => simp

lemma toPoly_indexCoefficients (sigma a : List F) {n m : ℕ} (hn : 1 < n) (hm : 0 < m) (i : ℕ) :
    toPoly (indexCoefficients sigma a n m i) = digitProd n (polyEntry sigma a n) m i := by
  have hfold : ∀ k < m, ∀ c, c = (range' 1 k).foldl (fun coefficients j =>
      convolve (sigma.getD (j * n + (decompose i n m).getD j 0) 0)
        (a.getD (j * n + (decompose i n m).getD j 0) 0) coefficients)
      [a.getD ((decompose i n m).getD 0 0) 0, sigma.getD ((decompose i n m).getD 0 0) 0] →
      c ≠ [] ∧ toPoly c = digitProd n (polyEntry sigma a n) (k + 1) i := by
    intro k
    induction k with
    | zero =>
      rintro - c rfl
      refine ⟨by simp, ?_⟩
      rw [decompose_getD hn hm]
      simp [toPoly_pair, digitProd, polyEntry, entry]
    | succ k ih =>
      rintro hk c rfl
      obtain ⟨hne, hpoly⟩ := ih (Nat.lt_of_succ_lt hk) _ rfl
      rw [range'_concat, foldl_append, foldl_cons, List.foldl_nil]
      refine ⟨convolve_ne_nil _ _ _, ?_⟩
      rw [toPoly_convolve hne, hpoly, one_mul, add_comm 1 k, decompose_getD hn hk]
      exact (prod_range_succ _ _).symm
  obtain ⟨k, rfl⟩ : ∃ k, m = k + 1 := ⟨m - 1, by omega⟩
  exact (hfold k (Nat.lt_succ_self k) _ rfl).2

section

variable {sigma a : List F} {n m s : ℕ}

structure PartsOk (sigma a : List F) (n m s j : ℕ) (acc : List (List F) × List F) : Prop where
  parts_length : acc.1.length = m - j
  parts_ne : ∀ t < m - j, acc.1.getD t [] ≠ []
  parts_poly : ∀ t < m - j, toPoly (acc.1.getD t []) =
    highProduct (polyEntry sigma a n) n m s (m - t)
  length_eq : acc.2.length = m - j + 1
  poly_eq : toPoly acc.2 = highProduct (polyEntry sigma a n) n m s j

variable {j : ℕ} {acc : List (List F) × List F}

/-- One more digit extends the partial products by its factor. -/
lemma PartsOk.step (hj : j < m) (h : PartsOk sigma a n m s (j + 1) acc) :
    PartsOk sigma a n m s j (acc.1 ++ [acc.2], convolve (entry sigma n j (digit n s j))
      (entry a n j (digit n s j)) acc.2) := by
  have hne : acc.2 ≠ [] := ne_nil_of_length_pos (by rw [h.length_eq]; omega)
  have hread : ∀ t < m - j, (t < m - (j + 1) ∧ (acc.1 ++ [acc.2]).getD t [] = acc.1.getD t []) ∨
      (m - t = j + 1 ∧ (acc.1 ++ [acc.2]).getD t [] = acc.2) := by
    intro t ht
    rcases Nat.lt_or_ge t (m - (j + 1)) with hlt | hge
    · exact .inl ⟨hlt, getD_append _ _ _ _ (by rw [h.parts_length]; exact hlt)⟩
    · have heq : t = acc.1.length := by
        rw [h.parts_length]
        omega
      refine .inr ⟨by omega, ?_⟩
      rw [heq, getD_append_right _ _ _ _ le_rfl, Nat.sub_self]
      rfl
  refine ⟨?_, ?_, ?_, ?_, ?_⟩
  · rw [length_append, h.parts_length, length_singleton]
    omega
  · intro t ht
    rcases hread t ht with ⟨hlt, hget⟩ | ⟨-, hget⟩
    · rw [hget]
      exact h.parts_ne t hlt
    · rw [hget]
      exact hne
  · intro t ht
    rcases hread t ht with ⟨hlt, hget⟩ | ⟨hindex, hget⟩
    · rw [hget]
      exact h.parts_poly t hlt
    · rw [hget, hindex]
      exact h.poly_eq
  · rw [length_convolve hne, h.length_eq]
    omega
  · rw [toPoly_convolve hne, h.poly_eq]
    exact highProduct_mul _ hj

/-- After all digits the partial products are those of the whole index. -/
lemma PartsOk.run {I : List ℕ} (hI : ∀ j < m, I.getD j 0 = digit n s j)
    (hj : j ≤ m) (h : PartsOk sigma a n m s j acc) :
    PartsOk sigma a n m s 0 (partialProducts sigma a n I j acc) := by
  induction j generalizing acc with
  | zero => exact h
  | succ j ih =>
    rw [partialProducts, hI j hj]
    exact ih (Nat.le_of_succ_le hj) (h.step hj)

variable (sigma a) in
lemma PartsOk.init : PartsOk sigma a n m s m ([], [1]) := by
  refine ⟨by simp, fun t ht => by omega, fun t ht => by omega, by simp, ?_⟩
  ext t
  rw [coeff_toPoly, highProduct, Ico_self, prod_empty, coeff_one]
  cases t with
  | zero => rfl
  | succ t => rfl

lemma foldl_addShifted (polynomials : ℕ → List F) (sum : List F) (hm : m ≤ sum.length) (k : ℕ) :
    let r := (List.range k).foldl (fun sum j => sum.mapIdx fun t c =>
      if j ≤ t ∧ t < m then c + (polynomials j).getD (t - j) 0 else c) sum
    r.length = sum.length ∧ ∀ t < m, r.getD t 0 =
      (toPoly sum + ∑ j ∈ range k, X ^ j * toPoly (polynomials j)).coeff t := by
  induction k with
  | zero => simp [coeff_toPoly]
  | succ k ih =>
    obtain ⟨hlength, hcoeff⟩ := ih
    rw [range_succ, foldl_append, foldl_cons, List.foldl_nil]
    refine ⟨by rw [length_mapIdx]; exact hlength, ?_⟩
    intro t ht
    have hin := getElem?_eq_getElem (show t < ((List.range k).foldl (fun sum j =>
      sum.mapIdx fun t c => if j ≤ t ∧ t < m then c + (polynomials j).getD (t - j) 0 else c)
      sum).length by rw [hlength]; omega)
    have hstep := hcoeff t ht
    rw [getD_eq_getElem?_getD, hin, Option.getD_some] at hstep
    rw [getD_eq_getElem?_getD, getElem?_mapIdx, hin, Option.map_some,
      Option.getD_some, hstep, sum_range_succ, ← add_assoc, coeff_add _ (X ^ k * _),
      coeff_X_pow_mul', coeff_toPoly]
    by_cases hle : k ≤ t
    · rw [if_pos ⟨hle, ht⟩, if_pos hle]
    · rw [if_neg (by omega), if_neg hle, add_zero]

end

lemma entry_convertToSigma {n l m j i : ℕ} (hj : j < m) (hi : i < n) :
    entry (convertToSigma n l m : List F) n j i = if i = digit n l j then 1 else 0 := by
  unfold entry
  induction m generalizing l j with
  | zero => omega
  | succ m ih =>
    rw [convertToSigma]
    cases j with
    | zero =>
      rw [zero_mul, zero_add, getD_append _ _ _ _ (by simpa using hi)]
      simp [hi, digit]
    | succ j =>
      have hindex : (j + 1) * n + i - n = j * n + i := by
        rw [Nat.succ_mul]
        omega
      have hdigit : digit n (l / n) j = digit n l (j + 1) := by
        rw [digit, digit, Nat.div_div_eq_div_mul, ← pow_succ']
      have hlength : ((List.range n).map fun i => if i = l % n then (1 : F) else 0).length =
          n := by simp
      rw [getD_append_right _ _ _ _ (by rw [hlength, Nat.succ_mul]; omega), hlength,
        hindex, ih (Nat.lt_of_succ_lt_succ hj), hdigit]

lemma length_convertToSigma (n l m : ℕ) : (convertToSigma n l m : List F).length = m * n := by
  induction m generalizing l with
  | zero => simp [convertToSigma]
  | succ m ih =>
    rw [convertToSigma, length_append, length_map, length_range, ih, Nat.succ_mul, add_comm]

section

variable {a : List F} {n m size l : ℕ} (hn : 1 < n)
  (hrows : ∀ j < m, ∑ i ∈ range n, entry a n j i = 0)

variable {j t i : ℕ} {f : List F} {x : F}

lemma sum_polyEntry (hj : j < m) (hn : 1 < n) (lo : ℕ) :
    ∑ k ∈ Ico lo n, polyEntry (convertToSigma n l m) a n j k =
      C (if lo ≤ digit n l j then 1 else 0) * X + C (∑ k ∈ Ico lo n, entry a n j k) := by
  have hsigma : ∑ k ∈ Ico lo n, entry (convertToSigma n l m : List F) n j k =
      if lo ≤ digit n l j then 1 else 0 := by
    rw [sum_congr rfl fun k hk => entry_convertToSigma hj (mem_Ico.mp hk).2, sum_ite_eq']
    simp only [mem_Ico, digit_lt (show 0 < n by omega), and_true]
  simp only [polyEntry]
  rw [sum_add_distrib, ← sum_mul, ← map_sum, ← map_sum, hsigma]

include hn hrows

lemma sum_polyEntry_row (hj : j < m) :
    ∑ k ∈ range n, polyEntry (convertToSigma n l m) a n j k = X := by
  rw [range_eq_Ico, sum_polyEntry hj hn, ← range_eq_Ico, hrows j hj]
  simp

/-- Below degree `m`, the coefficients that the prover computes for the last commitment are
those of the sum of the polynomials of its index and all later ones. -/
lemma getD_tailCoefficients (hpos : 0 < size) (hsize : size ≤ n ^ m) (ht : t < m) :
    (tailCoefficients (convertToSigma n l m) a n m size l).getD t 0 = (∑ i ∈ Ico (size - 1) (n ^ m),
        digitProd n (polyEntry (convertToSigma n l m) a n) m i).coeff t := by
  have hI : ∀ j < m, (decompose (size - 1) n m).getD j 0 = digit n (size - 1) j :=
    fun j hj => decompose_getD hn hj
  have hlj : ∀ j < m, (decompose l n m).getD j 0 = digit n l j := fun j hj => decompose_getD hn hj
  have hparts := PartsOk.run hI le_rfl (PartsOk.init (convertToSigma n l m) a)
  -- the part of each position, times the factors of the larger digits there
  have hpoly : ∀ j < m, toPoly (positionPolynomial a n m (decompose (size - 1) n m)
      (decompose l n m) (partialProducts (convertToSigma n l m) a n
        (decompose (size - 1) n m) m ([], [1])).1 j) =
      highProduct (polyEntry (convertToSigma n l m) a n) n m (size - 1) (j + 1) *
        ∑ k ∈ Ico (digit n (size - 1) j + 1) n, polyEntry (convertToSigma n l m) a n j k := by
    intro j hj
    have hlt : m - j - 1 < m - 0 := by omega
    have hindex : m - (m - j - 1) = j + 1 := by omega
    rw [positionPolynomial, toPoly_convolve (hparts.parts_ne _ hlt), hparts.parts_poly _ hlt,
      hindex, hI j hj, hlj j hj, sum_polyEntry hj hn]
    rfl
  have hfold := (foldl_addShifted (m := m) (positionPolynomial a n m
      (decompose (size - 1) n m) (decompose l n m) (partialProducts (convertToSigma n l m) a n
        (decompose (size - 1) n m) m ([], [1])).1) _ (by rw [hparts.length_eq]; omega) m).2 t ht
  refine hfold.trans (congrArg (coeff · t) ?_)
  rw [hparts.poly_eq, sum_Ico_digitProd (by omega)]
  apply congrArg₂
  · exact prod_congr (range_eq_Ico m).symm fun _ _ => rfl
  · apply sum_congr rfl
    intro j hj
    rw [mem_range] at hj
    have hlow : ∏ k ∈ range j, ∑ i ∈ range n, polyEntry (convertToSigma n l m) a n k i =
        (X : F[X]) ^ j := by
      rw [prod_congr rfl fun k hk =>
        sum_polyEntry_row hn hrows ((mem_range.mp hk).trans hj), prod_const, card_range]
    rw [hpoly j hj, aboveAt, hlow]
    change X ^ j * (highProduct _ n m (size - 1) (j + 1) * _) =
      _ * highProduct _ n m (size - 1) (j + 1) * X ^ j
    ring

omit hrows in
lemma coeff_digitProd_top {l : ℕ} (hl : l < n ^ m) (hi : i < n ^ m) :
    (digitProd n (polyEntry (convertToSigma n l m) a n) m i).coeff m =
      if i = l then 1 else 0 := by
  have hdegree : ∀ j ∈ range m,
      (polyEntry (convertToSigma n l m) a n j (digit n i j)).natDegree ≤ 1 := by
    intro j _
    unfold polyEntry
    compute_degree
  have hcoeff := coeff_prod_of_natDegree_le _ _ 1 hdegree
  rw [card_range, mul_one] at hcoeff
  rw [digitProd, hcoeff]
  have hfactor : ∀ j ∈ range m, (polyEntry (convertToSigma n l m) a n j (digit n i j)).coeff 1 =
        if digit n i j = digit n l j then 1 else 0 := by
    intro j hj
    rw [← entry_convertToSigma (mem_range.mp hj) (digit_lt (show 0 < n by omega))]
    simp [polyEntry, coeff_C]
  rw [prod_congr rfl hfactor]
  by_cases heq : i = l
  · simp [heq]
  · rw [if_neg heq]
    obtain ⟨j, hj, hne⟩ : ∃ j < m, digit n i j ≠ digit n l j := by
      by_contra hall
      push Not at hall
      exact heq (eq_of_digits hi hl hall)
    exact prod_eq_zero (mem_range.mpr hj) (if_neg hne)

variable (a n m size l) in
/-- The polynomial of commitment `i`, which for the last commitment is a sum. -/
noncomputable def commitmentPolynomial (i : ℕ) : F[X] :=
  if i + 1 < size then digitProd n (polyEntry (convertToSigma n l m) a n) m i
  else ∑ k ∈ Ico (size - 1) (n ^ m), digitProd n (polyEntry (convertToSigma n l m) a n) m k

lemma getD_convolutionTerms (hpos : 0 < size) (hsize : size ≤ n ^ m) (hi : i < size) (ht : t < m) :
    ((convolutionTerms (convertToSigma n l m) a n m size l).getD i []).getD t 0 =
      (commitmentPolynomial a n m size l i).coeff t := by
  unfold convolutionTerms commitmentPolynomial
  by_cases hlast : i + 1 < size
  · rw [getD_append _ _ _ _ (by simp; omega), if_pos hlast,
      ← toPoly_indexCoefficients _ _ hn (by omega), coeff_toPoly]
    simp [show i < size - 1 by omega]
  · rw [getD_append_right _ _ _ _ (by simp; omega), if_neg hlast,
      ← getD_tailCoefficients hn hrows hpos hsize ht]
    simp [show i - (size - 1) = 0 by omega]

omit hrows in
lemma coeff_commitmentPolynomial_top (hl : l < size) (hsize : size ≤ n ^ m) (hi : i < size) :
    (commitmentPolynomial a n m size l i).coeff m = if i = l then 1 else 0 := by
  unfold commitmentPolynomial
  by_cases hlast : i + 1 < size
  · rw [if_pos hlast, coeff_digitProd_top hn (by omega) (by omega)]
  · rw [if_neg hlast, finsetSum_coeff, sum_congr rfl fun k hk =>
      coeff_digitProd_top hn (by omega) (mem_Ico.mp hk).2, sum_ite_eq']
    apply if_congr _ rfl rfl
    rw [mem_Ico]
    omega

omit hn hrows in
lemma natDegree_commitmentPolynomial_lt (i : ℕ) :
    (commitmentPolynomial a n m size l i).natDegree < m + 1 := by
  have hprod : ∀ k, (digitProd n (polyEntry (convertToSigma n l m) a n) m k).natDegree ≤ m := by
    intro k
    have hle := natDegree_prod_le (range m)
      fun j => polyEntry (convertToSigma n l m) a n j (digit n k j)
    refine hle.trans ((sum_le_card_nsmul _ _ 1 ?_).trans (by simp))
    intro j _
    unfold polyEntry
    compute_degree
  apply Nat.lt_succ_of_le
  unfold commitmentPolynomial
  split
  case isTrue => exact hprod i
  case isFalse => exact natDegree_sum_le_of_forall_le _ _ fun k _ => hprod k

omit hn hrows in
lemma eval_commitmentPolynomial (hn : 0 < n)
    (hf : ∀ j < m, ∀ k < n, entry f n j k = entry (convertToSigma n l m) n j k * x + entry a n j k)
    (i : ℕ) : (commitmentPolynomial a n m size l i).eval x = plainCoefficient f n m size i := by
  have hprod : ∀ k, (digitProd n (polyEntry (convertToSigma n l m) a n) m k).eval x =
      indexProduct f n m k := by
    intro k
    rw [digitProd, eval_prod]
    apply prod_congr rfl
    intro j hj
    rw [hf j (mem_range.mp hj) _ (digit_lt hn)]
    simp [polyEntry]
  unfold commitmentPolynomial plainCoefficient
  split
  case isTrue => exact hprod i
  case isFalse =>
    rw [eval_finsetSum]
    exact sum_congr rfl fun k _ => hprod k

/-- The coefficients below degree `m`, at the challenge, and the leading one, which marks the
secret index. -/
lemma sum_convolutionTerms (hl : l < size) (hsize : size ≤ n ^ m) (hf : ∀ j < m, ∀ k < n,
      entry f n j k = entry (convertToSigma n l m) n j k * x + entry a n j k) (hi : i < size) :
    ∑ t ∈ range m, ((convolutionTerms (convertToSigma n l m) a n m size l).getD i []).getD t 0 *
        x ^ t + (if i = l then 1 else 0) * x ^ m = plainCoefficient f n m size i := by
  have heval : (commitmentPolynomial a n m size l i).eval x = plainCoefficient f n m size i :=
    eval_commitmentPolynomial (by omega) hf i
  rw [← heval, eval_eq_sum_range' (natDegree_commitmentPolynomial_lt i), sum_range_succ,
    coeff_commitmentPolynomial_top hn hl hsize hi]
  congr 1
  apply sum_congr rfl
  intro t ht
  rw [getD_convolutionTerms hn hrows (by omega) hsize hi (mem_range.mp ht)]

/-- Below degree `m` the prover's coefficients for the last commitment are those of the sum of
the polynomials of all indices from `size - 1` on. -/
theorem prover_tail_eq_sum (hl : l < size) (hsize : size ≤ n ^ m) : ∀ t < m,
      ((convolutionTerms (convertToSigma n l m) a n m size l).getD (size - 1) []).getD t 0 =
      (∑ i ∈ Ico (size - 1) (n ^ m), ∏ j ∈ range m,
        (C (if i / n ^ j % n = l / n ^ j % n then 1 else 0) * X +
          C (a.getD (j * n + i / n ^ j % n) 0))).coeff t := by
  intro t ht
  rw [getD_convolutionTerms hn hrows (by omega) hsize (by omega) ht, commitmentPolynomial,
    if_neg (by omega)]
  refine congrArg (coeff · t) (sum_congr rfl fun i _ => prod_congr rfl fun j hj => ?_)
  rw [polyEntry, entry_convertToSigma (mem_range.mp hj) (digit_lt (by omega))]
  rfl

end

theorem prover_tail_eq_sum_three :
    ((convolutionTerms (convertToSigma 2 1 2) ([-1, 1, -2, 2] : List ℚ) 2 2 3 1).getD 2 []).getD
      1 0 = (∑ i ∈ Ico 2 4, ∏ j ∈ range 2, (C (if i / 2 ^ j % 2 = 1 / 2 ^ j % 2 then 1 else 0) * X +
          C (([-1, 1, -2, 2] : List ℚ).getD (j * 2 + i / 2 ^ j % 2) 0))).coeff 1 := by
  have hrows : ∀ j < 2, ∑ i ∈ range 2, entry ([-1, 1, -2, 2] : List ℚ) 2 j i = 0 := by
    intro j hj
    interval_cases j <;> norm_num [entry, sum_range_succ]
  exact prover_tail_eq_sum (by decide) hrows (show 1 < 3 by decide) (by decide) 1 (by decide)

end Firo.LibSpark
