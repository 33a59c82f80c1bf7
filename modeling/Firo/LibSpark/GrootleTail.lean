import Firo.Lib.Digits
import Firo.LibSpark.Grootle

/-! A set of fewer than `n ^ m` commitments is padded with copies of its last one, whose coefficient
is then a sum over all indices from `size - 1` on. Verifier and prover compute that sum from partial
products over the digits of `size - 1`. -/
namespace Firo.LibSpark

open Finset Firo.Lib

variable {F : Type} [Field F]

lemma getD_takeD {α} (l : List α) (d : α) {m j : ℕ} (hj : j < m) :
    (l.takeD m d).getD j d = l.getD j d := by
  induction m generalizing l j with
  | zero => omega
  | succ m ih =>
    cases j with
    | zero => cases l <;> rfl
    | succ j =>
      have htail := ih l.tail (Nat.lt_of_succ_lt_succ hj)
      cases l <;> exact htail

lemma decompose_getD {num n m j : ℕ} (hn : 1 < n) (hj : j < m) :
    (decompose num n m).getD j 0 = digit n num j := by
  rw [decompose, getD_takeD _ _ hj, Nat.getD_digits _ _ hn]
  rfl

def entry (f : List F) (n j i : ℕ) : F := f.getD (j * n + i) 0

def indexProduct (f : List F) (n m i : ℕ) : F :=
  ∏ j ∈ range m, entry f n j (digit n i j)

lemma indexProduct_eq (f : List F) (n m i : ℕ) :
    indexProduct f n m i = digitProd n (entry f n) m i := rfl

lemma rows_blocks (n k : ℕ) : rows n k (fun q r => q * k + r) = List.range (n * k) := by
  induction n with
  | zero => simp [rows]
  | succ n ih =>
    rw [rows_succ, ih, Nat.succ_mul, List.range_add]

section

variable (f : List F) (y : F) (startPtr endPtr n : ℕ)

lemma computeBatchFis_eq (j : ℕ) (fi : F) (s) : computeBatchFis f y startPtr endPtr n j fi s =
      ((List.range (n ^ j)).map fun i => fi * digitProd n (entry f n) j i).foldl
        (fun s v => computeBatchFis f y startPtr endPtr n 0 v s) s := by
  induction j generalizing fi s with
  | zero => simp [digitProd]
  | succ j ih =>
    rw [pow_succ', ← rows_blocks, rows, List.map_flatMap, List.foldl_flatMap]
    unfold computeBatchFis
    apply List.foldl_ext
    intro s q hq
    rw [ih, List.map_map]
    congr 1
    apply List.map_congr_left
    intro r hr
    rw [Function.comp_apply, digitProd_top (List.mem_range.mp hq) (List.mem_range.mp hr)]
    change entry f n j q * fi * digitProd n (entry f n) j r = _
    ring

lemma foldl_computeBatchFis (vs : List F) {s : BatchFis F} (hstart : startPtr ≤ s.ptr) :
    let r := vs.foldl (fun s v => computeBatchFis f y startPtr endPtr n 0 v s) s
    r.fSum = s.fSum + (vs.take (endPtr - s.ptr)).sum ∧ r.scalars.length = s.scalars.length ∧
      ∀ i < s.scalars.length, r.scalars.getD i 0 =
        s.scalars.getD i 0 + if s.ptr ≤ i ∧ i < endPtr then vs.getD (i - s.ptr) 0 * y else 0 := by
  induction vs generalizing s with
  | nil => simp
  | cons v vs ih =>
    by_cases hend : s.ptr < endPtr
    · have hstep : computeBatchFis f y startPtr endPtr n 0 v s =
          ⟨s.fSum + v, s.scalars.modify s.ptr (· + v * y), s.ptr + 1⟩ := by
        simp [computeBatchFis, hstart, hend]
      have hnext := @ih ⟨s.fSum + v, s.scalars.modify s.ptr (· + v * y), s.ptr + 1⟩
        (Nat.le_succ_of_le hstart)
      simp only [List.foldl_cons, hstep]
      obtain ⟨hsum, hlength, hentries⟩ := hnext
      refine ⟨?_, by simpa using hlength, ?_⟩
      · have htake : endPtr - s.ptr = (endPtr - (s.ptr + 1)) + 1 := by omega
        rw [hsum, htake, List.take_succ_cons, List.sum_cons, add_assoc]
      · intro i hi
        rw [hentries i (by simpa using hi)]
        rw [getD_modify_add _ _ _ hi, add_assoc]
        congr 1
        rcases lt_trichotomy i s.ptr with hlt | rfl | hgt
        · simp [show ¬ s.ptr = i by omega, show ¬ s.ptr + 1 ≤ i by omega,
            show ¬ s.ptr ≤ i by omega]
        · simp [hend]
        · obtain ⟨d, rfl⟩ := Nat.exists_eq_add_of_lt hgt
          simp [show ¬ s.ptr = s.ptr + d + 1 by omega, show s.ptr + 1 ≤ s.ptr + d + 1 by omega,
            show s.ptr ≤ s.ptr + d + 1 by omega, show s.ptr + d + 1 - s.ptr = d + 1 by omega,
            show s.ptr + d + 1 - (s.ptr + 1) = d by omega]
    · have hstep : computeBatchFis f y startPtr endPtr n 0 v s = s := by
        simp [computeBatchFis, hend]
      obtain ⟨hsum, hlength, hentries⟩ := ih hstart
      simp only [List.foldl_cons, hstep]
      have hzero : endPtr - s.ptr = 0 := by omega
      refine ⟨by rw [hsum, hzero]; simp, hlength, ?_⟩
      intro i hi
      rw [hentries i hi]
      simp [show ¬ (s.ptr ≤ i ∧ i < endPtr) by omega]

end

section

variable {f : List F} {x : F} {n m s : ℕ}

def highProduct {R : Type*} [CommSemiring R] (e : ℕ → ℕ → R) (n m s j : ℕ) : R :=
  ∏ k ∈ Ico j m, e k (digit n s k)

lemma highProduct_mul {R : Type*} [CommSemiring R] (e : ℕ → ℕ → R) {j : ℕ} (hj : j < m) :
    highProduct e n m s (j + 1) * e j (digit n s j) = highProduct e n m s j := by
  rw [highProduct, highProduct, prod_eq_prod_Ico_succ_bot hj, mul_comm]

/-- `pow` and `f_part_product` once the positions from `j` on are done. -/
def partsFrom (f : List F) (n m s j : ℕ) : F × List F :=
  (highProduct (entry f n) n m s j,
    (List.range (m - j)).map fun t => highProduct (entry f n) n m s (m - t))

lemma partsFrom_succ {j : ℕ} (hj : j < m) :
    ((partsFrom f n m s (j + 1)).1 * entry f n j (digit n s j),
      (partsFrom f n m s (j + 1)).2 ++ [(partsFrom f n m s (j + 1)).1]) =
        partsFrom f n m s j := by
  have hlast : m - j = m - (j + 1) + 1 := by omega
  have hindex : m - (m - (j + 1)) = j + 1 := by omega
  apply Prod.ext
  · exact highProduct_mul _ hj
  · simp [partsFrom, hlast, List.range_succ, hindex]

lemma foldl_parts {I : List ℕ} (hI : ∀ j < m, I.getD j 0 = digit n s j) {j : ℕ}
    (hj : j ≤ m) : (List.range j).reverse.foldl
      (fun acc j => (acc.1 * f.getD (j * n + I.getD j 0) 0, acc.2 ++ [acc.1]))
      (partsFrom f n m s j) = partsFrom f n m s 0 := by
  induction j with
  | zero => rfl
  | succ j ih =>
    rw [List.range_succ, List.reverse_append, List.reverse_singleton, List.singleton_append,
      List.foldl_cons, hI j hj]
    change List.foldl _ ((partsFrom f n m s (j + 1)).1 * entry f n j (digit n s j), _) _ = _
    rw [partsFrom_succ hj]
    exact ih (Nat.le_of_succ_le hj)

lemma foldl_tail (p : F) (u v : ℕ → F) (k : ℕ) :
    (List.range k).foldl (fun (p : F × F) j => (p.1 + u j * p.2 * v j, p.2 * x)) (p, 1) =
      (p + ∑ j ∈ range k, u j * x ^ j * v j, x ^ k) := by
  induction k with
  | zero => simp
  | succ k ih =>
    rw [List.range_succ, List.foldl_append, ih, List.foldl_cons, List.foldl_nil,
      sum_range_succ, ← add_assoc, pow_succ]

lemma tailProduct_eq (hn : 1 < n) (hrows : ∀ j < m, ∑ i ∈ range n, entry f n j i = x)
    (hs : s < n ^ m) : Grootle.tailProduct f x n m (decompose s n m) =
      ∑ i ∈ Ico s (n ^ m), indexProduct f n m i := by
  have hI : ∀ j < m, (decompose s n m).getD j 0 = digit n s j := fun j hj =>
    decompose_getD hn hj
  have hparts := foldl_parts (f := f) hI le_rfl
  have hinit : partsFrom f n m s m = (1, []) := by simp [partsFrom, highProduct]
  rw [hinit] at hparts
  have hfold := foldl_tail (x := x) (partsFrom f n m s 0).1
    (fun j => ((List.range' ((decompose s n m).getD j 0 + 1)
      (n - ((decompose s n m).getD j 0 + 1))).map fun i => f.getD (j * n + i) 0).sum)
    (fun j => (partsFrom f n m s 0).2.getD (m - j - 1) 0) m
  have hsum := sum_Ico_digitProd (f := entry f n) hs
  unfold Grootle.tailProduct
  rw [hparts]
  refine (congrArg Prod.fst hfold).trans (Eq.trans ?_ hsum.symm)
  apply congrArg₂
  · exact prod_congr (range_eq_Ico m).symm fun _ _ => rfl
  · apply sum_congr rfl
    intro j hj
    rw [mem_range] at hj
    have hpart : (partsFrom f n m s 0).2.getD (m - j - 1) 0 =
        highProduct (entry f n) n m s (j + 1) := by
      have hlt : m - j - 1 < m := by omega
      have hindex : m - (m - j - 1) = j + 1 := by omega
      simp [partsFrom, hlt, hindex]
    have hlow : ∏ k ∈ range j, ∑ i ∈ range n, entry f n k i = x ^ j := by
      rw [prod_congr rfl fun k hk => hrows k ((mem_range.mp hk).trans hj), prod_const, card_range]
    rw [hpart, hI j hj, aboveAt, hlow]
    change (∑ k ∈ Ico (digit n s j + 1) n, entry f n j k) * x ^ j * _ = _
    rw [mul_right_comm]
    rfl

end

/-- The coefficient of commitment `i` of a set of the size: the product of its index, and for
the last commitment the sum of the products from its index on. -/
def plainCoefficient (f : List F) (n m size i : ℕ) : F :=
  if i + 1 < size then indexProduct f n m i
  else ∑ k ∈ Ico (size - 1) (n ^ m), indexProduct f n m k

lemma computeBatchFis_scalars (f : List F) {n m size : ℕ} (base : ℕ) (w2 : F)
    (scalars : List F) (hsize : size ≤ n ^ m) :
    let r := computeBatchFis f w2 base (base + size - 1) n m 1 ⟨0, scalars, base⟩
    r.fSum = ∑ i ∈ range (size - 1), indexProduct f n m i ∧ r.scalars.length = scalars.length ∧
      ∀ i < scalars.length, r.scalars.getD i 0 = scalars.getD i 0 +
        if base ≤ i ∧ i < base + size - 1 then w2 * indexProduct f n m (i - base) else 0 := by
  have hcount : base + size - 1 - base ≤ n ^ m := by omega
  have hvisit := computeBatchFis_eq f w2 base (base + size - 1) n m 1 ⟨0, scalars, base⟩
  simp only [one_mul] at hvisit
  rw [hvisit]
  obtain ⟨hsum, hlength, hentries⟩ := foldl_computeBatchFis f w2 base (base + size - 1) n
    ((List.range (n ^ m)).map fun i => digitProd n (entry f n) m i)
    (show base ≤ (⟨0, scalars, base⟩ : BatchFis F).ptr from le_rfl)
  refine ⟨?_, hlength, ?_⟩
  · rw [hsum, ← List.map_take, List.take_range, min_eq_left hcount, zero_add,
      show base + size - 1 - base = size - 1 by omega]
    rfl
  · intro i hi
    rw [hentries i hi]
    congr 1
    by_cases hin : base ≤ i ∧ i < base + size - 1
    · have hindex : i - base < n ^ m := by omega
      rw [if_pos hin, if_pos hin, mul_comm]
      simp [hindex, indexProduct_eq]
    · rw [if_neg hin, if_neg hin]

section

variable {f : List F} {x : F} {n m size : ℕ} (hn : 1 < n)
  (hrows : ∀ j < m, ∑ i ∈ range n, entry f n j i = x) (hpos : 1 ≤ size) (hsize : size ≤ n ^ m)
  (w2 : F) (commitScalars : List F)

include hn hrows hpos hsize

lemma addCommitScalars_sum : (Grootle.addCommitScalars f x w2 n m size commitScalars).2 =
    ∑ i ∈ range (n ^ m), indexProduct f n m i := by
  obtain ⟨hsum, -⟩ := computeBatchFis_scalars f (commitScalars.length - size) w2 commitScalars hsize
  have htail := tailProduct_eq hn hrows (show size - 1 < n ^ m by omega)
  change _ + Grootle.tailProduct f x n m _ = _
  rw [htail, hsum, sum_range_add_sum_Ico _ (by omega)]

omit hn hrows hpos in
lemma length_addCommitScalars : (Grootle.addCommitScalars f x w2 n m size commitScalars).1.length =
      commitScalars.length := by
  obtain ⟨-, hlength, -⟩ :=
    computeBatchFis_scalars f (commitScalars.length - size) w2 commitScalars hsize
  exact (List.length_modify _ _ _).trans hlength

/-- With rows that sum to the challenge, the last `size` commitments get their coefficients,
weighted. -/
lemma addCommitScalars_getD (hlength : size ≤ commitScalars.length) {i : ℕ}
    (hi : i < commitScalars.length) :
    (Grootle.addCommitScalars f x w2 n m size commitScalars).1.getD i 0 =
      commitScalars.getD i 0 + if i < commitScalars.length - size then 0
        else w2 * plainCoefficient f n m size (i - (commitScalars.length - size)) := by
  obtain ⟨-, hlen, hentries⟩ :=
    computeBatchFis_scalars f (commitScalars.length - size) w2 commitScalars hsize
  have htail := tailProduct_eq hn hrows (show size - 1 < n ^ m by omega)
  have hmodify := getD_modify_add (computeBatchFis f w2 (commitScalars.length - size)
    (commitScalars.length - size + size - 1) n m 1
    ⟨0, commitScalars, commitScalars.length - size⟩).scalars (commitScalars.length - 1)
    (Grootle.tailProduct f x n m (decompose (size - 1) n m) * w2) (by rw [hlen]; exact hi)
  refine hmodify.trans ?_
  rw [hentries i hi, htail, add_assoc, plainCoefficient]
  congr 1
  rcases lt_trichotomy i (commitScalars.length - 1) with hbelow | hlast | habove
  · rw [if_neg (show ¬ commitScalars.length - 1 = i by omega), add_zero]
    by_cases hfirst : i < commitScalars.length - size
    · rw [if_neg (by omega), if_pos hfirst]
    · rw [if_pos (by omega), if_neg hfirst, if_pos (by omega)]
  · rw [if_neg (by omega), if_pos hlast.symm, if_neg (by omega), if_neg (by omega), zero_add,
      mul_comm]
  · omega

/-- The scalars that the verifier accumulates for a proof are those of the plain definition:
of the last `size` commitments, each but the last gets the product of its index, the last the
sum of the products from its index on, and `f_sum` is the sum of all products. -/
theorem verifier_tail_eq_plain (hlength : size ≤ commitScalars.length) :
    (Grootle.addCommitScalars f x w2 n m size commitScalars).1.length = commitScalars.length ∧
    (∀ i < commitScalars.length - size,
      (Grootle.addCommitScalars f x w2 n m size commitScalars).1.getD i 0 =
        commitScalars.getD i 0) ∧
    (∀ i < size - 1, (Grootle.addCommitScalars f x w2 n m size commitScalars).1.getD
        (commitScalars.length - size + i) 0 =
      commitScalars.getD (commitScalars.length - size + i) 0 +
        w2 * ∏ j ∈ range m, f.getD (j * n + i / n ^ j % n) 0) ∧
    (Grootle.addCommitScalars f x w2 n m size commitScalars).1.getD (commitScalars.length - 1) 0 =
      commitScalars.getD (commitScalars.length - 1) 0 +
        w2 * ∑ i ∈ Ico (size - 1) (n ^ m), ∏ j ∈ range m, f.getD (j * n + i / n ^ j % n) 0 ∧
    (Grootle.addCommitScalars f x w2 n m size commitScalars).2 =
      ∑ i ∈ range (n ^ m), ∏ j ∈ range m, f.getD (j * n + i / n ^ j % n) 0 := by
  refine ⟨length_addCommitScalars hsize w2 commitScalars, ?_, ?_, ?_,
    addCommitScalars_sum hn hrows hpos hsize w2 commitScalars⟩
  · intro i hi
    rw [addCommitScalars_getD hn hrows hpos hsize w2 _ hlength (by omega), if_pos hi, add_zero]
  · intro i hi
    rw [addCommitScalars_getD hn hrows hpos hsize w2 _ hlength (by omega), if_neg (by omega),
      plainCoefficient, if_pos (by omega), Nat.add_sub_cancel_left]
    rfl
  · rw [addCommitScalars_getD hn hrows hpos hsize w2 _ hlength (by omega), if_neg (by omega),
      plainCoefficient, if_neg (by omega)]
    rfl

end

theorem verifier_tail_eq_plain_three :
    (Grootle.addCommitScalars ([1, 2, 5, -2] : List ℚ) 3 7 2 2 3 [0, 0, 0, 0]).2 = 9 ∧
      (Grootle.addCommitScalars ([1, 2, 5, -2] : List ℚ) 3 7 2 2 3 [0, 0, 0, 0]).1.getD 3 0 =
        7 * (-2 * 1 + -2 * 2) := by
  have hrows : ∀ j < 2, ∑ i ∈ range 2, entry ([1, 2, 5, -2] : List ℚ) 2 j i = 3 := by
    intro j hj
    interval_cases j <;> norm_num [entry, sum_range_succ]
  obtain ⟨-, -, -, hlast, hsum⟩ := verifier_tail_eq_plain (by decide) hrows
    (show 1 ≤ 3 by decide) (by decide) 7 [0, 0, 0, 0] (by decide)
  constructor
  · rw [hsum]
    norm_num [sum_range_succ, prod_range_succ]
  · refine hlast.trans ?_
    norm_num [sum_Ico_eq_sum_range, sum_range_succ, prod_range_succ]

end Firo.LibSpark
