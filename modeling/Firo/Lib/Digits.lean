import Mathlib

/-! For a weight `f j k` of the digit `k` at position `j`, the weight of a number is the product
over its digits in base `n`. The numbers of `m` digits have together the product of the row sums,
and those from some number on are grouped by the first position, from the top, at which they exceed
it. -/
namespace Firo.Lib

open Finset

def digit (n i j : ℕ) : ℕ := i / n ^ j % n

section

variable {n i j m q r : ℕ}

lemma digit_lt (hn : 0 < n) : digit n i j < n :=
  Nat.mod_lt _ hn

lemma digit_low (hj : j < m) : digit n (q * n ^ m + r) j = digit n r j := by
  rcases Nat.eq_zero_or_pos n with rfl | hn
  · rw [Nat.zero_pow (by omega), mul_zero, zero_add]
  · have hsplit : q * n ^ m + r = r + n ^ j * (n * (q * n ^ (m - j - 1))) := by
      have hpow : n ^ m = n ^ j * (n * n ^ (m - j - 1)) := by
        rw [← pow_succ', ← pow_add]
        congr 1
        omega
      rw [hpow]
      ring
    unfold digit
    rw [hsplit, Nat.add_mul_div_left _ _ (Nat.pow_pos hn), Nat.add_mul_mod_self_left]

lemma digit_top (hq : q < n) (hr : r < n ^ m) : digit n (q * n ^ m + r) m = q := by
  have hpos : 0 < n ^ m := by omega
  unfold digit
  rw [mul_comm, Nat.mul_add_div hpos, Nat.div_eq_of_lt hr, add_zero, Nat.mod_eq_of_lt hq]

lemma pow_pos_of_lt_pow_succ (h : i < n ^ (m + 1)) : 0 < n ^ m := by
  rcases Nat.eq_zero_or_pos (n ^ m) with hzero | hpos
  · rw [pow_succ, hzero, zero_mul] at h
    omega
  · exact hpos

lemma eq_of_digits {i i' : ℕ} (hi : i < n ^ m) (hi' : i' < n ^ m)
    (h : ∀ j < m, digit n i j = digit n i' j) : i = i' := by
  induction m generalizing i i' with
  | zero =>
    rw [pow_zero] at hi hi'
    omega
  | succ m ih =>
    have hpos := pow_pos_of_lt_pow_succ hi
    have hsplit : ∀ i < n ^ (m + 1), i = digit n i m * n ^ m + i % n ^ m := by
      intro i hi
      have hdiv : i / n ^ m < n := Nat.div_lt_of_lt_mul (by rwa [← pow_succ])
      rw [digit, Nat.mod_eq_of_lt hdiv, Nat.div_add_mod']
    have hlow : i % n ^ m = i' % n ^ m := by
      apply ih (Nat.mod_lt _ hpos) (Nat.mod_lt _ hpos)
      intro j hj
      have h₁ : digit n (digit n i m * n ^ m + i % n ^ m) j = digit n (i % n ^ m) j := digit_low hj
      have h₂ : digit n (digit n i' m * n ^ m + i' % n ^ m) j = digit n (i' % n ^ m) j :=
        digit_low hj
      rw [← hsplit i hi] at h₁
      rw [← hsplit i' hi'] at h₂
      rw [← h₁, ← h₂, h j (by omega)]
    rw [hsplit i hi, hsplit i' hi', hlow, h m (by omega)]

end

section

variable {R : Type*} [CommSemiring R] {n m s : ℕ} {f : ℕ → ℕ → R}

def digitProd (n : ℕ) (f : ℕ → ℕ → R) (m i : ℕ) : R :=
  ∏ j ∈ range m, f j (digit n i j)

lemma digitProd_top {q r : ℕ} (hq : q < n) (hr : r < n ^ m) :
    digitProd n f (m + 1) (q * n ^ m + r) = f m q * digitProd n f m r := by
  have hlow : ∏ j ∈ range m, f j (digit n (q * n ^ m + r) j) = digitProd n f m r := by
    apply prod_congr rfl
    intro j hj
    rw [digit_low (mem_range.mp hj)]
  rw [digitProd, prod_range_succ, hlow, digit_top hq hr, mul_comm]

lemma sum_Ico_mul {M : Type*} [AddCommMonoid M] {a b : ℕ} (hab : a ≤ b) (N : ℕ) (g : ℕ → M) :
    ∑ i ∈ Ico (a * N) (b * N), g i = ∑ q ∈ Ico a b, ∑ r ∈ range N, g (q * N + r) := by
  induction b, hab using Nat.le_induction with
  | base => simp
  | succ b hab ih =>
    have hblock : ∑ i ∈ Ico (b * N) ((b + 1) * N), g i = ∑ r ∈ range N, g (b * N + r) := by
      rw [sum_Ico_eq_sum_range, Nat.succ_mul, Nat.add_sub_cancel_left]
    rw [← sum_Ico_consecutive _ (Nat.mul_le_mul_right N hab)
      (Nat.mul_le_mul_right N (Nat.le_succ b)), ih, hblock, sum_Ico_succ_top hab]

lemma sum_digitProd : ∑ i ∈ range (n ^ m), digitProd n f m i =
    ∏ j ∈ range m, ∑ k ∈ range n, f j k := by
  induction m with
  | zero => simp [digitProd]
  | succ m ih =>
    have hblocks := sum_Ico_mul (Nat.zero_le n) (n ^ m) (digitProd n f (m + 1))
    rw [zero_mul, ← pow_succ', ← range_eq_Ico, ← range_eq_Ico] at hblocks
    rw [hblocks, prod_range_succ, ← ih, mul_comm, sum_mul]
    apply sum_congr rfl
    intro q hq
    rw [mul_sum]
    apply sum_congr rfl
    intro r hr
    exact digitProd_top (mem_range.mp hq) (mem_range.mp hr)

/-- The numbers whose digit at position `j` is the first, from the top, above that of `s`. -/
def aboveAt (n : ℕ) (f : ℕ → ℕ → R) (m s j : ℕ) : R :=
  (∑ k ∈ Ico (digit n s j + 1) n, f j k) * (∏ k ∈ Ico (j + 1) m, f k (digit n s k)) *
    ∏ k ∈ range j, ∑ i ∈ range n, f k i

lemma aboveAt_low {q r j : ℕ} (hj : j < m) (hq : q < n) (hr : r < n ^ m) :
    aboveAt n f (m + 1) (q * n ^ m + r) j = f m q * aboveAt n f m r j := by
  have hlow : ∏ k ∈ Ico (j + 1) m, f k (digit n (q * n ^ m + r) k) =
      ∏ k ∈ Ico (j + 1) m, f k (digit n r k) := by
    apply prod_congr rfl
    intro k hk
    rw [digit_low (mem_Ico.mp hk).2]
  unfold aboveAt
  rw [digit_low hj, prod_Ico_succ_top (by omega), hlow, digit_top hq hr]
  ring

lemma aboveAt_top {q r : ℕ} (hq : q < n) (hr : r < n ^ m) : aboveAt n f (m + 1) (q * n ^ m + r) m =
      (∑ k ∈ Ico (q + 1) n, f m k) * ∑ i ∈ range (n ^ m), digitProd n f m i := by
  rw [aboveAt, digit_top hq hr, Ico_self, prod_empty, mul_one, sum_digitProd]

/-- The numbers from `s` on: `s` itself, and the larger ones by the first position above. -/
lemma sum_Ico_digitProd (hs : s < n ^ m) : ∑ i ∈ Ico s (n ^ m), digitProd n f m i =
    digitProd n f m s + ∑ j ∈ range m, aboveAt n f m s j := by
  induction m generalizing s with
  | zero =>
    have hzero : s = 0 := by simpa using hs
    simp [hzero]
  | succ m ih =>
    have hpos := pow_pos_of_lt_pow_succ hs
    obtain ⟨q, r, rfl, hr⟩ : ∃ q r, s = q * n ^ m + r ∧ r < n ^ m :=
      ⟨s / n ^ m, s % n ^ m, (Nat.div_add_mod' s _).symm, Nat.mod_lt _ hpos⟩
    have hq : q < n := by
      rw [pow_succ'] at hs
      exact Nat.lt_of_mul_lt_mul_right (a := n ^ m) (by omega)
    -- the rest of the block of `q`, then the blocks of the larger top digits
    have hmid : q * n ^ m + r ≤ (q + 1) * n ^ m := by
      rw [Nat.succ_mul]
      omega
    have hend : (q + 1) * n ^ m ≤ n ^ (m + 1) := by
      rw [pow_succ']
      exact Nat.mul_le_mul_right _ hq
    have hrest : ∑ i ∈ Ico (q * n ^ m + r) ((q + 1) * n ^ m), digitProd n f (m + 1) i =
        f m q * ∑ i ∈ Ico r (n ^ m), digitProd n f m i := by
      rw [Nat.succ_mul, add_comm _ r, add_comm _ (n ^ m), ← sum_Ico_add, mul_sum]
      apply sum_congr rfl
      intro i hi
      exact digitProd_top hq (mem_Ico.mp hi).2
    have hlarger : ∑ i ∈ Ico ((q + 1) * n ^ m) (n ^ (m + 1)), digitProd n f (m + 1) i =
        aboveAt n f (m + 1) (q * n ^ m + r) m := by
      rw [pow_succ', sum_Ico_mul hq, aboveAt_top hq hr, sum_mul]
      apply sum_congr rfl
      intro k hk
      rw [mul_sum]
      apply sum_congr rfl
      intro i hi
      exact digitProd_top (mem_Ico.mp hk).2 (mem_range.mp hi)
    rw [← sum_Ico_consecutive _ hmid hend, hrest, hlarger, ih hr, digitProd_top hq hr,
      sum_range_succ, mul_add, mul_sum, add_assoc]
    congr 2
    apply sum_congr rfl
    intro j hj
    exact (aboveAt_low (mem_range.mp hj) hq hr).symm

end

end Firo.Lib
