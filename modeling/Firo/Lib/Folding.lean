import Mathlib

/-! A vector of even length is folded to half its length by adding its upper half, scaled, to its
lower half. Vectors are functions on the natural numbers with an explicit length. The two facts that
inner product arguments rest on are how a sum of products changes in a fold, and which coefficient
each entry has after all folds. -/
namespace Firo.Lib

open Finset

variable {F M : Type*} [Field F] [AddCommGroup M] [Module F M]

def foldPair (u v : F) (n : ℕ) (g : ℕ → M) (i : ℕ) : M :=
  u • g i + v • g (i + n)

def combine (n : ℕ) (a : ℕ → F) (g : ℕ → M) : M :=
  ∑ i ∈ range n, a i • g i

lemma combine_congr {n : ℕ} {a a' : ℕ → F} {g g' : ℕ → M} (ha : ∀ i < n, a i = a' i)
    (hg : ∀ i < n, g i = g' i) : combine n a g = combine n a' g' := by
  apply sum_congr rfl
  intro i hi
  rw [ha i (mem_range.mp hi), hg i (mem_range.mp hi)]

/-- Folding both sides of a combination with coefficients that cancel adds the two cross
terms. -/
lemma combine_foldPair {u v u' v' : F} (hu : u * u' = 1) (hv : v * v' = 1) (n : ℕ) (a : ℕ → F)
    (g : ℕ → M) : combine n (foldPair u v n a) (foldPair u' v' n g) =
      combine (n + n) a g + (u * v') • combine n a (fun i => g (i + n)) +
        (v * u') • combine n (fun i => a (i + n)) g := by
  simp only [combine, sum_range_add, smul_sum, ← sum_add_distrib]
  apply sum_congr rfl
  intro i _
  calc foldPair u v n a i • foldPair u' v' n g i
      = (u * u') • a i • g i + (v * v') • a (i + n) • g (i + n) +
          (u * v') • a i • g (i + n) + (v * u') • a (i + n) • g i := by
        simp only [foldPair, smul_eq_mul]
        module
    _ = _ := by
        rw [hu, hv, Nat.add_comm n i]
        module

lemma foldPair_pow_smul (u v c : F) (n : ℕ) (g : ℕ → M) (i : ℕ) :
    foldPair u v n (fun i => c ^ i • g i) i = c ^ i • foldPair u (v * c ^ n) n g i := by
  simp only [foldPair, pow_add]
  module

/-- The coefficient of entry `i` after one fold for each entry of `es`, the first with the
largest length: the bits of `i` select the factors. -/
def bitProduct (u v : F → F) (es : List F) (i : ℕ) : F :=
  ∏ j ∈ range es.length,
    if i.testBit j then v (es.getD (es.length - j - 1) 0) else u (es.getD (es.length - j - 1) 0)

section

variable (u v : F → F) (e : F) (es : List F)

lemma prod_lower_bits (i : ℕ) :
    (∏ j ∈ range es.length, if i.testBit j then v ((e :: es).getD (es.length + 1 - j - 1) 0)
      else u ((e :: es).getD (es.length + 1 - j - 1) 0)) = bitProduct u v es i := by
  apply prod_congr rfl
  intro j hj
  rw [mem_range] at hj
  rw [show es.length + 1 - j - 1 = (es.length - j - 1) + 1 by omega, List.getD_cons_succ]

lemma bitProduct_cons_low {i : ℕ} (hi : i < 2 ^ es.length) :
    bitProduct u v (e :: es) i = bitProduct u v es i * u e := by
  rw [bitProduct, List.length_cons, prod_range_succ, prod_lower_bits, Nat.testBit_lt_two_pow hi]
  simp

lemma bitProduct_cons_high {i : ℕ} (hi : i < 2 ^ es.length) :
    bitProduct u v (e :: es) (2 ^ es.length + i) = bitProduct u v es i * v e := by
  have hlow : bitProduct u v es (2 ^ es.length + i) = bitProduct u v es i := by
    apply prod_congr rfl
    intro j hj
    rw [Nat.testBit_two_pow_add_gt (mem_range.mp hj)]
  rw [bitProduct, List.length_cons, prod_range_succ, prod_lower_bits, hlow,
    Nat.testBit_two_pow_add_eq, Nat.testBit_lt_two_pow hi]
  simp

lemma combine_bitProduct_foldPair (g : ℕ → M) :
    combine (2 ^ es.length) (bitProduct u v es) (foldPair (u e) (v e) (2 ^ es.length) g) =
      combine (2 ^ (e :: es).length) (bitProduct u v (e :: es)) g := by
  rw [List.length_cons, pow_succ, Nat.mul_two, combine, combine, sum_range_add, ← sum_add_distrib]
  apply sum_congr rfl
  intro i hi
  rw [mem_range] at hi
  rw [bitProduct_cons_low u v e es hi, bitProduct_cons_high u v e es hi, foldPair, Nat.add_comm i]
  module

end

lemma geom_sum_double (t : F) (n : ℕ) :
    ∑ j ∈ range (2 * n), t ^ j = (1 + t) * ∑ j ∈ range n, (t ^ 2) ^ j := by
  induction n with
  | zero => simp
  | succ n ih =>
    rw [Nat.mul_succ, sum_range_succ, sum_range_succ, ih, sum_range_succ]
    ring

end Firo.Lib
