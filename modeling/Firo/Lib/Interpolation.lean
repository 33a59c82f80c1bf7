import Mathlib

/-! A polynomial with coefficients in a vector space is known by its values at as many distinct
scalars as it has coefficients. If the values are given by scalars in some family of vectors, so are
the coefficients, and the scalars are computed from those of the values. -/
namespace Firo.Lib

open Matrix

variable {K M : Type*} [Field K] [AddCommGroup M] [Module K M] {n : ℕ}

/-- The coefficient of degree `j` of the polynomial with value `t k` at `c k`. -/
noncomputable def interpolate (c t : Fin n → K) (j : Fin n) : K :=
  ∑ k, (vandermonde c)⁻¹ j k * t k

lemma sum_inv_vandermonde_smul {c : Fin n → K} (hc : Function.Injective c) (p : Fin n → M)
    (j : Fin n) : ∑ k, (vandermonde c)⁻¹ j k • ∑ l : Fin n, c k ^ (l : ℕ) • p l = p j := by
  have hdet : IsUnit (vandermonde c).det := (det_vandermonde_ne_zero_iff.mpr hc).isUnit
  calc ∑ k, (vandermonde c)⁻¹ j k • ∑ l : Fin n, c k ^ (l : ℕ) • p l
      = ∑ k, ∑ l, ((vandermonde c)⁻¹ j k * vandermonde c k l) • p l := by
        simp only [Finset.smul_sum, smul_smul, vandermonde_apply]
    _ = ∑ l, (((vandermonde c)⁻¹ * vandermonde c) j l) • p l := by
        rw [Finset.sum_comm]
        simp only [Matrix.mul_apply, Finset.sum_smul]
    _ = p j := by simp [nonsing_inv_mul _ hdet, Matrix.one_apply]

lemma eq_sum_interpolate {ι : Type*} [Fintype ι] {c : Fin n → K} (hc : Function.Injective c)
    {p : Fin n → M} {g : ι → M} {t : ι → Fin n → K}
    (h : ∀ k, ∑ l : Fin n, c k ^ (l : ℕ) • p l = ∑ b, t b k • g b) (j : Fin n) :
    p j = ∑ b, interpolate c (t b) j • g b := by
  calc p j = ∑ k, (vandermonde c)⁻¹ j k • ∑ b, t b k • g b := by
        rw [← sum_inv_vandermonde_smul hc p j]
        simp only [h]
    _ = ∑ b, interpolate c (t b) j • g b := by
        simp only [Finset.smul_sum, smul_smul, interpolate, Finset.sum_smul]
        exact Finset.sum_comm

end Firo.Lib
