import Mathlib

/-! Loops that leave part of their state alone. -/
namespace Firo.Lib

lemma foldl_keeps {σ τ α : Type*} (π : σ → τ) {f : σ → α → σ}
    (hf : ∀ s a, π (f s a) = π s) (l : List α) (s : σ) : π (l.foldl f s) = π s := by
  induction l generalizing s with
  | nil => rfl
  | cons a l ih => exact (ih (f s a)).trans (hf s a)

end Firo.Lib
