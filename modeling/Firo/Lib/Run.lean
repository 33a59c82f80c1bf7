import Mathlib

/-! The states that a machine with partial steps reaches, where every step of the run meets a
condition on the state before it and on the action. -/
namespace Firo.Lib

variable {σ α : Type*} {step : σ → α → Option σ} {ok ok' : σ → α → Prop} {init : σ}

/-- The states reached from `init` by steps that meet `ok`. -/
inductive Reach (step : σ → α → Option σ) (ok : σ → α → Prop) (init : σ) : σ → Prop
  | init : Reach step ok init init
  | step {s s' : σ} (a : α) (hs : Reach step ok init s) (hok : ok s a)
      (h : step s a = some s') : Reach step ok init s'

namespace Reach

lemma invariant {I : σ → Prop} (hinit : I init)
    (hstep : ∀ s a s', I s → ok s a → step s a = some s' → I s') {s : σ}
    (h : Reach step ok init s) : I s := by
  induction h with
  | init => exact hinit
  | step a _ hok h ih => exact hstep _ a _ ih hok h

lemma mono (hle : ∀ s a, ok s a → ok' s a) {s : σ} (h : Reach step ok init s) :
    Reach step ok' init s := by
  induction h with
  | init => exact .init
  | step a _ hok h ih => exact .step a ih (hle _ a hok) h

lemma of_foldlM {l : List α} {s s' : σ} (hs : Reach step ok init s)
    (hok : ∀ a ∈ l, ∀ s, ok s a) (h : l.foldlM step s = some s') : Reach step ok init s' := by
  induction l generalizing s with
  | nil =>
    rw [List.foldlM_nil, Option.pure_def, Option.some.injEq] at h
    exact h ▸ hs
  | cons a l ih =>
    rw [List.foldlM_cons, Option.bind_eq_bind, Option.bind_eq_some_iff] at h
    obtain ⟨s₁, hs₁, h⟩ := h
    rw [List.forall_mem_cons] at hok
    exact ih (.step a hs (hok.1 s) hs₁) hok.2 h

lemma of_foldlM_guarded [∀ s a, Decidable (ok s a)] {l : List α} {s s' : σ}
    (hs : Reach step ok init s)
    (h : l.foldlM (fun s a => if ok s a then step s a else none) s = some s') :
    Reach step ok init s' := by
  induction l generalizing s with
  | nil =>
    rw [List.foldlM_nil, Option.pure_def, Option.some.injEq] at h
    exact h ▸ hs
  | cons a l ih =>
    rw [List.foldlM_cons, Option.bind_eq_bind, Option.bind_eq_some_iff] at h
    obtain ⟨s₁, hs₁, h⟩ := h
    split at hs₁
    case isTrue hok => exact ih (.step a hs hok hs₁) h
    case isFalse => cases hs₁

end Reach

end Firo.Lib
