import Mathlib

/-! A fact is established by a task that waits in a queue, and other tasks of the queue may undo it.
The fact can be relied on if the last task that writes is the one that establishes it. -/
namespace Firo.Lib

variable {T : Type*} {writes : T → Prop} {t x : T} {q q' : List T} {fact fact' : Prop}

/-- The task `t` is behind all tasks of the queue that write, or none is left and the fact
holds. -/
def Awaits (writes : T → Prop) (t : T) (fact : Prop) (q : List T) : Prop :=
  (∃ q₁ q₂, q = q₁ ++ t :: q₂ ∧ ∀ x ∈ q₂, ¬ writes x) ∨ (∀ x ∈ q, ¬ writes x) ∧ fact

namespace Awaits

lemma posted (q : List T) (hq' : ∀ x ∈ q', ¬ writes x) : Awaits writes t fact (q ++ t :: q') :=
  .inl ⟨q, q', rfl, hq'⟩

lemma nil (h : Awaits writes t fact []) : fact := by
  rcases h with ⟨q₁, q₂, hq, -⟩ | ⟨-, hfact⟩
  · exact absurd hq.symm (List.append_ne_nil_of_right_ne_nil _ (List.cons_ne_nil _ _))
  · exact hfact

lemma mono (h : Awaits writes t fact q) (hfact : fact → fact') : Awaits writes t fact' q :=
  h.imp_right fun hdone => ⟨hdone.1, hfact hdone.2⟩

lemma append (h : Awaits writes t fact q) (hq' : ∀ x ∈ q', ¬ writes x) :
    Awaits writes t fact (q ++ q') := by
  rcases h with ⟨q₁, q₂, rfl, hclean⟩ | ⟨hclean, hfact⟩
  · refine .inl ⟨q₁, q₂ ++ q', ?_, ?_⟩
    · rw [List.append_assoc, List.cons_append]
    · exact List.forall_mem_append.mpr ⟨hclean, hq'⟩
  · exact .inr ⟨List.forall_mem_append.mpr ⟨hclean, hq'⟩, hfact⟩

lemma pop (h : Awaits writes t fact (x :: q)) (hkeep : ¬ writes x → fact → fact')
    (hrun : x = t → (∀ y ∈ q, ¬ writes y) → fact') : Awaits writes t fact' q := by
  rcases h with ⟨q₁, q₂, hq, hclean⟩ | ⟨hclean, hfact⟩
  · cases q₁ with
    | nil =>
      obtain ⟨rfl, rfl⟩ := List.cons.inj hq
      exact .inr ⟨hclean, hrun rfl hclean⟩
    | cons y q₁ =>
      obtain ⟨rfl, rfl⟩ := List.cons.inj hq
      exact .inl ⟨q₁, q₂, rfl, hclean⟩
  · rw [List.forall_mem_cons] at hclean
    exact .inr ⟨hclean.2, hkeep hclean.1 hfact⟩

lemma of_clean (h : Awaits writes t fact q) (ht : writes t) (hclean : ∀ x ∈ q, ¬ writes x) :
    fact := by
  rcases h with ⟨q₁, q₂, rfl, -⟩ | ⟨-, hfact⟩
  · exact absurd ht (hclean t (List.mem_append_right _ List.mem_cons_self))
  · exact hfact

end Awaits

end Firo.Lib
