import Mathlib

/-! A cursor that starts at the first key of a sorted list and stops at the first key that fails a
test has met exactly the keys that pass it, if the test passes downwards. -/
namespace Firo.Lib

variable {α : Type*} {r : α → α → Prop} {p : α → Bool} {l : List α}

lemma takeWhile_eq_filter_of_pairwise (h : l.Pairwise r)
    (hp : ∀ a b, r a b → p b = true → p a = true) : l.takeWhile p = l.filter p := by
  induction h with
  | nil => rfl
  | @cons a l ha _ ih =>
    by_cases hpa : p a = true
    · rw [List.takeWhile_cons_of_pos hpa, List.filter_cons_of_pos hpa, ih]
    · rw [List.takeWhile_cons_of_neg hpa, List.filter_cons_of_neg hpa]
      exact (List.filter_eq_nil_iff.mpr fun b hb hpb => hpa (hp a b (ha b hb) hpb)).symm

lemma dropWhile_eq_filter_of_pairwise (h : l.Pairwise r)
    (hp : ∀ a b, r a b → p b = true → p a = true) : l.dropWhile p = l.filter fun a => !p a := by
  induction h with
  | nil => rfl
  | @cons a l ha _ ih =>
    by_cases hpa : p a = true
    · rw [List.dropWhile_cons_of_pos hpa, List.filter_cons_of_neg (by simp [hpa]), ih]
    · rw [List.dropWhile_cons_of_neg hpa, List.filter_cons_of_pos (by simp [hpa])]
      congr 1
      exact (List.filter_eq_self.mpr fun b hb => by
        simpa using fun hpb => hpa (hp a b (ha b hb) hpb)).symm

end Firo.Lib
