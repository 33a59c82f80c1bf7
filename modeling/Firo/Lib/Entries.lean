import Mathlib

/-! A store maps keys to optional values. Entries are written and erased in bulk; erasing the keys
of new entries takes the store back to where it was. -/
namespace Firo.Lib

open List Prod

variable {κ δ : Type*} [DecidableEq κ]

def writeAll (f : κ → Option δ) (l : List (κ × δ)) : κ → Option δ :=
  l.foldl (fun f e => Function.update f e.1 (some e.2)) f

/-- Write the entries, in order, where an entry with a null value erases its key. -/
def updateAll (isNull : δ → Bool) (f : κ → Option δ) (l : List (κ × δ)) : κ → Option δ :=
  l.foldl (fun f e => Function.update f e.1 (if isNull e.2 then none else some e.2)) f

def eraseAll (f : κ → Option δ) (l : List κ) : κ → Option δ :=
  l.foldl (fun f k => Function.update f k none) f

variable {f : κ → Option δ} {l : List (κ × δ)} {k : κ} {d : δ}

lemma writeAll_of_notMem (h : k ∉ l.map fst) : writeAll f l k = f k := by
  induction l generalizing f with
  | nil => rfl
  | cons e l ih =>
    rw [map_cons, mem_cons, not_or] at h
    change writeAll (Function.update f e.1 (some e.2)) l k = f k
    rw [ih h.2, Function.update_of_ne h.1]

/-- With one entry for a key, the store has the new entries and its old ones for the other
keys. -/
lemma writeAll_eq_some (hnodup : (l.map fst).Nodup) :
    writeAll f l k = some d ↔ (k, d) ∈ l ∨ (k ∉ l.map fst ∧ f k = some d) := by
  induction l generalizing f with
  | nil => simp [writeAll]
  | cons e l ih =>
    rw [map_cons, nodup_cons] at hnodup
    change writeAll (Function.update f e.1 (some e.2)) l k = some d ↔ _
    rw [ih hnodup.2]
    by_cases hk : k = e.1
    · subst hk
      have hnot : (e.1, d) ∉ l := fun hmem =>
        hnodup.1 (mem_map.mpr ⟨(e.1, d), hmem, rfl⟩)
      simp [hnot, hnodup.1, Prod.ext_iff, eq_comm]
    · simp [hk, Prod.ext_iff]

lemma eraseAll_apply (f : κ → Option δ) (l : List κ) (k : κ) :
    eraseAll f l k = if k ∈ l then none else f k := by
  induction l generalizing f with
  | nil => rfl
  | cons k' l ih =>
    change eraseAll (Function.update f k' none) l k = _
    rw [ih]
    by_cases hk : k = k'
    · simp [hk]
    · simp [hk]

variable {isNull : δ → Bool}

lemma updateAll_of_notMem (h : k ∉ l.map fst) : updateAll isNull f l k = f k := by
  induction l generalizing f with
  | nil => rfl
  | cons e l ih =>
    rw [map_cons, mem_cons, not_or] at h
    change updateAll isNull (Function.update f e.1 _) l k = f k
    rw [ih h.2, Function.update_of_ne h.1]

lemma updateAll_of_isNull (h : ∀ e ∈ l, isNull e.2 = true) :
    updateAll isNull f l = eraseAll f (l.map fst) := by
  induction l generalizing f with
  | nil => rfl
  | cons e l ih =>
    rw [forall_mem_cons] at h
    change updateAll isNull (Function.update f e.1 (if isNull e.2 then none else some e.2)) l = _
    rw [h.1, if_pos rfl, ih h.2]
    rfl

lemma updateAll_eq_some (h : updateAll isNull f l k = some d) : (k, d) ∈ l ∨ f k = some d := by
  induction l generalizing f with
  | nil => exact .inr h
  | cons e l ih =>
    rcases ih h with hmem | h
    · exact .inl (mem_cons_of_mem _ hmem)
    · change Function.update f e.1 (if isNull e.2 then none else some e.2) k = some d at h
      by_cases hk : k = e.1
      · rw [hk, Function.update_self] at h
        split at h
        · cases h
        · cases h
          exact .inl (hk ▸ mem_cons_self)
      · rw [Function.update_of_ne hk] at h
        exact .inr h

lemma updateAll_append_singleton {e : κ × δ} (he : isNull e.2 = false) :
    updateAll isNull f (l ++ [e]) e.1 = some e.2 := by
  simp [updateAll, he]

/-- Erasing keys of a changed store gives back the store before exactly if that had none of
them. -/
lemma eraseAll_eq_iff {g : κ → Option δ} {keys : List κ} (hother : ∀ k ∉ keys, g k = f k) :
    eraseAll g keys = f ↔ ∀ k ∈ keys, f k = none := by
  constructor
  · intro h k hk
    rw [← h, eraseAll_apply, if_pos hk]
  · intro h
    funext k
    rw [eraseAll_apply]
    split
    case isTrue hk => exact (h k hk).symm
    case isFalse hk => exact hother k hk

lemma eraseAll_writeAll (h : ∀ k ∈ l.map fst, f k = none) :
    eraseAll (writeAll f l) (l.map fst) = f :=
  (eraseAll_eq_iff fun _ hk => writeAll_of_notMem hk).mpr h

end Firo.Lib
