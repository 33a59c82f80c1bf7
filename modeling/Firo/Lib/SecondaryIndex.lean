import Mathlib

/-! Records are stored under identifiers; an index maps a key of a record to the identifier of one
record with that key. A record is replaced by dropping the entry it owns and writing one for the new
record, which may take over the entry of another record. Entries then always point to a record with
their key, and every record is found through its key as long as no replacement drops an entry that
another record needs. -/
namespace Firo.Lib.SecondaryIndex

variable {κ ι M : Type*} [DecidableEq κ] [DecidableEq ι] {key : M → Option ι}
  {records : κ → Option M} {index : ι → Option κ} {h : κ} {new : Option M}

variable (key records index h new)

def drop (old : Option M) : ι → Option κ :=
  fun i => if old.bind key = some i ∧ index i = some h then none else index i

@[simp]
lemma drop_none : drop key index h none = index := by
  funext i
  simp [drop]

def add : ι → Option κ :=
  fun i => if new.bind key = some i then some h else index i

omit [DecidableEq κ] in
@[simp]
lemma add_none : add key index h none = index := by
  funext i
  simp [add]

/-- The index after the record at `h` is replaced, or erased if there is no new one. -/
def replace : ι → Option κ :=
  add key (drop key index h (records h)) h new

def Sound : Prop :=
  ∀ i h, index i = some h → (records h).bind key = some i

def Complete : Prop :=
  ∀ h i, (records h).bind key = some i → (index i).isSome

/-- The record at `h` owns the entry of another record and the new one does not renew it. -/
def Orphans : Prop :=
  ∃ h' i, h' ≠ h ∧ (records h').bind key = some i ∧ index i = some h ∧ new.bind key ≠ some i

variable {key records index h new}

lemma Sound.replace (hsound : Sound key records index) :
    Sound key (Function.update records h new) (replace key records index h new) := by
  intro i h' hentry
  rw [SecondaryIndex.replace, add] at hentry
  split at hentry
  · rename_i hnew
    cases hentry
    rwa [Function.update_self]
  · rw [drop] at hentry
    split at hentry
    · cases hentry
    · rename_i hkept
      have hkey := hsound i h' hentry
      have hne : h' ≠ h := by
        rintro rfl
        exact hkept ⟨hkey, hentry⟩
      rwa [Function.update_of_ne hne]

lemma complete_replace_iff (hsound : Sound key records index)
    (hcomplete : Complete key records index) :
    Complete key (Function.update records h new) (replace key records index h new) ↔
      ¬Orphans key records index h new := by
  constructor
  · rintro hafter ⟨h', i, hne, hkey, howned, hnew⟩
    have hfound := hafter h' i (by rwa [Function.update_of_ne hne])
    rw [SecondaryIndex.replace, add, if_neg hnew, drop,
      if_pos ⟨hsound i h howned, howned⟩] at hfound
    exact Bool.false_ne_true hfound
  · intro horphan h' i hkey
    rw [SecondaryIndex.replace, add]
    split
    · rfl
    · rename_i hnew
      have hne : h' ≠ h := by
        rintro rfl
        rw [Function.update_self] at hkey
        exact hnew hkey
      rw [Function.update_of_ne hne] at hkey
      have hfound := hcomplete h' i hkey
      rw [drop, if_neg]
      · exact hfound
      · rintro ⟨-, howned⟩
        exact horphan ⟨h', i, hne, hkey, howned, hnew⟩

end Firo.Lib.SecondaryIndex
