import Mathlib

/-! Lists of records in which no key occurs twice: finding a record by its key, deleting and
replacing records, and sorting by the key. The order of such a list carries no information, so two
lists with the same records sort to the same list. -/
namespace Firo.Lib.Keyed

variable {α κ : Type*} {key : α → κ} {l l' : List α} {a : α} {k : κ}

lemma eq_of_key_eq (hnodup : (l.map key).Nodup) {b : α} (ha : a ∈ l) (hb : b ∈ l)
    (h : key a = key b) : a = b :=
  List.inj_on_of_nodup_map hnodup ha hb h

lemma perm_of_mem_iff (hl : (l.map key).Nodup) (hl' : (l'.map key).Nodup)
    (h : ∀ a, a ∈ l ↔ a ∈ l') : l.Perm l' :=
  (List.perm_ext_iff_of_nodup hl.of_map hl'.of_map).mpr h

section

variable [DecidableEq κ]

def find (key : α → κ) (l : List α) (k : κ) : Option α :=
  l.find? fun a => key a = k

lemma find_eq_none_iff : find key l k = none ↔ k ∉ l.map key := by
  simp [find]

lemma find_eq_some_iff (hnodup : (l.map key).Nodup) :
    find key l k = some a ↔ a ∈ l ∧ key a = k := by
  constructor
  · intro h
    exact ⟨List.mem_of_find?_eq_some h, by simpa using List.find?_some h⟩
  · rintro ⟨hmem, rfl⟩
    cases hfind : find key l (key a) with
    | none => exact absurd (List.mem_map_of_mem hmem) (find_eq_none_iff.mp hfind)
    | some b =>
      have hb : b ∈ l := List.mem_of_find?_eq_some hfind
      have hkey : key b = key a := by simpa using List.find?_some hfind
      rw [eq_of_key_eq hnodup hb hmem hkey]

def deleteAll (key : α → κ) (l : List α) (ks : List κ) : List α :=
  l.filter fun a => ¬ key a ∈ ks

def replaceAll (key : α → κ) (l new : List α) : List α :=
  deleteAll key l (new.map key) ++ new

lemma mem_deleteAll {ks} : a ∈ deleteAll key l ks ↔ a ∈ l ∧ key a ∉ ks := by
  simp [deleteAll]

lemma nodup_deleteAll (hl : (l.map key).Nodup) (ks) : ((deleteAll key l ks).map key).Nodup :=
  hl.sublist (List.filter_sublist.map key)

lemma nodup_replaceAll {new : List α} (hl : (l.map key).Nodup) (hnew : (new.map key).Nodup) :
    ((replaceAll key l new).map key).Nodup := by
  rw [replaceAll, List.map_append]
  refine List.Nodup.append (nodup_deleteAll hl _) hnew fun k hk hk' => ?_
  obtain ⟨a, ha, rfl⟩ := List.mem_map.mp hk
  exact (mem_deleteAll.mp ha).2 hk'

/-- Deleting the keys that are gone and inserting the records that are new leads from one list
to the other. -/
lemma replaceAll_deleteAll_perm {new : List α} {ks} (hl : (l.map key).Nodup)
    (hl' : (l'.map key).Nodup) (hnodup : (new.map key).Nodup) (hnew : ∀ a, a ∈ new ↔ a ∈ l' ∧ a ∉ l)
    (hks : ∀ k, k ∈ ks ↔ k ∈ l.map key ∧ k ∉ l'.map key) :
    (replaceAll key (deleteAll key l ks) new).Perm l' := by
  refine perm_of_mem_iff (nodup_replaceAll (nodup_deleteAll hl ks) hnodup) hl' fun a => ?_
  rw [replaceAll, List.mem_append, mem_deleteAll, mem_deleteAll, hks]
  constructor
  · rintro (⟨⟨ha, hkeep⟩, hother⟩ | ha)
    · have hkey : key a ∈ l'.map key := by
        by_contra hgone
        exact hkeep ⟨List.mem_map_of_mem ha, hgone⟩
      obtain ⟨b, hb, hba⟩ := List.mem_map.mp hkey
      have hbl : b ∈ l := by
        by_contra hbl
        exact hother (hba ▸ List.mem_map_of_mem ((hnew b).mpr ⟨hb, hbl⟩))
      rwa [← eq_of_key_eq hl hbl ha hba]
    · exact ((hnew a).mp ha).1
  · intro ha
    by_cases hal : a ∈ l
    · refine .inl ⟨⟨hal, fun h => h.2 (List.mem_map_of_mem ha)⟩, fun hother => ?_⟩
      obtain ⟨b, hb, hba⟩ := List.mem_map.mp hother
      obtain ⟨hb', hbl⟩ := (hnew b).mp hb
      exact hbl (eq_of_key_eq hl' hb' ha hba ▸ hal)
    · exact .inr ((hnew a).mpr ⟨ha, hal⟩)

end

section

variable {β : Type*} [LinearOrder β]

def sortBy (key : α → β) (l : List α) : List α :=
  l.insertionSort fun a b => key a ≤ key b

lemma sortBy_perm (key : α → β) (l : List α) : (sortBy key l).Perm l :=
  List.perm_insertionSort _ l

lemma sortBy_congr {key : α → β} (hperm : l.Perm l')
    (hkey : ∀ a ∈ l, ∀ b ∈ l, key a = key b → a = b) : sortBy key l = sortBy key l' := by
  have : Std.Total fun a b : α => key a ≤ key b := ⟨fun a b => le_total _ _⟩
  have : IsTrans α fun a b : α => key a ≤ key b := ⟨fun _ _ _ => le_trans⟩
  refine List.Perm.eq_of_pairwise (fun a b ha hb hab hba => ?_)
    (List.pairwise_insertionSort _ l) (List.pairwise_insertionSort _ l')
    ((sortBy_perm key l).trans (hperm.trans (sortBy_perm key l').symm))
  exact hkey a ((sortBy_perm key l).mem_iff.mp ha) b
    (hperm.mem_iff.mpr ((sortBy_perm key l').mem_iff.mp hb)) (le_antisymm hab hba)

end

end Firo.Lib.Keyed
