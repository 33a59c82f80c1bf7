import Mathlib

/-! A registry maps keys to records, each of which holds an owner, and keeps a reverse index from
owners to keys. Records are dropped and put in bulk; the index stays the inverse of the registry as
long as every record that is touched fits. -/
namespace Firo.Lib

open List

section

variable {κ δ : Type} [Ord κ] [Std.TransOrd κ] [Std.LawfulEqOrd κ]

lemma getElem?_insert_eq [DecidableEq κ] (t : Std.ExtTreeMap κ δ) (k a : κ) (d : δ) :
    (t.insert k d)[a]? = if k = a then some d else t[a]? := by
  rw [Std.ExtTreeMap.getElem?_insert]
  simp only [Std.LawfulEqCmp.compare_eq_iff_eq]

lemma getElem?_erase_eq [DecidableEq κ] (t : Std.ExtTreeMap κ δ) (k a : κ) :
    (t.erase k)[a]? = if k = a then none else t[a]? := by
  rw [Std.ExtTreeMap.getElem?_erase]
  simp only [Std.LawfulEqCmp.compare_eq_iff_eq]

omit [Std.LawfulEqOrd κ] in
lemma nodup_keys_toList (t : Std.ExtTreeMap κ δ) : (t.toList.map Prod.fst).Nodup := by
  rw [Nodup, pairwise_map]
  refine t.distinct_keys_toList.imp fun hne heq => ?_
  rw [heq] at hne
  exact hne Std.ReflCmp.compare_self

omit [Std.LawfulEqOrd κ] in
lemma contains_eq_false_iff {t : Std.ExtTreeMap κ δ} {k : κ} :
    t.contains k = false ↔ t[k]? = none := by
  rw [Std.ExtTreeMap.contains_eq_isSome_getElem?, Option.isSome_eq_false_iff,
    Option.isNone_iff_eq_none]

lemma mem_keys_toList {t : Std.ExtTreeMap κ δ} {k : κ} :
    k ∈ t.toList.map Prod.fst ↔ (t[k]?).isSome := by
  simp only [mem_map, Prod.exists, exists_and_right, exists_eq_right,
    Std.ExtTreeMap.mem_toList_iff_getElem?_eq_some, Option.isSome_iff_exists]

lemma getElem?_foldl_insert [DecidableEq κ] (l : List (κ × δ)) (t : Std.ExtTreeMap κ δ) (k : κ) :
    (l.foldl (fun t e => t.insert e.1 e.2) t)[k]? = (l.reverse.lookup k).or t[k]? := by
  induction l generalizing t with
  | nil => simp
  | cons e l ih =>
    rw [foldl_cons, ih, getElem?_insert_eq, reverse_cons, lookup_append,
      Option.or_assoc, lookup_cons, lookup_nil]
    by_cases hk : e.1 = k
    · simp [hk]
    · rw [if_neg hk, show (k == e.1) = false from beq_eq_false_iff_ne.mpr (Ne.symm hk)]
      simp

end

lemma lookup_eq_of_graph {κ δ : Type} [DecidableEq κ] {l : List (κ × δ)} {f : κ → Option δ}
    (hl : ∀ k d, (k, d) ∈ l ↔ f k = some d) (k : κ) : l.lookup k = f k := by
  apply Option.ext
  intro d
  constructor
  · intro h
    exact (hl k d).mp (by
      obtain ⟨l₁, l₂, rfl, -⟩ := lookup_eq_some_iff.mp h
      simp)
  · intro h
    have hmem : (k, d) ∈ l := (hl k d).mpr h
    cases hk : l.lookup k with
    | none =>
      have hne := lookup_eq_none_iff.mp hk (k, d) hmem
      simp at hne
    | some d' =>
      obtain ⟨l₁, l₂, rfl, -⟩ := lookup_eq_some_iff.mp hk
      rw [← h, ← (hl k d').mp (by simp)]

section

variable {κ ν δ : Type} [Ord κ] [Ord ν]

structure Registry (κ ν δ : Type) [Ord κ] [Ord ν] where
  records : Std.ExtTreeMap κ δ
  keys : Std.ExtTreeMap ν κ

namespace Registry

variable [Std.TransOrd κ] [Std.TransOrd ν] {owner : δ → ν} {r : Registry κ ν δ} {k k' : κ}
  {a : ν} {d : δ}

def drop (r : Registry κ ν δ) (k : κ) (a : ν) : Registry κ ν δ :=
  ⟨r.records.erase k, r.keys.erase a⟩

def put (owner : δ → ν) (r : Registry κ ν δ) (k : κ) (d : δ) : Registry κ ν δ :=
  ⟨r.records.insert k d, r.keys.insert (owner d) k⟩

def dropAll (r : Registry κ ν δ) (l : List (κ × ν)) : Registry κ ν δ :=
  l.foldl (fun r e => r.drop e.1 e.2) r

def putAll (owner : δ → ν) (r : Registry κ ν δ) (l : List (κ × δ)) : Registry κ ν δ :=
  l.foldl (fun r e => r.put owner e.1 e.2) r

/-- The owners and the keys of the records are each other's inverse. -/
def Inverse (owner : δ → ν) (r : Registry κ ν δ) : Prop :=
  ∀ a k, r.keys[a]? = some k ↔ ∃ d, r.records[k]? = some d ∧ owner d = a

structure Matches (owner : δ → ν) (r : Registry κ ν δ) (k : κ) (a : ν) : Prop where
  owner_eq : ∀ d, r.records[k]? = some d → owner d = a
  key_eq : ∀ k', r.keys[a]? = some k' → k' = k

lemma Inverse.matches_of_record (h : r.Inverse owner) (hd : r.records[k]? = some d) :
    r.Matches owner k (owner d) := by
  constructor
  · intro d' hd'
    rw [Option.some.inj (hd.symm.trans hd')]
  · intro k' hk'
    have hk : r.keys[owner d]? = some k := (h _ _).mpr ⟨d, hd, rfl⟩
    exact Option.some.inj (hk'.symm.trans hk)

variable [Std.LawfulEqOrd κ] [Std.LawfulEqOrd ν] [DecidableEq κ] [DecidableEq ν]

omit [Std.LawfulEqOrd κ] [Std.LawfulEqOrd ν] [DecidableEq κ] [DecidableEq ν] in
lemma Matches.of_le {r' : Registry κ ν δ} (h : r.Matches owner k a) (hr : r.Inverse owner)
    (hr' : r'.Inverse owner)
    (hle : ∀ (k : κ) (d : δ), r'.records[k]? = some d → r.records[k]? = some d) :
    r'.Matches owner k a := by
  constructor
  · intro d hd
    exact h.owner_eq d (hle k d hd)
  · intro k' hk'
    obtain ⟨d, hd, hown⟩ := (hr' a k').mp hk'
    exact h.key_eq k' ((hr a k').mpr ⟨d, hle k' d hd, hown⟩)

omit [Std.LawfulEqOrd κ] [DecidableEq κ] [DecidableEq ν] in
lemma Inverse.keys_eq {r' : Registry κ ν δ} (h : r.Inverse owner) (h' : r'.Inverse owner)
    (heq : r.records = r'.records) : r.keys = r'.keys := by
  apply Std.ExtTreeMap.ext_getElem?
  intro a
  apply Option.ext
  intro k
  rw [h a k, h' a k, heq]

lemma Inverse.drop (h : r.Inverse owner) (hm : r.Matches owner k a) :
    (r.drop k a).Inverse owner := by
  intro b j
  simp only [Registry.drop, getElem?_erase_eq]
  by_cases hb : a = b
  · rw [if_pos hb]
    constructor
    · intro hnone
      cases hnone
    · rintro ⟨d, hd, hown⟩
      split at hd
      case isTrue => cases hd
      case isFalse hj =>
        exact absurd (hm.key_eq j ((h a j).mpr ⟨d, hd, hown.trans hb.symm⟩)).symm hj
  · rw [if_neg hb, h b j]
    by_cases hj : k = j
    · subst hj
      rw [if_pos rfl]
      constructor
      · rintro ⟨d, hd, hown⟩
        exact absurd ((hm.owner_eq d hd).symm.trans hown) hb
      · rintro ⟨d, hd, -⟩
        cases hd
    · rw [if_neg hj]

lemma Inverse.put (h : r.Inverse owner) (hm : r.Matches owner k (owner d)) :
    (r.put owner k d).Inverse owner := by
  intro b j
  simp only [Registry.put, getElem?_insert_eq]
  by_cases hj : k = j
  · subst hj
    rw [if_pos rfl]
    by_cases hb : owner d = b
    · simp [hb]
    · rw [if_neg hb, h b k]
      constructor
      · rintro ⟨d', hd', hown⟩
        exact absurd ((hm.owner_eq d' hd').symm.trans hown) hb
      · rintro ⟨d', hd', hown⟩
        rw [← Option.some.inj hd'] at hown
        exact absurd hown hb
  · rw [if_neg hj]
    by_cases hb : owner d = b
    · rw [if_pos hb, ← h b j]
      constructor
      · intro hkj
        exact absurd (Option.some.inj hkj) hj
      · intro hkj
        exact absurd (hm.key_eq j (hb ▸ hkj)).symm hj
    · rw [if_neg hb, h b j]

lemma Matches.drop (h : r.Matches owner k a) (k' : κ) (a' : ν) :
    (r.drop k' a').Matches owner k a := by
  constructor
  · intro d hd
    simp only [Registry.drop, getElem?_erase_eq] at hd
    split at hd
    case isTrue => cases hd
    case isFalse => exact h.owner_eq d hd
  · intro j hj
    simp only [Registry.drop, getElem?_erase_eq] at hj
    split at hj
    case isTrue => cases hj
    case isFalse => exact h.key_eq j hj

lemma Matches.put (h : r.Matches owner k a) (hpair : k' = k ↔ owner d = a) :
    (r.put owner k' d).Matches owner k a := by
  constructor
  · intro d' hd'
    simp only [Registry.put, getElem?_insert_eq] at hd'
    split at hd'
    case isTrue hk => rw [← Option.some.inj hd', hpair.mp hk]
    case isFalse => exact h.owner_eq d' hd'
  · intro j hj
    simp only [Registry.put, getElem?_insert_eq] at hj
    split at hj
    case isTrue ha => rw [← Option.some.inj hj, hpair.mpr ha]
    case isFalse => exact h.key_eq j hj

lemma Inverse.dropAll {l} (h : r.Inverse owner)
    (hl : ∀ e ∈ l, r.Matches owner e.1 e.2) : (r.dropAll l).Inverse owner := by
  induction l generalizing r with
  | nil => exact h
  | cons e l ih =>
    rw [forall_mem_cons] at hl
    exact ih (h.drop hl.1) fun e' he' => (hl.2 e' he').drop e.1 e.2

omit [Std.LawfulEqOrd ν] [DecidableEq ν] in
lemma records_dropAll (r : Registry κ ν δ) (l) (k : κ) :
    (r.dropAll l).records[k]? = if k ∈ l.map Prod.fst then none else r.records[k]? := by
  induction l generalizing r with
  | nil => simp [Registry.dropAll]
  | cons e l ih =>
    change ((r.drop e.1 e.2).dropAll l).records[k]? = _
    rw [ih, Registry.drop, getElem?_erase_eq]
    simp only [map_cons, mem_cons]
    by_cases hk : e.1 = k
    · simp [hk]
    · have hk' : k ≠ e.1 := fun heq => hk heq.symm
      simp only [if_neg hk, hk', false_or]

lemma Inverse.putAll {l} (h : r.Inverse owner) (hl : ∀ e ∈ l, r.Matches owner e.1 (owner e.2))
    (hpair : ∀ e ∈ l, ∀ e' ∈ l, e.1 = e'.1 ↔ owner e.2 = owner e'.2) :
    (r.putAll owner l).Inverse owner := by
  induction l generalizing r with
  | nil => exact h
  | cons e l ih =>
    rw [forall_mem_cons] at hl
    refine ih (h.put hl.1) (fun e' he' => (hl.2 e' he').put ?_) fun e₁ h₁ e₂ h₂ => ?_
    · exact hpair e mem_cons_self e' (mem_cons_of_mem _ he')
    · exact hpair e₁ (mem_cons_of_mem _ h₁) e₂ (mem_cons_of_mem _ h₂)

omit [Std.LawfulEqOrd ν] [DecidableEq ν] in
lemma records_putAll {l : List (κ × δ)} {f : κ → Option δ} (hl : ∀ k d, (k, d) ∈ l ↔ f k = some d)
    (k : κ) : (r.putAll owner l).records[k]? = (f k).or r.records[k]? := by
  have hfold : (r.putAll owner l).records = l.foldl (fun t e => t.insert e.1 e.2) r.records := by
    clear hl
    induction l generalizing r with
    | nil => rfl
    | cons e l ih => exact ih
  rw [hfold, getElem?_foldl_insert, lookup_eq_of_graph (f := f) (by simpa using hl)]

end Registry

end

end Firo.Lib
