import Mathlib

/-! The set of all nodes that some nodes of a graph lead to, computed with a set of nodes that are
still to be visited. The set that it starts from need not be empty: a walk does not enter what an
earlier walk has visited. -/
namespace Firo.Lib

variable {α : Type*} [DecidableEq α]

/-- Visit the nodes of `stage` and all that they lead to, in the order that `pick` gives. -/
def walk (pick : Finset α → Option α) (next : α → Finset α) : Nat → Finset α → Finset α → Finset α
  | 0, _, seen => seen
  | fuel + 1, stage, seen =>
    match pick stage with
    | none => seen
    | some x =>
      walk pick next fuel (stage.erase x ∪ (next x).filter (· ∉ insert x seen)) (insert x seen)

/-- The node `y` is `x` or behind it. -/
def Leads (next : α → Finset α) : α → α → Prop :=
  Relation.ReflTransGen fun x y => y ∈ next x

/-- All nodes that the nodes of the set have edges to are in the set. -/
def Closed (next : α → Finset α) (s : Finset α) : Prop :=
  ∀ x ∈ s, next x ⊆ s

variable {next : α → Finset α} {s stage seen nodes : Finset α} {x y : α}

omit [DecidableEq α] in
lemma Closed.leads (h : Closed next s) (hx : x ∈ s) (hxy : Leads next x y) : y ∈ s := by
  induction hxy with
  | refl => exact hx
  | tail _ hbc ih => exact h _ ih hbc

structure Picks (nodes : Finset α) (pick : Finset α → Option α) : Prop where
  mem : ∀ s x, pick s = some x → x ∈ s
  none : ∀ s ⊆ nodes, pick s = none → s = ∅

section

variable {pick : Finset α → Option α}

structure Walking (next : α → Finset α) (nodes stage seen : Finset α) : Prop where
  stage_subset : stage ⊆ nodes
  disjoint : Disjoint stage seen
  frontier : ∀ x ∈ seen, next x ⊆ seen ∪ stage

lemma Walking.step (h : Walking next nodes stage seen) (hx : x ∈ stage) (hnext : next x ⊆ nodes) :
    Walking next nodes (stage.erase x ∪ (next x).filter (· ∉ insert x seen)) (insert x seen) := by
  constructor
  · intro y hy
    rcases Finset.mem_union.mp hy with hy | hy
    · exact h.stage_subset (Finset.mem_of_mem_erase hy)
    · exact hnext (Finset.mem_of_mem_filter _ hy)
  · rw [Finset.disjoint_left]
    intro y hy hseen
    rcases Finset.mem_union.mp hy with hy | hy
    · rcases Finset.mem_insert.mp hseen with rfl | hseen
      · exact Finset.notMem_erase _ _ hy
      · exact Finset.disjoint_left.mp h.disjoint (Finset.mem_of_mem_erase hy) hseen
    · exact (Finset.mem_filter.mp hy).2 hseen
  · intro z hz y hy
    by_cases hseen : y ∈ insert x seen
    · exact Finset.mem_union_left _ hseen
    apply Finset.mem_union_right
    rcases Finset.mem_insert.mp hz with rfl | hz
    · exact Finset.mem_union_right _ (Finset.mem_filter.mpr ⟨hy, hseen⟩)
    · rw [Finset.mem_insert, not_or] at hseen
      rcases Finset.mem_union.mp (h.frontier z hz hy) with hys | hys
      · exact absurd hys hseen.2
      · exact Finset.mem_union_left _ (Finset.mem_erase.mpr ⟨hseen.1, hys⟩)

lemma Walking.leads (h : Walking next nodes stage seen) (hx : x ∈ seen)
    (hxy : Leads next x y) : y ∈ seen ∨ ∃ z ∈ stage, Leads next z y := by
  induction hxy with
  | refl => exact .inl hx
  | tail _ hbc ih =>
    rcases ih with hseen | ⟨z, hz, hzb⟩
    · rcases Finset.mem_union.mp (h.frontier _ hseen hbc) with hc | hc
      · exact .inl hc
      · exact .inr ⟨_, hc, .refl⟩
    · exact .inr ⟨z, hz, hzb.tail hbc⟩

/-- A walk with a step for each node that is not visited finds what the nodes to visit lead
to. -/
lemma mem_walk (hpick : Picks nodes pick) (hnext : ∀ x ∈ nodes, next x ⊆ nodes) {fuel : Nat}
    (h : Walking next nodes stage seen) (hfuel : (nodes \ seen).card ≤ fuel) :
    y ∈ walk pick next fuel stage seen ↔ y ∈ seen ∨ ∃ x ∈ stage, Leads next x y := by
  induction fuel generalizing stage seen with
  | zero =>
    have hempty : stage = ∅ := by
      rw [Nat.le_zero, Finset.card_eq_zero, Finset.sdiff_eq_empty_iff_subset] at hfuel
      exact Finset.disjoint_self_iff_empty _ |>.mp
        (h.disjoint.mono_right (h.stage_subset.trans hfuel))
    simp [walk, hempty]
  | succ fuel ih =>
    rw [walk]
    cases hp : pick stage with
    | none => simp [hpick.none stage h.stage_subset hp]
    | some x =>
      have hx := hpick.mem stage x hp
      have hnode := h.stage_subset hx
      have hnew : x ∉ seen := Finset.disjoint_left.mp h.disjoint hx
      have hstep := h.step hx (hnext x hnode)
      have hcard : (nodes \ insert x seen).card ≤ fuel := by
        rw [Finset.sdiff_insert, Finset.card_erase_of_mem (Finset.mem_sdiff.mpr ⟨hnode, hnew⟩)]
        omega
      dsimp only
      rw [ih hstep hcard]
      constructor
      · rintro (hy | ⟨z, hz, hzy⟩)
        · rcases Finset.mem_insert.mp hy with rfl | hy
          · exact .inr ⟨y, hx, .refl⟩
          · exact .inl hy
        · rcases Finset.mem_union.mp hz with hz | hz
          · exact .inr ⟨z, Finset.mem_of_mem_erase hz, hzy⟩
          · exact .inr ⟨x, hx, .head (Finset.mem_of_mem_filter _ hz) hzy⟩
      · rintro (hy | ⟨z, hz, hzy⟩)
        · exact .inl (Finset.mem_insert_of_mem hy)
        · by_cases hzx : z = x
          · exact hstep.leads (Finset.mem_insert.mpr (.inl hzx)) hzy
          · exact .inr ⟨z, Finset.mem_union_left _ (Finset.mem_erase.mpr ⟨hzx, hz⟩), hzy⟩

lemma mem_walk_singleton (hpick : Picks nodes pick) (hnext : ∀ x ∈ nodes, next x ⊆ nodes)
    (hseen : Closed next seen) (hx : x ∈ nodes) {fuel : Nat} (hfuel : nodes.card ≤ fuel) :
    y ∈ walk pick next fuel (if x ∈ seen then ∅ else {x}) seen ↔ y ∈ seen ∨ Leads next x y := by
  have hcard := (Finset.card_le_card (Finset.sdiff_subset (s := nodes) (t := seen))).trans hfuel
  split
  case isTrue hmem =>
    rw [mem_walk hpick hnext ⟨Finset.empty_subset _, Finset.disjoint_empty_left _, fun z hz =>
      (hseen z hz).trans Finset.subset_union_left⟩ hcard]
    constructor
    · rintro (hy | ⟨z, hz, -⟩)
      · exact .inl hy
      · cases Finset.notMem_empty z hz
    · rintro (hy | hxy)
      · exact .inl hy
      · exact .inl (hseen.leads hmem hxy)
  case isFalse hmem =>
    rw [mem_walk hpick hnext ⟨Finset.singleton_subset_iff.mpr hx,
      Finset.disjoint_singleton_left.mpr hmem, fun z hz =>
      (hseen z hz).trans Finset.subset_union_left⟩ hcard]
    simp

end

end Firo.Lib
