import Firo.Miner.Selection

/-! The modified entries of `addPackageTxs` count at least the ancestors that are not in the block
yet, also where an entry failed and came back, so a package that passes the test fits. -/
namespace Firo.Miner

open Firo.Lib Firo.Spark CTxMemPool PackageState
open List hiding Disjoint lt_irrefl

variable {pool : CTxMemPool} {ctx : MinerContext} {txBlackList s s' : SetEntries}
  {a a' : BlockAssembler} {e it iter : CTxMemPoolEntry} {m : CTxMemPoolModifiedEntry}

/-- The size and the signature operations of an entry with its ancestors outside of the set. -/
structure Covers (pool : CTxMemPool) (s : SetEntries) (m : CTxMemPoolModifiedEntry) : Prop where
  size : ∑ x ∈ pool.package m.iter \ s, pool.getTxSize x ≤ m.nSizeWithAncestors
  sigOps : ∑ x ∈ pool.package m.iter \ s, x.sigOpCost ≤ m.nSigOpCostWithAncestors

lemma Covers.mono (h : Covers pool s m) (hs : s ⊆ s') : Covers pool s' m where
  size := (Finset.sum_le_sum_of_subset (Finset.sdiff_subset_sdiff subset_rfl hs)).trans h.size
  sigOps := (Finset.sum_le_sum_of_subset (Finset.sdiff_subset_sdiff subset_rfl hs)).trans h.sigOps

lemma Covers.ofEntry (hpool : pool.Consistent) (he : e ∈ pool.entries) :
    Covers pool s (.ofEntry e) where
  size := (Finset.sum_le_sum_of_subset Finset.sdiff_subset).trans (hpool.size_eq e he).ge
  sigOps := (Finset.sum_le_sum_of_subset Finset.sdiff_subset).trans (hpool.sigOpCost_eq e he).ge

lemma Covers.without (h : Covers pool s m) (hit : it ∈ pool.package m.iter) (hs : it ∉ s)
    (fee : Int) : Covers pool (insert it s) (m.without pool it fee) := by
  have hmem : it ∈ pool.package m.iter \ s := Finset.mem_sdiff.mpr ⟨hit, hs⟩
  have hsize := Finset.add_sum_erase _ pool.getTxSize hmem
  have hsigOps := Finset.add_sum_erase _ CTxMemPoolEntry.sigOpCost hmem
  have hle := h.size
  have hle' := h.sigOps
  constructor
  · simp only [CTxMemPoolModifiedEntry.without, Finset.sdiff_insert]
    omega
  · simp only [CTxMemPoolModifiedEntry.without, Finset.sdiff_insert]
    omega

/-- An entry of `mapModifiedTx`: it depends on another transaction, and may join the block. -/
structure Modifies (pool : CTxMemPool) (txBlackList : SetEntries) (a : BlockAssembler)
    (m : CTxMemPoolModifiedEntry) : Prop where
  joins : Joins pool txBlackList a m.iter
  regular : hasPrivateInputs m.iter.tx = false

/-- The map of modified entries, for the transactions `s` that are in the block. -/
structure ModifiedMap (pool : CTxMemPool) (txBlackList : SetEntries) (a : BlockAssembler)
    (s : SetEntries) (mapModifiedTx : List CTxMemPoolModifiedEntry) : Prop where
  nodup : (mapModifiedTx.map CTxMemPoolModifiedEntry.iter).Nodup
  modifies : ∀ m ∈ mapModifiedTx, Modifies pool txBlackList a m
  covers : ∀ m ∈ mapModifiedTx, Covers pool s m

variable {l : List CTxMemPoolModifiedEntry} {desc : CTxMemPoolEntry} {added : SetEntries}

lemma ModifiedMap.mono (h : ModifiedMap pool txBlackList a s l) (hs : s ⊆ s') :
    ModifiedMap pool txBlackList a s' l :=
  ⟨h.nodup, h.modifies, fun m hm => (h.covers m hm).mono hs⟩

lemma ModifiedMap.filter (h : ModifiedMap pool txBlackList a s l)
    (p) : ModifiedMap pool txBlackList a s (l.filter p) :=
  ⟨h.nodup.sublist (filter_sublist.map _), fun m hm => h.modifies m (mem_filter.mp hm).1,
    fun m hm => h.covers m (mem_filter.mp hm).1⟩

lemma ModifiedMap.length_le (h : ModifiedMap pool txBlackList a s l) :
    l.length ≤ pool.mapTx.length := by
  have hl : _ ≤ pool.mapTx.length := length_le_of_nodup h.nodup fun e he => by
    obtain ⟨m, hm, rfl⟩ := mem_map.mp he
    exact (h.modifies m hm).joins.entry
  simpa using hl

lemma mem_updateModified (hm : m ∈ updateModified pool it l desc) :
    (m ∈ l ∧ m.iter ≠ desc) ∨ ∃ fee m₀, m = m₀.without pool it fee ∧ m₀.iter = desc ∧
      (m₀ ∈ l ∨ m₀ = .ofEntry desc) := by
  unfold updateModified at hm
  split at hm
  case isTrue hany =>
    obtain ⟨m₀, hm₀, rfl⟩ := mem_map.mp hm
    by_cases heq : m₀.iter = desc
    · rw [if_pos heq]
      exact .inr ⟨_, m₀, rfl, heq, .inl hm₀⟩
    · rw [if_neg heq]
      exact .inl ⟨hm₀, heq⟩
  case isFalse hany =>
    rcases mem_cons.mp hm with rfl | hm
    · exact .inr ⟨_, _, rfl, rfl, .inr rfl⟩
    · refine .inl ⟨hm, fun heq => hany ?_⟩
      exact any_eq_true.mpr ⟨m, hm, beq_iff_eq.mpr heq⟩

lemma nodup_updateModified (h : (l.map CTxMemPoolModifiedEntry.iter).Nodup) :
    ((updateModified pool it l desc).map CTxMemPoolModifiedEntry.iter).Nodup := by
  unfold updateModified
  split
  case isTrue =>
    have hmap : (l.map fun m => if m.iter = desc then m.without pool it it.nFee else m).map
        CTxMemPoolModifiedEntry.iter = l.map CTxMemPoolModifiedEntry.iter := by
      rw [map_map]
      apply map_congr_left
      intro m _
      by_cases heq : m.iter = desc <;> simp [heq, CTxMemPoolModifiedEntry.without]
    rwa [hmap]
  case isFalse hany =>
    refine nodup_cons.mpr ⟨fun hmem => hany ?_, h⟩
    obtain ⟨m, hm, heq⟩ := mem_map.mp hmem
    exact any_eq_true.mpr ⟨m, hm, beq_iff_eq.mpr heq⟩

structure Loses (pool : CTxMemPool) (txBlackList : SetEntries) (a : BlockAssembler)
    (it desc : CTxMemPoolEntry) : Prop where
  joins : Joins pool txBlackList a desc
  regular : hasPrivateInputs desc.tx = false
  depends : it ∈ pool.package desc

lemma ModifiedMap.foldl_updateModified (hpool : pool.Consistent) {descs : List CTxMemPoolEntry}
    (hit : it ∉ s) (hdescs : ∀ desc ∈ descs, Loses pool txBlackList a it desc)
    (hnodup : descs.Nodup) (h : ModifiedMap pool txBlackList a (insert it s) l)
    (hcome : ∀ m ∈ l, m.iter ∈ descs → Covers pool s m) :
    ModifiedMap pool txBlackList a (insert it s) (descs.foldl (updateModified pool it) l) := by
  induction descs generalizing l with
  | nil => exact h
  | cons desc rest ih =>
    rw [forall_mem_cons] at hdescs
    obtain ⟨hnew, hnodup⟩ := nodup_cons.mp hnodup
    have hbase : ∀ m₀ : CTxMemPoolModifiedEntry, m₀.iter = desc →
        m₀ ∈ l ∨ m₀ = .ofEntry desc → Covers pool s m₀ := by
      rintro m₀ heq (hm₀ | rfl)
      · exact hcome m₀ hm₀ (heq ▸ mem_cons_self)
      · exact Covers.ofEntry hpool hdescs.1.joins.entry
    refine ih hdescs.2 hnodup ⟨nodup_updateModified h.nodup, fun m hm => ?_, fun m hm => ?_⟩ ?_
    · rcases mem_updateModified hm with ⟨hm, -⟩ | ⟨fee, m₀, rfl, heq, -⟩
      · exact h.modifies m hm
      · exact ⟨heq ▸ hdescs.1.joins, heq ▸ hdescs.1.regular⟩
    · rcases mem_updateModified hm with ⟨hm, -⟩ | ⟨fee, m₀, rfl, heq, hm₀⟩
      · exact h.covers m hm
      · exact (hbase m₀ heq hm₀).without (heq ▸ hdescs.1.depends) hit fee
    · intro m hm hrest
      rcases mem_updateModified hm with ⟨hm, -⟩ | ⟨fee, m₀, rfl, heq, -⟩
      · exact hcome m hm (mem_cons_of_mem _ hrest)
      · exact absurd (heq ▸ hrest) hnew

lemma nodup_inOrder (hpool : pool.Consistent) : (pool.inOrder s).Nodup :=
  (perm_insertionSort _ _).nodup_iff.mpr (hpool.nodup.of_map.filter _)

lemma regular_of_descends (h : pool.Descends it e) (hne : e ≠ it) :
    hasPrivateInputs e.tx = false := by
  rcases Relation.ReflTransGen.cases_tail h with heq | ⟨p, -, hp⟩
  · exact absurd heq hne
  · have hspends := (Finset.mem_filter.mp hp).2
    unfold spendsFrom at hspends
    rw [Bool.and_eq_true, Bool.not_eq_true'] at hspends
    exact hspends.1

lemma mem_openDescendants (hit : it ∈ pool.entries) :
    desc ∈ openDescendants pool txBlackList added it ↔
      pool.Descends it desc ∧ desc ∉ added ∧ desc ∉ txBlackList := by
  have hclosed : Closed pool.getMemPoolChildren ∅ := Blocked.empty.closed
  have hdesc : ∀ y, y ∈ pool.calculateDescendants it ∅ ↔ pool.Descends it y := fun y => by
    rw [mem_calculateDescendants hclosed hit]
    simp
  have hsub : pool.calculateDescendants it ∅ ⊆ pool.entries :=
    fun y hy => Descends.mem hit ((hdesc y).mp hy)
  unfold openDescendants
  rw [mem_filter, mem_inOrder hsub, hdesc, Bool.and_eq_true, decide_eq_true_eq, decide_eq_true_eq]

/-- The transactions that join the block: what depends on them is not in it. -/
structure Added (pool : CTxMemPool) (a : BlockAssembler) (added : SetEntries) : Prop where
  subset : added ⊆ pool.entries
  outside : ∀ it ∈ added, ∀ desc ∉ added, pool.Descends it desc → desc ∉ a.inBlock

lemma Added.loses (h : Added pool a added) (hit : it ∈ added)
    (hdesc : desc ∈ openDescendants pool txBlackList added it) :
    Loses pool txBlackList a it desc := by
  have hentry := h.subset hit
  obtain ⟨hdescends, hnew, hfree⟩ := (mem_openDescendants hentry).mp hdesc
  have hmem := Descends.mem hentry hdescends
  exact ⟨⟨hmem, hfree, h.outside it hit desc hnew hdescends⟩,
    regular_of_descends hdescends fun heq => hnew (heq ▸ hit),
    (mem_package_iff_descends hmem).mpr ⟨hentry, hdescends⟩⟩

section

variable (hpool : pool.Consistent) (hadded : Added pool a added)
include hpool hadded

lemma ModifiedMap.updateForAdded (hit : it ∈ added) (hs : it ∉ s)
    (h : ModifiedMap pool txBlackList a s l) : ModifiedMap pool txBlackList a (insert it s)
      (Miner.updateForAdded pool txBlackList added l it) := by
  unfold Miner.updateForAdded
  split
  · exact h.mono (Finset.subset_insert _ _)
  · exact (h.mono (Finset.subset_insert _ _)).foldl_updateModified hpool hs
      (fun desc hdesc => hadded.loses hit hdesc) ((nodup_inOrder hpool).filter _)
      fun m hm _ => h.covers m hm

lemma ModifiedMap.foldl_updateForAdded {its : List CTxMemPoolEntry}
    (hits : ∀ it ∈ its, it ∈ added) (hnodup : its.Nodup) (hs : ∀ it ∈ its, it ∉ s)
    (h : ModifiedMap pool txBlackList a s l) : ModifiedMap pool txBlackList a (s ∪ its.toFinset)
      (its.foldl (Miner.updateForAdded pool txBlackList added) l) := by
  induction its generalizing s l with
  | nil => simpa using h
  | cons it rest ih =>
    simp only [forall_mem_cons] at hits hs
    obtain ⟨hnew, hnodup⟩ := nodup_cons.mp hnodup
    have hrest := ih hits.2 hnodup (fun x hx => by
        rw [Finset.mem_insert, not_or]
        exact ⟨fun heq => hnew (heq ▸ hx), hs.2 x hx⟩)
      (h.updateForAdded hpool hadded hits.1 hs.1)
    rwa [foldl_cons, toFinset_cons, Finset.union_insert, ← Finset.insert_union]

lemma ModifiedMap.updatePackagesForAdded (hs : Disjoint added s)
    (h : ModifiedMap pool txBlackList a s l) : ModifiedMap pool txBlackList a (s ∪ added)
      (Miner.updatePackagesForAdded pool txBlackList added l) := by
  have hmem : ∀ it, it ∈ pool.inOrder added ↔ it ∈ added := fun it => mem_inOrder hadded.subset
  have hset : (pool.inOrder added).toFinset = added := by
    ext it
    rw [mem_toFinset, hmem]
  have hfold := h.foldl_updateForAdded hpool hadded (fun it hit => (hmem it).mp hit)
    (nodup_inOrder hpool) fun it hit => Finset.disjoint_left.mp hs ((hmem it).mp hit)
  rwa [hset] at hfold

end

lemma updatePackagesForAdded_of_private {env} (hit : it ∈ pool.entries)
    (hprivate : hasPrivateInputs it.tx = true) (hexcludes : pool.Excludes env it txBlackList)
    (l) : updatePackagesForAdded pool txBlackList {it} l = l := by
  have hnone : openDescendants pool txBlackList {it} it = [] := by
    rw [eq_nil_iff_forall_not_mem]
    intro desc hdesc
    obtain ⟨hdescends, hne, hfree⟩ := (mem_openDescendants hit).mp hdesc
    exact hfree (hexcludes.spend hprivate desc
      ⟨hdescends, fun heq => hne (Finset.mem_singleton.mpr heq)⟩)
  have hsame : Miner.updateForAdded pool txBlackList {it} l it = l := by
    unfold Miner.updateForAdded
    rw [hnone, List.foldl_nil, ite_self]
  have hfold : ∀ its : List CTxMemPoolEntry, (∀ x ∈ its, x = it) →
      its.foldl (Miner.updateForAdded pool txBlackList {it}) l = l := by
    intro its hits
    induction its with
    | nil => rfl
    | cons x rest ih =>
      rw [forall_mem_cons] at hits
      rw [foldl_cons, hits.1, hsame]
      exact ih hits.2
  apply hfold
  intro x hx
  exact Finset.mem_singleton.mp ((mem_inOrder (Finset.singleton_subset_iff.mpr hit)).mp hx)

instance : Std.Total fun a b : CTxMemPoolEntry => compareByAncestorCount a b = true where
  total a b := by
    simp only [compareByAncestorCount, Bool.or_eq_true, Bool.and_eq_true, decide_eq_true_eq,
      beq_iff_eq]
    omega

instance : IsTrans CTxMemPoolEntry fun a b => compareByAncestorCount a b = true where
  trans a b c := by
    simp only [compareByAncestorCount, Bool.or_eq_true, Bool.and_eq_true, decide_eq_true_eq,
      beq_iff_eq]
    omega

def openPackage (pool : CTxMemPool) (a : BlockAssembler) (iter : CTxMemPoolEntry) : SetEntries :=
  pool.package iter \ a.inBlock

lemma insert_ancestors_eq (hnew : iter ∉ a.inBlock) :
    insert iter ((pool.calculateMemPoolAncestors iter).filter (· ∉ a.inBlock)) =
      openPackage pool a iter := by
  ext x
  simp only [openPackage, package, Finset.mem_insert, Finset.mem_filter, Finset.mem_sdiff]
  constructor
  · rintro (rfl | ⟨hx, hnot⟩)
    · exact ⟨.inl rfl, hnew⟩
    · exact ⟨.inr hx, hnot⟩
  · rintro ⟨rfl | hx, hnot⟩
    · exact .inl rfl
    · exact .inr ⟨hx, hnot⟩

lemma mem_sortForBlock (hs : s ⊆ pool.entries) : e ∈ sortForBlock pool s ↔ e ∈ s := by
  rw [sortForBlock, mem_insertionSort, mem_inOrder hs]

lemma nodup_sortForBlock (hpool : pool.Consistent) : (sortForBlock pool s).Nodup :=
  (perm_insertionSort _ _).nodup_iff.mpr (nodup_inOrder hpool)

lemma sum_sortForBlock (hpool : pool.Consistent) (hs : s ⊆ pool.entries)
    (f : CTxMemPoolEntry → Nat) : ((sortForBlock pool s).map f).sum = ∑ x ∈ s, f x := by
  have hset : (sortForBlock pool s).toFinset = s := by
    ext e
    rw [mem_toFinset, mem_sortForBlock hs]
  rw [← sum_toFinset f (nodup_sortForBlock hpool), hset]

section

variable {env : PayloadEnv} (hpool : pool.Consistent) (hbl : pool.Blocked txBlackList)
  (hex : ∀ e ∈ pool.entries, pool.Excludes env e txBlackList)
  (hiter : Joins pool txBlackList a iter)

include hiter

lemma openPackage_subset : openPackage pool a iter ⊆ pool.entries :=
  Finset.sdiff_subset.trans (package_subset hiter.entry)

lemma self_mem_openPackage : iter ∈ openPackage pool a iter :=
  Finset.mem_sdiff.mpr ⟨self_mem_package, hiter.new⟩

include hbl in
lemma Joins.package (he : e ∈ openPackage pool a iter) : Joins pool txBlackList a e := by
  obtain ⟨hpackage, hnew⟩ := Finset.mem_sdiff.mp he
  obtain ⟨hentry, hdesc⟩ := (mem_package_iff_descends hiter.entry).mp hpackage
  exact ⟨hentry, fun hblocked => hiter.free (hbl.closed.leads hblocked hdesc), hnew⟩

include hex in
lemma Joins.regular (he : e ∈ openPackage pool a iter) (hne : e ≠ iter) :
    hasPrivateInputs e.tx = false := by
  obtain ⟨hentry, hdesc⟩ := (mem_package_iff_descends hiter.entry).mp (Finset.mem_sdiff.mp he).1
  by_contra hprivate
  rw [Bool.not_eq_false] at hprivate
  exact hiter.free ((hex e hentry).spend hprivate iter ⟨hdesc, hne.symm⟩)

lemma openPackage_of_private (hprivate : hasPrivateInputs iter.tx = true) :
    openPackage pool a iter = {iter} := by
  have hparents : pool.getMemPoolParents iter = ∅ := by
    rw [Finset.eq_empty_iff_forall_notMem]
    intro p hp
    have hspends := (Finset.mem_filter.mp hp).2
    simp [spendsFrom, hprivate] at hspends
  ext x
  rw [openPackage, Finset.mem_sdiff, mem_package_iff, Finset.mem_singleton]
  constructor
  · rintro ⟨hleads, -⟩
    rcases Relation.ReflTransGen.cases_head hleads with rfl | ⟨p, hp, -⟩
    · rfl
    · rw [hparents] at hp
      cases Finset.notMem_empty p hp
  · rintro rfl
    exact ⟨.refl, hiter.new⟩

include hpool in
lemma ordered_sortForBlock :
    Ordered pool a.inBlock (sortForBlock pool (openPackage pool a iter)) := by
  intro l₁ e l₂ hl p hp
  have hsub := openPackage_subset hiter
  have hsorted := pairwise_insertionSort (fun a b => compareByAncestorCount a b = true)
    (pool.inOrder (openPackage pool a iter))
  change List.Pairwise _ (sortForBlock pool (openPackage pool a iter)) at hsorted
  have he : e ∈ openPackage pool a iter := by
    rw [← mem_sortForBlock hsub, hl]
    exact mem_append_right _ mem_cons_self
  have hlt := hpool.count_lt (hsub he) hp
  by_cases hin : p ∈ a.inBlock
  · exact .inl hin
  right
  have hmem : p ∈ openPackage pool a iter :=
    Finset.mem_sdiff.mpr ⟨parent_mem_package (Finset.mem_sdiff.mp he).1 hp, hin⟩
  rw [← mem_sortForBlock hsub, hl] at hmem
  rcases mem_append.mp hmem with hbefore | hafter
  · exact hbefore
  · rw [hl] at hsorted
    rcases mem_cons.mp hafter with rfl | hafter
    · exact absurd hlt (lt_irrefl _)
    · have hle := (pairwise_cons.mp (pairwise_append.mp hsorted).2.1).1 p hafter
      simp only [compareByAncestorCount, Bool.or_eq_true, Bool.and_eq_true, decide_eq_true_eq,
        beq_iff_eq] at hle
      omega

end

lemma nTxWeight_le (pool : CTxMemPool) (e : CTxMemPoolEntry) :
    e.nTxWeight ≤ WITNESS_SCALE_FACTOR * pool.getTxSize e := by
  unfold CTxMemPool.getTxSize WITNESS_SCALE_FACTOR
  omega

lemma Selected.ancestor_mem (h : Selected pool ctx txBlackList a) (he : e ∈ a.inBlock)
    (hit : it ∈ pool.entries) (hdesc : pool.Descends it e) : it ∈ a.inBlock := by
  have hentry := (h.free e (h.mem_inBlock.mp he)).1
  have hleads := (descends_iff hentry).mp ⟨hit, hdesc⟩
  clear hdesc hentry hit
  induction hleads with
  | refl => exact he
  | tail _ hparent ih =>
    obtain ⟨l₁, l₂, hl⟩ := append_of_mem (h.mem_inBlock.mp ih)
    have hp := (h.ordered l₁ _ l₂ hl _ hparent).resolve_left (Finset.notMem_empty _)
    rw [h.mem_inBlock, hl]
    exact mem_append_left _ hp

structure Packaged (pool : CTxMemPool) (ctx : MinerContext) (txBlackList : SetEntries)
    (st : PackageState) : Prop where
  selected : Selected pool ctx txBlackList st.assembler
  fits : Fits ctx st.assembler
  mi_subset : ∀ e ∈ st.mi, e ∈ pool.entries
  mi_length : st.mi.length ≤ pool.mapTx.length
  modified : ModifiedMap pool txBlackList st.assembler st.assembler.inBlock st.mapModifiedTx

/-- Each round adds a package to the block, passes an entry of the index, or takes one from the
modified entries. -/
def PackageState.left (pool : CTxMemPool) (st : PackageState) : Nat :=
  (pool.mapTx.length - st.assembler.vtx.length) * (2 * pool.mapTx.length + 1) +
    (st.mi.length + st.mapModifiedTx.length)

section

variable {env : PayloadEnv} {st : PackageState} (hpool : pool.Consistent)
  (hbl : pool.Blocked txBlackList) (hex : ∀ e ∈ pool.entries, pool.Excludes env e txBlackList)
  (h : Packaged pool ctx txBlackList st) (hiter : Joins pool txBlackList st.assembler iter)

def PackageState.assembled (pool : CTxMemPool) (ctx : MinerContext) (st : PackageState)
    (iter : CTxMemPoolEntry) : BlockAssembler :=
  (sortForBlock pool (openPackage pool st.assembler iter)).foldl
    (fun a e => a.addToBlock ctx e) st.assembler

include hpool hbl hex h hiter

lemma Packaged.assembled (hspend : iter.tx.isSparkSpend = false) :
    Selected pool ctx txBlackList (st.assembled pool ctx iter) ∧
      (st.assembled pool ctx iter).vtx = st.assembler.vtx ++
        sortForBlock pool (openPackage pool st.assembler iter) := by
  have hsub := openPackage_subset hiter
  apply h.selected.foldl hpool (nodup_sortForBlock hpool)
  · intro e he
    exact hiter.package hbl ((mem_sortForBlock hsub).mp he)
  · exact ordered_sortForBlock hpool hiter
  · intro e he
    by_cases heq : e = iter
    · exact heq ▸ hspend
    · have hregular := hiter.regular hex ((mem_sortForBlock hsub).mp he) heq
      simp only [hasPrivateInputs, Bool.or_eq_false_iff] at hregular
      exact hregular.2

lemma Packaged.modified_assembled (hspend : iter.tx.isSparkSpend = false) :
    ModifiedMap pool txBlackList (st.assembled pool ctx iter) (st.assembled pool ctx iter).inBlock
      (updatePackagesForAdded pool txBlackList (openPackage pool st.assembler iter)
        (st.mapModifiedTx.filter fun m =>
          m.iter ∉ sortForBlock pool (openPackage pool st.assembler iter))) := by
  obtain ⟨hsel, hvtx⟩ := h.assembled hpool hbl hex hiter hspend
  have hsub := openPackage_subset hiter
  have hin : (st.assembled pool ctx iter).inBlock =
      st.assembler.inBlock ∪ openPackage pool st.assembler iter := by
    ext x
    rw [hsel.mem_inBlock, hvtx, mem_append, mem_sortForBlock hsub, Finset.mem_union,
      h.selected.mem_inBlock]
  rw [hin]
  apply ModifiedMap.updatePackagesForAdded hpool
  · refine ⟨hsub, fun it hit desc hnew hdesc hmem => ?_⟩
    rw [hin, Finset.mem_union] at hmem
    exact (Finset.mem_sdiff.mp hit).2
      (h.selected.ancestor_mem (hmem.resolve_right hnew) (hsub hit) hdesc)
  · exact Finset.sdiff_disjoint
  · have hfilter := h.modified.filter fun m =>
      m.iter ∉ sortForBlock pool (openPackage pool st.assembler iter)
    refine ⟨hfilter.nodup, fun m hm => ?_, hfilter.covers⟩
    obtain ⟨hjoins, hregular⟩ := hfilter.modifies m hm
    have hnot := of_decide_eq_true (mem_filter.mp hm).2
    refine ⟨⟨hjoins.entry, hjoins.free, fun hmem => ?_⟩, hregular⟩
    rw [hin, Finset.mem_union, ← mem_sortForBlock hsub] at hmem
    exact hmem.elim hjoins.new hnot

omit hbl hex h in
lemma sortForBlock_of_spend (hspend : iter.tx.isSparkSpend = true) :
    sortForBlock pool (openPackage pool st.assembler iter) = [iter] := by
  have hprivate : hasPrivateInputs iter.tx = true := by simp [hasPrivateInputs, hspend]
  have hpackage := openPackage_of_private hiter hprivate
  have hsub := openPackage_subset hiter
  apply perm_singleton.mp
  rw [perm_ext_iff_of_nodup (nodup_sortForBlock hpool) (nodup_singleton _)]
  intro e
  rw [mem_sortForBlock hsub, hpackage, Finset.mem_singleton, mem_singleton]

omit hbl hex in
lemma Packaged.fits_of_vtx (hsel : Selected pool ctx txBlackList a)
    (hvtx : a.vtx = st.assembler.vtx ++ sortForBlock pool (openPackage pool st.assembler iter))
    (hcovers : Covers pool st.assembler.inBlock m) (hm : m.iter = iter)
    (htest : st.assembler.testPackage ctx m.nSizeWithAncestors m.nSigOpCostWithAncestors = true) :
    Fits ctx a := by
  have hsub := openPackage_subset hiter
  obtain ⟨hweight, hsigOps⟩ := h.selected.totals_append hsel hvtx
  rw [sum_sortForBlock hpool hsub] at hweight hsigOps
  unfold BlockAssembler.testPackage at htest
  rw [Bool.and_eq_true, decide_eq_true_eq, decide_eq_true_eq] at htest
  obtain ⟨hsize, hcost⟩ := hcovers
  rw [hm] at hsize hcost
  have hle : ∑ x ∈ openPackage pool st.assembler iter, x.nTxWeight ≤
      WITNESS_SCALE_FACTOR * m.nSizeWithAncestors := by
    calc ∑ x ∈ openPackage pool st.assembler iter, x.nTxWeight
        ≤ ∑ x ∈ openPackage pool st.assembler iter, WITNESS_SCALE_FACTOR * pool.getTxSize x :=
          Finset.sum_le_sum fun x _ => nTxWeight_le pool x
      _ = WITNESS_SCALE_FACTOR * ∑ x ∈ openPackage pool st.assembler iter, pool.getTxSize x :=
          (Finset.mul_sum ..).symm
      _ ≤ WITNESS_SCALE_FACTOR * m.nSizeWithAncestors := Nat.mul_le_mul_left _ hsize
  refine ⟨fun _ => ?_, ?_⟩
  · exact hweight.trans_lt ((Nat.add_le_add_left hle _).trans_lt htest.1)
  · exact hsigOps.trans_lt ((Nat.add_le_add_left hcost _).trans_lt htest.2)

omit hbl in
lemma Packaged.add_spend (hspend : iter.tx.isSparkSpend = true)
    (hcovers : Covers pool st.assembler.inBlock m) (hm : m.iter = iter)
    (htest : st.assembler.testPackage ctx m.nSizeWithAncestors m.nSigOpCostWithAncestors = true) :
    Packaged pool ctx txBlackList
      (st.add pool ctx txBlackList (openPackage pool st.assembler iter)) ∧
      st.assembler.vtx.length ≤
        (st.add pool ctx txBlackList (openPackage pool st.assembler iter)).assembler.vtx.length ∧
      (st.add pool ctx txBlackList (openPackage pool st.assembler iter)).mapModifiedTx.length ≤
        st.mapModifiedTx.length := by
  have hprivate : hasPrivateInputs iter.tx = true := by simp [hasPrivateInputs, hspend]
  have hlist := sortForBlock_of_spend hpool hiter hspend
  have hadds := addsTo_addToBlock ctx st.assembler iter
  have hsel := h.selected.adds hpool hiter (e := iter) (fun p hp => by
    have hspends := (Finset.mem_filter.mp hp).2
    simp [spendsFrom, hprivate] at hspends) hadds
  have hmap : (st.add pool ctx txBlackList (openPackage pool st.assembler iter)).mapModifiedTx =
      st.mapModifiedTx.filter fun m => m.iter ∉ [iter] := by
    unfold add
    rw [hlist]
    simp only [openPackage_of_private hiter hprivate]
    exact updatePackagesForAdded_of_private hiter.entry hprivate (hex iter hiter.entry) _
  have hasm : (st.add pool ctx txBlackList (openPackage pool st.assembler iter)).assembler =
      st.assembler.addToBlock ctx iter := by
    unfold add
    rw [hlist]
    rfl
  have hsub : st.assembler.inBlock ⊆ (st.assembler.addToBlock ctx iter).inBlock := by
    intro x hx
    rw [hsel.mem_inBlock, hadds.vtx_eq]
    have hx := h.selected.mem_inBlock.mp hx
    split
    · exact mem_append_left _ hx
    · exact hx
  refine ⟨⟨hasm ▸ hsel, ?_, h.mi_subset, h.mi_length, ?_⟩, ?_, ?_⟩
  · rw [hasm]
    have hvtx := hadds.vtx_eq
    split at hvtx
    · exact h.fits_of_vtx hpool hiter hsel (hlist ▸ hvtx) hcovers hm htest
    · obtain ⟨hweight, hsigOps⟩ := h.selected.totals_append hsel (hvtx.trans (append_nil _).symm)
      refine ⟨fun hne => ?_, ?_⟩
      · exact hweight.trans_lt (h.fits.weight (hvtx ▸ hne))
      · exact hsigOps.trans_lt h.fits.sigOps
  · rw [hasm, hmap]
    have hfilter := h.modified.filter fun m => m.iter ∉ [iter]
    refine ⟨hfilter.nodup, fun m hm => ?_, fun m hm => (hfilter.covers m hm).mono hsub⟩
    obtain ⟨hjoins, hregular⟩ := hfilter.modifies m hm
    have hnot := of_decide_eq_true (mem_filter.mp hm).2
    refine ⟨⟨hjoins.entry, hjoins.free, fun hmem => ?_⟩, hregular⟩
    rw [hsel.mem_inBlock, hadds.vtx_eq] at hmem
    split at hmem
    · exact (mem_append.mp hmem).elim (fun hin => hjoins.new (h.selected.mem_inBlock.mpr hin)) hnot
    · exact hjoins.new (h.selected.mem_inBlock.mpr hmem)
  · rw [hasm, hadds.vtx_eq]
    split
    · rw [length_append]
      exact Nat.le_add_right _ _
    · exact le_rfl
  · rw [hmap]
    exact length_filter_le _ _

lemma Packaged.add_regular (hspend : iter.tx.isSparkSpend = false)
    (hcovers : Covers pool st.assembler.inBlock m) (hm : m.iter = iter)
    (htest : st.assembler.testPackage ctx m.nSizeWithAncestors m.nSigOpCostWithAncestors = true) :
    Packaged pool ctx txBlackList
      (st.add pool ctx txBlackList (openPackage pool st.assembler iter)) ∧
      st.assembler.vtx.length <
        (st.add pool ctx txBlackList (openPackage pool st.assembler iter)).assembler.vtx.length :=
          by
  obtain ⟨hsel, hvtx⟩ := h.assembled hpool hbl hex hiter hspend
  have hpos : 0 < (sortForBlock pool (openPackage pool st.assembler iter)).length :=
    length_pos_of_mem
      ((mem_sortForBlock (openPackage_subset hiter)).mpr (self_mem_openPackage hiter))
  refine ⟨⟨hsel, h.fits_of_vtx hpool hiter hsel hvtx hcovers hm htest, h.mi_subset, h.mi_length,
    h.modified_assembled hpool hbl hex hiter hspend⟩, ?_⟩
  change _ < (st.assembled pool ctx iter).vtx.length
  rw [hvtx, length_append]
  omega

end

lemma Packaged.left_lt {st st' : PackageState} (h' : Packaged pool ctx txBlackList st')
    (hlt : st.assembler.vtx.length < st'.assembler.vtx.length) : st'.left pool < st.left pool := by
  have hmi := h'.mi_length
  have hmap := h'.modified.length_le
  have hroom := h'.selected.length_le
  have hmul : (pool.mapTx.length - st'.assembler.vtx.length + 1) * (2 * pool.mapTx.length + 1) ≤
      (pool.mapTx.length - st.assembler.vtx.length) * (2 * pool.mapTx.length + 1) :=
    Nat.mul_le_mul_right _ (by omega)
  rw [Nat.add_one_mul] at hmul
  unfold left
  omega

lemma PackageState.left_le {st st' : PackageState}
    (hle : st.assembler.vtx.length ≤ st'.assembler.vtx.length) (hmi : st'.mi = st.mi)
    (hmap : st'.mapModifiedTx.length ≤ st.mapModifiedTx.length) : st'.left pool ≤ st.left pool := by
  have hmul : (pool.mapTx.length - st'.assembler.vtx.length) * (2 * pool.mapTx.length + 1) ≤
      (pool.mapTx.length - st.assembler.vtx.length) * (2 * pool.mapTx.length + 1) :=
    Nat.mul_le_mul_right _ (by omega)
  unfold left
  rw [hmi]
  omega

lemma Packaged.fail {st} (h : Packaged pool ctx txBlackList st) (fUsingModified : Bool) (iter) :
    Packaged pool ctx txBlackList (st.fail fUsingModified iter) := by
  unfold PackageState.fail
  split
  · exact ⟨h.selected, h.fits, h.mi_subset, h.mi_length, h.modified.filter _⟩
  · exact h

section

variable {env : PayloadEnv} {st : PackageState} (hpool : pool.Consistent)
  (hbl : pool.Blocked txBlackList) (hex : ∀ e ∈ pool.entries, pool.Excludes env e txBlackList)
  (h : Packaged pool ctx txBlackList st)

include hpool hbl hex h

lemma Packaged.consider {fUsingModified : Bool} {bound : Nat}
    (hiter : Joins pool txBlackList st.assembler m.iter)
    (hcovers : Covers pool st.assembler.inBlock m)
    (hfail : (st.fail fUsingModified m.iter).left pool < bound) (hle : st.left pool ≤ bound)
    (hspend : m.iter.tx.isSparkSpend = true → st.left pool < bound) :
    (st.consider pool ctx txBlackList fUsingModified m).Meets (Packaged pool ctx txBlackList)
      (left pool) (Packaged pool ctx txBlackList) bound := by
  have hfailed := h.fail fUsingModified m.iter
  unfold PackageState.consider
  dsimp only
  rw [if_neg hiter.new]
  split
  · exact h
  split
  · have hcount : Packaged pool ctx txBlackList { st.fail fUsingModified m.iter with
        nConsecutiveFailed := st.nConsecutiveFailed + 1 } :=
      ⟨hfailed.selected, hfailed.fits, hfailed.mi_subset, hfailed.mi_length, hfailed.modified⟩
    split
    · exact hcount
    · exact ⟨hcount, hfail⟩
  case isFalse htest =>
    rw [Bool.not_eq_true', Bool.not_eq_false] at htest
    rw [insert_ancestors_eq hiter.new]
    split
    · exact ⟨hfailed, hfail⟩
    · by_cases hs : m.iter.tx.isSparkSpend = true
      · obtain ⟨hadd, hvtx, hmap⟩ := h.add_spend hpool hex hiter hs hcovers rfl htest
        exact ⟨hadd, (left_le hvtx rfl hmap).trans_lt (hspend hs)⟩
      · obtain ⟨hadd, hvtx⟩ := h.add_regular hpool hbl hex hiter (Bool.eq_false_iff.mpr hs)
          hcovers rfl htest
        exact ⟨hadd, (hadd.left_lt hvtx).trans_le hle⟩

lemma Packaged.consider_modified (hm : m ∈ st.mapModifiedTx) :
    (st.consider pool ctx txBlackList true m).Meets (Packaged pool ctx txBlackList)
      (left pool) (Packaged pool ctx txBlackList) (st.left pool) := by
  obtain ⟨hjoins, hregular⟩ := h.modified.modifies m hm
  apply h.consider hpool hbl hex hjoins (h.modified.covers m hm)
  · have hshorter : (st.mapModifiedTx.filter fun x => x.iter ≠ m.iter).length <
        st.mapModifiedTx.length :=
      length_filter_lt_length_iff_exists.mpr ⟨m, hm, by simp⟩
    change (pool.mapTx.length - st.assembler.vtx.length) * (2 * pool.mapTx.length + 1) +
      (st.mi.length + (st.mapModifiedTx.filter fun x => x.iter ≠ m.iter).length) < st.left pool
    unfold left
    omega
  · exact le_rfl
  · intro hs
    simp [hasPrivateInputs, hs] at hregular

lemma Packaged.consider_next {rest} (hmi : st.mi = iter :: rest)
    (hskip : st.skipMapTxEntry txBlackList iter = false) :
    (PackageState.consider pool ctx txBlackList { st with mi := rest } false
      (.ofEntry iter)).Meets (Packaged pool ctx txBlackList) (PackageState.left pool)
        (Packaged pool ctx txBlackList) (st.left pool) := by
  have hentry : iter ∈ pool.entries := h.mi_subset iter (hmi ▸ mem_cons_self)
  have hlength := h.mi_length
  rw [hmi, length_cons] at hlength
  have hnext : Packaged pool ctx txBlackList { st with mi := rest } :=
    ⟨h.selected, h.fits, fun e he => h.mi_subset e (hmi ▸ mem_cons_of_mem _ he),
      show rest.length ≤ _ by omega, h.modified⟩
  have hlt : left pool { st with mi := rest } < st.left pool := by
    unfold left
    rw [hmi, length_cons]
    dsimp only
    omega
  simp only [skipMapTxEntry, Bool.or_eq_false_iff, decide_eq_false_iff_not] at hskip
  exact hnext.consider hpool hbl hex ⟨hentry, hskip.2, hskip.1.1.2⟩
    (Covers.ofEntry hpool hentry) hlt hlt.le fun _ => hlt

lemma Packaged.round : (st.round pool ctx txBlackList).Meets (Packaged pool ctx txBlackList)
      (left pool) (Packaged pool ctx txBlackList) (st.left pool) := by
  unfold PackageState.round
  dsimp only
  split
  case h_1 => exact h
  case h_2 m hmi hbest => exact h.consider_modified hpool hbl hex (bestBy_mem hbest)
  case h_3 iter rest hmi =>
    split
    case isTrue =>
      have hlength := h.mi_length
      rw [hmi, length_cons] at hlength
      refine ⟨⟨h.selected, h.fits, fun e he => h.mi_subset e (hmi ▸ mem_cons_of_mem _ he),
        show rest.length ≤ _ by omega, h.modified⟩, ?_⟩
      unfold left
      rw [hmi, length_cons]
      dsimp only
      omega
    case isFalse hskip =>
      rw [Bool.not_eq_true] at hskip
      split
      case h_1 m hbest =>
        split
        · exact h.consider_modified hpool hbl hex (bestBy_mem hbest)
        · exact h.consider_next hpool hbl hex hmi hskip
      case h_2 => exact h.consider_next hpool hbl hex hmi hskip

end

lemma addPackageTxs_spec {env} (hpool : pool.Consistent)
    (hbl : pool.Blocked txBlackList) (hex : ∀ e ∈ pool.entries, pool.Excludes env e txBlackList)
    (h : Selected pool ctx txBlackList a) (hfits : Fits ctx a) :
    ∃ a', addPackageTxs pool ctx txBlackList a = some a' ∧ Selected pool ctx txBlackList a' ∧
      Fits ctx a' := by
  have hadded : Added pool a a.inBlock := by
    refine ⟨fun e he => (h.free e (h.mem_inBlock.mp he)).1, fun _ _ desc hnew _ => hnew⟩
  have hnone : ModifiedMap pool txBlackList a ∅ [] := ⟨nodup_nil, nofun, nofun⟩
  have hmodified := hnone.updatePackagesForAdded hpool hadded (Finset.disjoint_empty_right _)
  rw [Finset.empty_union] at hmodified
  have hstart : Packaged pool ctx txBlackList (.start pool ctx txBlackList a) := by
    refine ⟨h, hfits, fun e he => ?_, ?_, hmodified⟩
    · rw [mem_entries]
      exact (mem_insertionSort _).mp he
    · exact (length_insertionSort _ _).le
  have hfuel : (start pool ctx txBlackList a).left pool <
      (pool.mapTx.length + 1) * (2 * pool.mapTx.length + 1) := by
    have hmi := hstart.mi_length
    have hmap := hstart.modified.length_le
    have hmul : (pool.mapTx.length - a.vtx.length) * (2 * pool.mapTx.length + 1) ≤
        pool.mapTx.length * (2 * pool.mapTx.length + 1) :=
      Nat.mul_le_mul_right _ (Nat.sub_le _ _)
    rw [Nat.add_one_mul]
    change (pool.mapTx.length - a.vtx.length) * (2 * pool.mapTx.length + 1) + _ < _
    omega
  obtain ⟨st, hst, hend⟩ := loop_spec (fun st hst => hst.round hpool hbl hex) hstart hfuel
  unfold addPackageTxs
  rw [hst]
  exact ⟨st.assembler, rfl, hend.selected, hend.fits⟩

end Firo.Miner
