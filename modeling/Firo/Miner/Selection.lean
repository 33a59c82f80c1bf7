import Firo.Miner.Assembler

/-! The invariant of the assembler under `addToBlock`, and under the two loops that call it: the
block has each transaction once and behind its parents, none of them is blocked, and the totals are
the ones of its transactions. -/
namespace Firo.Miner

open Firo.Lib Firo.Spark CTxMemPool BlockAssembler PriorityState
open List hiding not_le not_lt

variable {pool : CTxMemPool} {ctx : MinerContext} {txBlackList : SetEntries}
  {a a' : BlockAssembler} {e : CTxMemPoolEntry}

/-- The parents of every entry of a list are in the set or before the entry. -/
def Ordered (pool : CTxMemPool) (before : SetEntries) (l : List CTxMemPoolEntry) : Prop :=
  ∀ l₁ e l₂, l = l₁ ++ e :: l₂ → ∀ p ∈ pool.getMemPoolParents e, p ∈ before ∨ p ∈ l₁

variable {l : List CTxMemPoolEntry} {blockFinished fNeedSizeAccounting : Bool}

lemma Ordered.tail {before} (h : Ordered pool before (e :: l)) :
    Ordered pool (insert e before) l := by
  intro l₁ x l₂ hl p hp
  rcases h (e :: l₁) x l₂ (by rw [hl, cons_append]) p hp with hb | hb
  · exact .inl (Finset.mem_insert_of_mem hb)
  · rcases mem_cons.mp hb with rfl | hb
    · exact .inl (Finset.mem_insert_self _ _)
    · exact .inr hb

lemma Ordered.head {before} (h : Ordered pool before (e :: l)) :
    pool.getMemPoolParents e ⊆ before := by
  intro p hp
  rcases h [] e l rfl p hp with hb | hb
  · exact hb
  · cases hb

lemma Ordered.concat (h : Ordered pool ∅ l) (hp : ∀ p ∈ pool.getMemPoolParents e, p ∈ l) :
    Ordered pool ∅ (l ++ [e]) := by
  intro l₁ x l₂ hl p hpx
  right
  rcases eq_nil_or_concat' l₂ with rfl | ⟨l₂, y, rfl⟩
  · obtain ⟨rfl, heq⟩ := append_inj' hl rfl
    obtain rfl := head_eq_of_cons_eq heq
    exact hp p hpx
  · rw [← cons_append, ← append_assoc] at hl
    obtain ⟨rfl, -⟩ := append_inj' hl rfl
    exact (h l₁ x l₂ rfl p hpx).resolve_left (Finset.notMem_empty _)

structure Selected (pool : CTxMemPool) (ctx : MinerContext) (txBlackList : SetEntries)
    (a : BlockAssembler) : Prop where
  nodup : a.vtx.Nodup
  inBlock_eq : a.inBlock = a.vtx.toFinset
  free : ∀ e ∈ a.vtx, e ∈ pool.entries ∧ e ∉ txBlackList
  ordered : Ordered pool ∅ a.vtx
  vTxFees_eq : a.vTxFees = a.vtx.map (·.nFee)
  vTxSigOpsCost_eq : a.vTxSigOpsCost = a.vtx.map (·.sigOpCost)
  nFees_eq : a.nFees = (a.vtx.map (·.nFee)).sum
  nBlockWeight_eq : a.nBlockWeight = 4000 + (a.vtx.map (·.nTxWeight)).sum
  nBlockSigOpsCost_eq : a.nBlockSigOpsCost = 100 + (a.vtx.map (·.sigOpCost)).sum
  spend : ∀ e ∈ a.vtx, e.tx.isSparkSpend = true → getSpendTransparentAmount e.tx ≤
    ctx.cp.getMaxValueSparkSpendPerTransaction ctx.nHeight
  counted : amounts a.vtx ≤ a.nSparkSpendAmount
  total : amounts a.vtx ≤ ctx.cp.getMaxValueSparkSpendPerBlock ctx.nHeight

structure Joins (pool : CTxMemPool) (txBlackList : SetEntries) (a : BlockAssembler)
    (e : CTxMemPoolEntry) : Prop where
  entry : e ∈ pool.entries
  free : e ∉ txBlackList
  new : e ∉ a.inBlock

namespace Selected

lemma mem_inBlock (h : Selected pool ctx txBlackList a) : e ∈ a.inBlock ↔ e ∈ a.vtx := by
  rw [h.inBlock_eq, mem_toFinset]

lemma push (h : Selected pool ctx txBlackList a) (he : Joins pool txBlackList a e)
    (hparents : pool.getMemPoolParents e ⊆ a.inBlock)
    (hspend : e.tx.isSparkSpend = true → getSpendTransparentAmount e.tx ≤
      ctx.cp.getMaxValueSparkSpendPerTransaction ctx.nHeight)
    {amount : Int} (hamount : amounts a.vtx + getSpendTransparentAmount e.tx ≤ amount)
    (htotal : amounts a.vtx + getSpendTransparentAmount e.tx ≤
      ctx.cp.getMaxValueSparkSpendPerBlock ctx.nHeight) :
    Selected pool ctx txBlackList ({ a with nSparkSpendAmount := amount }.push e) := by
  have hamounts : amounts (a.vtx ++ [e]) = amounts a.vtx + getSpendTransparentAmount e.tx := by
    simp [amounts]
  constructor
  case nodup =>
    exact nodup_append'.mpr ⟨h.nodup, nodup_singleton e,
      disjoint_singleton.mpr fun hmem => he.new (h.mem_inBlock.mpr hmem)⟩
  case inBlock_eq =>
    ext x
    simp [BlockAssembler.push, h.mem_inBlock]
  case free =>
    intro x hx
    rcases mem_append.mp hx with hx | hx
    · exact h.free x hx
    · obtain rfl := mem_singleton.mp hx
      exact ⟨he.entry, he.free⟩
  case ordered => exact h.ordered.concat fun p hp => h.mem_inBlock.mp (hparents hp)
  case vTxFees_eq => simp [BlockAssembler.push, h.vTxFees_eq]
  case vTxSigOpsCost_eq => simp [BlockAssembler.push, h.vTxSigOpsCost_eq]
  case nFees_eq => simp [BlockAssembler.push, h.nFees_eq]
  case nBlockWeight_eq => simp [BlockAssembler.push, h.nBlockWeight_eq, add_assoc]
  case nBlockSigOpsCost_eq => simp [BlockAssembler.push, h.nBlockSigOpsCost_eq, add_assoc]
  case spend =>
    intro x hx
    rcases mem_append.mp hx with hx | hx
    · exact h.spend x hx
    · obtain rfl := mem_singleton.mp hx
      exact hspend
  case counted => exact hamounts.trans_le hamount
  case total => exact hamounts.trans_le htotal

lemma keep (h : Selected pool ctx txBlackList a) {amount : Int} {lastFewTxs : Nat}
    (hamount : a.nSparkSpendAmount ≤ amount) : Selected pool ctx txBlackList { a with
      nSparkSpendAmount := amount, lastFewTxs, blockFinished, fNeedSizeAccounting } where
  nodup := h.nodup
  inBlock_eq := h.inBlock_eq
  free := h.free
  ordered := h.ordered
  vTxFees_eq := h.vTxFees_eq
  vTxSigOpsCost_eq := h.vTxSigOpsCost_eq
  nFees_eq := h.nFees_eq
  nBlockWeight_eq := h.nBlockWeight_eq
  nBlockSigOpsCost_eq := h.nBlockSigOpsCost_eq
  spend := h.spend
  counted := h.counted.trans hamount
  total := h.total

end Selected

/-- What `addToBlock` can do: skip a Spark spend, whose amount may be counted, or append the
transaction. -/
inductive AddsTo (ctx : MinerContext) (a : BlockAssembler) (e : CTxMemPoolEntry) :
    BlockAssembler → Prop
  | skip (hspend : e.tx.isSparkSpend = true) (hfits : a.sparkSpendFits ctx e.tx = false)
      (amount : Int) (hamount : amount = a.nSparkSpendAmount ∨
        amount = a.nSparkSpendAmount + getSpendTransparentAmount e.tx) :
      AddsTo ctx a e { a with nSparkSpendAmount := amount }
  | push (hfits : a.sparkSpendFits ctx e.tx = true) :
      AddsTo ctx a e ({ a with nSparkSpendAmount :=
        a.nSparkSpendAmount + getSpendTransparentAmount e.tx }.push e)

lemma addsTo_addToBlock (ctx) (a) (e) : AddsTo ctx a e (a.addToBlock ctx e) := by
  unfold addToBlock
  split
  case isTrue hspend =>
    dsimp only
    split
    case isTrue hover =>
      refine .skip hspend ?_ a.nSparkSpendAmount (.inl rfl)
      simp [sparkSpendFits, hspend, not_le.mpr hover]
    case isFalse hwithin =>
      split
      case isTrue hover =>
        refine .skip hspend ?_ _ (.inr rfl)
        simp [sparkSpendFits, hspend, add_comm, not_le.mpr hover]
      case isFalse hblock =>
        refine .push ?_
        simp [sparkSpendFits, hspend, add_comm, not_lt.mp hwithin, not_lt.mp hblock]
  case isFalse hspend =>
    have hzero : getSpendTransparentAmount e.tx = 0 := if_neg hspend
    have hpush : AddsTo ctx a e _ := .push (by simp [sparkSpendFits, hspend])
    rwa [hzero, add_zero] at hpush

lemma AddsTo.vtx_eq (h : AddsTo ctx a e a') :
    a'.vtx = if a.sparkSpendFits ctx e.tx then a.vtx ++ [e] else a.vtx := by
  cases h with
  | skip hspend hfits amount hamount => simp [hfits]
  | push hfits => simp [hfits, BlockAssembler.push]

lemma sparkSpendFits_of_not_spend (h : e.tx.isSparkSpend = false) :
    a.sparkSpendFits ctx e.tx = true := by
  simp [sparkSpendFits, h]

lemma Selected.adds (hpool : pool.Consistent) (h : Selected pool ctx txBlackList a)
    (he : Joins pool txBlackList a e) (hparents : pool.getMemPoolParents e ⊆ a.inBlock)
    (hadds : AddsTo ctx a e a') : Selected pool ctx txBlackList a' := by
  have hnonneg := hpool.amount_nonneg e he.entry
  have hcounted := h.counted
  have htotal := h.total
  cases hadds with
  | skip hspend hfits amount hamount =>
    apply h.keep
    rcases hamount with rfl | rfl
    · exact le_rfl
    · omega
  | push hfits =>
    by_cases hspend : e.tx.isSparkSpend = true
    · simp only [sparkSpendFits, hspend, Bool.not_true, Bool.false_or,
        Bool.and_eq_true, decide_eq_true_eq] at hfits
      exact h.push he hparents (fun _ => hfits.1) (by omega) (by omega)
    · have hzero : getSpendTransparentAmount e.tx = 0 := if_neg hspend
      exact h.push he hparents (fun hspend' => absurd hspend' hspend) (by omega) (by omega)

lemma Selected.foldl (hpool : pool.Consistent) (h : Selected pool ctx txBlackList a)
    (hnodup : l.Nodup) (hl : ∀ e ∈ l, Joins pool txBlackList a e)
    (hordered : Ordered pool a.inBlock l) (hspend : ∀ e ∈ l, e.tx.isSparkSpend = false) :
    Selected pool ctx txBlackList (l.foldl (fun a e => a.addToBlock ctx e) a) ∧
      (l.foldl (fun a e => a.addToBlock ctx e) a).vtx = a.vtx ++ l := by
  induction l generalizing a with
  | nil => exact ⟨h, (append_nil _).symm⟩
  | cons e l ih =>
    simp only [forall_mem_cons] at hl hspend
    obtain ⟨hnew, hnodup⟩ := nodup_cons.mp hnodup
    have hadds := addsTo_addToBlock ctx a e
    have hsel := h.adds hpool hl.1 hordered.head hadds
    have hvtx : (a.addToBlock ctx e).vtx = a.vtx ++ [e] := by
      rw [hadds.vtx_eq, if_pos (sparkSpendFits_of_not_spend hspend.1)]
    have hin : (a.addToBlock ctx e).inBlock = insert e a.inBlock := by
      ext x
      simp [hsel.mem_inBlock, hvtx, h.mem_inBlock, or_comm]
    obtain ⟨hrest, hvtx'⟩ := ih hsel hnodup (fun x hx => ⟨(hl.2 x hx).entry, (hl.2 x hx).free, by
        rw [hin, Finset.mem_insert, not_or]
        exact ⟨fun heq => hnew (heq ▸ hx), (hl.2 x hx).new⟩⟩)
      (hin ▸ hordered.tail) hspend.2
    refine ⟨hrest, ?_⟩
    rw [foldl_cons, hvtx', hvtx, append_assoc, singleton_append]

/-- The weight and the signature operations are below the limits; the weight that is reserved
for the coinbase may be the limit itself. -/
structure Fits (ctx : MinerContext) (a : BlockAssembler) : Prop where
  weight : a.vtx ≠ [] → a.nBlockWeight < ctx.args.limits.nBlockMaxWeight
  sigOps : a.nBlockSigOpsCost < MAX_BLOCK_SIGOPS_COST

lemma Fits.keep (h : Fits ctx a) {amount : Int} {lastFewTxs : Nat} : Fits ctx { a with
      nSparkSpendAmount := amount, lastFewTxs, blockFinished, fNeedSizeAccounting } :=
  ⟨h.weight, h.sigOps⟩

lemma length_le_of_nodup (hnodup : l.Nodup) (hl : ∀ e ∈ l, e ∈ pool.entries) :
    l.length ≤ pool.mapTx.length := by
  calc l.length = l.toFinset.card := (toFinset_card_of_nodup hnodup).symm
    _ ≤ pool.entries.card := Finset.card_le_card fun e he => hl e (mem_toFinset.mp he)
    _ ≤ pool.mapTx.length := card_entries_le

lemma Selected.length_le (h : Selected pool ctx txBlackList a) : a.vtx.length ≤ pool.mapTx.length :=
  length_le_of_nodup h.nodup fun e he => (h.free e he).1

lemma Selected.totals_append (h : Selected pool ctx txBlackList a)
    (h' : Selected pool ctx txBlackList a') (hvtx : a'.vtx = a.vtx ++ l) :
    a'.nBlockWeight = a.nBlockWeight + (l.map (·.nTxWeight)).sum ∧
      a'.nBlockSigOpsCost = a.nBlockSigOpsCost + (l.map (·.sigOpCost)).sum := by
  constructor
  · rw [h'.nBlockWeight_eq, h.nBlockWeight_eq, hvtx, map_append, sum_append, add_assoc]
  · rw [h'.nBlockSigOpsCost_eq, h.nBlockSigOpsCost_eq, hvtx, map_append, sum_append, add_assoc]

lemma testForBlock_spec (ctx) (a : BlockAssembler) (e) :
    ((a.testForBlock ctx e).1 = true → (a.testForBlock ctx e).2 = a ∧
      a.nBlockWeight + e.nTxWeight < ctx.args.limits.nBlockMaxWeight ∧
      a.nBlockSigOpsCost + e.sigOpCost < MAX_BLOCK_SIGOPS_COST ∧
      a.sparkSpendFits ctx e.tx = true) ∧
    ∃ lastFewTxs blockFinished, (a.testForBlock ctx e).2 =
      { a with lastFewTxs, blockFinished } := by
  have hlarge : ∀ almostFull nearFull, ∃ lastFewTxs blockFinished,
      a.tooLarge almostFull nearFull = { a with lastFewTxs, blockFinished } := by
    intro almostFull nearFull
    unfold tooLarge
    split
    · exact ⟨_, _, rfl⟩
    · split
      · exact ⟨_, _, rfl⟩
      · exact ⟨_, _, rfl⟩
  unfold testForBlock
  dsimp only
  split
  · exact ⟨nofun, _, _, rfl⟩
  split
  · exact ⟨nofun, hlarge _ _⟩
  case isFalse hweight =>
    split
    · exact ⟨nofun, hlarge _ _⟩
    split
    · refine ⟨nofun, ?_⟩
      split
      · exact ⟨_, _, rfl⟩
      · exact ⟨_, _, rfl⟩
    case isFalse hsigOps =>
      refine ⟨fun hfits => ⟨rfl, not_le.mp hweight, not_le.mp hsigOps, ?_⟩, _, _, rfl⟩
      exact (Bool.and_eq_true_iff.mp hfits).2

/-- The candidates that are left and the ones that wait may all join the block. -/
structure Prioritized (pool : CTxMemPool) (ctx : MinerContext) (txBlackList : SetEntries)
    (st : PriorityState) : Prop where
  selected : Selected pool ctx txBlackList st.assembler
  fits : Fits ctx st.assembler
  joins : ∀ c ∈ st.vecPriority ++ st.waitPriMap, Joins pool txBlackList st.assembler c.2
  nodup : ((st.vecPriority ++ st.waitPriMap).map Prod.snd).Nodup

/-- Each round adds a transaction to the block, or takes one from the heap. -/
def PriorityState.left (pool : CTxMemPool) (st : PriorityState) : Nat :=
  (pool.mapTx.length - st.assembler.vtx.length) * (pool.mapTx.length + 1) + st.vecPriority.length

namespace Prioritized

variable {st : PriorityState} (h : Prioritized pool ctx txBlackList st)

include h

lemma length_le : st.vecPriority.length ≤ pool.mapTx.length := by
  have hl : _ ≤ pool.mapTx.length := length_le_of_nodup h.nodup fun e he => by
    obtain ⟨c, hc, rfl⟩ := mem_map.mp he
    exact (h.joins c hc).entry
  simp only [map_append, length_append, length_map] at hl
  omega

lemma perm {vecPriority waitPriMap}
    (hperm : (vecPriority ++ waitPriMap).Perm (st.vecPriority ++ st.waitPriMap)) :
    Prioritized pool ctx txBlackList { st with vecPriority, waitPriMap } :=
  ⟨h.selected, h.fits, fun c hc => h.joins c (hperm.mem_iff.mp hc),
    (hperm.map Prod.snd).nodup_iff.mpr h.nodup⟩

variable {top : TxCoinAgePriority} (htop : top ∈ st.vecPriority)

omit h in
include htop in
lemma perm_erase : (st.vecPriority ++ st.waitPriMap).Perm
    (top :: (st.vecPriority.erase top ++ st.waitPriMap)) :=
  (perm_cons_erase htop).append_right _

lemma wait (htop : top ∈ st.vecPriority) : Prioritized pool ctx txBlackList
    { st with vecPriority := st.vecPriority.erase top, waitPriMap := top :: st.waitPriMap } :=
  h.perm (perm_middle.trans (perm_erase htop).symm)

lemma drop {lastFewTxs : Nat} {blockFinished : Bool} : Prioritized pool ctx txBlackList
    { st with
      vecPriority := st.vecPriority.erase top
      assembler := { st.assembler with lastFewTxs, blockFinished } } := by
  have hsub : Sublist (st.vecPriority.erase top ++ st.waitPriMap)
      (st.vecPriority ++ st.waitPriMap) :=
    erase_sublist.append_right _
  refine ⟨h.selected.keep le_rfl, h.fits.keep, fun c hc => ?_, h.nodup.sublist (hsub.map _)⟩
  have hjoins := h.joins c (hsub.subset hc)
  exact ⟨hjoins.entry, hjoins.free, hjoins.new⟩

lemma add (hpool : pool.Consistent) (htop : top ∈ st.vecPriority)
    (hparents : pool.getMemPoolParents top.2 ⊆ st.assembler.inBlock)
    (hfits : (st.assembler.testForBlock ctx top.2).1 = true) : Prioritized pool ctx txBlackList
      { st with
        vecPriority := st.vecPriority.erase top
        assembler := st.assembler.addToBlock ctx top.2 } ∧
      (st.assembler.addToBlock ctx top.2).vtx = st.assembler.vtx ++ [top.2] := by
  obtain ⟨-, hweight, hsigOps, hspend⟩ := (testForBlock_spec ctx st.assembler top.2).1 hfits
  have hjoins := h.joins top (mem_append_left _ htop)
  have hadds := addsTo_addToBlock ctx st.assembler top.2
  have hsel := h.selected.adds hpool hjoins hparents hadds
  have hvtx : (st.assembler.addToBlock ctx top.2).vtx = st.assembler.vtx ++ [top.2] := by
    rw [hadds.vtx_eq, if_pos hspend]
  have hnodup := ((perm_erase htop).map Prod.snd).nodup_iff.mp h.nodup
  rw [map_cons, nodup_cons] at hnodup
  obtain ⟨hweight', hsigOps'⟩ := h.selected.totals_append hsel hvtx
  rw [map_singleton, sum_singleton] at hweight' hsigOps'
  refine ⟨⟨hsel, ⟨fun _ => hweight'.trans_lt hweight, hsigOps'.trans_lt hsigOps⟩, fun c hc => ?_,
    hnodup.2⟩, hvtx⟩
  have hold := h.joins c ((perm_erase htop).mem_iff.mpr (mem_cons_of_mem _ hc))
  refine ⟨hold.entry, hold.free, fun hmem => ?_⟩
  rw [hsel.mem_inBlock, hvtx] at hmem
  rcases mem_append.mp hmem with hmem | hmem
  · exact hold.new (h.selected.mem_inBlock.mpr hmem)
  · rw [mem_singleton] at hmem
    exact hnodup.1 (hmem ▸ mem_map_of_mem hc)

end Prioritized

lemma Prioritized.consider {st} (hpool : pool.Consistent) (h : Prioritized pool ctx txBlackList st)
    {top} (htop : top ∈ st.vecPriority) (nBlockPrioritySize : Nat) :
    (st.consider pool ctx nBlockPrioritySize top).Meets (Prioritized pool ctx txBlackList)
      (left pool) (Prioritized pool ctx txBlackList) (st.left pool) := by
  have hjoins := h.joins top (mem_append_left _ htop)
  have hshorter : (st.vecPriority.erase top).length < st.vecPriority.length := by
    rw [length_erase_of_mem htop]
    exact Nat.sub_lt (length_pos_of_mem htop) one_pos
  unfold PriorityState.consider
  dsimp only
  rw [if_neg hjoins.new]
  split
  · exact ⟨h.drop, Nat.add_lt_add_left hshorter _⟩
  split
  · exact ⟨h.wait htop, Nat.add_lt_add_left hshorter _⟩
  case isFalse hdependent =>
    have hparents : pool.getMemPoolParents top.2 ⊆ st.assembler.inBlock := by
      intro p hp
      by_contra hnot
      apply hdependent
      rw [isStillDependent, any_eq_true]
      exact ⟨p, (mem_inOrder (parents_subset _)).mpr hp, decide_eq_true hnot⟩
    split
    case isTrue hfits =>
      rw [((testForBlock_spec ctx st.assembler top.2).1 hfits).1]
      obtain ⟨hadd, hvtx⟩ := h.add hpool htop hparents hfits
      split
      · exact hadd
      · have hwake : Prioritized pool ctx txBlackList (wake pool
            { st with
              vecPriority := st.vecPriority.erase top
              assembler := st.assembler.addToBlock ctx top.2 } top.2) := by
          apply hadd.perm
          rw [append_assoc]
          exact (filter_append_perm _ _).append_left _
        refine ⟨hwake, ?_⟩
        have hlength := hwake.length_le
        have hroom := hwake.selected.length_le
        change (st.assembler.addToBlock ctx top.2).vtx.length ≤ _ at hroom
        unfold left
        change (pool.mapTx.length - (st.assembler.addToBlock ctx top.2).vtx.length) *
          (pool.mapTx.length + 1) + _ < _
        rw [hvtx, length_append, length_singleton] at hroom ⊢
        obtain ⟨room, hroom⟩ := Nat.exists_eq_add_of_le hroom
        have hbefore : pool.mapTx.length - st.assembler.vtx.length = room + 1 := by omega
        have hafter : pool.mapTx.length - (st.assembler.vtx.length + 1) = room := by omega
        rw [hbefore, hafter, Nat.add_one_mul]
        omega
    case isFalse =>
      obtain ⟨lastFewTxs, blockFinished, hmark⟩ := (testForBlock_spec ctx st.assembler top.2).2
      rw [hmark]
      exact ⟨h.drop, Nat.add_lt_add_left hshorter _⟩

lemma Prioritized.round {st} (hpool : pool.Consistent)
    (h : Prioritized pool ctx txBlackList st) (nBlockPrioritySize : Nat) :
    (st.round pool ctx nBlockPrioritySize).Meets (Prioritized pool ctx txBlackList)
      (left pool) (Prioritized pool ctx txBlackList) (st.left pool) := by
  unfold PriorityState.round
  split
  · exact h
  · split
    · exact h
    case h_2 top hbest => exact h.consider hpool (bestBy_mem hbest) nBlockPrioritySize

lemma addPriorityTxs_spec (hpool : pool.Consistent) (h : Selected pool ctx txBlackList a)
    (hfits : Fits ctx a) (hempty : a.vtx = []) :
    ∃ a', addPriorityTxs pool ctx txBlackList a = some a' ∧ Selected pool ctx txBlackList a' ∧
      Fits ctx a' := by
  unfold addPriorityTxs
  dsimp only
  split
  · exact ⟨a, rfl, h, hfits⟩
  · have hcandidates : (initialPriorities pool txBlackList).map Prod.snd =
        pool.mapTx.filter (· ∉ txBlackList) := by
      simp [initialPriorities, map_map, Function.comp_def]
    have hstart : Prioritized pool ctx txBlackList (.start pool txBlackList a) := by
      refine ⟨h.keep le_rfl, hfits.keep, fun c hc => ?_, ?_⟩
      · simp only [start, append_nil] at hc
        have hmem := mem_map_of_mem (f := Prod.snd) hc
        rw [hcandidates, mem_filter, decide_eq_true_eq] at hmem
        refine ⟨mem_entries.mpr hmem.1, hmem.2, fun hin => ?_⟩
        have hvtx := h.mem_inBlock.mp hin
        rw [hempty] at hvtx
        cases hvtx
      · simp only [start, append_nil, hcandidates]
        exact hpool.nodup.of_map.filter _
    have hfuel : (start pool txBlackList a).left pool <
        (pool.mapTx.length + 1) * (pool.mapTx.length + 1) := by
      have hlength := hstart.length_le
      unfold left
      simp only [start, hempty, length_nil, Nat.sub_zero] at hlength ⊢
      linarith [Nat.add_one_mul pool.mapTx.length (pool.mapTx.length + 1)]
    obtain ⟨st, hst, hend⟩ := loop_spec (fun st hst => hst.round hpool _) hstart hfuel
    rw [hst]
    exact ⟨_, rfl, hend.selected.keep le_rfl, hend.fits.keep⟩

end Firo.Miner
