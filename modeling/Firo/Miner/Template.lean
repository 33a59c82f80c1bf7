import Firo.Miner.Packages
import Firo.Spark.Node

/-! The transactions that `CreateNewBlock` takes from the mempool, for every mempool and all
options: parents come first, what the blocked transactions stand for is left out, and the block is
within the limits. -/
namespace Firo.Miner

open Firo.Lib Firo.Spark CTxMemPool

variable {pool : CTxMemPool} {ctx : MinerContext} {env : PayloadEnv} {txBlackList : SetEntries}
  {a : BlockAssembler}

def SpendsApart (pool : CTxMemPool) (vtx : List CTxMemPoolEntry) : Prop :=
  ∀ x ∈ vtx, ∀ y ∈ vtx, x.tx.isSparkSpend = true → pool.Descends x y → y = x

/-- No provider registration is with the transaction that funds its external collateral, or with
one that spends its collateral. -/
def CollateralsKept (env : PayloadEnv) (vtx : List CTxMemPoolEntry) : Prop :=
  ∀ r ∈ vtx, isProRegTx r.tx = true → ∀ o, env.getProRegTx r.tx = some o → ∀ y ∈ vtx,
    (o.hash ≠ 0 → y.hash ≠ o.hash ∧ spends y o = false) ∧
      (o.hash = 0 → spends y ⟨r.hash, o.n⟩ = false)

lemma Selected.spendsApart (h : Selected pool ctx txBlackList a)
    (hex : ∀ e ∈ pool.entries, pool.Excludes env e txBlackList) : SpendsApart pool a.vtx := by
  intro x hx y hy hspend hdesc
  by_contra hne
  have hprivate : hasPrivateInputs x.tx = true := by simp [hasPrivateInputs, hspend]
  exact (h.free y hy).2 ((hex x (h.free x hx).1).spend hprivate y ⟨hdesc, hne⟩)

lemma mem_children_of_spends {r y : CTxMemPoolEntry} {n : Nat} (hy : y ∈ pool.entries)
    (hspends : spends y ⟨r.hash, n⟩ = true) : y ∈ pool.getMemPoolChildren r := by
  simp only [spends, Bool.and_eq_true, List.any_eq_true, beq_iff_eq] at hspends
  obtain ⟨hregular, txin, htxin, hprevout⟩ := hspends
  refine Finset.mem_filter.mpr ⟨hy, ?_⟩
  simp only [spendsFrom, Bool.and_eq_true, List.any_eq_true, beq_iff_eq]
  exact ⟨hregular, txin, htxin, by rw [hprevout]⟩

lemma isSpent_of_spends {y} {o} (hy : y ∈ pool.entries)
    (hspends : spends y o = true) : pool.isSpent o = true :=
  List.any_eq_true.mpr ⟨y, mem_entries.mp hy, hspends⟩

lemma Selected.collateralsKept (hpool : pool.Consistent) (h : Selected pool ctx txBlackList a)
    (hex : ∀ e ∈ pool.entries, pool.Excludes env e txBlackList) : CollateralsKept env a.vtx := by
  intro r hr hreg o ho y hy
  obtain ⟨hentry, hfree⟩ := h.free r hr
  obtain ⟨hentry', hfree'⟩ := h.free y hy
  constructor
  · intro hne
    have hnone : ¬ (pool.has o.hash || pool.isSpent o) = true :=
      fun hfound => hfree ((hex r hentry).external hreg o ho hne hfound)
    rw [Bool.or_eq_true, not_or] at hnone
    constructor
    · intro heq
      exact hnone.1 (List.any_eq_true.mpr ⟨y, mem_entries.mp hentry', beq_iff_eq.mpr heq⟩)
    · by_contra hspends
      exact hnone.2 (isSpent_of_spends hentry' (Bool.eq_true_of_not_eq_false hspends))
  · intro hnull
    by_contra hspends
    rw [Bool.not_eq_false] at hspends
    have hchild := mem_children_of_spends hentry' hspends
    -- a transaction that spends its own output would be its own ancestor
    have hne : y ≠ r := by
      rintro rfl
      have hparent := (mem_children_iff hentry hentry).mp hchild
      exact hpool.acyclic y hentry (mem_ancestors_iff.mpr ⟨y, hparent, .refl⟩)
    exact hfree' ((hex r hentry).own hreg o ho hnull (isSpent_of_spends hentry' hspends) y
      ⟨.single hchild, hne⟩)

lemma Selected.hashes_nodup (hpool : pool.Consistent) (h : Selected pool ctx txBlackList a) :
    (a.vtx.map CTxMemPoolEntry.hash).Nodup := by
  apply h.nodup.map_on
  intro x hx y hy heq
  exact List.inj_on_of_nodup_map hpool.nodup (mem_entries.mp (h.free x hx).1)
    (mem_entries.mp (h.free y hy).1) heq

lemma Selected.checkSparkBlock (h : Selected pool ctx txBlackList a)
    (hlimit : 0 ≤ ctx.cp.getMaxValueSparkSpendPerTransaction ctx.nHeight) (hash hashPrevBlock) :
    checkSparkBlock ctx.cp ⟨hash, hashPrevBlock, a.vtx.map (·.tx)⟩ ctx.nHeight = .ok () := by
  unfold Spark.checkSparkBlock
  rw [except_bind_eq_ok]
  refine ⟨(), rejectIf_eq_ok.mpr ?_, rejectIf_eq_ok.mpr ?_⟩
  · rw [List.any_eq_false]
    intro tx htx hover
    obtain ⟨e, he, rfl⟩ := List.mem_map.mp htx
    rw [decide_eq_true_eq] at hover
    by_cases hspend : e.tx.isSparkSpend = true
    · exact absurd hover (not_lt.mpr (h.spend e he hspend))
    · rw [getSpendTransparentAmount, if_neg hspend] at hover
      exact absurd hover (not_lt.mpr hlimit)
  · rw [decide_eq_false_iff_not, not_lt, List.map_map]
    exact h.total

lemma nBlockMaxWeight_ge (args : MinerArgs) : 4000 ≤ args.limits.nBlockMaxWeight :=
  le_max_left _ _

lemma nBlockMaxWeight_lt (args : MinerArgs) : args.limits.nBlockMaxWeight < MAX_BLOCK_WEIGHT :=
  max_lt (by decide) ((min_le_left _ _).trans_lt (by decide))

lemma Selected.nBlockWeight_le (h : Selected pool ctx txBlackList a) (hfits : Fits ctx a) :
    a.nBlockWeight ≤ ctx.args.limits.nBlockMaxWeight := by
  by_cases hempty : a.vtx = []
  · rw [h.nBlockWeight_eq, hempty]
    exact nBlockMaxWeight_ge ctx.args
  · exact (hfits.weight hempty).le

lemma createNewBlock_spec (hpool : pool.Consistent) (env) (prevSporkMap) (commitmentSizes)
    (hlimit : 0 ≤ ctx.cp.getMaxValueSparkSpendPerBlock ctx.nHeight) :
    ∃ a, createNewBlock pool ctx env prevSporkMap commitmentSizes = some a ∧ Selected pool ctx
        (pool.fillBlackListForBlockTemplate env ctx.cp prevSporkMap ctx.nHeight) a ∧
      Fits ctx a := by
  have hbl := blackListed_fill env hpool ctx.cp prevSporkMap ctx.nHeight
  have hstart : Selected pool ctx
      (pool.fillBlackListForBlockTemplate env ctx.cp prevSporkMap ctx.nHeight)
      { nBlockSize := 1000 + commitmentSizes.sum
        nBlockTx := commitmentSizes.length
        fNeedSizeAccounting := ctx.args.limits.fNeedSizeAccounting } := by
    constructor
    case total => exact hlimit
    case ordered =>
      intro l₁ e l₂ hl
      exact absurd hl.symm (List.append_ne_nil_of_right_ne_nil _ (List.cons_ne_nil _ _))
    all_goals simp [amounts]
  obtain ⟨a, ha, hsel, hfits⟩ := addPriorityTxs_spec hpool hstart
    ⟨fun hne => absurd rfl hne, show 100 < MAX_BLOCK_SIGOPS_COST by decide⟩ rfl
  obtain ⟨a', ha', hsel', hfits'⟩ := addPackageTxs_spec hpool hbl.blocked hbl.excludes hsel hfits
  refine ⟨a', ?_, hsel', hfits'⟩
  unfold createNewBlock
  dsimp only
  rw [ha]
  exact ha'

/-- For every mempool that is consistent and all options, the template has a list of different
transactions behind their parents, without the descendants of its Spark spends and without
conflicts about collaterals, which `CheckSparkBlock` accepts. The totals are the ones of the
list, the signature operations are below the limit, and so is the weight of a list that is not
empty. -/
theorem template_keeps_rules (pool : CTxMemPool) (ctx : MinerContext) (env : PayloadEnv)
    (prevSporkMap : ActiveSporkMap) (commitmentSizes : List Nat) (hpool : pool.Consistent)
    (htx : 0 ≤ ctx.cp.getMaxValueSparkSpendPerTransaction ctx.nHeight)
    (hblock : 0 ≤ ctx.cp.getMaxValueSparkSpendPerBlock ctx.nHeight) :
    ∃ a, createNewBlock pool ctx env prevSporkMap commitmentSizes = some a ∧
      (a.vtx.map CTxMemPoolEntry.hash).Nodup ∧
      (∀ l₁ e l₂, a.vtx = l₁ ++ e :: l₂ → ∀ p ∈ pool.getMemPoolParents e, p ∈ l₁) ∧
      SpendsApart pool a.vtx ∧ CollateralsKept env a.vtx ∧
      (∀ hash hashPrevBlock, checkSparkBlock ctx.cp
        ⟨hash, hashPrevBlock, a.vtx.map (·.tx)⟩ ctx.nHeight = .ok ()) ∧
      a.nFees = (a.vtx.map (·.nFee)).sum ∧
      a.nBlockWeight = 4000 + (a.vtx.map (·.nTxWeight)).sum ∧
      a.nBlockSigOpsCost = 100 + (a.vtx.map (·.sigOpCost)).sum ∧
      (a.vtx ≠ [] → a.nBlockWeight < ctx.args.limits.nBlockMaxWeight) ∧
      a.nBlockWeight ≤ ctx.args.limits.nBlockMaxWeight ∧ a.nBlockWeight < MAX_BLOCK_WEIGHT ∧
      a.nBlockSigOpsCost < MAX_BLOCK_SIGOPS_COST := by
  have hbl := blackListed_fill env hpool ctx.cp prevSporkMap ctx.nHeight
  obtain ⟨a, ha, h, hfits⟩ := createNewBlock_spec hpool env prevSporkMap commitmentSizes hblock
  have hweight := h.nBlockWeight_le hfits
  refine ⟨a, ha, h.hashes_nodup hpool, ?_, h.spendsApart hbl.excludes,
    h.collateralsKept hpool hbl.excludes, h.checkSparkBlock htx, h.nFees_eq, h.nBlockWeight_eq,
    h.nBlockSigOpsCost_eq, hfits.weight, hweight, hweight.trans_lt (nBlockMaxWeight_lt _),
    hfits.sigOps⟩
  intro l₁ e l₂ hl p hp
  exact (h.ordered l₁ e l₂ hl p hp).resolve_left (Finset.notMem_empty _)

namespace Toy

def args : MinerArgs where
  blockmaxweight := none
  blockmaxsize := none
  blockmintxfee := 1000
  blockprioritysize := 0

/-- A miner of the regression test network, with exact products of fees and sizes. -/
def context (args : MinerArgs) : MinerContext where
  cp := .regtest 1
  args
  nHeight := 600
  nLockTimeCutoff := 0
  fIncludeWitness := true
  isTxSafeForMining _ := true
  mulDouble fee size := fee * size

/-- A transaction with outputs of no use to the miner, which spends the first outputs of others. -/
def tx (nVersion : Int) (nType : Nat) (spent : List Nat) : CTransaction where
  nVersion
  nType
  vin := spent.map fun number => ⟨⟨BitVec.ofNat 256 number, 0⟩, [], SEQUENCE_FINAL⟩
  vout := [⟨40, []⟩]
  nLockTime := 0
  vExtraPayload := []

/-- An entry of a hundred virtual bytes, with a number of transactions in its package that are
all of this size. -/
def entry (number : Nat) (tx : CTransaction) (fee : Int) (packaged : Nat) : CTxMemPoolEntry where
  tx
  hash := BitVec.ofNat 256 number
  hasWitness := false
  serializeSize := 100
  nFee := fee
  feeDelta := 0
  nTxWeight := 400
  sigOpCost := 4
  nCountWithAncestors := packaged
  nSizeWithAncestors := 100 * packaged
  nModFeesWithAncestors := fee * packaged
  nSigOpCostWithAncestors := 4 * packaged

def mempool (mapTx : List CTxMemPoolEntry) : CTxMemPool where
  mapTx
  priorityDelta _ := 0
  nBytesPerSigOp := 20

/-- A transaction with a child that pays more, and a Spark spend with a child. -/
def spendWithChild : CTxMemPool :=
  mempool [entry 4 (tx 2 TRANSACTION_NORMAL [3]) 900 2,
    entry 3 (tx 3 TRANSACTION_SPARK_V2 []) 500 1,
    entry 2 (tx 2 TRANSACTION_NORMAL [1]) 700 2, entry 1 (tx 2 TRANSACTION_NORMAL [100]) 300 1]

lemma spendWithChild_consistent : spendWithChild.Consistent := by
  constructor <;> decide +kernel

def smallest : MinerArgs := { args with blockmaxweight := some 4000 }

def noPayloads : PayloadEnv where
  getSporkTx _ := none
  getProRegTx _ := none

end Toy

theorem template_keeps_rules_spend : Toy.spendWithChild.Consistent ∧
    ∃ a, createNewBlock Toy.spendWithChild (Toy.context Toy.args) Toy.noPayloads ∅ [] = some a ∧
      SpendsApart Toy.spendWithChild a.vtx := by
  obtain ⟨a, ha, -, -, hapart, -⟩ := template_keeps_rules Toy.spendWithChild
    (Toy.context Toy.args) Toy.noPayloads ∅ [] Toy.spendWithChild_consistent (by decide) (by decide)
  exact ⟨Toy.spendWithChild_consistent, a, ha, hapart⟩

/-- With the smallest limit nothing is included, and the weight that is reserved for the coinbase
is the limit itself. -/
theorem weight_of_smallest_limit : Toy.spendWithChild.Consistent ∧
    ∃ a, createNewBlock Toy.spendWithChild (Toy.context Toy.smallest) Toy.noPayloads ∅ [] = some a ∧
      a.vtx = [] ∧ ¬ a.nBlockWeight < (Toy.context Toy.smallest).args.limits.nBlockMaxWeight := by
  have hrun : (createNewBlock Toy.spendWithChild (Toy.context Toy.smallest) Toy.noPayloads ∅ []).any
      (fun a => decide (a.vtx = [] ∧
        ¬ a.nBlockWeight < (Toy.context Toy.smallest).args.limits.nBlockMaxWeight)) = true := by
    decide +kernel
  obtain ⟨a, ha, hweight⟩ := (Option.any_eq_true _ _).mp hrun
  exact ⟨Toy.spendWithChild_consistent, a, ha, of_decide_eq_true hweight⟩

example : (createNewBlock Toy.spendWithChild (Toy.context Toy.args) Toy.noPayloads ∅ []).map
    (fun a => a.vtx.map fun e => e.hash.toNat) = some [1, 2, 3] := by decide +kernel

end Firo.Miner
