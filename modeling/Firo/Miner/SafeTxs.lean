import Firo.Miner.SparkLimit

/-! `addPackageTxs` tests every transaction of a package with `IsTxSafeForMining`, which is about
InstantSend locks and the age of the transaction. `TestForBlock`, which `addPriorityTxs` relies on,
has no such test. -/
namespace Firo.Miner

open Firo.Lib Firo.Spark CTxMemPool Option
open List hiding not_lt

def WAIT_FOR_ISLOCK_TIMEOUT : Int := 10 * 60

/-- What `IsTxSafeForMining` reads: the spork of InstantSend, the height of the chain, the state of
`CChainLocksHandler` and the locks. -/
structure InstantSendContext where
  isNewInstantSendEnabled : Bool
  chainHeight : Int
  nInstantSendBlockFilteringStartHeight : Int
  isChainLocksActive : Bool
  txFirstSeenTime : Uint256 → Option Int
  adjustedTime : Int
  isLocked : Uint256 → Bool

namespace InstantSendContext

variable (is : InstantSendContext)

def txAge (txid : Uint256) : Int :=
  (is.txFirstSeenTime txid).elim 0 fun firstSeen => is.adjustedTime - firstSeen

def isTxSafeForMining (txid : Uint256) : Bool :=
  if !is.isNewInstantSendEnabled then true
  else if is.chainHeight < is.nInstantSendBlockFilteringStartHeight then true
  else if !is.isChainLocksActive then true
  else if is.txAge txid < WAIT_FOR_ISLOCK_TIMEOUT && !is.isLocked txid then false
  else true

/-- The test of `TrySignChainTip` on the transactions of the tip; a block is not signed if it
fails. -/
def signsBlock (txids : List Uint256) : Bool :=
  !is.isNewInstantSendEnabled || txids.all fun txid =>
    !(decide (is.txAge txid < WAIT_FOR_ISLOCK_TIMEOUT) && !is.isLocked txid)

end InstantSendContext

def MinerContext.withLocks (ctx : MinerContext) (is : InstantSendContext) : MinerContext :=
  { ctx with isTxSafeForMining := is.isTxSafeForMining }

variable {pool : CTxMemPool} {ctx : MinerContext} {txBlackList : SetEntries}
  {a a' : BlockAssembler} {e : CTxMemPoolEntry} {l : List CTxMemPoolEntry}

def Allowed (ctx : MinerContext) (e : CTxMemPoolEntry) : Prop :=
  isSparkSpendFormatAllowed ctx.cp e.tx ctx.nHeight = true ∧
    isFinalTx e.tx ctx.nHeight ctx.nLockTimeCutoff = true

lemma allowed_of_testForBlock (h : (a.testForBlock ctx e).1 = true) : Allowed ctx e := by
  unfold BlockAssembler.testForBlock at h
  dsimp only at h
  split at h
  case isTrue => cases h
  case isFalse hformat =>
    rw [Bool.not_eq_true, Bool.not_eq_false'] at hformat
    split at h
    · cases h
    split at h
    · cases h
    split at h
    · cases h
    exact ⟨hformat, (Bool.and_eq_true_iff.mp h).1⟩

lemma testPackageTransaction_eq_some {size size' : Nat}
    (h : a.testPackageTransaction ctx size e = some size') :
    Allowed ctx e ∧ ctx.isTxSafeForMining e.hash = true := by
  unfold BlockAssembler.testPackageTransaction at h
  split at h
  case isTrue => cases h
  case isFalse htests =>
    simp only [Bool.or_eq_true, Bool.not_eq_true', not_or, Bool.not_eq_false] at htests
    exact ⟨⟨htests.1.1.1, htests.1.1.2⟩, htests.1.2⟩

lemma forall_of_testPackageTransactions {size : Nat}
    (h : (l.foldlM (a.testPackageTransaction ctx) size).isSome = true) :
    ∀ e ∈ l, Allowed ctx e ∧ ctx.isTxSafeForMining e.hash = true := by
  induction l generalizing size with
  | nil => simp
  | cons e l ih =>
    rw [foldlM_cons] at h
    obtain ⟨final, hfinal⟩ := isSome_iff_exists.mp h
    obtain ⟨size', hsize, hrest⟩ := bind_eq_some_iff.mp hfinal
    exact forall_mem_cons.mpr ⟨testPackageTransaction_eq_some hsize, ih (isSome_of_eq_some hrest)⟩

lemma forall_mem_offered {st : PackageState} :
    ∀ e ∈ st.offered pool ctx txBlackList, Allowed ctx e ∧ ctx.isTxSafeForMining e.hash = true := by
  intro e he
  unfold PackageState.offered at he
  cases hm : st.candidate ctx txBlackList with
  | none =>
    rw [hm] at he
    cases he
  | some m =>
    rw [hm] at he
    unfold PackageState.accepted at he
    dsimp only [Option.elim] at he
    split at he
    case isTrue => cases he
    case isFalse htests =>
      simp only [not_or, Bool.not_eq_false] at htests
      exact forall_of_testPackageTransactions htests.2.2.2 e ((mem_insertionSort _).mp he)

lemma foldl_addToBlock_vtx (ctx : MinerContext) (l : List CTxMemPoolEntry) (a : BlockAssembler) :
    ∃ added, added.Sublist l ∧
      (l.foldl (fun a e => a.addToBlock ctx e) a).vtx = a.vtx ++ added := by
  induction l generalizing a with
  | nil => exact ⟨[], Sublist.refl _, (append_nil _).symm⟩
  | cons e l ih =>
    obtain ⟨added, hsub, hvtx⟩ := ih (a.addToBlock ctx e)
    rw [foldl_cons, hvtx, (addsTo_addToBlock ctx a e).vtx_eq]
    split
    · exact ⟨e :: added, hsub.cons_cons e, by rw [append_assoc, singleton_append]⟩
    · exact ⟨added, hsub.cons e, rfl⟩

lemma addPriorityTxs_allowed (h : addPriorityTxs pool ctx txBlackList a = some a')
    (hempty : a.vtx = []) : ∀ e ∈ a'.vtx, Allowed ctx e := by
  unfold addPriorityTxs at h
  dsimp only at h
  split at h
  case isTrue =>
    cases h
    rw [hempty]
    simp
  case isFalse =>
    obtain ⟨st, hst, h⟩ := bind_eq_some_iff.mp h
    cases h
    have hreach : Rounds (PriorityState.round pool ctx _) (fun _ => True)
        (.start pool txBlackList a) st := Rounds.of_loop (fun _ => trivial) .init hst
    refine hreach.invariant (I := fun st => ∀ e ∈ st.assembler.vtx, Allowed ctx e) ?_ ?_
    · simp [PriorityState.start, hempty]
    · intro st _ st' hall _ hnext
      rcases PriorityState.next_assembler hnext with ⟨_, _, heq⟩ | ⟨e, hfits, heq⟩
      · rw [heq]
        exact hall
      · rw [heq, (addsTo_addToBlock ctx st.assembler e).vtx_eq]
        split
        · exact forall_mem_append.mpr
            ⟨hall, forall_mem_singleton.mpr (allowed_of_testForBlock hfits)⟩
        · exact hall

lemma addPackageTxs_safe (h : addPackageTxs pool ctx txBlackList a = some a') :
    ∃ added, a'.vtx = a.vtx ++ added ∧
      ∀ e ∈ added, Allowed ctx e ∧ ctx.isTxSafeForMining e.hash = true := by
  obtain ⟨st, hst, h⟩ := bind_eq_some_iff.mp h
  cases h
  have hreach : Rounds (PackageState.round pool ctx txBlackList) (fun _ => True)
      (.start pool ctx txBlackList a) st := Rounds.of_loop (fun _ => trivial) .init hst
  refine hreach.invariant (I := fun st => ∃ added, st.assembler.vtx = a.vtx ++ added ∧
    ∀ e ∈ added, Allowed ctx e ∧ ctx.isTxSafeForMining e.hash = true) ?_ ?_
  · exact ⟨[], (append_nil _).symm, by simp⟩
  · rintro st _ st' ⟨added, hvtx, hall⟩ _ hnext
    obtain ⟨more, hsub, hmore⟩ := foldl_addToBlock_vtx ctx (st.offered pool ctx txBlackList)
      st.assembler
    refine ⟨added ++ more, ?_, forall_mem_append.mpr
      ⟨hall, fun e he => forall_mem_offered e (hsub.subset he)⟩⟩
    rw [PackageState.next_assembler hnext, hmore, hvtx, append_assoc]

namespace InstantSendContext

variable {is : InstantSendContext} {txids : List Uint256}

lemma signsBlock_of_safe (hactive : is.isChainLocksActive = true ∧
      is.nInstantSendBlockFilteringStartHeight ≤ is.chainHeight)
    (h : ∀ txid ∈ txids, is.isTxSafeForMining txid = true) : is.signsBlock txids = true := by
  unfold signsBlock
  cases henabled : is.isNewInstantSendEnabled with
  | false => rfl
  | true =>
    rw [Bool.not_true, Bool.false_or, List.all_eq_true]
    intro txid htxid
    have hsafe := h txid htxid
    simp only [isTxSafeForMining, henabled, hactive.1, not_lt.mpr hactive.2, Bool.not_true,
      Bool.false_eq_true, if_false] at hsafe
    split at hsafe
    · cases hsafe
    case isFalse htest => rwa [Bool.not_eq_true', ← Bool.not_eq_true]

end InstantSendContext

/-- The transaction of the highest priority has no parents in the mempool, passes `TestForBlock` in
the empty block, and leaves no turn to the next one: without `prioritisetransaction` no priority is
above the threshold of `AllowFree`. -/
structure PriorityTop (pool : CTxMemPool) (ctx : MinerContext) (txBlackList : SetEntries)
    (a : BlockAssembler) (top : TxCoinAgePriority) : Prop where
  room : 0 < min ctx.args.limits.nBlockMaxSize (uint32 ctx.args.blockprioritysize)
  best : bestBy (fun x y => comparePriority pool ctx y x) (initialPriorities pool txBlackList) =
    some top
  witness : ctx.fIncludeWitness = true ∨ top.2.hasWitness = false
  noParents : pool.inOrder (pool.getMemPoolParents top.2) = []
  fits : ({ a with fNeedSizeAccounting := true }.testForBlock ctx top.2).1 = true
  last : allowFree top.1 = false ∧ isZerocoinRemint top.2.tx = false

lemma PriorityState.round_of_last (st : PriorityState) {top : TxCoinAgePriority} {size : Nat}
    (hopen : st.assembler.blockFinished = false)
    (hbest : bestBy (fun x y => comparePriority pool ctx y x) st.vecPriority = some top)
    (hnew : top.2 ∉ st.assembler.inBlock)
    (hwitness : (!ctx.fIncludeWitness && top.2.hasWitness) = false)
    (hparents : st.assembler.isStillDependent pool top.2 = false)
    (hfits : (st.assembler.testForBlock ctx top.2).1 = true)
    (hlast : allowFree top.1 = false ∧ isZerocoinRemint top.2.tx = false) :
    st.round pool ctx size = .stop
      { st with
        vecPriority := st.vecPriority.erase top
        assembler := st.assembler.addToBlock ctx top.2 } := by
  unfold PriorityState.round PriorityState.consider
  simp [hopen, hbest, hnew, hwitness, hparents, hfits, hlast.1, hlast.2,
    ((testForBlock_spec ctx st.assembler top.2).1 hfits).1]

lemma PriorityTop.addPriorityTxs {top} (htop : PriorityTop pool ctx txBlackList a top)
    (hstart : a.vtx = [] ∧ a.inBlock = ∅ ∧ a.blockFinished = false)
    (h : addPriorityTxs pool ctx txBlackList a = some a') : a'.vtx = [top.2] := by
  unfold Miner.addPriorityTxs at h
  dsimp only at h
  rw [if_neg htop.room.ne'] at h
  obtain ⟨st, hst, h⟩ := bind_eq_some_iff.mp h
  cases h
  have hwitness : (!ctx.fIncludeWitness && top.2.hasWitness) = false := by
    rcases htop.witness with hon | hnone
    · rw [hon, Bool.not_true, Bool.false_and]
    · rw [hnone, Bool.and_false]
  have hparents : ({ a with fNeedSizeAccounting := true }.isStillDependent pool top.2) = false := by
    rw [BlockAssembler.isStillDependent, htop.noParents, List.any_nil]
  rw [show (pool.mapTx.length + 1) * (pool.mapTx.length + 1) =
      (pool.mapTx.length + 1) * pool.mapTx.length + pool.mapTx.length + 1 by ring, loop,
    PriorityState.round_of_last (.start pool txBlackList a) hstart.2.2 htop.best
      (by simp [PriorityState.start, hstart.2.1]) hwitness hparents htop.fits htop.last] at hst
  cases hst
  have hspend := ((testForBlock_spec ctx { a with fNeedSizeAccounting := true } top.2).1
    htop.fits).2.2.2
  change ({ a with fNeedSizeAccounting := true }.addToBlock ctx top.2).vtx = _
  rw [(addsTo_addToBlock ctx _ top.2).vtx_eq, if_pos hspend]
  exact congrArg (· ++ [top.2]) hstart.1

/-- The template before the mempool is asked. -/
def emptyTemplate (ctx : MinerContext) (commitmentSizes : List Nat) : BlockAssembler where
  nBlockSize := 1000 + commitmentSizes.sum
  nBlockTx := commitmentSizes.length
  fNeedSizeAccounting := ctx.args.limits.fNeedSizeAccounting

namespace Toy

def priorityArgs : MinerArgs := { args with blockprioritysize := 50000 }

def locks (isLocked : Uint256 → Bool) : InstantSendContext where
  isNewInstantSendEnabled := true
  chainHeight := 599
  nInstantSendBlockFilteringStartHeight := 500
  isChainLocksActive := true
  txFirstSeenTime _ := some 1000
  adjustedTime := 1010
  isLocked

def oneTx : CTxMemPool := mempool [entry 1 (tx 2 TRANSACTION_NORMAL [100]) 300 1]

end Toy

lemma Toy.oneTx_consistent : Toy.oneTx.Consistent := by
  constructor <;> decide +kernel

lemma Toy.oneTx_top (locked : Bool) : PriorityTop Toy.oneTx
    ((Toy.context Toy.priorityArgs).withLocks (Toy.locks fun _ => locked))
    (Toy.oneTx.fillBlackListForBlockTemplate Toy.noPayloads (Toy.context Toy.priorityArgs).cp ∅ 600)
    (emptyTemplate (Toy.context Toy.priorityArgs) [])
    (0, Toy.entry 1 (Toy.tx 2 TRANSACTION_NORMAL [100]) 300 1) := by
  constructor <;> cases locked <;> decide +kernel

end Firo.Miner
