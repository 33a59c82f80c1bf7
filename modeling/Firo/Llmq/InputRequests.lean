import Firo.Llmq.NonLockedTxs
import Firo.Serialize

/-! `inputRequestIds` of `CInstantSendManager`. `ProcessTx` and `HandleFullyConfirmedBlock` hash the
outpoint of an input; `RemoveConflictedTx` hashes the whole input, with its script and sequence
number, and so erases none of the ids. -/
namespace Firo.Llmq

open Firo.Lib Firo.Spark Firo.Serialize List

structure CInstantSendLock where
  inputs : List COutPoint
  txid : Uint256

/-- The bytes of `"inlock"`. -/
def INPUTLOCK_REQUESTID_PREFIX : List UInt8 := [0x69, 0x6e, 0x6c, 0x6f, 0x63, 0x6b]

def serializeOutPoint (o : COutPoint) : List UInt8 := leBytes 32 o.hash.toNat ++ leBytes 4 o.n

def serializeTxIn (txin : CTxIn) : List UInt8 :=
  serializeOutPoint txin.prevout ++ writeBytes txin.scriptSig ++ leBytes 4 txin.nSequence

/-- What the checks of `ProcessTx` find out for a transaction. -/
structure ProcessContext (Id : Type) where
  isNewInstantSendEnabled : Bool
  hasLlmqType : Bool
  fMasternodeMode : Bool
  isBlockchainSynced : Bool
  hasConflictingLock : CTransaction → Bool
  checkCanLock : CTransaction → Bool
  getVoteForId : Id → Option Uint256
  isConflicting : Id → Uint256 → Bool
  allowReSigning : Bool

structure RequestManager (Id : Type) where
  nonLocked : NonLockedTxs := {}
  inputRequestIds : Finset Id := ∅
  /-- The locks that are recorded as mined, with the heights. -/
  minedLocks : List (Int × CInstantSendLock) := []

variable {Id : Type} [DecidableEq Id]

section

variable (serializeHash : List UInt8 → Id) (getHash : CTransaction → Uint256)

/-- `SerializeHash` of the pair of the prefix and an object with the given serialization. -/
def requestId (object : List UInt8) : Id :=
  serializeHash (writeBytes INPUTLOCK_REQUESTID_PREFIX ++ object)

def inputIds (tx : CTransaction) : List Id :=
  tx.vin.map fun txin => requestId serializeHash (serializeOutPoint txin.prevout)

def processTx (ctx : ProcessContext Id) (s : RequestManager Id) (tx : CTransaction) :
    Bool × RequestManager Id :=
  if !ctx.isNewInstantSendEnabled || !ctx.hasLlmqType || !ctx.fMasternodeMode ||
      !ctx.isBlockchainSynced then (true, s)
  else if ctx.hasConflictingLock tx then (false, s)
  else if !ctx.checkCanLock tx then (false, s)
  else
    let ids := inputIds serializeHash tx
    let voted := ids.filterMap ctx.getVoteForId
    if voted.any (· ≠ getHash tx) || ids.any fun id => ctx.isConflicting id (getHash tx) then
      (false, s)
    else if !ctx.allowReSigning && voted.length = ids.length then (true, s)
    else (true, { s with inputRequestIds := s.inputRequestIds ∪ ids.toFinset })

def removeConflictedTx (s : RequestManager Id) (tx : CTransaction) : RequestManager Id :=
  { s with
    nonLocked := s.nonLocked.removeNonLockedTx (getHash tx) false
    inputRequestIds := s.inputRequestIds \
      (tx.vin.map fun txin => requestId serializeHash (serializeTxIn txin)).toFinset }

def confirmedLocks (s : RequestManager Id) (nHeight : Int) : List CInstantSendLock :=
  (s.minedLocks.filter fun e => e.1 ≤ nHeight).map (·.2)

/-- `toRemove` are the non-locked transactions that the block confirms. -/
def handleFullyConfirmedBlock (s : RequestManager Id) (nHeight : Int) (toRemove : List Uint256) :
    RequestManager Id where
  nonLocked := toRemove.foldl (fun n txid => n.removeNonLockedTx txid true) s.nonLocked
  inputRequestIds := s.inputRequestIds \ ((confirmedLocks s nHeight).flatMap fun islock =>
    islock.inputs.map fun o => requestId serializeHash (serializeOutPoint o)).toFinset
  minedLocks := s.minedLocks.filter fun e => ¬e.1 ≤ nHeight

inductive RequestAction (Id : Type) where
  | processTx (ctx : ProcessContext Id) (tx : CTransaction)
  | removeConflictedTx (tx : CTransaction)
  | writeInstantSendLockMined (nHeight : Int) (islock : CInstantSendLock)
  | handleFullyConfirmedBlock (nHeight : Int) (toRemove : List Uint256)

def RequestManager.step (s : RequestManager Id) : RequestAction Id → Option (RequestManager Id)
  | .processTx ctx tx => some (Llmq.processTx serializeHash getHash ctx s tx).2
  | .removeConflictedTx tx => some (Llmq.removeConflictedTx serializeHash getHash s tx)
  | .writeInstantSendLockMined nHeight islock =>
    some { s with minedLocks := (nHeight, islock) :: s.minedLocks }
  | .handleFullyConfirmedBlock nHeight toRemove =>
    some (Llmq.handleFullyConfirmedBlock serializeHash s nHeight toRemove)

/-- The byte strings of which the ids of a transaction's inputs are hashes, when it is processed
and when it is removed. -/
def hashedBytes (tx : CTransaction) : List (List UInt8) :=
  tx.vin.flatMap fun txin => [serializeOutPoint txin.prevout, serializeTxIn txin].map
    (writeBytes INPUTLOCK_REQUESTID_PREFIX ++ ·)

/-- The transactions that are processed are among `txs`. -/
def ProcessedIn (txs : List CTransaction) (_ : RequestManager Id) : RequestAction Id → Prop
  | .processTx _ tx => tx ∈ txs
  | _ => True

end

variable {serializeHash : List UInt8 → Id} {getHash : CTransaction → Uint256}
  {txs : List CTransaction} {s s' : RequestManager Id}

lemma serializeOutPoint_ne_serializeTxIn (o) (txin : CTxIn) :
    serializeOutPoint o ≠ serializeTxIn txin := by
  intro h
  have hlength := congrArg List.length h
  simp only [serializeOutPoint, serializeTxIn, length_append, length_leBytes] at hlength
  omega

/-- All ids that are tracked are those of outpoints that `txs` spend. -/
def OfOutPoints (serializeHash : List UInt8 → Id) (txs : List CTransaction)
    (s : RequestManager Id) : Prop :=
  ∀ id ∈ s.inputRequestIds, ∃ tx ∈ txs, id ∈ inputIds serializeHash tx

/-- Every registered id stays the hash of an outpoint of one of the transactions. -/
lemma OfOutPoints.step (h : OfOutPoints serializeHash txs s) {a} (hok : ProcessedIn txs s a)
    (hstep : s.step serializeHash getHash a = some s') : OfOutPoints serializeHash txs s' := by
  cases a with
  | processTx ctx tx =>
    cases hstep
    unfold processTx
    dsimp only
    split_ifs
    any_goals exact h
    intro id hid
    rcases Finset.mem_union.mp hid with hid | hid
    · exact h id hid
    · exact ⟨tx, hok, mem_toFinset.mp hid⟩
  | removeConflictedTx tx =>
    cases hstep
    exact fun id hid => h id (Finset.mem_sdiff.mp hid).1
  | writeInstantSendLockMined nHeight islock =>
    cases hstep
    exact h
  | handleFullyConfirmedBlock nHeight toRemove =>
    cases hstep
    exact fun id hid => h id (Finset.mem_sdiff.mp hid).1

lemma OfOutPoints.of_reach
    (hs : Reach (RequestManager.step serializeHash getHash) (ProcessedIn txs) {} s) :
    OfOutPoints serializeHash txs s :=
  hs.invariant (by simp [OfOutPoints]) fun _ _ _ h hok hstep => h.step hok hstep

/-- The hash of an input is the hash of no outpoint, so nothing is erased. -/
lemma OfOutPoints.removeConflictedTx
    (hinj : Set.InjOn serializeHash {b | b ∈ txs.flatMap hashedBytes})
    (h : OfOutPoints serializeHash txs s) (getHash) {tx} (htx : tx ∈ txs) :
    (removeConflictedTx serializeHash getHash s tx).inputRequestIds = s.inputRequestIds := by
  unfold Llmq.removeConflictedTx
  rw [Finset.sdiff_eq_self_iff_disjoint, Finset.disjoint_left]
  intro id hid herased
  obtain ⟨tx', htx', hid⟩ := h id hid
  obtain ⟨txin', htxin', rfl⟩ := mem_map.mp hid
  obtain ⟨txin, htxin, heq⟩ := mem_map.mp (mem_toFinset.mp herased)
  have hbytes := hinj (mem_flatMap.mpr ⟨tx, htx, mem_flatMap.mpr ⟨txin, htxin, by simp⟩⟩)
    (mem_flatMap.mpr ⟨tx', htx', mem_flatMap.mpr ⟨txin', htxin', by simp⟩⟩) heq
  exact serializeOutPoint_ne_serializeTxIn txin'.prevout txin (append_cancel_left hbytes).symm

/-- Where the hash tells the inputs and the outpoints of the transactions `txs` apart, in every
state that is reached with them `RemoveConflictedTx` of a tracked one keeps all ids: the
transaction's own ids are forgotten only if it has no inputs. `HandleFullyConfirmedBlock` forgets
exactly the ids of the inputs of the locks that it removes. -/
theorem input_requests_forgotten_iff (serializeHash : List UInt8 → Id)
    (txs : List CTransaction)
    (hinj : Set.InjOn serializeHash {b | b ∈ txs.flatMap hashedBytes})
    (getHash : CTransaction → Uint256) (s : RequestManager Id)
    (hs : Reach (RequestManager.step serializeHash getHash) (ProcessedIn txs) {} s) :
    (∀ tx ∈ txs, (∀ id ∈ inputIds serializeHash tx, id ∈ s.inputRequestIds) →
      ((∀ id ∈ inputIds serializeHash tx,
        id ∉ (removeConflictedTx serializeHash getHash s tx).inputRequestIds) ↔ tx.vin = []) ∧
      (removeConflictedTx serializeHash getHash s tx).inputRequestIds = s.inputRequestIds) ∧
    ∀ nHeight toRemove id,
      id ∈ (handleFullyConfirmedBlock serializeHash s nHeight toRemove).inputRequestIds ↔
        id ∈ s.inputRequestIds ∧ ∀ islock ∈ confirmedLocks s nHeight, ∀ o ∈ islock.inputs,
          id ≠ requestId serializeHash (serializeOutPoint o) := by
  have hids := OfOutPoints.of_reach hs
  constructor
  · intro tx htx htracked
    have hsame := hids.removeConflictedTx hinj getHash htx
    refine ⟨?_, hsame⟩
    rw [hsame]
    constructor
    · intro hforgotten
      have hnil : inputIds serializeHash tx = [] :=
        eq_nil_iff_forall_not_mem.mpr fun id hid => hforgotten id hid (htracked id hid)
      exact map_eq_nil_iff.mp hnil
    · intro hnil
      simp [inputIds, hnil]
  · intro nHeight toRemove id
    simp only [handleFullyConfirmedBlock, Finset.mem_sdiff, mem_toFinset, mem_flatMap,
      mem_map, not_exists, not_and, ne_eq, eq_comm (a := id)]

def acceptAll : ProcessContext Id where
  isNewInstantSendEnabled := true
  hasLlmqType := true
  fMasternodeMode := true
  isBlockchainSynced := true
  hasConflictingLock _ := false
  checkCanLock tx := !tx.vin.isEmpty
  getVoteForId _ := none
  isConflicting _ _ := false
  allowReSigning := false

lemma mem_processTx_acceptAll {tx} (hvin : tx.vin.isEmpty = false) {id}
    (h : id ∈ inputIds serializeHash tx) :
    id ∈ (processTx serializeHash getHash acceptAll {} tx).2.inputRequestIds := by
  have hvoted : (inputIds serializeHash tx).filterMap (fun _ => (none : Option Uint256)) = [] :=
    filterMap_eq_nil_iff.mpr fun _ _ => rfl
  have hlength : (inputIds serializeHash tx).length ≠ 0 := by
    simpa [inputIds, isEmpty_eq_false_iff] using hvin
  simp [processTx, acceptAll, hvin, hvoted, hlength.symm, h]

/-- The last 32 bytes. -/
def lastBytes (b : List UInt8) : Uint256 := BitVec.ofNat 256 (ofLeBytes b.reverse)

def twoInputs : CTransaction := ⟨1, 0, [⟨⟨5, 0⟩, [], 0xffffffff⟩, ⟨⟨5, 1⟩, [0x51], 0xffffffff⟩],
  [], 0, []⟩

lemma lastBytes_injOn : Set.InjOn lastBytes {b | b ∈ [twoInputs].flatMap hashedBytes} := by
  have hall : ∀ b ∈ [twoInputs].flatMap hashedBytes, ∀ b' ∈ [twoInputs].flatMap hashedBytes,
      lastBytes b = lastBytes b' → b = b' := by decide +kernel
  exact fun b hb b' hb' => hall b hb b' hb'

/-- What is tracked once the transaction is processed. -/
def trackedTwoInputs : RequestManager Uint256 :=
  (processTx lastBytes (fun _ => 1) acceptAll {} twoInputs).2

lemma reach_trackedTwoInputs : Reach (RequestManager.step lastBytes fun _ => 1)
    (ProcessedIn [twoInputs]) {} trackedTwoInputs :=
  .step (.processTx acceptAll twoInputs) .init mem_cons_self rfl

theorem input_requests_forgotten_iff_twoInputs :
    (∀ id ∈ inputIds lastBytes twoInputs, id ∈ trackedTwoInputs.inputRequestIds) ∧
      (removeConflictedTx lastBytes (fun _ => 1) trackedTwoInputs twoInputs).inputRequestIds =
        trackedTwoInputs.inputRequestIds :=
  have htracked := fun _ hid => mem_processTx_acceptAll rfl hid
  ⟨htracked, ((input_requests_forgotten_iff lastBytes [twoInputs] lastBytes_injOn (fun _ => 1) _
    reach_trackedTwoInputs).1 twoInputs mem_cons_self htracked).2⟩

/-- After `ProcessTx` and `RemoveConflictedTx` the ids of both inputs are still there. -/
theorem conflicted_input_request_stays : ∃ s,
    [.processTx acceptAll twoInputs, .removeConflictedTx twoInputs].foldlM
      (RequestManager.step lastBytes fun _ => 1) {} = some s ∧
    ∀ id ∈ inputIds lastBytes twoInputs, id ∈ s.inputRequestIds := by
  refine ⟨removeConflictedTx lastBytes (fun _ => 1) trackedTwoInputs twoInputs, rfl, ?_⟩
  have hids : OfOutPoints lastBytes [twoInputs] trackedTwoInputs :=
    .of_reach reach_trackedTwoInputs
  rw [hids.removeConflictedTx lastBytes_injOn _ mem_cons_self]
  exact fun _ hid => mem_processTx_acceptAll rfl hid

end Firo.Llmq
