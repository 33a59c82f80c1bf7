import Firo.Lib.Entries
import Firo.Lib.Registry
import Firo.Llmq.Commitment
import Firo.Llmq.Signing

/-! `CQuorumBlockProcessor` of `llmq/quorums_blockprocessor.cpp`: which commitments a block has to
carry, and the records of the mined ones. What a failed block has written to the database is taken
back by the caller's transaction; the cache keeps what it has. -/
namespace Firo.Llmq

open Firo.Lib Firo.Spark Firo.Bls
open Function (update)

variable {G₁ G₂ : Type}

/-- The records of mined commitments: the commitment and its block by type and session
(`q_mc`), and the height of the base block by type and inversed height (`q_mcih`). -/
structure MinedDb (G₁ G₂ : Type) where
  commitments : UInt8 × Uint256 → Option (CFinalCommitment G₁ G₂ × Uint256) := fun _ => none
  byInversedHeight : UInt8 × List UInt8 → Option Nat := fun _ => none

structure EvoDb (G₁ G₂ : Type) where
  mined : MinedDb G₁ G₂ := {}
  bestBlockUpgrade : Option Uint256 := none

structure CQuorumBlockProcessor (G₁ G₂ : Type) where
  evoDb : EvoDb G₁ G₂ := {}
  minableCommitmentsByQuorum : UInt8 × Uint256 → Option Uint256 := fun _ => none
  minableCommitments : Uint256 → Option (CFinalCommitment G₁ G₂) := fun _ => none
  hasMinedCommitmentCache : UInt8 × Uint256 → Option Bool := fun _ => none

def buildInversedHeightKey (llmqType : UInt8) (nMinedHeight : Nat) : UInt8 × List UInt8 :=
  (llmqType, htobe32 (4294967295 - UInt32.ofNat nMinedHeight))

namespace LLMQParams

/-- The height of the base block of the session that a height belongs to. -/
def quorumStartHeight (params : LLMQParams) (nHeight : Nat) : Nat :=
  nHeight - nHeight % params.dkgInterval

def isMiningPhase (params : LLMQParams) (nHeight : Nat) : Bool :=
  let phaseIndex := nHeight % params.dkgInterval
  decide (params.dkgMiningWindowStart ≤ phaseIndex) &&
    decide (phaseIndex ≤ params.dkgMiningWindowEnd)

end LLMQParams

def getBlockHash (chain : List CBlock) (nBlockHeight : Nat) : Option Uint256 :=
  (chain.reverse[nBlockHeight]?).map CBlock.hash

/-- `GetQuorumBlockHash`: null while the base block is not in the chain. -/
def getQuorumBlockHash (chain : List CBlock) (params : LLMQParams) (nHeight : Nat) : Uint256 :=
  (getBlockHash chain (params.quorumStartHeight nHeight)).getD 0

def collectCommitments (env : CommitmentEnv G₁ G₂) : List CTransaction →
    Std.ExtTreeMap UInt8 (CFinalCommitment G₁ G₂) →
    Except Reject (Std.ExtTreeMap UInt8 (CFinalCommitment G₁ G₂))
  | [], ret => .ok ret
  | tx :: rest, ret =>
    if tx.nType = TRANSACTION_QUORUM_COMMITMENT then do
      let qc ← orReject (env.getTxPayload tx.vExtraPayload)
        (.dos 100 REJECT_INVALID "bad-tx-payload")
      rejectIf (ret.contains qc.commitment.llmqType) (.dos 100 REJECT_INVALID "bad-qc-dup")
      collectCommitments env rest (ret.insert qc.commitment.llmqType qc.commitment)
    else collectCommitments env rest ret

def getCommitmentsFromBlock (env : CommitmentEnv G₁ G₂) (cons : LlmqConsensus) (block : CBlock)
    (nHeight : Nat) : Except Reject (Std.ExtTreeMap UInt8 (CFinalCommitment G₁ G₂)) := do
  let ret ← collectCommitments env block.vtx ∅
  rejectIf (decide (nHeight < cons.DIP0003Height) && !ret.isEmpty)
    (.dos 100 REJECT_INVALID "bad-qc-premature")
  .ok ret

abbrev ProcM (G₁ G₂ : Type) := EStateM Reject (CQuorumBlockProcessor G₁ G₂)

def hasMinedCommitment (llmqType : UInt8) (quorumHash : Uint256) : ProcM G₁ G₂ Bool := do
  let p ← get
  match p.hasMinedCommitmentCache (llmqType, quorumHash) with
  | some ret => return ret
  | none =>
    let ret := (p.evoDb.mined.commitments (llmqType, quorumHash)).isSome
    set { p with
      hasMinedCommitmentCache :=
        update p.hasMinedCommitmentCache (llmqType, quorumHash) (some ret) }
    return ret

def isCommitmentRequired (chain : List CBlock) (params : LLMQParams) (nHeight : Nat) :
    ProcM G₁ G₂ Bool :=
  let quorumHash := getQuorumBlockHash chain params nHeight
  -- the hash is null for the first block of a session
  if quorumHash = 0 then return false
  else do
    let hasMined ← hasMinedCommitment params.type quorumHash
    return params.isMiningPhase nHeight && !hasMined

/-- For each type the block carries a commitment if and only if one is required. -/
def checkRequired (chain : List CBlock) (nHeight : Nat)
    (qcs : Std.ExtTreeMap UInt8 (CFinalCommitment G₁ G₂)) : List LLMQParams → ProcM G₁ G₂ Unit
  | [] => return ()
  | params :: rest => do
    let isRequired ← isCommitmentRequired chain params nHeight
    liftCheck (rejectIf (qcs.contains params.type && !isRequired)
      (.dos 100 REJECT_INVALID "bad-qc-not-allowed"))
    liftCheck (rejectIf (!qcs.contains params.type && isRequired)
      (.dos 100 REJECT_INVALID "bad-qc-missing"))
    checkRequired chain nHeight qcs rest

/-- Store a commitment, and drop what the cache says about its session. -/
def CQuorumBlockProcessor.store (p : CQuorumBlockProcessor G₁ G₂) (params : LLMQParams)
    (nHeight : Nat) (blockHash : Uint256) (qc : CFinalCommitment G₁ G₂) :
    CQuorumBlockProcessor G₁ G₂ :=
  { p with
    evoDb := { p.evoDb with
      mined :=
        { commitments := update p.evoDb.mined.commitments (params.type, qc.quorumHash)
            (some (qc, blockHash))
          byInversedHeight := update p.evoDb.mined.byInversedHeight
            (buildInversedHeightKey params.type nHeight)
            (some (params.quorumStartHeight nHeight)) } }
    hasMinedCommitmentCache :=
      update p.hasMinedCommitmentCache (params.type, qc.quorumHash) none }

section

variable (env : CommitmentEnv G₁ G₂) (cons : LlmqConsensus)

/-- The part of `ProcessCommitment` for a commitment that is not null. -/
def processMined (params : LLMQParams) (nHeight : Nat) (blockHash : Uint256)
    (qc : CFinalCommitment G₁ G₂) : ProcM G₁ G₂ Unit := do
  let hasMined ← hasMinedCommitment params.type qc.quorumHash
  liftCheck (rejectIf hasMined (.dos 100 REJECT_INVALID "bad-qc-dup"))
  liftCheck (rejectIf (!params.isMiningPhase nHeight) (.dos 100 REJECT_INVALID "bad-qc-height"))
  liftCheck (rejectIf (!qc.verify env cons (env.getAllQuorumMembers params.type qc.quorumHash)
    true) (.dos 100 REJECT_INVALID "bad-qc-invalid"))
  modify fun p => p.store params nHeight blockHash qc

def processCommitment (chain : List CBlock) (nHeight : Nat) (blockHash : Uint256)
    (qc : CFinalCommitment G₁ G₂) : ProcM G₁ G₂ Unit := do
  let params ← liftCheck (orReject (cons.find qc.llmqType) .abort)
  let quorumHash := getQuorumBlockHash chain params nHeight
  liftCheck (rejectIf (quorumHash == 0) (.dos 100 REJECT_INVALID "bad-qc-block"))
  liftCheck (rejectIf (quorumHash != qc.quorumHash) (.dos 100 REJECT_INVALID "bad-qc-block"))
  if qc.isNull then
    liftCheck (rejectIf (!qc.verifyNull cons) (.dos 100 REJECT_INVALID "bad-qc-invalid-null"))
  else
    processMined env cons params nHeight blockHash qc

def processCommitments (chain : List CBlock) (nHeight : Nat) (blockHash : Uint256) :
    List (UInt8 × CFinalCommitment G₁ G₂) → ProcM G₁ G₂ Unit
  | [] => return ()
  | e :: rest => do
    processCommitment env cons chain nHeight blockHash e.2
    processCommitments chain nHeight blockHash rest

def writeBestBlockUpgrade (blockHash : Uint256) : ProcM G₁ G₂ Unit :=
  modify fun p => { p with evoDb := { p.evoDb with bestBlockUpgrade := some blockHash } }

def processBlock (chain : List CBlock) (block : CBlock) : ProcM G₁ G₂ Unit :=
  if chain.length < cons.DIP0003Height then writeBestBlockUpgrade block.hash
  else do
    let qcs ← liftCheck (getCommitmentsFromBlock env cons block chain.length)
    checkRequired chain chain.length qcs cons.llmqs
    processCommitments env cons chain chain.length block.hash qcs.toList
    writeBestBlockUpgrade block.hash

/-- `AddMinableCommitment`, without the relay. A better commitment takes the place of the
known one by session, which itself stays known by its hash. -/
def addMinableCommitment (fqc : CFinalCommitment G₁ G₂) : ProcM G₁ G₂ Unit := do
  let p ← get
  let commitmentHash := env.serializeHash fqc
  let k := (fqc.llmqType, fqc.quorumHash)
  match p.minableCommitmentsByQuorum k with
  | none => set { p with
      minableCommitmentsByQuorum :=
        update p.minableCommitmentsByQuorum k (some commitmentHash)
      minableCommitments :=
        if (p.minableCommitments commitmentHash).isSome then p.minableCommitments
        else update p.minableCommitments commitmentHash (some fqc) }
  | some oldHash =>
    match p.minableCommitments oldHash with
    | none => throw .abort
    | some oldFqc =>
      if oldFqc.countSigners < fqc.countSigners then
        set { p with
          minableCommitmentsByQuorum :=
            update p.minableCommitmentsByQuorum k (some commitmentHash)
          minableCommitments := update p.minableCommitments commitmentHash (some fqc) }

/-- Erase the records of a commitment, and drop what the cache says about its session. -/
def CQuorumBlockProcessor.unstore (p : CQuorumBlockProcessor G₁ G₂) (nHeight : Nat)
    (qc : CFinalCommitment G₁ G₂) : CQuorumBlockProcessor G₁ G₂ :=
  { p with
    evoDb := { p.evoDb with
      mined :=
        { commitments :=
            update p.evoDb.mined.commitments (qc.llmqType, qc.quorumHash) none
          byInversedHeight := update p.evoDb.mined.byInversedHeight
            (buildInversedHeightKey qc.llmqType nHeight) none } }
    hasMinedCommitmentCache :=
      update p.hasMinedCommitmentCache (qc.llmqType, qc.quorumHash) none }

def undoCommitments (nHeight : Nat) (fAddMinable : Bool) :
    List (UInt8 × CFinalCommitment G₁ G₂) → ProcM G₁ G₂ Unit
  | [] => return ()
  | e :: rest =>
    if e.2.isNull then undoCommitments nHeight fAddMinable rest
    else do
      modify fun p => p.unstore nHeight e.2
      if fAddMinable then
        addMinableCommitment env e.2
      undoCommitments nHeight fAddMinable rest

/-- `UndoBlock` of the block on top of `chain`. The genesis block has none below it. -/
def undoBlock (chain : List CBlock) (block : CBlock) (fAddMinable : Bool) : ProcM G₁ G₂ Unit := do
  let qcs ← liftCheck (getCommitmentsFromBlock env cons block chain.length)
  undoCommitments env chain.length fAddMinable qcs.toList
  let prevHash ← liftCheck (orReject ((chain.head?).map CBlock.hash) .abort)
  writeBestBlockUpgrade prevHash

end

end Firo.Llmq
