import Firo.Lib.Run
import Firo.Spark.Node

/-! A node connects a block to its tip, disconnects its tip, checks a block without connecting it,
admits a transaction to the mempool and verifies its pending batch of proofs. A step that aborts the
node has no successor. -/
namespace Firo.Spark

open Firo.Lib

variable {Coin Tag Proof : Type}

def contextualCheckTransaction (cp : ConsensusParams) (nHeight : Int) (tx : CTransaction) :
    Except Reject Unit :=
  if cp.DIP0003Height ≤ nHeight then
    if 3 ≤ tx.nVersion then do
      rejectIf (!([TRANSACTION_NORMAL, TRANSACTION_PROVIDER_REGISTER,
          TRANSACTION_PROVIDER_UPDATE_SERVICE, TRANSACTION_PROVIDER_UPDATE_REGISTRAR,
          TRANSACTION_PROVIDER_UPDATE_REVOKE, TRANSACTION_COINBASE,
          TRANSACTION_QUORUM_COMMITMENT, TRANSACTION_SPORK, TRANSACTION_LELANTUS,
          TRANSACTION_SPARK, TRANSACTION_SPARK_V2].contains tx.nType))
        (.dos 100 REJECT_INVALID "bad-txns-type")
      rejectIf (tx.isCoinBase && tx.nType != TRANSACTION_COINBASE)
        (.dos 100 REJECT_INVALID "bad-txns-cb-type")
      rejectIf (tx.nType == TRANSACTION_SPORK && (tx.nVersion != 3 ||
          !(decide (cp.nEvoSporkStartBlock ≤ nHeight) && decide (nHeight < cp.nEvoSporkStopBlock))))
        (.dos 100 REJECT_INVALID "bad-txns-type")
      rejectIf ((tx.nType == TRANSACTION_SPARK || tx.nType == TRANSACTION_SPARK_V2) &&
          decide (nHeight < cp.nSparkStartBlock))
        (.dos 100 REJECT_INVALID "bad-txns-type")
      rejectIf (tx.nType == TRANSACTION_SPARK_V2 && decide (nHeight < cp.nSparkChaumV2StartBlock))
        (.dos 100 REJECT_INVALID "bad-txns-spark-v2-premature")
    else rejectIf (tx.nType != TRANSACTION_NORMAL) (.dos 100 REJECT_INVALID "bad-txns-type")
  else rejectIf (decide (3 ≤ tx.nVersion)) (.dos 100 REJECT_INVALID "bad-txns-type")

/-- The entry of `mapBlockIndex` for a block that is to be connected on the tip: the
one it had when it was connected before, or a new one. A chain starts with the genesis
block, and a later block is on top of the block that its header names. -/
def blockIndexEntry (cp : ConsensusParams) (chain : List (CBlockIndex Coin Tag))
    (blockIndex : Uint256 → Option (CBlockIndex Coin Tag)) (block : CBlock) :
    Option (CBlockIndex Coin Tag) :=
  match chain with
  | [] => if block = cp.genesis then some { block, nHeight := 0 } else none
  | tip :: chain =>
    if block.hashPrevBlock = tip.hash ∧
        !((tip :: chain).map CBlockIndex.hash).contains block.hash then
      match blockIndex block.hash with
      | some index => if index.block = block then some index else none
      | none => some { block, nHeight := tip.nHeight + 1 }
    else none

def Node.indexOf (cp : ConsensusParams) (n : Node Coin Tag Proof) (block : CBlock) :
    Option (CBlockIndex Coin Tag) :=
  blockIndexEntry cp n.chain n.blockIndex block

inductive Action (Coin Tag : Type) where
  | connectTip (block : CBlock) (other : OtherChecks)
  | disconnectTip (batching : Bool)
  | checkBlock (index : CBlockIndex Coin Tag) (other : OtherChecks) (isVerifyDB : Bool)
  | acceptToMemoryPool (tx : CTransaction) (isCheckWallet : Bool)
  | eraseCheckedSparkSpendTransaction (hashTx : Uint256)
  | setVerifyDBContext (ctx : Option (CSparkState Coin Tag × CSparkNameManager))
  | verifyPending (passed : Bool)

def BatchProofContainer.batchSpark {Spend : Type} (b : BatchProofContainer Spend)
    (passed : Bool) : BatchProofContainer Spend :=
  if (b.sparkTransactions.isEmpty && b.historicalSparkTransactions.isEmpty) || b.fBatchFailed
  then b
  else if passed then { b with sparkTransactions := [], historicalSparkTransactions := [] }
  else { b with fBatchFailed := true }

/-- The result of `batch_spark`: a batch that failed is not tried again. -/
def BatchProofContainer.batchSparkResult {Spend : Type} (b : BatchProofContainer Spend)
    (passed : Bool) : Bool :=
  (b.sparkTransactions.isEmpty && b.historicalSparkTransactions.isEmpty) ||
    (!b.fBatchFailed && passed)

def BatchProofContainer.verifyPending {Spend : Type} (b : BatchProofContainer Spend)
    (passed : Bool) : BatchProofContainer Spend :=
  { if !b.fCollectProofs then
      { b.init.batchSpark passed with
        recoveryMarker := !b.batchSparkResult passed || (b.fReindex && b.init.recoveryMarker) }
    else b with
    fCollectProofs := false }

section

variable [DecidableEq Coin] [DecidableEq Tag] (env : SparkEnv Coin Tag Proof) (cp : ConsensusParams)

variable (n : Node Coin Tag Proof)

/-- `AcceptBlock` and `ConnectTip`. An index that the node knows keeps what a failed
`ConnectBlock` wrote to it. -/
def Node.connectTip (block : CBlock) (other : OtherChecks) : Option (Node Coin Tag Proof) := do
  let index ← n.indexOf cp block
  match block.vtx.forM (contextualCheckTransaction cp (nextBlockHeight n.chain)) with
  | .error _ => some n
  | .ok _ =>
    match connectBlock env cp other false false (n, index) with
    | .ok _ (n, index) => some { n with
        chain := index :: n.chain
        blockIndex := Function.update n.blockIndex block.hash none }
    | .error .abort _ => none
    | .error _ (n, index) =>
      some { n with blockIndex := Function.update n.blockIndex block.hash (some index) }

def sparkTransactionsToRemove (block : CBlock) : List (SpendTransaction Coin Tag Proof) :=
  block.vtx.filterMap fun tx =>
    if tx.isSparkSpend then (parseSparkSpend env tx).toOption else none

/-- `DisconnectTip`. The genesis block has no block below it. -/
def Node.disconnectTip (batching : Bool) : Option (Node Coin Tag Proof) :=
  match n.chain with
  | [] => none
  | [_] => none
  | index :: chain => do
    let s ← n.sparkState.removeBlock index chain
    some { n with
      chain := chain
      blockIndex := Function.update n.blockIndex index.hash (some index)
      sparkState := s
      sparkNameManager := n.sparkNameManager.removeBlock index
      checkedSpends := []
      batch := if batching then
          (sparkTransactionsToRemove env index.block).foldl BatchProofContainer.remove n.batch
        else n.batch }

def Node.acceptToMemoryPool (tx : CTransaction)
    (isCheckWallet : Bool) : Option (Node Coin Tag Proof) :=
  match checkTransaction env cp (n.view false) tx (env.getHash tx) false INT_MAX isCheckWallet
      true ⟨none, n.checkedSpends, n.batch⟩ with
  | .ok _ ctx => some { n with checkedSpends := ctx.checkedSpends, batch := ctx.batch }
  | .error .abort _ => none
  | .error _ ctx => some { n with checkedSpends := ctx.checkedSpends, batch := ctx.batch }

/-- A check of a block that is not connected: `TestBlockValidity` and `VerifyDB`. -/
def Node.checkBlock (index : CBlockIndex Coin Tag)
    (other : OtherChecks) (isVerifyDB : Bool) : Option (Node Coin Tag Proof) :=
  match connectBlock env cp other true isVerifyDB (n, index) with
  | .ok _ (n, _) => some n
  | .error .abort _ => none
  | .error _ (n, _) => some n

def Node.step : Action Coin Tag → Option (Node Coin Tag Proof)
  | .connectTip block other => n.connectTip env cp block other
  | .disconnectTip batching => n.disconnectTip env batching
  | .checkBlock index other isVerifyDB => n.checkBlock env cp index other isVerifyDB
  | .acceptToMemoryPool tx isCheckWallet => n.acceptToMemoryPool env cp tx isCheckWallet
  | .eraseCheckedSparkSpendTransaction hashTx =>
    some { n with checkedSpends := n.checkedSpends.filter (· != hashTx) }
  | .setVerifyDBContext ctx => some { n with verifyDBContext := ctx }
  | .verifyPending passed => some { n with batch := n.batch.verifyPending passed }

/-- The nodes that are reached from the empty one by steps that meet `ok`. -/
def Reachable (maxCoinInGroup startGroupSize : Nat)
    (ok : Node Coin Tag Proof → Action Coin Tag → Prop) : Node Coin Tag Proof → Prop :=
  Reach (Node.step env cp) ok (Node.initial maxCoinInGroup startGroupSize)

end

end Firo.Spark
