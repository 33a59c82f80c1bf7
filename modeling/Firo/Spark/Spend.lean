import Firo.Spark.CoverSet
import Firo.Spark.Names

/-! `SpendTransaction` as the node handles it, the code the node calls outside the Spark state
(`SparkEnv`), and the data that checking a block fills in: `CSparkTxInfo`, the cache of verified
spends and `BatchProofContainer`. -/
namespace Firo.Spark

open Firo.Lib

inductive SpendTransactionVersion where
  | V1
  | V2
deriving DecidableEq, Repr

structure CoverSetData where
  coverSetSize : Nat
  coverSetRepresentation : List UInt8
deriving DecidableEq, Repr

/-- `SpendTransaction`; `proof` holds the proofs and commitments that only libspark
reads. -/
structure SpendTransaction (Coin Tag Proof : Type) where
  version : SpendTransactionVersion
  expectedOutputCount : Nat
  coverSetIds : List UInt64
  setIdBlockHash : Std.ExtTreeMap UInt64 Uint256
  f : UInt64
  vout : UInt64 := 0
  T : List Tag
  extensionCommitment : Uint256 := 0
  outCoins : List Coin := []
  coverSetSizes : UInt64 → Option Nat := fun _ => none
  coverSetRepresentations : UInt64 → Option (List UInt8) := fun _ => none
  proof : Proof

namespace SpendTransaction

variable {Coin Tag Proof : Type}

variable (sp : SpendTransaction Coin Tag Proof)

def setOutCoins (outCoins : List Coin) : Except Reject (SpendTransaction Coin Tag Proof) := do
  rejectIf (sp.version == .V2 && outCoins.length != sp.expectedOutputCount)
    (.error "Spark V2 output count mismatch")
  .ok { sp with outCoins }

def setCoverSets (data : List (UInt64 × CoverSetData)) : SpendTransaction Coin Tag Proof :=
  data.foldl (fun sp entry =>
    { sp with
      coverSetSizes := Function.update sp.coverSetSizes entry.1 (some entry.2.coverSetSize)
      coverSetRepresentations := Function.update sp.coverSetRepresentations entry.1
        (some entry.2.coverSetRepresentation) }) sp

/-- `setVout` guards `f + vout` against wrapping. -/
def setVout (vout : UInt64) : Except Reject (SpendTransaction Coin Tag Proof) := do
  rejectIf (decide (0 < vout) && decide (2 ^ 64 - 1 - vout.toNat < sp.f.toNat))
    (.error "fee + vout overflow")
  .ok { sp with vout }

end SpendTransaction

/-- A parsed mint transaction with the outcome of its `verify`, an exception message
or a verdict. -/
structure MintTransaction (Coin : Type) where
  coins : List Coin
  verify : Except String Bool

/-- The code that the node calls outside the modelled files: hashing, the coin and spend
formats, and the proof systems. A spend is verified against a provider of cover sets;
an exception of the verifier counts as failure. -/
structure SparkEnv (Coin Tag Proof : Type) where
  getHash : CTransaction → Uint256
  hash256 : List UInt8 → List UInt8
  deserializeSpend : SpendTransactionVersion → Nat → List UInt8 →
    Option (SpendTransaction Coin Tag Proof)
  parseSparkMintTransaction : List CScript → Option (MintTransaction Coin)
  parseSparkMintCoin : CScript → Option Coin
  serializeCoin : Coin → List UInt8
  coinHash : Coin → Uint256
  coinValue : Coin → UInt64
  verify : SpendTransaction Coin Tag Proof → (UInt64 → Option (List Coin)) → Bool
  verifyHistorical : SpendTransaction Coin Tag Proof → (UInt64 → Option (List Coin)) → Bool
  names : NameEnv

inductive ParseFailure where
  | badTxIn
  | exception
deriving DecidableEq, Repr

variable {Coin Tag Proof : Type}

def parseSparkSpend (env : SparkEnv Coin Tag Proof) (tx : CTransaction) :
    Except ParseFailure (SpendTransaction Coin Tag Proof) :=
  match tx.vin with
  | [txin] =>
    if txin.scriptSig.isSparkSpend && tx.isSparkSpend then
      let version := if tx.nType = TRANSACTION_SPARK_V2 then .V2 else .V1
      let outputCount := (tx.vout.filter fun o => o.scriptPubKey.isSparkSMint).length
      match env.deserializeSpend version outputCount tx.vExtraPayload with
      | some sp => .ok { sp with version, expectedOutputCount := outputCount }
      | none => .error .exception
    else .error .badTxIn
  | _ => .error .badTxIn

def getSparkUsedTags (env : SparkEnv Coin Tag Proof) (tx : CTransaction) : List Tag :=
  match parseSparkSpend env tx with
  | .ok sp => sp.T
  | .error _ => []

def getSpendTransparentAmount (tx : CTransaction) : Int :=
  if tx.isSparkSpend then (tx.vout.map (·.nValue)).sum else 0

structure CSparkTxInfo (Coin Tag : Type) where
  spTransactions : List Uint256 := []
  mints : List Coin := []
  spentLTags : List (Tag × Int) := []
  sparkNames : Std.ExtTreeMap String CSparkNameTxData := ∅
  fInfoIsComplete : Bool := false

/-- `BatchProofContainer`: the spends whose proofs are checked later, with their
transaction ids; the temporary lists hold those of the block being connected.
`recoveryMarker` tells whether the file that forces a reindex exists. -/
structure BatchProofContainer (Spend : Type) where
  fCollectProofs : Bool := false
  fBatchFailed : Bool := false
  fReindex : Bool := false
  recoveryMarker : Bool := false
  tempSparkTransactions : List (Spend × Uint256) := []
  tempHistoricalSparkTransactions : List (Spend × Uint256) := []
  sparkTransactions : List (Spend × Uint256) := []
  historicalSparkTransactions : List (Spend × Uint256) := []

namespace BatchProofContainer

variable {Spend : Type}

variable (b : BatchProofContainer Spend)

def init : BatchProofContainer Spend :=
  { b with
    tempSparkTransactions := []
    tempHistoricalSparkTransactions := []
    recoveryMarker := b.recoveryMarker || b.fCollectProofs }

def add (sp : Spend) (txHash : Uint256) : BatchProofContainer Spend :=
  { b with tempSparkTransactions := b.tempSparkTransactions ++ [(sp, txHash)] }

def addHistorical (sp : Spend) (txHash : Uint256) : BatchProofContainer Spend :=
  { b with
    tempHistoricalSparkTransactions := b.tempHistoricalSparkTransactions ++ [(sp, txHash)] }

def finalize : BatchProofContainer Spend :=
  { if b.fCollectProofs then
      { b with
        sparkTransactions := b.sparkTransactions ++ b.tempSparkTransactions
        historicalSparkTransactions :=
          b.historicalSparkTransactions ++ b.tempHistoricalSparkTransactions }
    else b with
    tempSparkTransactions := []
    tempHistoricalSparkTransactions := []
    fCollectProofs := false }

/-- `remove`: the spends with the same linking tags leave the batch, and a changed
batch is tried again. -/
def remove [DecidableEq Tag] (b : BatchProofContainer (SpendTransaction Coin Tag Proof))
    (sp : SpendTransaction Coin Tag Proof) :
    BatchProofContainer (SpendTransaction Coin Tag Proof) :=
  let keep := fun (entry : SpendTransaction Coin Tag Proof × Uint256) => entry.1.T != sp.T
  { b with
    sparkTransactions := b.sparkTransactions.filter keep
    historicalSparkTransactions := b.historicalSparkTransactions.filter keep
    fBatchFailed := b.fBatchFailed &&
      b.sparkTransactions.all keep && b.historicalSparkTransactions.all keep }

end BatchProofContainer

/-- What checking a transaction may change: the info of the block it is in, if any,
the cache of verified spends and the batch. None of it is Spark state. -/
structure CheckCtx (Coin Tag Proof : Type) where
  sparkTxInfo : Option (CSparkTxInfo Coin Tag) := none
  checkedSpends : List Uint256 := []
  batch : BatchProofContainer (SpendTransaction Coin Tag Proof) := {}

/-- What checking a transaction reads: the active chain, the live state, and the state
and names of the chain it is validated against, which differ from the live ones while
`VerifyDB` has a context of its own. -/
structure View (Coin Tag : Type) where
  chain : List (CBlockIndex Coin Tag)
  sparkState : CSparkState Coin Tag
  validationState : CSparkState Coin Tag
  nameManager : CSparkNameManager
  hasVerifyDBContext : Bool := false

abbrev CheckM (Coin Tag Proof : Type) := EStateM Reject (CheckCtx Coin Tag Proof)

def CheckCtx.updateInfo (ctx : CheckCtx Coin Tag Proof)
    (f : CSparkTxInfo Coin Tag → CSparkTxInfo Coin Tag) : CheckCtx Coin Tag Proof :=
  { ctx with
    sparkTxInfo := ctx.sparkTxInfo.map fun info => if info.fInfoIsComplete then info else f info }

end Firo.Spark
