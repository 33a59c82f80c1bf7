import Firo.Lib.Check
import Firo.Lib.Registry
import Firo.Spark.Spend

/-! `evo/spork.cpp`: the map of the features that are disabled or limited, how the spork
transactions of a block change it, and the check of a transaction under it. -/
namespace Firo.Miner

open Firo.Lib Firo.Spark List

def REJECT_CONFLICT : Nat := 0x102

inductive ActionType where
  | sporkDisable
  | sporkEnable
  | sporkLimit
deriving DecidableEq, Repr

structure CSporkAction where
  actionType : ActionType
  feature : String
  parameter : Int
  nEnableAtHeight : Int
deriving DecidableEq, Repr

def featureSpark : String := "spark"
def featureSparkTransparentLimit : String := "sparktransparentlimit"

/-- The height from which a feature is enabled again, and the parameter. -/
abbrev ActiveSporkMap := Std.ExtTreeMap String (Int × Int)

def isSporkTx (tx : CTransaction) : Bool :=
  decide (tx.nVersion = 3) && tx.nType == TRANSACTION_SPORK

section

variable (nHeight : Int)

def applyAction (sporkMap : ActiveSporkMap) (action : CSporkAction) : ActiveSporkMap :=
  match action.actionType with
  | .sporkEnable => sporkMap.erase action.feature
  | .sporkDisable | .sporkLimit =>
    if action.nEnableAtHeight = 0 ∨ nHeight < action.nEnableAtHeight then
      sporkMap.insert action.feature (action.nEnableAtHeight, action.parameter)
    else sporkMap

/-- The loop over the transactions; `getSporkTx` reads the actions of the payload. It stops at
a payload that cannot be read. -/
def applySporkTxs (getSporkTx : CTransaction → Option (List CSporkAction)) :
    List CTransaction → ActiveSporkMap → Bool × ActiveSporkMap
  | [], sporkMap => (true, sporkMap)
  | tx :: rest, sporkMap =>
    if isSporkTx tx then
      match getSporkTx tx with
      | none => (false, sporkMap)
      | some actions => applySporkTxs getSporkTx rest (actions.foldl (applyAction nHeight) sporkMap)
    else applySporkTxs getSporkTx rest sporkMap

def unexpired (previousSporkMap : ActiveSporkMap) : ActiveSporkMap :=
  previousSporkMap.filter fun _ spork => !(spork.1 != 0 && decide (spork.1 ≤ nHeight))

def sporksActive (cp : ConsensusParams) : Bool :=
  decide (cp.nEvoSporkStartBlock ≤ nHeight) && decide (nHeight < cp.nEvoSporkStopBlock)

/-- `UpdateActiveSporkMap` on an empty map. -/
def updateActiveSporkMap (cp : ConsensusParams)
    (getSporkTx : CTransaction → Option (List CSporkAction)) (previousSporkMap : ActiveSporkMap)
    (sporkTransactions : List CTransaction) : Bool × ActiveSporkMap :=
  if sporksActive nHeight cp then
    applySporkTxs nHeight getSporkTx sporkTransactions (unexpired nHeight previousSporkMap)
  else (true, ∅)

end

def isTransactionAllowed (tx : CTransaction) (sporkMap : ActiveSporkMap) : Except Reject Unit := do
  if tx.isSparkTransaction then
    rejectIf (sporkMap.contains featureSpark) (.dos 100 REJECT_CONFLICT "txn-spark-disabled")
    if tx.isSparkSpend then
      match sporkMap[featureSparkTransparentLimit]? with
      | some limitSpork =>
        rejectIf (decide (limitSpork.2 < getSpendTransparentAmount tx))
          (.dos 100 REJECT_CONFLICT "txn-spark-disabled")
      | none => .ok ()

end Firo.Miner
