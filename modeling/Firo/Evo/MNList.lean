import Firo.Lib.Digits
import Firo.Lib.Keyed
import Firo.Spark.Basic

/-! `CDeterministicMNList`, its differences and its simplified form. A list stands in the order in
which its map iterates, which nothing may depend on. -/
namespace Firo.Evo

open Firo.Lib Firo.Spark List

structure CDeterministicMNState where
  nRegisteredHeight : Int := -1
  nLastPaidHeight : Int := 0
  nPoSePenalty : Int := 0
  nPoSeRevivedHeight : Int := -1
  nPoSeBanHeight : Int := -1
  nRevocationReason : Nat := 0
  confirmedHash : Uint256 := 0
  confirmedHashWithProRegTxHash : Uint256 := 0
  keyIDOwner : List UInt8 := []
  pubKeyOperator : List UInt8 := []
  keyIDVoting : List UInt8 := []
  addr : List UInt8 := []
  scriptPayout : CScript := []
  scriptOperatorPayout : CScript := []
deriving DecidableEq

inductive Field where
  | nRegisteredHeight | nLastPaidHeight | nPoSePenalty | nPoSeRevivedHeight | nPoSeBanHeight
  | nRevocationReason | confirmedHash | confirmedHashWithProRegTxHash | keyIDOwner
  | pubKeyOperator | keyIDVoting | addr | scriptPayout | scriptOperatorPayout
deriving DecidableEq

namespace Field

def all : List Field :=
  [nRegisteredHeight, nLastPaidHeight, nPoSePenalty, nPoSeRevivedHeight, nPoSeBanHeight,
    nRevocationReason, confirmedHash, confirmedHashWithProRegTxHash, keyIDOwner, pubKeyOperator,
    keyIDVoting, addr, scriptPayout, scriptOperatorPayout]

def differs (a b : CDeterministicMNState) : Field → Bool
  | nRegisteredHeight => a.nRegisteredHeight != b.nRegisteredHeight
  | nLastPaidHeight => a.nLastPaidHeight != b.nLastPaidHeight
  | nPoSePenalty => a.nPoSePenalty != b.nPoSePenalty
  | nPoSeRevivedHeight => a.nPoSeRevivedHeight != b.nPoSeRevivedHeight
  | nPoSeBanHeight => a.nPoSeBanHeight != b.nPoSeBanHeight
  | nRevocationReason => a.nRevocationReason != b.nRevocationReason
  | confirmedHash => a.confirmedHash != b.confirmedHash
  | confirmedHashWithProRegTxHash =>
    a.confirmedHashWithProRegTxHash != b.confirmedHashWithProRegTxHash
  | keyIDOwner => a.keyIDOwner != b.keyIDOwner
  | pubKeyOperator => a.pubKeyOperator != b.pubKeyOperator
  | keyIDVoting => a.keyIDVoting != b.keyIDVoting
  | addr => a.addr != b.addr
  | scriptPayout => a.scriptPayout != b.scriptPayout
  | scriptOperatorPayout => a.scriptOperatorPayout != b.scriptOperatorPayout

def diff (a b : CDeterministicMNState) : List Field :=
  all.filter (differs a b)

lemma mem_all (f : Field) : f ∈ all := by
  cases f <;> decide

lemma mem_diff {a b} {f : Field} : f ∈ diff a b ↔ differs a b f := by
  simp [diff, mem_all]

/-- The fields that enter a leaf of the merkle tree of masternodes. -/
def relevantFields : List Field :=
  [nPoSeBanHeight, confirmedHash, pubKeyOperator, keyIDVoting, addr]

end Field

structure CDeterministicMN where
  proTxHash : Uint256
  internalId : Nat
  pdmnState : CDeterministicMNState

structure CDeterministicMNList where
  blockHash : Uint256 := 0
  mnMap : List CDeterministicMN := []
  proTxHash_nodup : (mnMap.map (·.proTxHash)).Nodup := by decide
  internalId_nodup : (mnMap.map (·.internalId)).Nodup := by decide

structure CDeterministicMNListDiff where
  addedMNs : List CDeterministicMN
  updatedMNs : List (Nat × List Field)
  removedMns : List Nat

namespace CDeterministicMNListDiff

def hasCbTxMerkleRootChanges (d : CDeterministicMNListDiff) : Bool :=
  !d.addedMNs.isEmpty || !d.removedMns.isEmpty ||
    d.updatedMNs.any fun p => p.2.any Field.relevantFields.contains

end CDeterministicMNListDiff

def emplace {V : Type} (m : List (Nat × V)) (p : Nat × V) : List (Nat × V) :=
  if (m.map Prod.fst).contains p.1 then m else m ++ [p]

lemma foldl_emplace {V : Type} (ps m : List (Nat × V))
    (hnodup : ((m ++ ps).map Prod.fst).Nodup) : ps.foldl emplace m = m ++ ps := by
  induction ps generalizing m with
  | nil => simp
  | cons p ps ih =>
    have hp : p.1 ∉ m.map Prod.fst := by
      rw [List.map_append, List.map_cons, List.nodup_middle] at hnodup
      exact fun h => (List.nodup_cons.mp hnodup).1 (List.mem_append_left _ h)
    have hput : emplace m p = m ++ [p] := by
      rw [emplace, if_neg (by simpa using hp)]
    rw [List.foldl_cons, hput, ih (m ++ [p]) (by simpa using hnodup)]
    simp

namespace CDeterministicMNList

variable (A B : CDeterministicMNList)

def getMN (proTxHash : Uint256) : Option CDeterministicMN :=
  Keyed.find (·.proTxHash) A.mnMap proTxHash

variable {A B} in
lemma getMN_eq_some_iff {h : Uint256} {dmn} :
    A.getMN h = some dmn ↔ dmn ∈ A.mnMap ∧ dmn.proTxHash = h :=
  Keyed.find_eq_some_iff A.proTxHash_nodup

/-- The pointers that the source compares first only save the comparison of equal states. -/
def updates : List (Nat × List Field) :=
  B.mnMap.filterMap fun toPtr => (A.getMN toPtr.proTxHash).bind fun fromPtr =>
    if Field.diff fromPtr.pdmnState toPtr.pdmnState = [] then none
    else some (toPtr.internalId, Field.diff fromPtr.pdmnState toPtr.pdmnState)

def buildDiff : CDeterministicMNListDiff where
  addedMNs := Keyed.sortBy (·.internalId)
    (B.mnMap.filter fun toPtr => (A.getMN toPtr.proTxHash).isNone)
  updatedMNs := (updates A B).foldl emplace []
  removedMns := (A.mnMap.filter fun fromPtr => (B.getMN fromPtr.proTxHash).isNone).map
    (·.internalId)

lemma updates_nodup : ((updates A B).map Prod.fst).Nodup := by
  have hkeys : ((updates A B).map Prod.fst).Sublist (B.mnMap.map (·.internalId)) := by
    unfold updates
    induction B.mnMap with
    | nil => simp
    | cons toPtr rest ih =>
      rw [filterMap_cons, map_cons]
      cases A.getMN toPtr.proTxHash with
      | none => exact ih.cons _
      | some fromPtr =>
        by_cases h : Field.diff fromPtr.pdmnState toPtr.pdmnState = []
        · simpa [h] using ih.cons _
        · simpa [h] using ih
  exact B.internalId_nodup.sublist hkeys

lemma buildDiff_updatedMNs : (buildDiff A B).updatedMNs = updates A B :=
  foldl_emplace (updates A B) [] (updates_nodup A B)

end CDeterministicMNList

end Firo.Evo
