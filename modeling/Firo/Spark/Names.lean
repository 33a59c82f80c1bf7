import Firo.Lib.Check
import Firo.Spark.Basic

/-! `CSparkNameManager` of `sparkname.cpp`: the registered names, what a block adds and removes, and
the check of a name transaction. What the check computes outside this file (scripts, hashes,
addresses, ownership proofs) are functions of `NameEnv`. -/
namespace Firo.Spark

open Firo.Lib

def opRegister : UInt8 := 0
def opTransfer : UInt8 := 1
def opUnregister : UInt8 := 2
def opMaximumValue : UInt8 := 3

structure CSparkNameTxData where
  nVersion : Nat
  inputsHash : Uint256
  name : String
  sparkAddress : String
  addressOwnershipProof : List UInt8
  sparkNameValidityBlocks : Nat
  additionalInfo : String
  hashFailsafe : Nat
  operationType : UInt8
  oldSparkAddress : String
  transferOwnershipProof : List UInt8
deriving DecidableEq, Repr

def CSparkNameTxData.CURRENT_VERSION : Nat := 2

/-- What `ParseSparkNameTxData` finds behind the spend in the extra payload. -/
inductive NamePayload where
  | absent
  | malformed
  | data (txData : CSparkNameTxData) (sparkNameDataPos : Nat)

/-- The code that `CheckSparkNameTx` calls outside `sparkname.cpp`. Deserialising an
ownership proof also says whether the bytes are its canonical encoding. -/
structure NameEnv where
  parseSparkNameTxData : CTransaction → Bool → NamePayload
  isSparkNameFee : CScript → Bool
  extractSparkNameFromScript : CScript → Option (String × String)
  getBaseScriptFromSparkNameFee : CScript → CScript
  getScriptForAddress : String → CScript
  transactionDigest : CTransaction → Nat → CSparkNameTxData → Uint256
  deserializeOwnershipProof : List UInt8 → Option (List UInt8 × Bool)
  getSparkNameOwnershipMessage : Uint256 → Bool → Option Nat
  decodeAddress : String → Option (List UInt8)
  verifyOwn : List UInt8 → Nat → List UInt8 → Bool
  hashExpirationHeight : Nat → Uint256
  hashSparkNameData : CSparkNameTxData → Uint256
  hashTransferProof : String → String → Uint256 → Uint256

/-- What the owner of the old address signs: both addresses and the hash of the name
data, of which the caller has cleared the proofs. -/
def NameEnv.transferDigest (env : NameEnv) (d : CSparkNameTxData) : Uint256 :=
  env.hashTransferProof d.oldSparkAddress d.sparkAddress (env.hashSparkNameData d)

structure CSparkNameManager where
  sparkNames : Std.ExtTreeMap String CSparkNameBlockIndexData := ∅
  sparkNameAddresses : Std.ExtTreeMap String String := ∅

namespace CSparkNameManager

def toUpper (name : String) : String := name.map Char.toUpper

variable {Coin Tag : Type}

variable (m : CSparkNameManager)

def getSparkNameBlockHeight (name : String) : Option Nat :=
  (m.sparkNames[toUpper name]?).map (·.sparkNameValidityHeight)

def getSparkNameAdditionalData (name : String) : Option String :=
  (m.sparkNames[toUpper name]?).map (·.additionalInfo)

def dropName (entry : String × CSparkNameBlockIndexData) : CSparkNameManager where
  sparkNames := m.sparkNames.erase (toUpper entry.1)
  sparkNameAddresses := m.sparkNameAddresses.erase entry.2.sparkAddress

def putName (entry : String × CSparkNameBlockIndexData) : CSparkNameManager where
  sparkNames := m.sparkNames.insert (toUpper entry.1) entry.2
  sparkNameAddresses := m.sparkNameAddresses.insert entry.2.sparkAddress (toUpper entry.1)

/-- The body of the second loop of `AddBlock`, which also keeps the entry that it
overwrites. -/
def addName (fBackupRewrittenEntries : Bool)
    (acc : CSparkNameManager × Std.ExtTreeMap String CSparkNameBlockIndexData)
    (entry : String × CSparkNameBlockIndexData) :
    CSparkNameManager × Std.ExtTreeMap String CSparkNameBlockIndexData :=
  let (m, removed) := acc
  let removed := match m.sparkNames[toUpper entry.1]?, fBackupRewrittenEntries with
    | some old, true => removed.insert (toUpper entry.1) old
    | _, _ => removed
  (m.putName entry, removed)

def addBlock (index : CBlockIndex Coin Tag)
    (fBackupRewrittenEntries : Bool) : CSparkNameManager × CBlockIndex Coin Tag :=
  let m := index.removedSparkNames.toList.foldl dropName m
  let (m, removed) := index.addedSparkNames.toList.foldl (addName fBackupRewrittenEntries)
    (m, index.removedSparkNames)
  (m, { index with removedSparkNames := removed })

def removeBlock (index : CBlockIndex Coin Tag) : CSparkNameManager :=
  index.removedSparkNames.toList.foldl putName (index.addedSparkNames.toList.foldl dropName m)

def losesValidity (nHeight : Int) (data : CSparkNameBlockIndexData) : Bool :=
  decide ((data.sparkNameValidityHeight : Int) ≤ nHeight)

/-- `RemoveSparkNamesLosingValidity`: the names that are left, and those removed. -/
def removeSparkNamesLosingValidity (nHeight : Int) :
    CSparkNameManager × List (String × CSparkNameBlockIndexData) :=
  let expired := m.sparkNames.toList.filter fun entry => losesValidity nHeight entry.2
  (expired.foldl (fun m entry =>
      { sparkNames := m.sparkNames.erase entry.1
        sparkNameAddresses := m.sparkNameAddresses.erase entry.2.sparkAddress }) m,
    expired)

def maximumSparkNameLength : Nat := 20

def isSparkNameAsciiAlphaNumeric (c : Char) : Bool :=
  ('0' ≤ c && c ≤ '9') || ('A' ≤ c && c ≤ 'Z') || ('a' ≤ c && c ≤ 'z')

def isSparkNameValid (name : String) : Bool :=
  decide (1 ≤ name.utf8ByteSize) && decide (name.utf8ByteSize ≤ maximumSparkNameLength) &&
    name.toList.all fun c => isSparkNameAsciiAlphaNumeric c || c == '-' || c == '.'

def isInConflict (txData : CSparkNameTxData)
    (txSet : Std.ExtTreeMap String CSparkNameTxData) : Bool :=
  txSet.contains (toUpper txData.name) ||
    txSet.toList.any fun entry => entry.2.sparkAddress == txData.sparkAddress

def nBlockPerYear : Int := 365 * 24 * 24

def isNameTransfer (d : CSparkNameTxData) : Bool :=
  decide (2 ≤ d.nVersion) && d.operationType == opTransfer

def existingExpirationHeight (d : CSparkNameTxData) : Int :=
  match m.sparkNames[toUpper d.name]? with
  | some data => int32 data.sparkNameValidityHeight
  | none => -1

def checkNameFormat (cp : ConsensusParams) (nHeight : Int) (nDoS : Nat)
    (d : CSparkNameTxData) : Except Reject Unit := do
  rejectIf (decide (CSparkNameTxData.CURRENT_VERSION < d.nVersion))
    (.dosError 100 "CheckSparkNameTx: invalid version")
  rejectIf (decide (2 ≤ d.nVersion) && decide (nHeight < cp.nSparkNamesV2StartBlock))
    (.dosError nDoS "CheckSparkNameTx: spark name tx v2 is not allowed yet")
  rejectIf (decide (2 ≤ d.nVersion) && decide (opMaximumValue ≤ d.operationType))
    (.dosError 100 "CheckSparkNameTx: invalid operation type")
  rejectIf (decide (2 ≤ d.nVersion) && d.operationType == opUnregister)
    (.dosError 100 "CheckSparkNameTx: unregister operation is not supported yet")
  rejectIf (!isSparkNameValid d.name) (.dosError 100 "CheckSparkNameTx: invalid name")

def checkNameOwner (nDoS : Nat) (d : CSparkNameTxData) : Except Reject Unit :=
  match m.sparkNames[toUpper d.name]? with
  | some data => rejectIf (!isNameTransfer d && data.sparkAddress != d.sparkAddress)
      (.dosError nDoS "CheckSparkNameTx: name already exists")
  | none => .ok ()

def checkNameValidity (cp : ConsensusParams) (nHeight : Int)
    (nDoS : Nat) (d : CSparkNameTxData) : Except Reject Unit := do
  rejectIf (d.sparkNameValidityBlocks == 0)
    (.dosError 100 "CheckSparkNameTx: validity period must be at least 1 block")
  rejectIf (decide (nBlockPerYear * 15 < d.sparkNameValidityBlocks))
    (.dosError 100 "CheckSparkNameTx: can't be valid for more than 15 years")
  let validityBlocks : Int := d.sparkNameValidityBlocks
  if cp.nSparkNamesV21StartBlock ≤ nHeight then
    let existing := existingExpirationHeight m d
    let validityBlocks :=
      if existing != -1 then max validityBlocks (int32 (existing - nHeight + validityBlocks))
      else validityBlocks
    rejectIf (decide (nBlockPerYear * 15 < validityBlocks))
      (.dosError nDoS "CheckSparkNameTx: can't be valid for more than 15 years")
  else
    rejectIf (decide (nBlockPerYear * 10 < validityBlocks))
      (.dosError nDoS "CheckSparkNameTx: can't be valid for more than 10 years")

def nameFee (cp : ConsensusParams) (d : CSparkNameTxData) : Int :=
  let nYears : Int := (d.sparkNameValidityBlocks + nBlockPerYear - 1) / nBlockPerYear
  cp.nSparkNamesFee.getD d.name.utf8ByteSize 0 * COIN * nYears

variable (env : NameEnv) (cp : ConsensusParams)

def isNamePayoutScript (nHeight : Int) (script : CScript) : Bool :=
  (decide (nHeight < cp.stage41StartBlockDevFundAddressChange +
      cp.stage41SparkNamesGracefulPeriod) &&
    script == env.getScriptForAddress cp.stage3DevelopmentFundAddress) ||
  (decide (cp.stage41StartBlockDevFundAddressChange ≤ nHeight) &&
    script == env.getScriptForAddress cp.stage3CommunityFundAddress)

/-- From v2.1 on every tagged output must carry the name and the address; the result
says whether one of them pays the fee. -/
def checkTaggedFees (env : NameEnv) (cp : ConsensusParams) (nHeight : Int)
    (d : CSparkNameTxData) : List CTxOut → Except Reject Bool
  | [] => .ok false
  | txout :: rest =>
    if env.isSparkNameFee txout.scriptPubKey then do
      let embedded ← orReject (env.extractSparkNameFromScript txout.scriptPubKey)
        (.dosError 100 "CheckSparkNameTx: malformed spark name fee output")
      rejectIf (embedded.1 != d.name) (.dosError 100
        "CheckSparkNameTx: spark name in fee output does not match transaction data")
      rejectIf (embedded.2 != d.sparkAddress) (.dosError 100
        "CheckSparkNameTx: spark address in fee output does not match transaction data")
      let found ← checkTaggedFees env cp nHeight d rest
      .ok (found || (isNamePayoutScript env cp nHeight
          (env.getBaseScriptFromSparkNameFee txout.scriptPubKey) &&
        decide (nameFee cp d ≤ txout.nValue)))
    else checkTaggedFees env cp nHeight d rest

def paysNameFee (nHeight : Int) (tx : CTransaction) (d : CSparkNameTxData) : Bool :=
  tx.vout.any fun txout =>
    let baseScript := if env.isSparkNameFee txout.scriptPubKey
      then env.getBaseScriptFromSparkNameFee txout.scriptPubKey else txout.scriptPubKey
    isNamePayoutScript env cp nHeight baseScript && decide (nameFee cp d ≤ txout.nValue)

def checkNameFee (nHeight : Int) (nDoS : Nat)
    (tx : CTransaction) (d : CSparkNameTxData) : Except Reject Unit := do
  if cp.nSparkNamesV21StartBlock ≤ nHeight then
    let payoutFound ← checkTaggedFees env cp nHeight d tx.vout
    rejectIf (!payoutFound) (.dosError nDoS
      "CheckSparkNameTx: spark name fee output with name/address tag is required after v2.1")
  else
    rejectIf (!paysNameFee env cp nHeight tx d)
      (.dosError nDoS "CheckSparkNameTx: name fee is either missing or insufficient")

def checkNameOwnership (env : NameEnv) (requireCanonicalExtension : Bool) (nDoS : Nat)
    (tx : CTransaction) (d : CSparkNameTxData) (sparkNameDataPos : Nat) : Except Reject Unit := do
  let (ownershipProof, canonical) ← orReject (env.deserializeOwnershipProof d.addressOwnershipProof)
      (.dosError 100 "CheckSparkNameTx: failed to deserialize ownership proof")
  rejectIf (requireCanonicalExtension && !canonical)
    (.dosError nDoS "CheckSparkNameTx: non-canonical ownership proof")
  let m ← orReject (env.getSparkNameOwnershipMessage
      (env.transactionDigest tx sparkNameDataPos { d with addressOwnershipProof := [] })
      tx.isSparkSpendV2)
    (.dosError 100 "CheckSparkNameTx: hash is out of range")
  let address ← orReject (env.decodeAddress d.sparkAddress)
    (.dosError 100 "CheckSparkNameTx: cannot decode spark address")
  rejectIf (!env.verifyOwn address m ownershipProof)
    (.dosError 100 "CheckSparkNameTx: ownership proof is invalid")

/-- The checks of a transfer: it commits to the current registration, comes from the
address of the name, and carries a proof of that address. -/
def checkNameTransfer (nHeight : Int) (requireCanonicalExtension : Bool) (nDoS : Nat)
    (d : CSparkNameTxData) : Except Reject Unit := do
  if cp.nSparkNamesV21StartBlock ≤ nHeight then
    let fInGracePeriod := decide (nHeight < cp.nSparkNamesV21StartBlock +
      cp.stage41SparkNamesGracefulPeriod)
    let fLegacyTransfer := fInGracePeriod && d.inputsHash == 0
    rejectIf (d.inputsHash !=
        env.hashExpirationHeight (uint64 (existingExpirationHeight m d)) && !fLegacyTransfer)
      (.dosError nDoS "CheckSparkNameTx: bad transfer proof inputs hash")
  let oldAddress ← orReject (env.decodeAddress d.oldSparkAddress)
    (.dosError 100 "CheckSparkNameTx: cannot decode old spark address")
  rejectIf (m.sparkNameAddresses[d.oldSparkAddress]? != some (toUpper d.name)) (.dosError nDoS
      "CheckSparkNameTx: old spark address is not associated with the spark name")
  let (transferProof, canonical) ← orReject (env.deserializeOwnershipProof d.transferOwnershipProof)
      (.dosError 100 "CheckSparkNameTx: failed to deserialize transfer ownership proof")
  rejectIf (requireCanonicalExtension && !canonical)
    (.dosError nDoS "CheckSparkNameTx: non-canonical transfer ownership proof")
  let mTransfer ← orReject (env.getSparkNameOwnershipMessage
      (env.transferDigest { d with addressOwnershipProof := [], transferOwnershipProof := [] })
      false)
    (.dosError 100 "CheckSparkNameTx: hash is out of range")
  rejectIf (!env.verifyOwn oldAddress mTransfer transferProof)
    (.dosError 100 "CheckSparkNameTx: transfer ownership proof is invalid")

/-- The part of `CheckSparkNameTx` behind the parsing of the name data. -/
def checkSparkNameData (tx : CTransaction) (nHeight : Int) (requireCanonicalExtension : Bool)
    (nDoS : Nat) (d : CSparkNameTxData) (sparkNameDataPos : Nat) : Except Reject Unit := do
  checkNameFormat cp nHeight nDoS d
  checkNameOwner m nDoS d
  checkNameValidity m cp nHeight nDoS d
  checkNameFee env cp nHeight nDoS tx d
  rejectIf (decide (1024 < d.additionalInfo.utf8ByteSize))
    (.dosError 100 "CheckSparkNameTx: additional info is too long")
  rejectIf ((isNameTransfer d || !m.sparkNames.contains (toUpper d.name)) &&
      m.sparkNameAddresses.contains d.sparkAddress)
    (.dosError nDoS "CheckSparkNameTx: spark address is already used for another name")
  checkNameOwnership env requireCanonicalExtension nDoS tx d sparkNameDataPos
  if isNameTransfer d then
    checkNameTransfer m env cp nHeight requireCanonicalExtension nDoS d

/-- `CheckSparkNameTx`: the name data of an accepted transaction, `none` when it
carries no name. -/
def checkSparkNameTx (tx : CTransaction) (nHeight : Int) (nContextualFailureDoS : Nat) :
    Except Reject (Option CSparkNameTxData) := do
  rejectIf (!tx.isSparkSpend) (.error "CheckSparkNameTx: not a spark name tx")
  if nHeight < cp.nSparkNamesStartBlock then
    return none
  let requireCanonicalExtension :=
    tx.isSparkSpendV2 || decide (cp.nSparkChaumV2StartBlock ≤ nHeight)
  match env.parseSparkNameTxData tx requireCanonicalExtension with
  | .absent => do
    rejectIf (decide (cp.nSparkChaumV2StartBlock ≤ nHeight) &&
        tx.vout.any fun o => env.isSparkNameFee o.scriptPubKey)
      (.dosError nContextualFailureDoS
        "CheckSparkNameTx: Spark name fee requires canonical metadata")
    return none
  | .malformed =>
    .error (.dosError nContextualFailureDoS "CheckSparkNameTx: failed to parse spark name tx")
  | .data d sparkNameDataPos => do
    checkSparkNameData m env cp tx nHeight requireCanonicalExtension nContextualFailureDoS d
      sparkNameDataPos
    return some d

end CSparkNameManager

end Firo.Spark
