import Firo.Spark.Basic
import Firo.Lib.Entries

/-! What `CDbIndexHelper` of `txdb.cpp` collects for the address index, the address-unspent index
and the spent index when a transaction is connected or disconnected. `Solver` and the parsers are
parameters about which nothing is assumed. -/
namespace Firo.Index

open Firo.Spark Firo.Lib

abbrev Uint160 := BitVec 160

inductive AddressType
  | unknown
  | payToPubKeyHash
  | payToScriptHash
  | zerocoinMint
  | zerocoinSpend
  | sigmaMint
  | sigmaSpend
  | zerocoinRemint
  | lelantusMint
  | lelantusJMint
  | lelantusJSplit
  | sparkMint
  | sparksMint
  | sparkSpend
  | payToExchangeAddress
  | sparkName
  deriving DecidableEq, Repr

/-- The kinds of output scripts that `classifyAddress` tells apart. -/
inductive TxnOutType
  | pubkey
  | scripthash
  | pubkeyhash
  | sparknamefee
  | exchangeaddress
  | other
  deriving DecidableEq, Repr

structure CAddressIndexKey where
  type : AddressType
  hashBytes : Uint160
  blockHeight : Int
  txindex : Nat
  txhash : Uint256
  index : Nat
  spending : Bool
  deriving DecidableEq, Repr

structure CAddressUnspentKey where
  type : AddressType
  hashBytes : Uint160
  txhash : Uint256
  index : Nat
  deriving DecidableEq, Repr

structure CAddressUnspentValue where
  satoshis : Int
  script : CScript
  blockHeight : Int
  deriving DecidableEq, Repr

namespace CAddressUnspentValue

def null : CAddressUnspentValue := ⟨-1, [], 0⟩

def isNull (v : CAddressUnspentValue) : Bool := v.satoshis == -1

end CAddressUnspentValue

structure CSpentIndexKey where
  txid : Uint256
  outputIndex : Nat
  deriving DecidableEq, Repr

structure CSpentIndexValue where
  txid : Uint256
  inputIndex : Nat
  blockHeight : Int
  satoshis : Int
  addressType : AddressType
  addressHash : Uint160
  deriving DecidableEq, Repr

def CSpentIndexValue.isNull (v : CSpentIndexValue) : Bool := v.txid == 0

structure Coin where
  out : CTxOut
  nHeight : Int
  fCoinBase : Bool
  deriving DecidableEq, Repr

abbrev CoinsView := COutPoint → Option Coin

structure IndexEnv where
  getHash : CTransaction → Uint256
  solver : CScript → Option (TxnOutType × List (List UInt8))
  /-- `CPubKey::GetID` of the bytes of a key. -/
  getID : List UInt8 → Uint160
  /-- The number that the bytes of a hash stand for. -/
  toUint160 : List UInt8 → Uint160
  /-- Whether `ParseSparkNameTxData` succeeds. -/
  parseSparkNameTxData : CTransaction → Bool
  /-- The fee of the parsed Spark spend; `none` if the parser throws. -/
  parseSparkSpendFee : CTransaction → Option Nat
  nSparkNamesStartBlock : Int
  isMain : Bool
  maxOutputsPerBlock : Nat
  applyUndoForTxout : Int → Uint256 → Nat → Bool
  fAddressIndex : Bool
  fSpentIndex : Bool

def OP_ZEROCOINMINT : UInt8 := 0xc1
def OP_SIGMASPEND : UInt8 := 0xc4
def OP_RETURN : UInt8 := 0x6a
def MAX_SCRIPT_SIZE : Nat := 10000

def isUnspendable (s : CScript) : Bool :=
  CScript.startsWith OP_RETURN s || decide (MAX_SCRIPT_SIZE < s.length)

def isZerocoinSpendIn (i : CTxIn) : Bool :=
  i.prevout.isNull && CScript.startsWith OP_ZEROCOINSPEND i.scriptSig

def isSigmaSpendIn (i : CTxIn) : Bool :=
  (i.prevout.hash == 0 && decide (1 ≤ i.prevout.n)) && CScript.startsWith OP_SIGMASPEND i.scriptSig

def isLelantusJoinSplitIn (i : CTxIn) : Bool :=
  i.prevout.isNull && (CScript.startsWith OP_LELANTUSJOINSPLIT i.scriptSig ||
    CScript.startsWith OP_LELANTUSJOINSPLITPAYLOAD i.scriptSig)

def isZerocoinRemintIn (i : CTxIn) : Bool :=
  i.prevout.isNull && CScript.startsWith OP_ZEROCOINTOSIGMAREMINT i.scriptSig

variable (tx : CTransaction)

def isZerocoinSpend : Bool := tx.vin.any isZerocoinSpendIn
def isSigmaSpend : Bool := tx.vin.any isSigmaSpendIn
def isZerocoinRemint : Bool := tx.vin.any isZerocoinRemintIn

def isLelantusJoinSplit : Bool :=
  (decide (3 ≤ tx.nVersion) && tx.nType == TRANSACTION_LELANTUS) || tx.vin.any isLelantusJoinSplitIn

def hasNoRegularInputs : Bool :=
  isZerocoinSpend tx || isSigmaSpend tx || isZerocoinRemint tx || isLelantusJoinSplit tx ||
    tx.isSparkSpend

def hasRegularInputs : Bool :=
  !tx.isCoinBase && !hasNoRegularInputs tx

/-- `CDbIndexHelper`: the collected entries. An index that is off is not written, so its
entries are collected here as well. -/
structure CDbIndexHelper where
  addressIndex : List (CAddressIndexKey × Int) := []
  addressUnspentIndex : List (CAddressUnspentKey × CAddressUnspentValue) := []
  spentIndex : List (CSpentIndexKey × CSpentIndexValue) := []
  deriving DecidableEq, Repr

namespace CDbIndexHelper

def append (h h' : CDbIndexHelper) : CDbIndexHelper where
  addressIndex := h.addressIndex ++ h'.addressIndex
  addressUnspentIndex := h.addressUnspentIndex ++ h'.addressUnspentIndex
  spentIndex := h.spentIndex ++ h'.spentIndex

instance : Append CDbIndexHelper := ⟨append⟩

def reverse (h : CDbIndexHelper) : CDbIndexHelper where
  addressIndex := h.addressIndex.reverse
  addressUnspentIndex := h.addressUnspentIndex.reverse
  spentIndex := h.spentIndex.reverse

def clearUnspent (h : CDbIndexHelper) : CDbIndexHelper :=
  { h with addressUnspentIndex := h.addressUnspentIndex.map fun e => (e.1, .null) }

def concat (l : List CDbIndexHelper) : CDbIndexHelper := l.foldl (· ++ ·) {}

end CDbIndexHelper

variable (env : IndexEnv)

def classifyAddress (type : TxnOutType) (addresses : List (List UInt8)) : AddressType × Uint160 :=
  match type with
  | .pubkey => (.payToPubKeyHash, env.getID (addresses.headD []))
  | .scripthash => (.payToScriptHash, env.toUint160 (addresses.headD []))
  | .pubkeyhash => (.payToPubKeyHash, env.toUint160 (addresses.headD []))
  | .sparknamefee => (.payToPubKeyHash, env.toUint160 (addresses.headD []))
  | .exchangeaddress => (.payToExchangeAddress, env.toUint160 (addresses.headD []))
  | .other => (.unknown, 0)

def indexedAddress (script : CScript) : Option (AddressType × Uint160) :=
  (env.solver script).bind fun (type, addresses) =>
    let addrType := classifyAddress env type addresses
    if addrType.1 = .unknown then none else some addrType

/-- Where a transaction stands: its hash, the height of the block and its number there. -/
structure TxPlace where
  txHash : Uint256
  height : Int
  txNumber : Nat

def accessCoin (view : CoinsView) (o : COutPoint) : CTxOut :=
  ((view o).map Coin.out).getD ⟨-1, []⟩

variable (place : TxPlace)

def handleInput (view : CoinsView) (input : CTxIn) (inputNo : Nat) : CDbIndexHelper :=
  let prevout := accessCoin view input.prevout
  match indexedAddress env prevout.scriptPubKey with
  | none => {}
  | some (type, hash) =>
    { addressIndex := [(⟨type, hash, place.height, place.txNumber, place.txHash, inputNo, true⟩,
        prevout.nValue * -1)]
      addressUnspentIndex := [(⟨type, hash, input.prevout.hash, input.prevout.n⟩, .null)]
      spentIndex := [(⟨input.prevout.hash, input.prevout.n⟩,
        ⟨place.txHash, inputNo, place.height, prevout.nValue, type, hash⟩)] }

def handleRemint (input : CTxIn) (nValue : Int) : CDbIndexHelper :=
  if !isZerocoinRemintIn input then {}
  else
    { addressIndex := [(⟨.zerocoinRemint, 0, place.height, place.txNumber, place.txHash, 0, true⟩,
        nValue * -1)]
      addressUnspentIndex :=
        [(⟨.zerocoinRemint, 0, input.prevout.hash, input.prevout.n⟩, .null)]
      spentIndex := [(⟨input.prevout.hash, input.prevout.n⟩,
        ⟨place.txHash, 0, place.height, nValue, .zerocoinRemint, 0⟩)] }

def valueOut : Int := (tx.vout.map CTxOut.nValue).sum

def handleZerocoinSpend (tx : CTransaction) : CDbIndexHelper :=
  let entry (type : AddressType) : CAddressIndexKey × Int :=
    (⟨type, 0, place.height, place.txNumber, place.txHash, 0, true⟩, -valueOut tx)
  let addressIndex :=
    if isZerocoinSpend tx then [entry .zerocoinSpend]
    else if isSigmaSpend tx then [entry .sigmaSpend]
    else if tx.isSparkSpend then
      if decide (env.nSparkNamesStartBlock ≤ place.height) && env.parseSparkNameTxData tx then
        [entry .sparkName, entry .sparkSpend]
      else [entry .sparkSpend]
    else [entry .lelantusJSplit]
  { addressIndex }

/-- The kinds of mints that the address index lists by the leading opcode. -/
def mintTypes (script : CScript) : List AddressType :=
  (if CScript.startsWith OP_ZEROCOINMINT script then [.zerocoinMint] else []) ++
  (if CScript.isSigmaMint script then [.sigmaMint] else []) ++
  (if CScript.isLelantusMint script then [.lelantusMint] else []) ++
  (if CScript.isLelantusJMint script then [.lelantusJMint] else []) ++
  (if CScript.isSparkMint script then [.sparkMint] else []) ++
  (if CScript.isSparkSMint script then [.sparksMint] else [])

def handleOutput (out : CTxOut) (outNo : Nat) : CDbIndexHelper :=
  let entry (type : AddressType) (hash : Uint160) : CAddressIndexKey × Int :=
    (⟨type, hash, place.height, place.txNumber, place.txHash, outNo, false⟩, out.nValue)
  let mints : CDbIndexHelper :=
    { addressIndex := (mintTypes out.scriptPubKey).map fun type => entry type 0 }
  match indexedAddress env out.scriptPubKey with
  | none => mints
  | some (type, hash) =>
    mints ++
    { addressIndex := [entry type hash]
      addressUnspentIndex := [(⟨type, hash, place.txHash, outNo⟩,
        ⟨out.nValue, out.scriptPubKey, place.height⟩)] }

def inputEntries (view : CoinsView) (tx : CTransaction) : CDbIndexHelper :=
  if hasRegularInputs tx then
    .concat (tx.vin.mapIdx fun no input => handleInput env place view input no)
  else {}

/-- The entries of a remint; `none` if it does not have exactly one input. -/
def remintEntries (tx : CTransaction) : Option CDbIndexHelper :=
  if isZerocoinRemint tx then
    match tx.vin with
    | [input] => some (handleRemint place input (valueOut tx))
    | _ => none
  else some {}

def outputEntries (tx : CTransaction) : CDbIndexHelper :=
  (if isZerocoinSpend tx || isSigmaSpend tx || isLelantusJoinSplit tx || tx.isSparkSpend then
    handleZerocoinSpend env place tx else {}) ++
  .concat (tx.vout.mapIdx fun no out => handleOutput env place out no)

namespace CDbIndexHelper

/-- A remint without exactly one input ends the collection before its outputs. -/
def connectTransaction (h : CDbIndexHelper) (place : TxPlace) (view : CoinsView)
    (tx : CTransaction) : CDbIndexHelper :=
  let h := h ++ inputEntries env place view tx
  match remintEntries place tx with
  | none => h
  | some remint => h ++ remint ++ outputEntries env place tx

/-- The new entries are reversed, and all unspent entries collected so far, those of outputs
and of earlier calls included, get the null value. -/
def disconnectTransactionInputs (h : CDbIndexHelper) (place : TxPlace) (view : CoinsView)
    (tx : CTransaction) : CDbIndexHelper :=
  match remintEntries place tx with
  | none => h
  | some remint => (h ++ (remint ++ inputEntries env place view tx).reverse).clearUnspent

def disconnectTransactionOutputs (h : CDbIndexHelper) (place : TxPlace) (tx : CTransaction) :
    CDbIndexHelper :=
  (h ++ outputEntries env place tx).reverse

end CDbIndexHelper

end Firo.Index
