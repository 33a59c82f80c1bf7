import Firo.Index.AddressIndex

/-! The parts of `ConnectBlock` and `DisconnectBlock` of `validation.cpp` that decide what the
indexes hold: the coins that the helper reads, the undo data, and the writes to the database. The
other checks of `ConnectBlock` only reject more blocks and are left out. -/
namespace Firo.Index

open Firo.Spark Firo.Lib

variable (env : IndexEnv)

structure IndexDb where
  addressIndex : CAddressIndexKey → Option Int
  addressUnspentIndex : CAddressUnspentKey → Option CAddressUnspentValue
  spentIndex : CSpentIndexKey → Option CSpentIndexValue

structure ChainIndex where
  nHeight : Int
  view : CoinsView
  db : IndexDb

def ChainIndex.genesis : ChainIndex :=
  ⟨0, fun _ => none, ⟨fun _ => none, fun _ => none, fun _ => none⟩⟩

abbrev CTxUndo := List (Option Coin)

variable (view : CoinsView)

def spendCoins (outs : List COutPoint) : CoinsView :=
  eraseAll view outs

def spentCoins (view : CoinsView) : List COutPoint → CTxUndo
  | [] => []
  | o :: outs => view o :: spentCoins (Function.update view o none) outs

variable (tx : CTransaction)

def prevouts : List COutPoint := tx.vin.map CTxIn.prevout

def newCoins (nHeight : Int) : List (COutPoint × Coin) :=
  (tx.vout.mapIdx fun i out => ((⟨env.getHash tx, i⟩ : COutPoint),
    (⟨out, nHeight, tx.isCoinBase⟩ : Coin))).filter fun c => !isUnspendable c.2.out.scriptPubKey

/-- `AddCoins`; `none` is the exception for a coin that replaces an unspent one. -/
def addCoins (nHeight : Int) : Option CoinsView :=
  let coins := newCoins env tx nHeight
  if !tx.isCoinBase && coins.any (fun c => (view c.1).isSome) then none
  else some (writeAll view coins)

def updateCoins (nHeight : Int) : Option (CoinsView × CTxUndo) :=
  if hasRegularInputs tx then
    (addCoins env (spendCoins view (prevouts tx)) tx nHeight).map
      fun view' => (view', spentCoins view (prevouts tx))
  else (addCoins env view tx nHeight).map fun view' => (view', [])

def getSparkSpendFee : Option Int :=
  (env.parseSparkSpendFee tx).bind fun fee => if (fee : Int) > MAX_MONEY then none else some fee

structure Connecting where
  view : CoinsView
  txIds : List Uint256
  nFees : Int
  vtxundo : List CTxUndo
  helper : CDbIndexHelper

def valueIn : Int :=
  ((prevouts tx).map fun o => (accessCoin view o).nValue).sum

/-- The fee of the transaction, where it is counted; `none` is a rejected block. -/
def connectFees (nFees : Int) (tx : CTransaction) : Option Int :=
  if tx.isSparkSpend then
    (getSparkSpendFee env tx).bind fun fee =>
      if moneyRange (nFees + fee) then some (nFees + fee) else none
  else if hasRegularInputs tx then
    if valueIn view tx < valueOut tx then none else some (nFees + (valueIn view tx - valueOut tx))
  else some nFees

/-- One transaction in the loop of `ConnectBlock`. A transaction that repeats one of the block
was allowed on the main network up to a height; its coins are not updated. -/
def connectTx (nHeight : Int) (txNumber : Nat) (c : Connecting) (tx : CTransaction) :
    Option Connecting :=
  let txHash := env.getHash tx
  let duplicate := decide (txHash ∈ c.txIds)
  if duplicate && (!env.isMain || decide (HF_ZNODE_HEIGHT ≤ nHeight)) then none
  else if (isLelantusJoinSplit tx || tx.isSparkSpend) && decide (1 < tx.vin.length) then none
  else if hasRegularInputs tx && !(prevouts tx).all (fun o => (c.view o).isSome) then none
  else
    (connectFees env c.view c.nFees tx).bind fun nFees =>
      let helper := c.helper.connectTransaction env ⟨txHash, nHeight, txNumber⟩ c.view tx
      (if duplicate then some (c.view, []) else updateCoins env c.view tx nHeight).map
        fun (view, undo) =>
          { view, nFees, helper
            txIds := txHash :: c.txIds
            vtxundo := if txNumber = 0 then c.vtxundo else c.vtxundo ++ [undo] }

def connectTxs (nHeight : Int) : Nat → Connecting → List CTransaction → Option Connecting
  | _, c, [] => some c
  | i, c, tx :: txs => (connectTx env nHeight i c tx).bind fun c => connectTxs nHeight (i + 1) c txs

def coinbaseFirst : List CTransaction → Bool
  | [] => false
  | tx :: txs => tx.isCoinBase && txs.all fun tx => !tx.isCoinBase

def bip30 (vtx : List CTransaction) : Bool :=
  vtx.all fun tx => (List.range tx.vout.length).all fun o => (view ⟨env.getHash tx, o⟩).isNone

def IndexDb.connect (db : IndexDb) (h : CDbIndexHelper) : IndexDb where
  addressIndex := if env.fAddressIndex then writeAll db.addressIndex h.addressIndex
    else db.addressIndex
  addressUnspentIndex := if env.fAddressIndex then
      updateAll CAddressUnspentValue.isNull db.addressUnspentIndex h.addressUnspentIndex
    else db.addressUnspentIndex
  spentIndex := if env.fSpentIndex then
      updateAll CSpentIndexValue.isNull db.spentIndex h.spentIndex
    else db.spentIndex

def connectBlock (s : ChainIndex) (vtx : List CTransaction) : Option (ChainIndex × List CTxUndo) :=
  if !coinbaseFirst vtx || !bip30 env s.view vtx then none
  else
    (connectTxs env (s.nHeight + 1) 0 ⟨s.view, [], 0, [], {}⟩ vtx).map fun c =>
      (⟨s.nHeight + 1, c.view, s.db.connect env c.helper⟩, c.vtxundo)

def accessByTxid (txid : Uint256) : Option Coin :=
  (List.range env.maxOutputsPerBlock).findSome? fun n => view ⟨txid, n⟩

/-- `ApplyTxInUndo`; `none` if the metadata of the coin is missing or there is no coin. -/
def applyTxInUndo (undo : Option Coin) (view : CoinsView) (out : COutPoint) : Option CoinsView :=
  undo.bind fun coin =>
    (if coin.nHeight = 0 then
      (accessByTxid env view out.hash).map fun alternate =>
        { coin with nHeight := alternate.nHeight, fCoinBase := alternate.fCoinBase }
    else some coin).map fun coin =>
      if isUnspendable coin.out.scriptPubKey then view else Function.update view out (some coin)

def restoreInputs (nHeight : Int) (txHash : Uint256) :
    Nat → List (COutPoint × Option Coin) → CoinsView → Option CoinsView
  | _, [], view => some view
  | j, (out, undo) :: rest, view =>
    (restoreInputs nHeight txHash (j + 1) rest view).bind fun view =>
      if env.applyUndoForTxout nHeight txHash j then applyTxInUndo env undo view out
      else some view

structure Disconnecting where
  view : CoinsView
  helper : CDbIndexHelper

def disconnectTx (nHeight : Int) (txNumber : Nat) (undo : CTxUndo) (d : Disconnecting)
    (tx : CTransaction) : Option Disconnecting :=
  let place : TxPlace := ⟨env.getHash tx, nHeight, txNumber⟩
  let helper := d.helper.disconnectTransactionOutputs env place tx
  let view := eraseAll d.view ((newCoins env tx nHeight).map Prod.fst)
  let restored :=
    if hasRegularInputs tx then
      if undo.length ≠ tx.vin.length then none
      else restoreInputs env nHeight place.txHash 0 ((prevouts tx).zip undo) view
    else some view
  restored.map fun view => ⟨view, helper.disconnectTransactionInputs env place view tx⟩

/-- The loop over the transactions, from the last one to the one numbered `i`. The coinbase,
numbered 0, has no undo data. -/
def disconnectTxs (nHeight : Int) :
    Nat → List CTxUndo → Disconnecting → List CTransaction → Option Disconnecting
  | _, _, d, [] => some d
  | i, vtxundo, d, tx :: txs =>
    let rest := if i = 0 then vtxundo else vtxundo.tail
    (disconnectTxs nHeight (i + 1) rest d txs).bind fun d =>
      disconnectTx env nHeight i (if i = 0 then [] else vtxundo.headD []) d tx

/-- The fees of the Spark spends are summed and kept in the money range. -/
def disconnectFees (nFees : Int) : List CTransaction → Option Int
  | [] => some nFees
  | tx :: txs =>
    if tx.isSparkSpend then
      (getSparkSpendFee env tx).bind fun fee =>
        if moneyRange fee && decide (fee ≤ MAX_MONEY - nFees) then disconnectFees (nFees + fee) txs
        else none
    else disconnectFees nFees txs

/-- The writes of `DisconnectBlock`: the spent index is not written. -/
def IndexDb.disconnect (db : IndexDb) (h : CDbIndexHelper) : IndexDb where
  addressIndex := if env.fAddressIndex then
      eraseAll db.addressIndex (h.addressIndex.map Prod.fst)
    else db.addressIndex
  addressUnspentIndex := if env.fAddressIndex then
      updateAll CAddressUnspentValue.isNull db.addressUnspentIndex h.addressUnspentIndex
    else db.addressUnspentIndex
  spentIndex := db.spentIndex

/-- `DisconnectBlock` of the tip; `none` is `DISCONNECT_FAILED`. -/
def disconnectBlock (s : ChainIndex) (vtx : List CTransaction) (vtxundo : List CTxUndo) :
    Option ChainIndex :=
  if vtxundo.length + 1 ≠ vtx.length then none
  else if env.fAddressIndex && (disconnectFees env 0 vtx).isNone then none
  else
    (disconnectTxs env s.nHeight 0 vtxundo ⟨s.view, {}⟩ vtx).map fun d =>
      ⟨s.nHeight - 1, d.view, s.db.disconnect env d.helper⟩

end Firo.Index
