import Firo.Index.BlockIndex
import Firo.Lib.Run

/-! Disconnecting gives back the coins, and with them the helper collects the same keys as when the
block was connected. The address index is restored. The address-unspent index loses every key that
the block touched, and the spent index keeps what the block wrote. -/
namespace Firo.Index

open Firo.Spark Firo.Lib List Option

variable {env : IndexEnv}

/-- The coins of a view are spendable and have the height of a block above the genesis. -/
def CoinsOk (view : CoinsView) : Prop :=
  ∀ o coin, view o = some coin → 0 < coin.nHeight ∧ isUnspendable coin.out.scriptPubKey = false

variable {outs : List COutPoint} {coin : Coin} {o : COutPoint} {view' : CoinsView}
  {txs : List CTransaction}

lemma spentCoins_of_nodup (h : outs.Nodup) (view) : spentCoins view outs = outs.map view := by
  induction outs generalizing view with
  | nil => rfl
  | cons o outs ih =>
    rw [nodup_cons] at h
    rw [spentCoins, ih h.2, map_cons]
    congr 1
    apply map_congr_left
    intro o' ho'
    have hne : o' ≠ o := fun heq => h.1 (heq ▸ ho')
    simp [hne]

variable {view : CoinsView} {nHeight : Int} {tx : CTransaction} {undo : CTxUndo}

lemma applyTxInUndo_some (hheight : 0 < coin.nHeight)
    (hspend : isUnspendable coin.out.scriptPubKey = false) :
    applyTxInUndo env (some coin) view o = some (Function.update view o (some coin)) := by
  simp [applyTxInUndo, hheight.ne', hspend]

lemma restoreInputs_eq {view₀} (hok : CoinsOk view₀) {txHash} {j : Nat}
    (hhave : ∀ o ∈ outs, (view₀ o).isSome = true)
    (happly : ∀ n, env.applyUndoForTxout nHeight txHash n = true) (view) :
    restoreInputs env nHeight txHash j (outs.zip (outs.map view₀)) view =
      some (fun o => if o ∈ outs then view₀ o else view o) := by
  induction outs generalizing j with
  | nil => simp [restoreInputs]
  | cons o outs ih =>
    rw [forall_mem_cons] at hhave
    obtain ⟨coin, hcoin⟩ := isSome_iff_exists.mp hhave.1
    obtain ⟨hheight, hspend⟩ := hok o coin hcoin
    rw [map_cons, zip_cons_cons, restoreInputs, ih hhave.2, bind_some,
      if_pos (happly j), hcoin, applyTxInUndo_some hheight hspend]
    congr 1
    funext o'
    by_cases heq : o' = o
    · simp [heq, hcoin]
    · simp [heq]

lemma mem_newCoins (h : (o, coin) ∈ newCoins env tx nHeight) :
    o.hash = env.getHash tx ∧ o.n < tx.vout.length ∧ coin.nHeight = nHeight ∧
      isUnspendable coin.out.scriptPubKey = false := by
  obtain ⟨hmem, hspend⟩ := mem_filter.mp h
  obtain ⟨i, hi, heq⟩ := mem_mapIdx.mp hmem
  cases heq
  exact ⟨rfl, hi, rfl, by simpa using hspend⟩

lemma writeAll_coinsOk (hok : CoinsOk view) {coins}
    (hcoins : ∀ c ∈ coins, 0 < c.2.nHeight ∧ isUnspendable c.2.out.scriptPubKey = false) :
    CoinsOk (writeAll view coins) := by
  induction coins generalizing view with
  | nil => exact hok
  | cons c coins ih =>
    rw [forall_mem_cons] at hcoins
    refine ih ?_ hcoins.2
    intro o coin h
    change Function.update view c.1 (some c.2) o = some coin at h
    by_cases heq : o = c.1
    · rw [heq, Function.update_self, Option.some.injEq] at h
      exact h ▸ hcoins.1
    · rw [Function.update_of_ne heq] at h
      exact hok o coin h

lemma spendCoins_coinsOk (hok : CoinsOk view) (outs) : CoinsOk (spendCoins view outs) := by
  intro o coin h
  rw [spendCoins, eraseAll_apply] at h
  split at h
  · cases h
  · exact hok o coin h

lemma updateCoins_eq_some {view} (h : updateCoins env view tx nHeight = some (view', undo)) :
    view' = writeAll (if hasRegularInputs tx then spendCoins view (prevouts tx) else view)
        (newCoins env tx nHeight) ∧
      undo = if hasRegularInputs tx then spentCoins view (prevouts tx) else [] := by
  have hadd : ∀ {v v' : CoinsView}, addCoins env v tx nHeight = some v' →
      v' = writeAll v (newCoins env tx nHeight) := by
    intro v v' hv
    unfold addCoins at hv
    dsimp only at hv
    split at hv
    · cases hv
    · exact (Option.some.inj hv).symm
  unfold updateCoins at h
  split at h
  case isTrue hreg =>
    obtain ⟨v, hv, heq⟩ := map_eq_some_iff.mp h
    cases heq
    exact ⟨by rw [if_pos hreg]; exact hadd hv, by rw [if_pos hreg]⟩
  case isFalse hreg =>
    obtain ⟨v, hv, heq⟩ := map_eq_some_iff.mp h
    cases heq
    exact ⟨by rw [if_neg hreg]; exact hadd hv, by rw [if_neg hreg]⟩

lemma updateCoins_coinsOk {view} (hok : CoinsOk view) (hheight : 0 < nHeight)
    (h : updateCoins env view tx nHeight = some (view', undo)) : CoinsOk view' := by
  rw [(updateCoins_eq_some h).1]
  apply writeAll_coinsOk
  · split
    · exact spendCoins_coinsOk hok _
    · exact hok
  · rintro ⟨o, coin⟩ hc
    obtain ⟨-, -, hcoin, hspend⟩ := mem_newCoins hc
    exact ⟨hcoin ▸ hheight, hspend⟩

def txEntries (env : IndexEnv) (place : TxPlace) (view : CoinsView) (tx : CTransaction) :
    CDbIndexHelper :=
  inputEntries env place view tx ++ ((remintEntries place tx).getD {} ++ outputEntries env place tx)

namespace CDbIndexHelper

variable {h h' : CDbIndexHelper}

@[simp] lemma addressIndex_append :
    (h ++ h').addressIndex = h.addressIndex ++ h'.addressIndex := rfl

@[simp] lemma addressUnspentIndex_append :
    (h ++ h').addressUnspentIndex = h.addressUnspentIndex ++ h'.addressUnspentIndex := rfl

@[simp] lemma spentIndex_append : (h ++ h').spentIndex = h.spentIndex ++ h'.spentIndex := rfl

def addressKeys (h : CDbIndexHelper) : List CAddressIndexKey := h.addressIndex.map Prod.fst

def unspentKeys (h : CDbIndexHelper) : List CAddressUnspentKey :=
  h.addressUnspentIndex.map Prod.fst

def SameKeys (h h' : CDbIndexHelper) : Prop :=
  (∀ k, k ∈ h.addressKeys ↔ k ∈ h'.addressKeys) ∧ ∀ k, k ∈ h.unspentKeys ↔ k ∈ h'.unspentKeys

lemma mem_addressKeys_append {k} :
    k ∈ (h ++ h').addressKeys ↔ k ∈ h.addressKeys ∨ k ∈ h'.addressKeys := by
  simp [addressKeys]

lemma mem_unspentKeys_append {k} :
    k ∈ (h ++ h').unspentKeys ↔ k ∈ h.unspentKeys ∨ k ∈ h'.unspentKeys := by
  simp [unspentKeys]

lemma sameKeys_reverse (h : CDbIndexHelper) : SameKeys h.reverse h := by
  constructor <;> intro k <;> simp [addressKeys, unspentKeys, reverse]

lemma sameKeys_clearUnspent (h : CDbIndexHelper) : SameKeys h.clearUnspent h := by
  constructor <;> intro k <;> simp [addressKeys, unspentKeys, clearUnspent]

lemma SameKeys.trans {h'' : CDbIndexHelper} (h₁ : SameKeys h h') (h₂ : SameKeys h' h'') :
    SameKeys h h'' :=
  ⟨fun k => (h₁.1 k).trans (h₂.1 k), fun k => (h₁.2 k).trans (h₂.2 k)⟩

lemma SameKeys.append {g g'} (h₁ : SameKeys h h') (h₂ : SameKeys g g') :
    SameKeys (h ++ g) (h' ++ g') := by
  constructor <;> intro k
  · rw [mem_addressKeys_append, mem_addressKeys_append, h₁.1 k, h₂.1 k]
  · rw [mem_unspentKeys_append, mem_unspentKeys_append, h₁.2 k, h₂.2 k]

lemma SameKeys.refl (h : CDbIndexHelper) : SameKeys h h := ⟨fun _ => .rfl, fun _ => .rfl⟩

end CDbIndexHelper

lemma inputEntries_of_remint {place} (h : remintEntries place tx = none) :
    inputEntries env place view tx = {} := by
  have hremint : isZerocoinRemint tx = true := by
    unfold remintEntries at h
    split at h
    case isTrue hremint => exact hremint
    case isFalse => cases h
  have hnone : hasRegularInputs tx = false := by
    simp [hasRegularInputs, hasNoRegularInputs, hremint]
  simp [inputEntries, hnone]

lemma disconnect_sameKeys (h : CDbIndexHelper) (place) (view) (tx) : CDbIndexHelper.SameKeys
      ((h.disconnectTransactionOutputs env place tx).disconnectTransactionInputs env place view tx)
      (h ++ txEntries env place view tx) := by
  have hout : CDbIndexHelper.SameKeys (h.disconnectTransactionOutputs env place tx)
      (h ++ outputEntries env place tx) := CDbIndexHelper.sameKeys_reverse _
  unfold CDbIndexHelper.disconnectTransactionInputs txEntries
  cases hremint : remintEntries place tx with
  | none =>
    refine hout.trans ?_
    rw [inputEntries_of_remint hremint]
    constructor <;> intro k <;>
      simp [CDbIndexHelper.addressKeys, CDbIndexHelper.unspentKeys]
  | some remint =>
    refine (CDbIndexHelper.sameKeys_clearUnspent _).trans
      ((hout.append (CDbIndexHelper.sameKeys_reverse _)).trans ?_)
    constructor <;> intro k
    · simp only [CDbIndexHelper.mem_addressKeys_append, getD_some]
      tauto
    · simp only [CDbIndexHelper.mem_unspentKeys_append, getD_some]
      tauto

def OutputsFresh (env : IndexEnv) (view : CoinsView) (txs : List CTransaction) : Prop :=
  ∀ tx ∈ txs, ∀ n < tx.vout.length, view ⟨env.getHash tx, n⟩ = none

lemma disconnectTx_eq {view} (h : updateCoins env view tx nHeight = some (view', undo))
    (hok : CoinsOk view) (hfresh : OutputsFresh env view [tx]) (hnodup : (prevouts tx).Nodup)
    (happly : ∀ n, env.applyUndoForTxout nHeight (env.getHash tx) n = true)
    (hhave : hasRegularInputs tx = true → ∀ o ∈ prevouts tx, (view o).isSome = true)
    (txNumber : Nat) (helper : CDbIndexHelper) :
    disconnectTx env nHeight txNumber undo ⟨view', helper⟩ tx =
      some ⟨view, (helper.disconnectTransactionOutputs env ⟨env.getHash tx, nHeight, txNumber⟩
        tx).disconnectTransactionInputs env ⟨env.getHash tx, nHeight, txNumber⟩ view tx⟩ := by
  obtain ⟨hview, hundo⟩ := updateCoins_eq_some h
  have hnew : ∀ o ∈ (newCoins env tx nHeight).map Prod.fst, view o = none := by
    rintro o ho
    obtain ⟨⟨o, coin⟩, hcoin, rfl⟩ := mem_map.mp ho
    obtain ⟨hhash, hn, -, -⟩ := mem_newCoins hcoin
    have := hfresh tx mem_cons_self o.n hn
    rwa [← hhash] at this
  unfold disconnectTx
  dsimp only
  split
  case isTrue hreg =>
    rw [if_pos hreg] at hview hundo
    have hspent : ∀ o ∈ (newCoins env tx nHeight).map Prod.fst,
        spendCoins view (prevouts tx) o = none := by
      intro o ho
      rw [spendCoins, eraseAll_apply, hnew o ho, ite_self]
    have hlength : undo.length = tx.vin.length := by
      rw [hundo, spentCoins_of_nodup hnodup]
      simp [prevouts]
    rw [if_neg (not_not.mpr hlength), hundo, spentCoins_of_nodup hnodup, hview,
      eraseAll_writeAll hspent, restoreInputs_eq hok (hhave hreg) happly, map_some]
    have hback : (fun o => if o ∈ prevouts tx then view o else spendCoins view (prevouts tx) o) =
        view := by
      funext o
      split
      case isTrue => rfl
      case isFalse ho => rw [spendCoins, eraseAll_apply, if_neg ho]
    rw [hback]
  case isFalse hreg =>
    rw [if_neg hreg] at hview
    rw [hview, eraseAll_writeAll hnew, map_some]

/-- The entries of the transactions from number `i` on, each at the view that those before it
leave. -/
def txsEntries (env : IndexEnv) (nHeight : Int) :
    Nat → CoinsView → List CTransaction → CDbIndexHelper
  | _, _, [] => {}
  | i, view, tx :: txs =>
    txEntries env ⟨env.getHash tx, nHeight, i⟩ view tx ++
      match updateCoins env view tx nHeight with
      | some (view', _) => txsEntries env nHeight (i + 1) view' txs
      | none => {}

/-- The transactions of the block have different hashes, none of them zero, each spends
different coins, and the undo data of every input is applied. -/
structure PlainTxs (env : IndexEnv) (nHeight : Int) (txs : List CTransaction) : Prop where
  nodup : (txs.map env.getHash).Nodup
  nonzero : ∀ tx ∈ txs, env.getHash tx ≠ 0
  inputs : ∀ tx ∈ txs, (prevouts tx).Nodup
  undo : ∀ tx ∈ txs, ∀ n, env.applyUndoForTxout nHeight (env.getHash tx) n = true

lemma PlainTxs.tail (h : PlainTxs env nHeight (tx :: txs)) : PlainTxs env nHeight txs where
  nodup := (nodup_cons.mp h.nodup).2
  nonzero tx' htx' := h.nonzero tx' (mem_cons_of_mem _ htx')
  inputs tx' htx' := h.inputs tx' (mem_cons_of_mem _ htx')
  undo tx' htx' := h.undo tx' (mem_cons_of_mem _ htx')

lemma connectTx_eq_some {i : Nat} {c c' : Connecting} (hnew : env.getHash tx ∉ c.txIds)
    (h : connectTx env nHeight i c tx = some c') :
    (hasRegularInputs tx = true → ∀ o ∈ prevouts tx, (c.view o).isSome = true) ∧
    connectFees env c.view c.nFees tx = some c'.nFees ∧
    c'.helper = c.helper.connectTransaction env ⟨env.getHash tx, nHeight, i⟩ c.view tx ∧
    c'.txIds = env.getHash tx :: c.txIds ∧
    ∃ undo, updateCoins env c.view tx nHeight = some (c'.view, undo) ∧
      c'.vtxundo = if i = 0 then c.vtxundo else c.vtxundo ++ [undo] := by
  unfold connectTx at h
  simp only [hnew, decide_false, Bool.false_and, Bool.false_eq_true, if_false] at h
  split at h
  case isTrue => cases h
  case isFalse =>
    split at h
    case isTrue => cases h
    case isFalse hhave =>
      obtain ⟨nFees, hfees, h⟩ := bind_eq_some_iff.mp h
      obtain ⟨⟨view', undo⟩, hcoins, heq⟩ := map_eq_some_iff.mp h
      cases heq
      refine ⟨fun hreg o ho => ?_, hfees, rfl, rfl, undo, hcoins, rfl⟩
      rw [hreg, Bool.true_and, Bool.not_eq_true, Bool.not_eq_false', List.all_eq_true] at hhave
      exact hhave o ho

lemma OutputsFresh.updateCoins {view}
    (hfresh : OutputsFresh env view (tx :: txs)) (hne : env.getHash tx ∉ txs.map env.getHash)
    (h : Index.updateCoins env view tx nHeight = some (view', undo)) :
    OutputsFresh env view' txs := by
  intro tx' htx' n hn
  have hold := hfresh tx' (mem_cons_of_mem _ htx') n hn
  have hnot : (⟨env.getHash tx', n⟩ : COutPoint) ∉ (newCoins env tx nHeight).map Prod.fst := by
    intro hmem
    obtain ⟨⟨o, coin⟩, hcoin, heq⟩ := mem_map.mp hmem
    have hhash := (mem_newCoins hcoin).1
    have heq : o = ⟨env.getHash tx', n⟩ := heq
    rw [heq] at hhash
    exact hne (hhash ▸ mem_map_of_mem htx')
  rw [(updateCoins_eq_some h).1, writeAll_of_notMem hnot]
  split
  · rw [spendCoins, eraseAll_apply, hold, ite_self]
  · exact hold

end Firo.Index
