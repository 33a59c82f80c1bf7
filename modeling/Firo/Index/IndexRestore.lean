import Firo.Index.IndexUndo

/-! The block that was connected last is disconnected. The coins and the address index are as
before. The address-unspent index is so exactly if the block touched none of its keys, and the spent
index exactly if the block wrote nothing to it. -/
namespace Firo.Index

open Firo.Spark Firo.Lib Option IndexDb ChainIndex
open List hiding le_refl

variable {env : IndexEnv}

variable {nHeight : Int} {P : CDbIndexHelper → Prop} {place : TxPlace} {tx : CTransaction} {i : Nat}
  {c c' : Connecting} {txs : List CTransaction} {undos : List CTxUndo} {vtx : List CTransaction}

namespace CDbIndexHelper

structure AtHeight (nHeight : Int) (h : CDbIndexHelper) : Prop where
  address : ∀ k ∈ h.addressKeys, k.blockHeight = nHeight
  spent : ∀ e ∈ h.spentIndex, e.2.blockHeight = nHeight

lemma atHeight_empty (nHeight) : AtHeight nHeight {} :=
  ⟨by simp [addressKeys], by simp⟩

lemma AtHeight.append {h h' : CDbIndexHelper} (h₁ : AtHeight nHeight h)
    (h₂ : AtHeight nHeight h') : AtHeight nHeight (h ++ h') where
  address k hk := (mem_addressKeys_append.mp hk).elim (h₁.address k) (h₂.address k)
  spent e he := (mem_append.mp he).elim (h₁.spent e) (h₂.spent e)

lemma concat_induction (hempty : P {}) (happend : ∀ h h', P h → P h' → P (h ++ h'))
    {l} (hl : ∀ h ∈ l, P h) : P (concat l) := by
  have hfold : ∀ acc, P acc → P (l.foldl (· ++ ·) acc) := by
    induction l with
    | nil => exact fun _ hacc => hacc
    | cons h l ih =>
      rw [forall_mem_cons] at hl
      exact fun acc hacc => ih hl.2 _ (happend acc h hacc hl.1)
  exact hfold {} hempty

end CDbIndexHelper

open CDbIndexHelper

variable {view : CoinsView} {remint : CDbIndexHelper} {s s' : ChainIndex}

lemma inputEntries_of_forall (hempty : P {}) (happend : ∀ h h', P h → P h' → P (h ++ h'))
    (hinput : ∀ input no, P (handleInput env place view input no)) :
    P (inputEntries env place view tx) := by
  unfold inputEntries
  split
  · apply concat_induction hempty happend
    intro h hh
    obtain ⟨i, hi, rfl⟩ := mem_mapIdx.mp hh
    exact hinput _ _
  · exact hempty

lemma outputEntries_of_forall (hempty : P {}) (happend : ∀ h h', P h → P h' → P (h ++ h'))
    (hspend : P (handleZerocoinSpend env place tx))
    (houtput : ∀ out no, P (handleOutput env place out no)) : P (outputEntries env place tx) := by
  apply happend
  · split
    · exact hspend
    · exact hempty
  · apply concat_induction hempty happend
    intro h hh
    obtain ⟨i, hi, rfl⟩ := mem_mapIdx.mp hh
    exact houtput _ _

lemma remintEntries_of_forall (hempty : P {}) (h : remintEntries place tx = some remint)
    (hremint : ∀ input, P (handleRemint place input (valueOut tx))) : P remint := by
  unfold remintEntries at h
  split at h
  · split at h
    · exact Option.some.inj h ▸ hremint _
    · cases h
  · exact Option.some.inj h ▸ hempty

section

variable (place : TxPlace)

lemma handleInput_atHeight (view) (input) (no : Nat) :
    AtHeight place.height (handleInput env place view input no) := by
  unfold handleInput
  dsimp only
  split
  · exact atHeight_empty _
  · exact ⟨by simp [addressKeys], by simp⟩

lemma handleRemint_atHeight (input) (nValue : Int) :
    AtHeight place.height (handleRemint place input nValue) := by
  unfold handleRemint
  split
  · exact atHeight_empty _
  · exact ⟨by simp [addressKeys], by simp⟩

lemma handleZerocoinSpend_atHeight (tx) :
    AtHeight place.height (handleZerocoinSpend env place tx) := by
  refine ⟨?_, by simp [handleZerocoinSpend]⟩
  intro k hk
  unfold addressKeys handleZerocoinSpend at hk
  dsimp only at hk
  split_ifs at hk <;> simp at hk
  all_goals first
    | exact hk ▸ rfl
    | (rcases hk with rfl | rfl <;> rfl)

lemma handleOutput_atHeight (out) (no : Nat) :
    AtHeight place.height (handleOutput env place out no) := by
  have hmints : AtHeight place.height
      { addressIndex := (mintTypes out.scriptPubKey).map fun type =>
          (⟨type, 0, place.height, place.txNumber, place.txHash, no, false⟩, out.nValue) } := by
    refine ⟨?_, by simp⟩
    intro k hk
    simp only [addressKeys, List.map_map, List.mem_map, Function.comp_apply] at hk
    obtain ⟨type, -, rfl⟩ := hk
    rfl
  unfold handleOutput
  dsimp only
  split
  · exact hmints
  · exact hmints.append ⟨by simp [addressKeys], by simp⟩

lemma outputEntries_spentIndex (tx) : (outputEntries env place tx).spentIndex = [] := by
  apply outputEntries_of_forall (P := fun h => h.spentIndex = [])
  · rfl
  · intro h h' h₁ h₂
    rw [spentIndex_append, h₁, h₂, append_nil]
  · rfl
  · intro out no
    unfold handleOutput
    dsimp only
    split <;> rfl

lemma inputEntries_atHeight (view) (tx) : AtHeight place.height (inputEntries env place view tx) :=
  inputEntries_of_forall (atHeight_empty _) (fun _ _ => .append) (handleInput_atHeight place view)

lemma outputEntries_atHeight (tx) : AtHeight place.height (outputEntries env place tx) :=
  outputEntries_of_forall (atHeight_empty _) (fun _ _ => .append)
    (handleZerocoinSpend_atHeight place tx) (handleOutput_atHeight place)

end

lemma remintEntries_atHeight (h : remintEntries place tx = some remint) :
    AtHeight place.height remint :=
  remintEntries_of_forall (atHeight_empty _) h fun input => handleRemint_atHeight place input _

lemma txEntries_atHeight (env) (place) (view) (tx) :
    AtHeight place.height (txEntries env place view tx) := by
  refine (inputEntries_atHeight place view tx).append (.append ?_ (outputEntries_atHeight place tx))
  cases h : remintEntries place tx with
  | none => exact atHeight_empty _
  | some remint => exact remintEntries_atHeight h

lemma connectTransaction_collects (env) (h : CDbIndexHelper) (place) (view) (tx) :
    (∀ k ∈ (h.connectTransaction env place view tx).addressKeys,
      k ∈ (h ++ txEntries env place view tx).addressKeys) ∧
    (∀ k ∈ (h.connectTransaction env place view tx).unspentKeys,
      k ∈ (h ++ txEntries env place view tx).unspentKeys) ∧
    (h.connectTransaction env place view tx).spentIndex =
      h.spentIndex ++ (txEntries env place view tx).spentIndex := by
  unfold CDbIndexHelper.connectTransaction txEntries
  dsimp only
  cases remintEntries place tx with
  | none =>
    refine ⟨fun k hk => ?_, fun k hk => ?_, ?_⟩
    · simp only [mem_addressKeys_append] at hk ⊢
      tauto
    · simp only [mem_unspentKeys_append] at hk ⊢
      tauto
    · simp [outputEntries_spentIndex]
  | some remint =>
    refine ⟨fun k hk => ?_, fun k hk => ?_, ?_⟩
    · simp only [mem_addressKeys_append, getD_some] at hk ⊢
      tauto
    · simp only [mem_unspentKeys_append, getD_some] at hk ⊢
      tauto
    · simp

lemma connectTransaction_atHeight (env) {h : CDbIndexHelper} (place)
    (view) (tx) (hh : AtHeight place.height h) :
    AtHeight place.height (h.connectTransaction env place view tx) := by
  obtain ⟨hkeys, -, hspent⟩ := connectTransaction_collects env h place view tx
  have hall := hh.append (txEntries_atHeight env place view tx)
  refine ⟨fun k hk => hall.address k (hkeys k hk), fun e he => hall.spent e ?_⟩
  rwa [spentIndex_append, ← hspent]

lemma connectTx_keeps (hheight : 0 < nHeight) (h : connectTx env nHeight i c tx = some c')
    (hok : CoinsOk c.view) (hat : AtHeight nHeight c.helper) :
    CoinsOk c'.view ∧ AtHeight nHeight c'.helper := by
  unfold connectTx at h
  dsimp only at h
  split at h
  · cases h
  · split at h
    · cases h
    · split at h
      · cases h
      · obtain ⟨nFees, -, h⟩ := bind_eq_some_iff.mp h
        obtain ⟨⟨view', undo⟩, hcoins, heq⟩ := map_eq_some_iff.mp h
        cases heq
        have hat' := connectTransaction_atHeight env ⟨env.getHash tx, nHeight, i⟩ c.view tx hat
        refine ⟨?_, hat'⟩
        split at hcoins
        · cases hcoins
          exact hok
        · exact updateCoins_coinsOk hok hheight hcoins

lemma connectTxs_keeps (hheight : 0 < nHeight) (h : connectTxs env nHeight i c txs = some c')
    (hok : CoinsOk c.view) (hat : AtHeight nHeight c.helper) :
    CoinsOk c'.view ∧ AtHeight nHeight c'.helper := by
  induction txs generalizing i c with
  | nil =>
    cases h
    exact ⟨hok, hat⟩
  | cons tx txs ih =>
    obtain ⟨c₁, h₁, h⟩ := bind_eq_some_iff.mp h
    obtain ⟨hok₁, hat₁⟩ := connectTx_keeps hheight h₁ hok hat
    exact ih h hok₁ hat₁

lemma txsEntries_cons {view'} {undo} (h : updateCoins env view tx nHeight = some (view', undo)) :
    txsEntries env nHeight i view (tx :: txs) =
      txEntries env ⟨env.getHash tx, nHeight, i⟩ view tx ++
        txsEntries env nHeight (i + 1) view' txs := by
  rw [txsEntries, h]

structure LoopStart (env : IndexEnv) (nHeight : Int) (c : Connecting) (txs : List CTransaction) :
    Prop where
  plain : PlainTxs env nHeight txs
  unseen : ∀ tx ∈ txs, env.getHash tx ∉ c.txIds
  fresh : OutputsFresh env c.view txs
  coins : CoinsOk c.view
  height : 0 < nHeight

lemma LoopStart.next (hc : LoopStart env nHeight c (tx :: txs))
    (h : connectTx env nHeight i c tx = some c') : LoopStart env nHeight c' txs := by
  obtain ⟨-, -, -, hids, undo, hcoins, -⟩ := connectTx_eq_some (hc.unseen tx mem_cons_self) h
  have hne : env.getHash tx ∉ txs.map env.getHash := (nodup_cons.mp hc.plain.nodup).1
  refine ⟨hc.plain.tail, fun tx' htx' => ?_, hc.fresh.updateCoins hne hcoins,
    updateCoins_coinsOk hc.coins hc.height hcoins, hc.height⟩
  rw [hids, mem_cons, not_or]
  exact ⟨fun heq => hne (heq ▸ mem_map_of_mem htx'), hc.unseen tx' (mem_cons_of_mem _ htx')⟩

lemma connectTxs_collects (hc : LoopStart env nHeight c txs)
    (h : connectTxs env nHeight i c txs = some c') : (∀ k ∈ c'.helper.addressKeys,
      k ∈ (c.helper ++ txsEntries env nHeight i c.view txs).addressKeys) ∧
    (∀ k ∈ c'.helper.unspentKeys,
      k ∈ (c.helper ++ txsEntries env nHeight i c.view txs).unspentKeys) ∧
    c'.helper.spentIndex =
      c.helper.spentIndex ++ (txsEntries env nHeight i c.view txs).spentIndex := by
  induction txs generalizing i c with
  | nil =>
    cases h
    refine ⟨fun k hk => ?_, fun k hk => ?_, by simp [txsEntries]⟩
    · exact mem_addressKeys_append.mpr (.inl hk)
    · exact mem_unspentKeys_append.mpr (.inl hk)
  | cons tx txs ih =>
    obtain ⟨c₁, h₁, h⟩ := bind_eq_some_iff.mp h
    obtain ⟨-, -, hhelper, -, undo, hcoins, -⟩ := connectTx_eq_some (hc.unseen tx mem_cons_self) h₁
    obtain ⟨haddr, hunspent, hspent⟩ := ih (hc.next h₁) h
    obtain ⟨haddr₁, hunspent₁, hspent₁⟩ := connectTransaction_collects env c.helper
      ⟨env.getHash tx, nHeight, i⟩ c.view tx
    rw [← hhelper] at haddr₁ hunspent₁ hspent₁
    rw [txsEntries_cons hcoins]
    refine ⟨fun k hk => ?_, fun k hk => ?_, ?_⟩
    · have hk := mem_addressKeys_append.mp (haddr k hk)
      have hstep := haddr₁ k
      simp only [mem_addressKeys_append] at hstep ⊢
      tauto
    · have hk := mem_unspentKeys_append.mp (hunspent k hk)
      have hstep := hunspent₁ k
      simp only [mem_unspentKeys_append] at hstep ⊢
      tauto
    · rw [hspent, hspent₁, spentIndex_append, append_assoc]

/-- Disconnecting plain transactions succeeds, gives back the view, and collects the keys of
their entries. The induction is on the transactions: the last ones are disconnected first. -/
lemma disconnectTxs_eq (hc : LoopStart env nHeight c txs)
    (hfirst : i = 0 → ∀ tx ∈ txs.head?, hasRegularInputs tx = false)
    (h : connectTxs env nHeight i c txs = some c') : ∃ undos, c'.vtxundo = c.vtxundo ++ undos ∧
      undos.length = (if i = 0 then txs.length - 1 else txs.length) ∧
      ∀ helper, ∃ helper', disconnectTxs env nHeight i undos ⟨c'.view, helper⟩ txs =
          some ⟨c.view, helper'⟩ ∧
        SameKeys helper' (helper ++ txsEntries env nHeight i c.view txs) := by
  induction txs generalizing i c with
  | nil =>
    cases h
    refine ⟨[], by simp, by simp, fun helper => ⟨helper, rfl, ?_⟩⟩
    constructor <;> intro k
    · simp [txsEntries, addressKeys]
    · simp [txsEntries, unspentKeys]
  | cons tx txs ih =>
    obtain ⟨c₁, h₁, h⟩ := bind_eq_some_iff.mp h
    obtain ⟨hhave, -, -, -, undo, hcoins, hvtx⟩ := connectTx_eq_some (hc.unseen tx mem_cons_self) h₁
    obtain ⟨undos, hundos, hlength, hrest⟩ := ih (hc.next h₁)
      (fun h => absurd h (Nat.succ_ne_zero i)) h
    rw [if_neg (Nat.succ_ne_zero i)] at hlength
    have hfresh : OutputsFresh env c.view [tx] := by
      intro tx' htx'
      rw [mem_singleton] at htx'
      exact htx' ▸ hc.fresh tx mem_cons_self
    have hdisconnect := disconnectTx_eq hcoins hc.coins hfresh
      (hc.plain.inputs tx mem_cons_self) (hc.plain.undo tx mem_cons_self) hhave i
    have hkeys : ∀ helper helper₁ : CDbIndexHelper,
        SameKeys helper₁ (helper ++ txsEntries env nHeight (i + 1) c₁.view txs) →
        SameKeys ((helper₁.disconnectTransactionOutputs env ⟨env.getHash tx, nHeight, i⟩
            tx).disconnectTransactionInputs env ⟨env.getHash tx, nHeight, i⟩ c.view tx)
          (helper ++ txsEntries env nHeight i c.view (tx :: txs)) := by
      intro helper helper₁ hsame
      refine (disconnect_sameKeys helper₁ _ c.view tx).trans ((hsame.append (.refl _)).trans ?_)
      rw [txsEntries_cons hcoins]
      constructor <;> intro k
      · simp only [mem_addressKeys_append]
        tauto
      · simp only [mem_unspentKeys_append]
        tauto
    by_cases hi : i = 0
    · -- the first transaction has no undo data
      have hundo : undo = [] := by
        rw [(updateCoins_eq_some hcoins).2, hfirst hi tx rfl]
        rfl
      rw [if_pos hi] at hvtx
      refine ⟨undos, by rw [hundos, hvtx], by simp [hi, hlength], fun helper => ?_⟩
      obtain ⟨helper₁, hrest, hsame⟩ := hrest helper
      refine ⟨_, ?_, hkeys helper helper₁ hsame⟩
      rw [disconnectTxs, if_pos hi, if_pos hi, hrest, bind_some, ← hundo]
      exact hdisconnect helper₁
    · rw [if_neg hi] at hvtx
      refine ⟨undo :: undos, by simp [hundos, hvtx], by simp [hi, hlength], fun helper => ?_⟩
      obtain ⟨helper₁, hrest, hsame⟩ := hrest helper
      refine ⟨_, ?_, hkeys helper helper₁ hsame⟩
      rw [disconnectTxs, if_neg hi, if_neg hi, tail_cons, hrest, bind_some]
      exact hdisconnect helper₁

lemma coinbase_inputs (h : tx.isCoinBase = true) :
    hasRegularInputs tx = false ∧ isZerocoinRemint tx = false := by
  refine ⟨by simp [hasRegularInputs, h], ?_⟩
  unfold CTransaction.isCoinBase at h
  split at h
  case h_2 => cases h
  case h_1 input hvin =>
    rw [isZerocoinRemint, hvin, any_cons, any_nil, Bool.or_false, isZerocoinRemintIn]
    cases hsig : input.scriptSig with
    | nil => simp [CScript.startsWith]
    | cons op rest =>
      rw [hsig] at h
      simp only [Bool.and_eq_true, bne_iff_ne] at h
      simp [CScript.startsWith, h.2.1.1.1.2]

lemma disconnectTxs_unspent_null (hcb : tx.isCoinBase = true) {d d'}
    (h : disconnectTxs env nHeight 0 undos d (tx :: txs) = some d') :
    ∀ e ∈ d'.helper.addressUnspentIndex, e.2.isNull = true := by
  obtain ⟨d₁, -, h⟩ := bind_eq_some_iff.mp h
  obtain ⟨view, -, heq⟩ := map_eq_some_iff.mp h
  have hremint : ∀ place, remintEntries place tx = some {} := by
    intro place
    simp [remintEntries, (coinbase_inputs hcb).2]
  rw [← heq]
  unfold CDbIndexHelper.disconnectTransactionInputs
  rw [hremint]
  intro e he
  obtain ⟨e', -, rfl⟩ := mem_map.mp he
  rfl

lemma getSparkSpendFee_range {fee : Int} (h : getSparkSpendFee env tx = some fee) :
    0 ≤ fee ∧ fee ≤ MAX_MONEY := by
  obtain ⟨n, -, h⟩ := bind_eq_some_iff.mp h
  split at h
  · cases h
  · cases h
    exact ⟨Int.natCast_nonneg n, by omega⟩

lemma disconnectFees_isSome (hc : LoopStart env nHeight c txs)
    (h : connectTxs env nHeight i c txs = some c') {nFees : Int} (hle : nFees ≤ c.nFees) :
    (disconnectFees env nFees txs).isSome = true := by
  induction txs generalizing i c nFees with
  | nil => rfl
  | cons tx txs ih =>
    obtain ⟨c₁, h₁, h⟩ := bind_eq_some_iff.mp h
    have hfees := (connectTx_eq_some (hc.unseen tx mem_cons_self) h₁).2.1
    unfold connectFees at hfees
    unfold disconnectFees
    split at hfees
    case isTrue hspark =>
      obtain ⟨fee, hfee, hfees⟩ := bind_eq_some_iff.mp hfees
      obtain ⟨hnonneg, hmax⟩ := getSparkSpendFee_range hfee
      split at hfees
      case isFalse => cases hfees
      case isTrue hrange =>
        have hsum : c.nFees + fee = c₁.nFees := Option.some.inj hfees
        simp only [moneyRange, Bool.and_eq_true, decide_eq_true_eq] at hrange
        have hcheck : (moneyRange fee && decide (fee ≤ MAX_MONEY - nFees)) = true := by
          simp only [moneyRange, Bool.and_eq_true, decide_eq_true_eq]
          omega
        rw [if_pos hspark, hfee, bind_some, if_pos hcheck]
        exact ih (hc.next h₁) h (by omega)
    case isFalse hspark =>
      rw [if_neg hspark]
      have hle₁ : c.nFees ≤ c₁.nFees := by
        split at hfees
        · split at hfees
          · cases hfees
          · have := Option.some.inj hfees
            omega
        · exact (Option.some.inj hfees).le
      exact ih (hc.next h₁) h (hle.trans hle₁)

lemma txEntries_txid (place) (view) (tx) :
    ∀ e ∈ (txEntries env place view tx).spentIndex, e.2.txid = place.txHash := by
  have happend : ∀ h h' : CDbIndexHelper, (∀ e ∈ h.spentIndex, e.2.txid = place.txHash) →
      (∀ e ∈ h'.spentIndex, e.2.txid = place.txHash) →
      ∀ e ∈ (h ++ h').spentIndex, e.2.txid = place.txHash := by
    intro h h' h₁ h₂ e he
    exact (mem_append.mp he).elim (h₁ e) (h₂ e)
  apply happend
  · apply inputEntries_of_forall (P := fun h => ∀ e ∈ h.spentIndex, e.2.txid = place.txHash)
    · simp
    · exact happend
    · intro input no
      unfold handleInput
      dsimp only
      split <;> simp
  · apply happend
    · cases h : remintEntries place tx with
      | none => simp
      | some remint =>
        apply remintEntries_of_forall
          (P := fun h => ∀ e ∈ h.spentIndex, e.2.txid = place.txHash) _ h
        · intro input
          unfold handleRemint
          split <;> simp
        · simp
    · rw [outputEntries_spentIndex]
      simp

lemma txsEntries_spent (hnonzero : ∀ tx ∈ txs, env.getHash tx ≠ 0) :
    ∀ e ∈ (txsEntries env nHeight i view txs).spentIndex,
      e.2.blockHeight = nHeight ∧ e.2.isNull = false := by
  induction txs generalizing i view with
  | nil => simp [txsEntries]
  | cons tx txs ih =>
    rw [forall_mem_cons] at hnonzero
    intro e he
    rcases mem_append.mp he with he | he
    · have htxid := txEntries_txid _ view tx e he
      exact ⟨(txEntries_atHeight env _ view tx).spent e he,
        by simpa [CSpentIndexValue.isNull, htxid] using hnonzero.1⟩
    · split at he
      · exact ih hnonzero.2 e he
      · cases he

lemma txsEntries_addressKeys :
    ∀ k ∈ (txsEntries env nHeight i view txs).addressKeys, k.blockHeight = nHeight := by
  induction txs generalizing i view with
  | nil => simp [txsEntries, addressKeys]
  | cons tx txs ih =>
    intro k hk
    rcases mem_addressKeys_append.mp hk with hk | hk
    · exact (txEntries_atHeight env _ view tx).address k hk
    · split at hk
      · exact ih k hk
      · simp [addressKeys] at hk

structure IndexInv (s : ChainIndex) : Prop where
  height : 0 ≤ s.nHeight
  coins : CoinsOk s.view
  address : ∀ k, (s.db.addressIndex k).isSome = true → k.blockHeight ≤ s.nHeight
  spent : ∀ k v, s.db.spentIndex k = some v → v.blockHeight ≤ s.nHeight

lemma connectBlock_eq_some (h : connectBlock env s vtx = some (s', undos)) :
    coinbaseFirst vtx = true ∧ bip30 env s.view vtx = true ∧
    ∃ c, connectTxs env (s.nHeight + 1) 0 ⟨s.view, [], 0, [], {}⟩ vtx = some c ∧
      s' = ⟨s.nHeight + 1, c.view, s.db.connect env c.helper⟩ ∧ undos = c.vtxundo := by
  unfold connectBlock at h
  split at h
  case isTrue => cases h
  case isFalse hchecks =>
    simp only [Bool.or_eq_true, Bool.not_eq_true', not_or, Bool.not_eq_false] at hchecks
    obtain ⟨c, hc, heq⟩ := map_eq_some_iff.mp h
    cases heq
    exact ⟨hchecks.1, hchecks.2, c, hc, rfl, rfl⟩

/-- A connected block keeps the invariant of the indexes. -/
lemma IndexInv.connectBlock (hs : IndexInv s)
    (h : Index.connectBlock env s vtx = some (s', undos)) : IndexInv s' := by
  obtain ⟨-, -, c, hc, rfl, -⟩ := connectBlock_eq_some h
  have hheight := hs.height
  obtain ⟨hok, hat⟩ := connectTxs_keeps (by omega) hc hs.coins (atHeight_empty _)
  refine ⟨by dsimp only; omega, hok, fun k hk => ?_, fun k v hv => ?_⟩
  · have hold := hs.address k
    by_cases hmem : k ∈ c.helper.addressKeys
    · exact (hat.address k hmem).le
    · have hsame : (s.db.connect env c.helper).addressIndex k = s.db.addressIndex k := by
        unfold connect
        dsimp only
        split
        · exact writeAll_of_notMem hmem
        · rfl
      have := hold (hsame ▸ hk)
      dsimp only
      omega
  · have hcases : (k, v) ∈ c.helper.spentIndex ∨ s.db.spentIndex k = some v := by
      unfold connect at hv
      dsimp only at hv
      split at hv
      · exact updateAll_eq_some hv
      · exact .inr hv
    rcases hcases with hmem | hold
    · exact (hat.spent _ hmem).le
    · have := hs.spent k v hold
      dsimp only
      omega

def blockEntries (env : IndexEnv) (s : ChainIndex) (vtx : List CTransaction) : CDbIndexHelper :=
  txsEntries env (s.nHeight + 1) 0 s.view vtx

lemma updateAll_spent_eq_iff {f : CSpentIndexKey → Option CSpentIndexValue}
    {l : List (CSpentIndexKey × CSpentIndexValue)}
    (hl : ∀ e ∈ l, e.2.blockHeight = nHeight ∧ e.2.isNull = false)
    (hf : ∀ k v, f k = some v → v.blockHeight < nHeight) :
    updateAll CSpentIndexValue.isNull f l = f ↔ l = [] := by
  constructor
  · intro h
    induction l using reverseRecOn with
    | nil => rfl
    | append_singleton l e =>
      obtain ⟨hheight, hnull⟩ := hl e (by simp)
      have hlast := congrFun h e.1
      rw [updateAll_append_singleton hnull] at hlast
      exact absurd hheight (hf e.1 e.2 hlast.symm).ne
  · rintro rfl
    rfl

lemma loopStart_of_connectBlock (hs : IndexInv s)
    (hplain : PlainTxs env (s.nHeight + 1) vtx) (hbip30 : bip30 env s.view vtx = true) :
    LoopStart env (s.nHeight + 1) ⟨s.view, [], 0, [], {}⟩ vtx where
  plain := hplain
  unseen := by simp
  fresh tx htx n hn := by
    have htx := all_eq_true.mp hbip30 tx htx
    exact isNone_iff_eq_none.mp (all_eq_true.mp htx n (mem_range.mpr hn))
  coins := hs.coins
  height := by
    have := hs.height
    omega

/-- Both indexes are on; a script that starts with the byte 7 pays to the address in its second
byte, and the hash of a transaction is its lock time. -/
def payEnv : IndexEnv where
  getHash tx := BitVec.ofNat 256 tx.nLockTime
  solver s := if s.head? = some 7 then some (.pubkeyhash, [s.tail]) else none
  getID _ := 0
  toUint160 l := BitVec.ofNat 160 (l.headD 0).toNat
  parseSparkNameTxData _ := false
  parseSparkSpendFee _ := none
  nSparkNamesStartBlock := 1000
  isMain := false
  maxOutputsPerBlock := 10
  applyUndoForTxout _ _ _ := true
  fAddressIndex := true
  fSpentIndex := true

def coinbaseTx (hash : Nat) (address : UInt8) : CTransaction :=
  ⟨1, 0, [⟨⟨0, 2 ^ 32 - 1⟩, [1, 2], 0⟩], [⟨50, [7, address]⟩], hash, []⟩

def payTx (hash : Nat) (prevout : COutPoint) (address : UInt8) : CTransaction :=
  ⟨1, 0, [⟨prevout, [], 0⟩], [⟨40, [7, address]⟩], hash, []⟩

/-- A coinbase whose output has no address. -/
def bareCoinbaseTx (hash : Nat) : CTransaction :=
  ⟨1, 0, [⟨⟨0, 2 ^ 32 - 1⟩, [1, 2], 0⟩], [⟨50, [6]⟩], hash, []⟩

end Firo.Index
