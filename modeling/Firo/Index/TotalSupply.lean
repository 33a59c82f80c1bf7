import Firo.Lib.Run
import Firo.Index.IndexRestore

/-! The total supply of the block tree database. `ConnectBlock` adds the coinbase output less all
fees of the block, and `DisconnectBlock` takes away the coinbase output less the fees of the Spark
spends, so a disconnected block leaves its ordinary fees behind. -/
namespace Firo.Index

open Firo.Spark Firo.Lib List Option

variable (env : IndexEnv)

/-- A block with its undo data, its height and the coins before it. -/
structure ConnectedBlock where
  vtx : List CTransaction
  vtxundo : List CTxUndo
  nHeight : Int
  view : CoinsView

structure SupplyNode where
  index : ChainIndex
  totalSupply : Int
  /-- The active chain, its tip first. -/
  chainActive : List ConnectedBlock
  /-- The blocks that were disconnected so far. -/
  disconnected : List ConnectedBlock

inductive BlockAction where
  | connectBlock (vtx : List CTransaction)
  | disconnectBlock

def coinbaseOut (vtx : List CTransaction) : Int := (vtx.head?.map valueOut).getD 0

def addTotalSupply (totalSupply supply : Int) : Int :=
  if env.fAddressIndex then totalSupply + supply else totalSupply

def SupplyNode.step (s : SupplyNode) : BlockAction → Option SupplyNode
  | .connectBlock vtx =>
    (Index.connectBlock env s.index vtx).bind fun (index, vtxundo) =>
      (connectTxs env (s.index.nHeight + 1) 0 ⟨s.index.view, [], 0, [], {}⟩ vtx).map fun c =>
        ⟨index, addTotalSupply env s.totalSupply (coinbaseOut vtx - c.nFees),
          ⟨vtx, vtxundo, s.index.nHeight + 1, s.index.view⟩ :: s.chainActive, s.disconnected⟩
  | .disconnectBlock =>
    match s.chainActive with
    | [] => none
    | b :: chainActive =>
      (Index.disconnectBlock env s.index b.vtx b.vtxundo).bind fun index =>
        (disconnectFees env 0 b.vtx).map fun nFees =>
          ⟨index, addTotalSupply env s.totalSupply (-(coinbaseOut b.vtx - nFees)), chainActive,
            b :: s.disconnected⟩

def SupplyNode.genesis : SupplyNode := ⟨.genesis, 0, [], []⟩

def sparkFees (vtx : List CTransaction) : Int :=
  ((vtx.filter CTransaction.isSparkSpend).map fun tx => (getSparkSpendFee env tx).getD 0).sum

/-- The value that an ordinary transaction spends less the value of its outputs. -/
def ordinaryFee (view : CoinsView) (tx : CTransaction) : Int :=
  if !tx.isSparkSpend && hasRegularInputs tx then valueIn view tx - valueOut tx else 0

/-- The coins that a transaction leaves. A repeated transaction leaves them as they are. -/
def viewAfter (nHeight : Int) (view : CoinsView) (txIds : List Uint256) (tx : CTransaction) :
    CoinsView :=
  if txIds.contains (env.getHash tx) then view
  else ((updateCoins env view tx nHeight).map Prod.fst).getD view

/-- The fees of the ordinary transactions, each taken in the coins that the transactions before it
leave. -/
def ordinaryFeesFrom (nHeight : Int) : CoinsView → List Uint256 → List CTransaction → Int
  | _, _, [] => 0
  | view, txIds, tx :: txs =>
    ordinaryFee view tx + ordinaryFeesFrom nHeight (viewAfter env nHeight view txIds tx)
      (env.getHash tx :: txIds) txs

def ordinaryFees (b : ConnectedBlock) : Int := ordinaryFeesFrom env b.nHeight b.view [] b.vtx

/-- The coinbase outputs of a chain less all fees of its blocks. -/
def chainSupply (chain : List ConnectedBlock) : Int :=
  (chain.map fun b => coinbaseOut b.vtx - (ordinaryFees env b + sparkFees env b.vtx)).sum

variable {env}

lemma disconnectFees_eq {nFees nFees' : Int} {txs}
    (h : disconnectFees env nFees txs = some nFees') :
    nFees' = nFees + sparkFees env txs := by
  unfold sparkFees
  induction txs generalizing nFees with
  | nil =>
    cases h
    simp
  | cons tx txs ih =>
    unfold disconnectFees at h
    split at h
    case isTrue hspark =>
      obtain ⟨fee, hfee, h⟩ := bind_eq_some_iff.mp h
      split at h
      case isFalse => cases h
      case isTrue =>
        rw [filter_cons_of_pos hspark, map_cons, sum_cons, hfee, getD_some, ih h, Int.add_assoc]
    case isFalse hspark =>
      rw [filter_cons_of_neg hspark]
      exact ih h

lemma connectTx_fees_view {nHeight : Int} {i : Nat} {c c'} {tx}
    (h : connectTx env nHeight i c tx = some c') :
    connectFees env c.view c.nFees tx = some c'.nFees ∧ c'.txIds = env.getHash tx :: c.txIds ∧
      c'.view = viewAfter env nHeight c.view c.txIds tx := by
  unfold connectTx at h
  dsimp only at h
  split at h
  · cases h
  split at h
  · cases h
  split at h
  · cases h
  obtain ⟨nFees, hfees, h⟩ := bind_eq_some_iff.mp h
  obtain ⟨⟨view, undo⟩, hview, rfl⟩ := map_eq_some_iff.mp h
  refine ⟨hfees, rfl, ?_⟩
  simp only [decide_eq_true_eq] at hview
  split at hview
  case isTrue hmem =>
    cases hview
    exact (if_pos (contains_iff_mem.mpr hmem)).symm
  case isFalse hmem =>
    rw [viewAfter, if_neg (mt contains_iff_mem.mp hmem), hview]
    rfl

/-- A Spark spend adds its own fee, any other transaction its ordinary fee, which is not
negative. -/
lemma connectFees_eq_some {view : CoinsView} {nFees nFees' : Int} {tx}
    (h : connectFees env view nFees tx = some nFees') :
    nFees' = nFees + ordinaryFee view tx + sparkFees env [tx] ∧ 0 ≤ ordinaryFee view tx := by
  unfold connectFees at h
  unfold ordinaryFee sparkFees
  cases hspark : tx.isSparkSpend with
  | true =>
    rw [if_pos hspark] at h
    obtain ⟨fee, hfee, h⟩ := bind_eq_some_iff.mp h
    split at h
    case isFalse => cases h
    case isTrue =>
      cases h
      simp [hspark, hfee]
  | false =>
    rw [if_neg (by simp [hspark])] at h
    cases hregular : hasRegularInputs tx with
    | true =>
      rw [if_pos hregular] at h
      split at h
      case isTrue => cases h
      case isFalse hle =>
        cases h
        simp [hspark]
        omega
    | false =>
      rw [if_neg (by simp [hregular])] at h
      cases h
      simp [hspark]

/-- What `ConnectBlock` counts are the ordinary fees and those of the Spark spends. -/
lemma connectTxs_nFees {nHeight : Int} {i : Nat} {c c'} {txs}
    (h : connectTxs env nHeight i c txs = some c') :
    c'.nFees = c.nFees + (ordinaryFeesFrom env nHeight c.view c.txIds txs + sparkFees env txs) ∧
      0 ≤ ordinaryFeesFrom env nHeight c.view c.txIds txs := by
  induction txs generalizing i c with
  | nil =>
    cases h
    simp [ordinaryFeesFrom, sparkFees]
  | cons tx txs ih =>
    obtain ⟨c₁, h₁, h⟩ := bind_eq_some_iff.mp h
    obtain ⟨hfees, htxIds, hview⟩ := connectTx_fees_view h₁
    obtain ⟨hone, hnonneg⟩ := connectFees_eq_some hfees
    obtain ⟨hrest, hrest₀⟩ := ih h
    have hcons : sparkFees env (tx :: txs) = sparkFees env [tx] + sparkFees env txs := by
      rw [← singleton_append, sparkFees, filter_append, map_append, sum_append]
      rfl
    rw [htxIds, hview] at hrest hrest₀
    rw [ordinaryFeesFrom, hcons]
    omega

/-- What the disconnected blocks left behind is missing. -/
structure SupplyInv (env : IndexEnv) (s : SupplyNode) : Prop where
  supply : s.totalSupply =
    chainSupply env s.chainActive - (s.disconnected.map (ordinaryFees env)).sum
  chain : ∀ b ∈ s.chainActive, 0 ≤ ordinaryFees env b
  gone : ∀ b ∈ s.disconnected, 0 ≤ ordinaryFees env b

/-- Connecting and disconnecting a block keep the relation between the stored supply and the chain.
-/
lemma SupplyInv.step (hindex : env.fAddressIndex = true) {s s'} {a}
    (h : SupplyInv env s) (hstep : s.step env a = some s') : SupplyInv env s' := by
  have hadd : ∀ totalSupply supply, addTotalSupply env totalSupply supply = totalSupply + supply :=
    fun _ _ => if_pos hindex
  unfold SupplyNode.step at hstep
  cases a with
  | connectBlock vtx =>
    obtain ⟨⟨index, vtxundo⟩, -, hstep⟩ := bind_eq_some_iff.mp hstep
    obtain ⟨c, hc, rfl⟩ := map_eq_some_iff.mp hstep
    obtain ⟨hfees, hnonneg⟩ := connectTxs_nFees hc
    refine ⟨?_, forall_mem_cons.mpr ⟨hnonneg, h.chain⟩, h.gone⟩
    have := h.supply
    simp only [hadd, chainSupply, map_cons, sum_cons] at this hfees ⊢
    rw [hfees, this, ordinaryFees]
    ring
  | disconnectBlock =>
    dsimp only at hstep
    split at hstep
    case h_1 => cases hstep
    case h_2 b chainActive hchain =>
      obtain ⟨index, -, hstep⟩ := bind_eq_some_iff.mp hstep
      obtain ⟨nFees, hnFees, rfl⟩ := map_eq_some_iff.mp hstep
      obtain ⟨hsupply, hnonneg, hgone⟩ := h
      rw [hchain, forall_mem_cons] at hnonneg
      refine ⟨?_, hnonneg.2, forall_mem_cons.mpr ⟨hnonneg.1, hgone⟩⟩
      have hspark := disconnectFees_eq hnFees
      rw [hchain] at hsupply
      simp only [hadd, chainSupply, map_cons, sum_cons] at hsupply ⊢
      omega

/-- The second block pays a fee of 10 and stays; the third one is disconnected. -/
def keepFees : List BlockAction :=
  [.connectBlock [coinbaseTx 1 9], .connectBlock [coinbaseTx 2 8, payTx 3 ⟨1, 0⟩ 5],
    .connectBlock [coinbaseTx 4 7], .disconnectBlock]

end Firo.Index
