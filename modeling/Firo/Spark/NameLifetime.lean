import Firo.Spark.NameConsent
import Mathlib.Data.Rat.Floor

/-! From v2.1 on a registered name expires behind the tip, by at most 15 years of blocks. Each
operation on the name adds the blocks that it bought to what is left, and pays for them with an
output that carries the name. -/
namespace Firo.Spark

open Firo.Lib CSparkNameManager

variable {Coin Tag : Type} {env : NameEnv} {cp : ConsensusParams}

namespace CSparkNameManager

variable {m : CSparkNameManager} {nHeight : Int}

variable {d : CSparkNameTxData}

/-- An output that pays the fee of a name from v2.1 on: it is tagged with the name and its
address, and goes to a fund that is allowed at the height. -/
structure PaysFee (env : NameEnv) (cp : ConsensusParams) (nHeight : Int) (d : CSparkNameTxData)
    (txout : CTxOut) : Prop where
  tagged : env.isSparkNameFee txout.scriptPubKey = true
  embedded : env.extractSparkNameFromScript txout.scriptPubKey = some (d.name, d.sparkAddress)
  fund : isNamePayoutScript env cp nHeight
    (env.getBaseScriptFromSparkNameFee txout.scriptPubKey) = true
  value : cp.nSparkNamesFee.getD d.name.utf8ByteSize 0 * COIN *
    ⌈(d.sparkNameValidityBlocks : ℚ) / (nBlockPerYear : ℚ)⌉ ≤ txout.nValue

lemma nameFee_eq (cp) (d) : nameFee cp d = cp.nSparkNamesFee.getD d.name.utf8ByteSize 0 * COIN *
      ⌈(d.sparkNameValidityBlocks : ℚ) / (nBlockPerYear : ℚ)⌉ := by
  have hyear : (0 : ℚ) < nBlockPerYear := by norm_num [nBlockPerYear]
  have hceil : ⌈(d.sparkNameValidityBlocks : ℚ) / (nBlockPerYear : ℚ)⌉ =
      (d.sparkNameValidityBlocks + nBlockPerYear - 1) / nBlockPerYear := by
    have hlow : ((d.sparkNameValidityBlocks + nBlockPerYear - 1) / nBlockPerYear - 1) *
        nBlockPerYear < d.sparkNameValidityBlocks := by
      unfold nBlockPerYear
      omega
    have hhigh : (d.sparkNameValidityBlocks : Int) ≤
        (d.sparkNameValidityBlocks + nBlockPerYear - 1) / nBlockPerYear * nBlockPerYear := by
      unfold nBlockPerYear
      omega
    rw [Int.ceil_eq_iff, lt_div_iff₀ hyear, div_le_iff₀ hyear]
    exact ⟨by exact_mod_cast hlow, by exact_mod_cast hhigh⟩
  rw [hceil]
  rfl

lemma checkTaggedFees_paysFee {vout} (h : checkTaggedFees env cp nHeight d vout = .ok true) :
    ∃ txout ∈ vout, PaysFee env cp nHeight d txout := by
  induction vout with
  | nil => cases h
  | cons txout rest ih =>
    rw [checkTaggedFees] at h
    split at h
    case isFalse =>
      obtain ⟨paying, hmem, hpays⟩ := ih h
      exact ⟨paying, List.mem_cons_of_mem _ hmem, hpays⟩
    case isTrue htag =>
      simp only [except_bind_eq_ok, rejectIf_eq_ok, orReject_eq_ok] at h
      obtain ⟨embedded, hembedded, _, hname, _, haddress, found, hfound, hpay⟩ := h
      rcases Bool.or_eq_true_iff.mp (Except.ok.inj hpay) with htrue | hthis
      · obtain ⟨paying, hmem, hpays⟩ := ih (htrue ▸ hfound)
        exact ⟨paying, List.mem_cons_of_mem _ hmem, hpays⟩
      · obtain ⟨hfund, hvalue⟩ := Bool.and_eq_true_iff.mp hthis
        rw [bne_eq_false_iff_eq] at hname haddress
        refine ⟨txout, List.mem_cons_self, htag, ?_, hfund, ?_⟩
        · rw [hembedded]
          exact congrArg some (Prod.ext hname haddress)
        · rw [← nameFee_eq]
          exact of_decide_eq_true hvalue

lemma NameChecked.paysFee {tx} {canonical : Bool} {nDoS pos : Nat}
    (h : NameChecked m env cp tx nHeight canonical nDoS d pos)
    (hv21 : cp.nSparkNamesV21StartBlock ≤ nHeight) :
    ∃ txout ∈ tx.vout, PaysFee env cp nHeight d txout := by
  have hfee := h.fee
  unfold checkNameFee at hfee
  rw [if_pos hv21] at hfee
  obtain ⟨payoutFound, htagged, hfound⟩ := except_bind_eq_ok.mp hfee
  rw [rejectIf_eq_ok, Bool.not_eq_false'] at hfound
  exact checkTaggedFees_paysFee (hfound ▸ htagged)

end CSparkNameManager

variable {x x' x₀ : NameChain Coin Tag} {block : CBlock} {spark index b : CBlockIndex Coin Tag}

lemma ChainKnown.nextBlockHeight_nonneg {know}
    {chain : List (CBlockIndex Coin Tag)} (h : ChainKnown env cp know chain) :
    0 ≤ nextBlockHeight chain := by
  induction chain with
  | nil => exact le_rfl
  | cons b rest ih =>
    cases rest with
    | nil =>
      obtain ⟨hof, -⟩ := h
      change 0 ≤ b.nHeight + 1
      rw [hof.height_eq]
      exact zero_le_one
    | cons p chain =>
      obtain ⟨⟨kb, kp, -, -, hbof, hpof, hchild, -⟩, hrest⟩ := h
      have hp : 0 ≤ p.nHeight + 1 := ih hrest
      change 0 ≤ b.nHeight + 1
      rw [hbof.height_eq, hchild.height_eq, ← hpof.height_eq]
      omega

lemma NameChain.Inv.live (hx : x.Inv env cp)
    (hvalid : ∀ (k : String) data, x.names.sparkNames[k]? = some data →
      nextBlockHeight x.chain - 1 < data.sparkNameValidityHeight ∧
      (data.sparkNameValidityHeight : Int) ≤ nextBlockHeight x.chain - 1 + nBlockPerYear * 10) :
    x.Live := by
  obtain ⟨know, htree⟩ := hx
  refine ⟨htree.chain_known.nextBlockHeight_nonneg, fun k data hdata => ?_⟩
  obtain ⟨hlow, hhigh⟩ := hvalid k data hdata
  refine ⟨hlow, hhigh.trans ?_⟩
  unfold maxValidity nBlockPerYear
  omega

lemma nextBlockHeight_le_of_step {a} (hx : x.Inv env cp) (hok : ConnectsOnly x a)
    (hstep : x.step env cp a = some x') : nextBlockHeight x.chain ≤ nextBlockHeight x'.chain := by
  cases a with
  | disconnect => exact hok.elim
  | failed block spark =>
    obtain ⟨index, -, hx'⟩ := Option.bind_eq_some_iff.mp hstep
    cases hx'
    exact le_rfl
  | connect block spark =>
    obtain ⟨hchain, -, rfl⟩ | ⟨index, b, hconn⟩ := hx.connect_cases hstep
    · rw [hchain]
      exact zero_le_one
    · rw [hconn.nextBlockHeight_eq, hconn.height_eq hx]
      omega

structure NameChain.Grown (env : NameEnv) (cp : ConsensusParams) (nHeight : Int)
    (x : NameChain Coin Tag) : Prop where
  inv : x.Inv env cp
  live : x.Live
  later : nHeight ≤ nextBlockHeight x.chain

/-- Connected blocks keep the invariants and only raise the height. -/
lemma grown_of_reach {nHeight : Int} (hx : x₀.Grown env cp nHeight)
    (h : Reach (NameChain.step env cp) ConnectsOnly x₀ x) : x.Grown env cp nHeight := by
  apply h.invariant (I := NameChain.Grown env cp nHeight) hx
  intro y a y' hy hok hstep
  exact ⟨hy.inv.step hstep, hy.live.step hy.inv hok hstep,
    hy.later.trans (nextBlockHeight_le_of_step hy.inv hok hstep)⟩

/-- A block with a name transaction that is connected went through all checks of names. -/
lemma NameChain.Inv.connected_of_tx (hx : x.Inv env cp)
    (hstep : x.step env cp (.connect block spark) = some x') {tx} (htx : tx ∈ block.vtx) {d}
    (hd : txName env cp (nextBlockHeight x.chain) tx = some d) :
    ∃ index b, NameConnected env cp x block spark index b x' ∧
      index.nHeight = nextBlockHeight x.chain := by
  obtain ⟨-, hgenesis, -⟩ | ⟨index, b, hconn⟩ := hx.connect_cases hstep
  · have hspark := cp.genesis_noSpark tx (hgenesis ▸ htx)
    rw [CTransaction.isSparkTransaction, Bool.or_eq_false_iff] at hspark
    cases (txName_of_not_spend hspark.2).symm.trans hd
  · exact ⟨index, b, hconn, hconn.height_eq hx⟩

/-- Along every chain at heights from v2.1 on, that starts from names which are valid for at
most ten years, every registered name expires behind the tip by at most 15 years of blocks.
Every accepted name transaction moves the expiry height of its name to the later one of the
old height and its own, plus the blocks that it buys, and has a tagged output to an allowed
fund that pays for these blocks in years rounded up. -/
theorem names_keep_paid_time (hreach : NameReach env cp (fun _ _ => True) x₀)
    (hv21 : cp.nSparkNamesV21StartBlock ≤ nextBlockHeight x₀.chain)
    (hvalid : ∀ (k : String) data, x₀.names.sparkNames[k]? = some data →
      nextBlockHeight x₀.chain - 1 < data.sparkNameValidityHeight ∧
      (data.sparkNameValidityHeight : Int) ≤ nextBlockHeight x₀.chain - 1 + nBlockPerYear * 10)
    (hrun : Reach (NameChain.step env cp) ConnectsOnly x₀ x) :
    (∀ (k : String) data, x.names.sparkNames[k]? = some data →
      nextBlockHeight x.chain - 1 < data.sparkNameValidityHeight ∧
      (data.sparkNameValidityHeight : Int) ≤ nextBlockHeight x.chain - 1 + nBlockPerYear * 15) ∧
    ∀ block spark x', nextBlockHeight x.chain ≤ INT_MAX →
      x.step env cp (.connect block spark) = some x' →
      ∀ tx ∈ block.vtx, ∀ d, txName env cp (nextBlockHeight x.chain) tx = some d →
      (∃ data, x'.names.sparkNames[toUpper d.name]? = some data ∧
        (data.sparkNameValidityHeight : Int) =
          ((x.names.sparkNames[toUpper d.name]?).elim (nextBlockHeight x.chain) fun old =>
            max old.sparkNameValidityHeight (nextBlockHeight x.chain)) +
            d.sparkNameValidityBlocks) ∧
      ∃ txout ∈ tx.vout, PaysFee env cp (nextBlockHeight x.chain) d txout := by
  have hx₀ := nameInv_of_reach hreach
  obtain ⟨hx, hlive, hlater⟩ := grown_of_reach ⟨hx₀, hx₀.live hvalid, hv21⟩ hrun
  refine ⟨hlive.expiry, ?_⟩
  intro block spark x' hmax hstep tx htx d hd
  obtain ⟨index, b, hconn, hheight⟩ := hx.connected_of_tx hstep htx hd
  rw [← hheight] at hlater hmax hd ⊢
  obtain ⟨hchecks, hiff⟩ := checkBlockNames_spec hconn.checked
  obtain ⟨canonical, nDoS, pos, hchecked⟩ := hchecks tx htx d hd
  have hown := (hiff _ d).mpr (.inr ⟨tx, htx, hd, rfl⟩)
  obtain ⟨data, hdata, -, hvalidity⟩ := hconn.record_of_own hown
  refine ⟨⟨data, hdata, ?_⟩, hchecked.paysFee hlater⟩
  have heq := coreValidity_eq rfl (hheight ▸ hlive.height) hmax
    (fun old hold => hheight ▸ hlive.expiry _ old hold) hchecked.validity
  rw [hvalidity, heq, if_pos hlater, add_comm]

/-- A name of one letter costs one coin for each year. -/
def Toy.paidNames : ConsensusParams := { Toy.params 1 with nSparkNamesFee := [-1, 1] }

def Toy.paidNameTx (number : Nat) (operationType name sparkAddress oldSparkAddress validity
    height : UInt8) : CTransaction :=
  { Toy.nameTx number operationType name sparkAddress oldSparkAddress validity height with
    vout := [⟨COIN, [0xe1, name, sparkAddress]⟩] }

def Toy.paidTransferTx : CTransaction := Toy.paidNameTx 2 opTransfer 97 89 88 100 101

def Toy.paidTransfer : NameAction Unit Unit :=
  .connect (Toy.block 2 [Toy.paidTransferTx]) (.plain 2)

/-- The name "a" is registered for 100 blocks at height 1. Its transfer in the next block buys
100 more, behind the ones that are left, for one coin. -/
theorem names_keep_paid_time_transfer :
    ∃ x₀ x x' : NameChain Unit Unit, NameReach Toy.names Toy.paidNames (fun _ _ => True) x₀ ∧
      Reach (NameChain.step Toy.names Toy.paidNames) ConnectsOnly x₀ x ∧
      x.step Toy.names Toy.paidNames Toy.paidTransfer = some x' ∧
      ∃ data, x'.names.sparkNames["A"]? = some data ∧ data.sparkNameValidityHeight = 201 ∧
      ∃ txout ∈ Toy.paidTransferTx.vout, PaysFee Toy.names Toy.paidNames 2
        (Toy.nameData opTransfer 97 89 88 100 101) txout := by
  have hrun : ((Toy.connectNames [(0, [])]).foldlM (NameChain.step Toy.names Toy.paidNames) {}).any
      (fun x₀ => decide (nextBlockHeight x₀.chain = 1) && x₀.names.sparkNames.isEmpty &&
        ((Toy.connectNames [(1, [Toy.paidNameTx 1 opRegister 97 88 0 100 0])]).foldlM
          (fun x a => if ConnectsOnly x a then
            NameChain.step Toy.names Toy.paidNames x a else none) x₀).any fun x =>
        decide (nextBlockHeight x.chain = 2) &&
        decide ((x.names.sparkNames["A"]?).map (·.sparkNameValidityHeight) = some 101) &&
        (x.step Toy.names Toy.paidNames Toy.paidTransfer).isSome) = true := by
    decide +kernel
  obtain ⟨x₀, hx₀, htest⟩ := (Option.any_eq_true ..).mp hrun
  simp only [Bool.and_eq_true, decide_eq_true_eq, Option.any_eq_true,
    Option.isSome_iff_exists, Option.map_eq_some_iff] at htest
  obtain ⟨⟨hheight₀, hempty⟩, x, hx, ⟨hheight, old, hold, hvalidity⟩, x', hx'⟩ := htest
  have hreach : NameReach Toy.names Toy.paidNames (fun _ _ => True) x₀ :=
    Reach.of_foldlM .init (fun _ _ _ => trivial) hx₀
  have hconnects : Reach (NameChain.step Toy.names Toy.paidNames) ConnectsOnly x₀ x :=
    Reach.of_foldlM_guarded .init hx
  have hvalid : ∀ (k : String) data, x₀.names.sparkNames[k]? = some data →
      nextBlockHeight x₀.chain - 1 < data.sparkNameValidityHeight ∧
      (data.sparkNameValidityHeight : Int) ≤
        nextBlockHeight x₀.chain - 1 + nBlockPerYear * 10 := by
    intro k data hdata
    rw [Std.ExtTreeMap.isEmpty_iff.mp hempty] at hdata
    simp at hdata
  obtain ⟨-, hnext⟩ := names_keep_paid_time hreach (by rw [hheight₀]; decide) hvalid hconnects
  obtain ⟨⟨data, hdata, heq⟩, hfee⟩ := hnext _ _ x' (by rw [hheight]; decide) hx'
    Toy.paidTransferTx List.mem_cons_self
    (Toy.nameData opTransfer 97 89 88 100 101) (by rw [hheight]; decide +kernel)
  have hname : toUpper (Toy.nameData opTransfer 97 89 88 100 101).name = "A" := by decide +kernel
  rw [hname] at hdata heq
  rw [hold, Option.elim_some, hheight, hvalidity] at heq
  have hblocks : (Toy.nameData opTransfer 97 89 88 100 101).sparkNameValidityBlocks = 100 := rfl
  rw [hblocks] at heq
  exact ⟨x₀, x, x', hreach, hconnects, hx', data, hdata, by omega, hheight ▸ hfee⟩

end Firo.Spark
