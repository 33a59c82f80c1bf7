import Firo.Spark.Basic
import Mathlib.Algebra.Order.BigOperators.Group.List
import Mathlib.Data.List.Perm.Subperm

/-! `GetMasternodePayment` and the two functions of `CMasternodePayments` that say which outputs a
coinbase owes to the masternode of its block and whether it has them. The check looks for each owed
output by itself, so it enforces the whole payment exactly when the outputs differ. -/
namespace Firo.Evo

open Firo.Spark List

structure PaymentParams where
  stage4StartBlock : Int
  stage4MasternodeShare : Nat
  nSubsidyHalvingSecond : Int
  stage3StartTime : Int
  stage3MasternodeShare : Nat
  nSubsidyHalvingFirst : Int
  stage2ZnodeShare : Nat

/-- Amounts are `int64_t`. The callers pass the subsidy of a block, so that no product here or in
`operatorReward` reaches `2 ^ 63`. -/
def getMasternodePayment (params : PaymentParams) (nHeight nTime blockValue : Int) : Int :=
  if nHeight ≥ params.stage4StartBlock then (blockValue * params.stage4MasternodeShare).tdiv 100
  else if nHeight ≥ params.nSubsidyHalvingSecond then blockValue.tdiv 2
  else if nTime ≥ params.stage3StartTime then (blockValue * params.stage3MasternodeShare).tdiv 100
  else if nHeight ≥ params.nSubsidyHalvingFirst then (blockValue * params.stage2ZnodeShare).tdiv 100
  else (blockValue * 3).tdiv 10

lemma getMasternodePayment_nonneg (params) (nHeight nTime : Int) {blockValue : Int}
    (h : 0 ≤ blockValue) : 0 ≤ getMasternodePayment params nHeight nTime blockValue := by
  have hshare : ∀ (n : Nat) (d : Int), 0 ≤ d → 0 ≤ (blockValue * n).tdiv d := fun n d hd =>
    Int.tdiv_nonneg (mul_nonneg h (Int.natCast_nonneg n)) hd
  unfold getMasternodePayment
  split_ifs
  · exact hshare _ _ (by decide)
  · exact Int.tdiv_nonneg h (by decide)
  · exact hshare _ _ (by decide)
  · exact hshare _ _ (by decide)
  · exact hshare 3 _ (by decide)

/-- The masternode `GetMNPayee` returns, with the operator's share in units of 1/10000. -/
structure MNPayee where
  nOperatorReward : Nat
  scriptPayout : CScript
  scriptOperatorPayout : CScript
  nOperatorReward_le : nOperatorReward ≤ 10000

namespace MNPayee

def operatorReward (p : MNPayee) (masternodeReward : Int) : Int :=
  if p.nOperatorReward ≠ 0 ∧ p.scriptOperatorPayout ≠ [] then
    (masternodeReward * p.nOperatorReward).tdiv 10000
  else 0

lemma operatorReward_nonneg (p : MNPayee) {r : Int} (hr : 0 ≤ r) : 0 ≤ p.operatorReward r := by
  unfold operatorReward
  split_ifs
  · exact Int.tdiv_nonneg (mul_nonneg hr (Int.natCast_nonneg _)) (by decide)
  · exact le_rfl

lemma operatorReward_le (p : MNPayee) {r : Int} (hr : 0 ≤ r) : p.operatorReward r ≤ r := by
  unfold operatorReward
  split_ifs
  · have hshare : (p.nOperatorReward : Int) ≤ 10000 := mod_cast p.nOperatorReward_le
    have hle : r * p.nOperatorReward ≤ r * 10000 := mul_le_mul_of_nonneg_left hshare hr
    have hpos : 0 ≤ r * (p.nOperatorReward : Int) := mul_nonneg hr (Int.natCast_nonneg _)
    rw [Int.tdiv_eq_ediv_of_nonneg hpos]
    omega
  · exact hr

def txOuts (p : MNPayee) (reward : Int) : List CTxOut :=
  (if reward - p.operatorReward reward > 0 then
    [⟨reward - p.operatorReward reward, p.scriptPayout⟩] else []) ++
    if p.operatorReward reward > 0 then [⟨p.operatorReward reward, p.scriptOperatorPayout⟩] else []

def PartsDiffer (p : MNPayee) (masternodeReward : Int) : Prop :=
  p.scriptPayout ≠ p.scriptOperatorPayout ∨
    masternodeReward ≠ 2 * p.operatorReward masternodeReward ∨ masternodeReward = 0

section

variable (p : MNPayee) {r : Int} (hr : 0 ≤ r)

include hr

lemma txOuts_sum : ((p.txOuts r).map (·.nValue)).sum = r := by
  have hlow := p.operatorReward_nonneg hr
  have hhigh := p.operatorReward_le hr
  unfold txOuts
  split_ifs <;> simp <;> omega

lemma txOuts_nodup_iff : (p.txOuts r).Nodup ↔ p.PartsDiffer r := by
  have hlow := p.operatorReward_nonneg hr
  have hhigh := p.operatorReward_le hr
  unfold txOuts PartsDiffer
  split_ifs with howner hop hop
  · have hparts : r - p.operatorReward r = p.operatorReward r ↔ r = 2 * p.operatorReward r := by
      omega
    have hpos : r ≠ 0 := by omega
    simp only [cons_append, nil_append, nodup_cons, mem_singleton,
      CTxOut.mk.injEq, hparts, hpos, not_mem_nil, nodup_nil]
    tauto
  · have : r ≠ 2 * p.operatorReward r := by omega
    simp [this]
  · have : r ≠ 2 * p.operatorReward r := by omega
    simp [this]
  · have : r = 0 := by omega
    simp [this]

end

end MNPayee

/-- What the checks of payments read: the payee of the list at a height, whether the DIP3 rules
hold there, and which scripts have a destination. -/
structure PaymentEnv where
  params : PaymentParams
  isDIP3Enforced : Int → Bool
  getMNPayee : Int → Option MNPayee
  extractDestination : CScript → Bool

def getBlockTxOuts (env : PaymentEnv) (nBlockHeight nTime blockReward : Int) :
    Option (List CTxOut) :=
  if nBlockHeight = 0 then none
  else (env.getMNPayee (nBlockHeight - 1)).map fun dmnPayee =>
    dmnPayee.txOuts (getMasternodePayment env.params nBlockHeight nTime blockReward)

/-- The loop of `IsTransactionValid` over the owed outputs; naming a missing payee needs the
destination of its script. -/
def findPayments (env : PaymentEnv) (vout : List CTxOut) : List CTxOut → Except Reject Bool
  | [] => .ok true
  | txout :: rest =>
    if vout.contains txout then findPayments env vout rest
    else if env.extractDestination txout.scriptPubKey then .ok false
    else .error .abort

def isTransactionValid (env : PaymentEnv) (vout : List CTxOut)
    (nBlockHeight nTime blockReward : Int) : Except Reject Bool :=
  if !env.isDIP3Enforced nBlockHeight then .ok true
  else ((getBlockTxOuts env nBlockHeight nTime blockReward).map (findPayments env vout)).getD
    (.ok true)

lemma findPayments_eq_true (env) (vout required) :
    findPayments env vout required = .ok true ↔ ∀ txout ∈ required, txout ∈ vout := by
  induction required with
  | nil => simp [findPayments]
  | cons txout rest ih =>
    by_cases hmem : txout ∈ vout
    · simp [findPayments, hmem, ih]
    · cases hdest : env.extractDestination txout.scriptPubKey <;> simp [findPayments, hmem, hdest]

def received (required vout : List CTxOut) : Int :=
  ((vout.filter fun o => (required.map (·.scriptPubKey)).contains o.scriptPubKey).map
    (·.nValue)).sum

lemma sum_le_received {required vout : List CTxOut} (hsub : required.Subperm vout)
    (hvout : ∀ o ∈ vout, 0 ≤ o.nValue) :
    (required.map (·.nValue)).sum ≤ received required vout := by
  have hself : required.filter (fun o => (required.map (·.scriptPubKey)).contains o.scriptPubKey)
      = required := by
    refine filter_eq_self.mpr fun o ho => ?_
    simpa using ⟨o, ho, rfl⟩
  have hfilter := hsub.filter fun o => (required.map (·.scriptPubKey)).contains o.scriptPubKey
  rw [hself] at hfilter
  obtain ⟨part, hperm, hpart⟩ := hfilter
  calc (required.map (·.nValue)).sum
      = (part.map (·.nValue)).sum := (hperm.map _).sum_eq.symm
    _ ≤ received required vout := by
      refine (hpart.map _).sum_le_sum fun v hv => ?_
      obtain ⟨o, ho, rfl⟩ := mem_map.mp hv
      exact hvout o (mem_of_mem_filter ho)

/-- The check enforces the payment in full exactly when the two parts differ: then all the owed
outputs are in the coinbase, and the scripts of the payee receive at least the reward. -/
theorem masternode_payment_enforced (env : PaymentEnv) (nBlockHeight nTime blockReward : Int)
    (payee : MNPayee) (hheight : nBlockHeight ≠ 0)
    (henforced : env.isDIP3Enforced nBlockHeight = true)
    (hpayee : env.getMNPayee (nBlockHeight - 1) = some payee) (hreward : 0 ≤ blockReward) :
    ∃ required, getBlockTxOuts env nBlockHeight nTime blockReward = some required ∧
      (required.map (·.nValue)).sum =
        getMasternodePayment env.params nBlockHeight nTime blockReward ∧
      ((∀ vout, isTransactionValid env vout nBlockHeight nTime blockReward = .ok true →
          required.Subperm vout ∧ ((∀ o ∈ vout, 0 ≤ o.nValue) →
            getMasternodePayment env.params nBlockHeight nTime blockReward ≤
              received required vout)) ↔
        payee.PartsDiffer (getMasternodePayment env.params nBlockHeight nTime blockReward)) := by
  have hpay := getMasternodePayment_nonneg env.params nBlockHeight nTime hreward
  set r := getMasternodePayment env.params nBlockHeight nTime blockReward with hr
  have houts : getBlockTxOuts env nBlockHeight nTime blockReward = some (payee.txOuts r) := by
    rw [getBlockTxOuts, if_neg hheight, hpayee, Option.map_some, hr]
  have hvalid : ∀ vout, isTransactionValid env vout nBlockHeight nTime blockReward = .ok true ↔
      ∀ o ∈ payee.txOuts r, o ∈ vout := by
    intro vout
    rw [← findPayments_eq_true env]
    simp [isTransactionValid, henforced, houts]
  refine ⟨_, houts, payee.txOuts_sum hpay, ?_⟩
  rw [← payee.txOuts_nodup_iff hpay]
  constructor
  · -- without the second copy the coinbase is still accepted
    intro h
    have hsub := (h (payee.txOuts r).dedup ((hvalid _).mpr fun o ho => mem_dedup.mpr ho)).1
    exact nodup_iff_count_le_one.mpr fun o => (hsub.count_le o).trans
      (nodup_iff_count_le_one.mp (nodup_dedup _) o)
  · intro hnodup vout hok
    have hsub := hnodup.subperm ((hvalid vout).mp hok)
    exact ⟨hsub, fun hvout => (payee.txOuts_sum hpay).symm.trans_le (sum_le_received hsub hvout)⟩

/-- A payee that shares half of its reward with the operator, and the height 1. -/
def halfShare (scriptOperatorPayout : CScript) : PaymentEnv where
  params := ⟨0, 70, 0, 0, 50, 0, 35⟩
  isDIP3Enforced := fun _ => true
  getMNPayee := fun _ => some ⟨5000, [1], scriptOperatorPayout, by decide⟩
  extractDestination := fun _ => true

theorem masternode_payment_enforced_halfShare :
    ∃ required, getBlockTxOuts (halfShare [2]) 1 0 1000 = some required ∧
      (required.map (·.nValue)).sum = 700 ∧
      ∀ vout, isTransactionValid (halfShare [2]) vout 1 0 1000 = .ok true →
        required.Subperm vout := by
  obtain ⟨required, houts, hsum, henforced⟩ := masternode_payment_enforced (halfShare [2]) 1 0 1000
    ⟨5000, [1], [2], by decide⟩ (by decide) rfl rfl (by decide)
  exact ⟨required, houts, hsum, fun vout hok =>
    (henforced.mpr (.inl (by decide)) vout hok).1⟩

/-- Owner and operator with one script and half of the reward each: the coinbase pays it once. -/
theorem halfShare_paid_once :
    getBlockTxOuts (halfShare [1]) 1 0 1000 = some [⟨350, [1]⟩, ⟨350, [1]⟩] ∧
      isTransactionValid (halfShare [1]) [⟨350, [1]⟩] 1 0 1000 = .ok true ∧
      received [⟨350, [1]⟩, ⟨350, [1]⟩] [⟨350, [1]⟩] = 350 ∧
      getMasternodePayment (halfShare [1]).params 1 0 1000 = 700 := by
  refine ⟨by decide, rfl, by decide, by decide⟩

end Firo.Evo
