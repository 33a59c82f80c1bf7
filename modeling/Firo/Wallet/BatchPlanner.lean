import Mathlib

/-! `PlanSingleInputSpend` of `sparkbatchplanner.cpp` splits the amounts of the recipients over the
coins of the wallet, one transaction for each coin. Amounts are integers: under the checks of the
function every sum stays between zero and `maxMoney`. The product of size and scale factor is taken
modulo `2 ^ 64`, as the source computes it. -/
namespace Firo.Wallet

structure BatchRecipient where
  amount : ℤ
  isPrivate : Bool
  minimumOutputAmount : ℤ
  subtractFeeFromAmount : Bool

structure BatchFragment where
  recipientIndex : ℕ
  amount : ℤ

structure SingleInputBatch where
  coinIndex : ℕ
  fragments : List BatchFragment := []
  privateOutputs : ℕ := 0
  transparentOutputs : ℕ := 0
  transparentAmount : ℤ := 0
  amount : ℤ := 0
  fee : ℤ := 0

structure BatchPlanLimits where
  maxTransactions : ℕ
  maxPrivateOutputs : ℕ
  maxTransparentAmount : ℤ
  maxFee : ℤ
  maxMoney : ℤ
  maxWeight : ℕ
  weightScaleFactor : ℕ

inductive BatchPlanStatus
  | ok
  | invalidAmount
  | transparentLimit
  | feeTooHigh
  | tooManyTransactions
  | insufficientFunds
  deriving DecidableEq

structure BatchPlanResult where
  status : BatchPlanStatus
  batches : List SingleInputBatch := []

section

variable (recipients : List BatchRecipient) (limits : BatchPlanLimits)
  (estimateFee : ℕ → ℕ → ℤ) (estimateSize : ℕ → ℕ → ℕ)

def checkRecipients : ℤ → List BatchRecipient → Option BatchPlanStatus
  | _, [] => none
  | transparentTotal, recipient :: rest =>
    if recipient.amount ≤ 0 ∨ limits.maxMoney < recipient.amount ∨
        recipient.minimumOutputAmount ≤ 0 then some .invalidAmount
    else if recipient.isPrivate then checkRecipients transparentTotal rest
    else if limits.maxTransparentAmount < recipient.minimumOutputAmount then
      some .transparentLimit
    else if limits.maxMoney - recipient.amount < transparentTotal then some .invalidAmount
    else checkRecipients (transparentTotal + recipient.amount) rest

/-- The amount that the coin still has for the recipient; `none` is a `break`. -/
def available (recipient : BatchRecipient) (batch : SingleInputBatch) (coinValue fee : ℤ) :
    Option ℤ :=
  let capped := fun value : ℤ =>
    if recipient.isPrivate then value
    else min value (limits.maxTransparentAmount - batch.transparentAmount)
  if recipient.subtractFeeFromAmount then
    if coinValue ≤ fee ∨ coinValue ≤ batch.amount then none
    else some (capped (coinValue - batch.amount))
  else if coinValue ≤ batch.amount ∨ coinValue - batch.amount ≤ fee then none
  else some (capped (coinValue - batch.amount - fee))

/-- The fragment of the recipient for an available amount; `none` is a `break`. A remainder
below the smallest output is topped up from the fragment. -/
def fragmentFor (recipient : BatchRecipient) (batch : SingleInputBatch)
    (remaining available fee : ℤ) : Option ℤ :=
  if available ≤ 0 then none
  else
    let fragment := min remaining available
    if fragment < recipient.minimumOutputAmount then none
    else if recipient.subtractFeeFromAmount = true ∧ fragment ≤ fee ∧ remaining = fragment ∧
        batch.fragments.isEmpty = true then none
    else
      let remainder := remaining - fragment
      if 0 < remainder ∧ remainder < recipient.minimumOutputAmount then
        let adjustment := recipient.minimumOutputAmount - remainder
        if fragment - adjustment < recipient.minimumOutputAmount then none
        else some (fragment - adjustment)
      else some fragment

structure FillState where
  recipientIndex : ℕ
  remaining : List ℤ
  batch : SingleInputBatch

/-- What one pass of the loop does: leave it, reject the plan, or go on. -/
inductive FillStep
  | stop
  | feeTooHigh
  | next (st : FillState)

def SingleInputBatch.push (batch : SingleInputBatch) (recipient : BatchRecipient)
    (recipientIndex : ℕ) (fragment fee : ℤ) : SingleInputBatch :=
  { batch with
    fragments := batch.fragments ++ [⟨recipientIndex, fragment⟩]
    amount := batch.amount + fragment
    fee := fee
    privateOutputs := if recipient.isPrivate then batch.privateOutputs + 1
      else batch.privateOutputs
    transparentOutputs := if recipient.isPrivate then batch.transparentOutputs
      else batch.transparentOutputs + 1
    transparentAmount := if recipient.isPrivate then batch.transparentAmount
      else batch.transparentAmount + fragment }

def FillState.push (st : FillState) (recipient : BatchRecipient) (fragment fee : ℤ) : FillState :=
  let rest := st.remaining.getD st.recipientIndex 0 - fragment
  { recipientIndex := if rest = 0 then st.recipientIndex + 1 else st.recipientIndex
    remaining := st.remaining.set st.recipientIndex rest
    batch := st.batch.push recipient st.recipientIndex fragment fee }

def fillStep (coinValue : ℤ) (st : FillState) : FillStep :=
  match recipients[st.recipientIndex]? with
  | none => .stop
  | some recipient =>
    let privateOutputs := st.batch.privateOutputs + if recipient.isPrivate then 1 else 0
    let transparentOutputs := st.batch.transparentOutputs + if recipient.isPrivate then 0 else 1
    if limits.maxPrivateOutputs < privateOutputs then .stop
    else if limits.weightScaleFactor = 0 ∨ limits.maxWeight ≤
        estimateSize privateOutputs transparentOutputs * limits.weightScaleFactor % 2 ^ 64 then
      .stop
    else
      let fee := estimateFee privateOutputs transparentOutputs
      if limits.maxFee < fee then .feeTooHigh
      else
        match available limits recipient st.batch coinValue fee with
        | none => .stop
        | some value =>
          match fragmentFor recipient st.batch (st.remaining.getD st.recipientIndex 0) value
            fee with
          | none => .stop
          | some fragment => .next (st.push recipient fragment fee)

/-- The loop over the recipients for one coin. The outer `none` means that the fuel ran out,
the inner one that the fee is too high. -/
def fill (coinValue : ℤ) : ℕ → FillState → Option (Option FillState)
  | 0, _ => none
  | fuel + 1, st =>
    match fillStep recipients limits estimateFee estimateSize coinValue st with
    | .stop => some (some st)
    | .feeTooHigh => some none
    | .next st' => fill coinValue fuel st'

structure PlanState where
  recipientIndex : ℕ
  remaining : List ℤ
  batches : List SingleInputBatch

def finishPlan (st : PlanState) : BatchPlanResult :=
  if st.recipientIndex ≠ recipients.length then { status := .insufficientFunds }
  else { status := .ok, batches := st.batches }

/-- The loop over the coins from index `coinIndex` on; `none` means that the fuel ran out. -/
def planCoins (fuel : ℕ) : ℕ → List ℤ → PlanState → Option BatchPlanResult
  | _, [], st => some (finishPlan recipients st)
  | coinIndex, coinValue :: coins, st =>
    if st.recipientIndex = recipients.length then some (finishPlan recipients st)
    else if coinValue ≤ 0 ∨ limits.maxMoney < coinValue then
      planCoins fuel (coinIndex + 1) coins st
    else
      match fill recipients limits estimateFee estimateSize coinValue fuel
        ⟨st.recipientIndex, st.remaining, { coinIndex := coinIndex }⟩ with
      | none => none
      | some none => some { status := .feeTooHigh }
      | some (some filled) =>
        if filled.batch.fragments.isEmpty then
          planCoins fuel (coinIndex + 1) coins ⟨filled.recipientIndex, filled.remaining, st.batches⟩
        else if limits.maxTransactions ≤ (st.batches ++ [filled.batch]).length ∧
            filled.recipientIndex < recipients.length then
          some { status := .tooManyTransactions }
        else
          planCoins fuel (coinIndex + 1) coins
            ⟨filled.recipientIndex, filled.remaining, st.batches ++ [filled.batch]⟩

/-- `PlanSingleInputSpend`, each inner loop with at most `fuel` passes. -/
def planSingleInputSpend (sortedCoinValues : List ℤ) (fuel : ℕ) : Option BatchPlanResult :=
  match checkRecipients limits 0 recipients with
  | some status => some { status := status }
  | none =>
    planCoins recipients limits estimateFee estimateSize fuel 0 sortedCoinValues
      ⟨0, recipients.map BatchRecipient.amount, []⟩

end

end Firo.Wallet
