import Firo.Wallet.BatchPlanner

/-! The loop over the recipients keeps, for each recipient, that what the fragments pay and what
remains is the amount, and that the batch it fills is within the limits. Each pass pays a positive
amount, so the loop ends. -/
namespace Firo.Wallet

open SingleInputBatch
open List hiding not_lt

variable {recipients : List BatchRecipient} {limits : BatchPlanLimits}
  {estimateFee : ℕ → ℕ → ℤ} {estimateSize : ℕ → ℕ → ℕ}

variable {recipient : BatchRecipient} {batch : SingleInputBatch} {fragment fee : ℤ}

variable {value : ℤ} {fuel fuel' : ℕ} {filled : FillState} {coins : List ℤ} {total : ℤ}
  {l : List BatchRecipient}

lemma available_spec {coinValue fee : ℤ}
    (h : available limits recipient batch coinValue fee = some value) :
    (recipient.subtractFeeFromAmount = true → fee < coinValue ∧ value ≤ coinValue - batch.amount) ∧
      (recipient.subtractFeeFromAmount = false →
        fee < coinValue - batch.amount ∧ value ≤ coinValue - batch.amount - fee) ∧
      (recipient.isPrivate = false →
        value ≤ limits.maxTransparentAmount - batch.transparentAmount) := by
  rw [available] at h
  dsimp only at h
  split at h
  all_goals
    rename_i hmode
    split at h
    · cases h
    cases h
    refine ⟨fun hs => ?_, fun hs => ?_, fun hp => ?_⟩
  · split <;> omega
  · exact absurd (hmode.symm.trans hs) (by decide)
  · rw [hp, if_neg (by decide)]
    exact min_le_right _ _
  · exact absurd hs hmode
  · split <;> omega
  · rw [hp, if_neg (by decide)]
    exact min_le_right _ _

lemma fragmentFor_spec {remaining fee fragment : ℤ}
    (h : fragmentFor recipient batch remaining value fee = some fragment) :
    recipient.minimumOutputAmount ≤ fragment ∧ fragment ≤ remaining ∧ fragment ≤ value := by
  rw [fragmentFor] at h
  dsimp only at h
  split at h
  · cases h
  split at h
  · cases h
  split at h
  · cases h
  split at h
  · split at h
    · cases h
    · cases h
      omega
  · cases h
    omega

structure Fits (recipients : List BatchRecipient) (limits : BatchPlanLimits)
    (estimateFee : ℕ → ℕ → ℤ) (estimateSize : ℕ → ℕ → ℕ) (coinValue : ℤ) (st : FillState)
    (recipient : BatchRecipient) (fragment fee : ℤ) : Prop where
  recipient_eq : recipients[st.recipientIndex]? = some recipient
  private_le : (st.batch.push recipient st.recipientIndex fragment fee).privateOutputs ≤
    limits.maxPrivateOutputs
  weight_lt : estimateSize (st.batch.push recipient st.recipientIndex fragment fee).privateOutputs
      (st.batch.push recipient st.recipientIndex fragment fee).transparentOutputs *
      limits.weightScaleFactor % 2 ^ 64 < limits.maxWeight
  fee_eq : fee = estimateFee (st.batch.push recipient st.recipientIndex fragment fee).privateOutputs
    (st.batch.push recipient st.recipientIndex fragment fee).transparentOutputs
  fee_le : fee ≤ limits.maxFee
  subtracted : recipient.subtractFeeFromAmount = true →
    fee < coinValue ∧ fragment ≤ coinValue - st.batch.amount
  added : recipient.subtractFeeFromAmount = false →
    fee < coinValue - st.batch.amount ∧ fragment ≤ coinValue - st.batch.amount - fee
  transparent : recipient.isPrivate = false →
    fragment ≤ limits.maxTransparentAmount - st.batch.transparentAmount
  minimum_le : recipient.minimumOutputAmount ≤ fragment
  le_remaining : fragment ≤ st.remaining.getD st.recipientIndex 0

/-- A pass of the loop that goes on has added a fragment that fits. -/
lemma fillStep_eq_next {coinValue : ℤ} {st st'}
    (h : fillStep recipients limits estimateFee estimateSize coinValue st = .next st') :
    ∃ recipient fragment fee, st' = st.push recipient fragment fee ∧
      Fits recipients limits estimateFee estimateSize coinValue st recipient fragment fee := by
  rw [fillStep] at h
  split at h
  · cases h
  rename_i recipient hrecipient
  dsimp only at h
  generalize hp : st.batch.privateOutputs + (if recipient.isPrivate then 1 else 0) = p at h
  generalize ht : st.batch.transparentOutputs + (if recipient.isPrivate then 0 else 1) = t at h
  split at h
  · cases h
  rename_i hprivate
  split at h
  · cases h
  rename_i hweight
  split at h
  · cases h
  rename_i hfee
  split at h
  · cases h
  rename_i value hvalue
  split at h
  · cases h
  rename_i fragment hfragment
  cases h
  obtain ⟨hsubtracted, hadded, htransparent⟩ := available_spec hvalue
  obtain ⟨hminimum, hremaining, hle⟩ := fragmentFor_spec hfragment
  have hprivateOutputs : ∀ fee', (st.batch.push recipient st.recipientIndex fragment
      fee').privateOutputs = p := by
    intro fee'
    rw [← hp, push]
    split <;> rfl
  have htransparentOutputs : ∀ fee', (st.batch.push recipient st.recipientIndex fragment
      fee').transparentOutputs = t := by
    intro fee'
    rw [← ht, push]
    split <;> rfl
  refine ⟨recipient, fragment, _, rfl, hrecipient, ?_, ?_, ?_, by omega, ?_, ?_, ?_, hminimum,
    hremaining⟩
  · rw [hprivateOutputs]
    omega
  · rw [hprivateOutputs, htransparentOutputs]
    omega
  · rw [hprivateOutputs, htransparentOutputs]
  · intro hs
    exact ⟨(hsubtracted hs).1, hle.trans (hsubtracted hs).2⟩
  · intro hs
    exact ⟨(hadded hs).1, hle.trans (hadded hs).2⟩
  · intro hp
    exact hle.trans (htransparent hp)

def subtractsFee (recipients : List BatchRecipient) (batch : SingleInputBatch) : Bool :=
  batch.fragments.any fun fragment =>
    recipients[fragment.recipientIndex]?.any BatchRecipient.subtractFeeFromAmount

def FragmentOk (recipients : List BatchRecipient) (fragment : BatchFragment) : Prop :=
  ∃ recipient, recipients[fragment.recipientIndex]? = some recipient ∧
    recipient.minimumOutputAmount ≤ fragment.amount

def fragmentsOf (recipients : List BatchRecipient) (isPrivate : Bool)
    (batch : SingleInputBatch) : List BatchFragment :=
  batch.fragments.filter fun fragment =>
    recipients[fragment.recipientIndex]?.any (·.isPrivate == isPrivate)

structure BatchTotals (recipients : List BatchRecipient) (batch : SingleInputBatch) :
    Prop where
  fragments : ∀ fragment ∈ batch.fragments, FragmentOk recipients fragment
  amount : batch.amount = (batch.fragments.map BatchFragment.amount).sum
  privateOutputs : batch.privateOutputs = (fragmentsOf recipients true batch).length
  transparentOutputs : batch.transparentOutputs = (fragmentsOf recipients false batch).length
  transparentAmount : batch.transparentAmount =
    ((fragmentsOf recipients false batch).map BatchFragment.amount).sum

/-- A batch that a coin of the given value funds within the limits. -/
structure BatchFits (recipients : List BatchRecipient) (limits : BatchPlanLimits)
    (estimateFee : ℕ → ℕ → ℤ) (estimateSize : ℕ → ℕ → ℕ) (coinValue : ℤ)
    (batch : SingleInputBatch) : Prop where
  private_le : batch.privateOutputs ≤ limits.maxPrivateOutputs
  weight_lt : estimateSize batch.privateOutputs batch.transparentOutputs *
    limits.weightScaleFactor < limits.maxWeight
  fee_eq : batch.fee = estimateFee batch.privateOutputs batch.transparentOutputs
  fee_le : batch.fee ≤ limits.maxFee
  transparent_le : batch.transparentOutputs ≠ 0 ∨ 0 ≤ limits.maxTransparentAmount →
    batch.transparentAmount ≤ limits.maxTransparentAmount
  funded : subtractsFee recipients batch = false → batch.amount + batch.fee ≤ coinValue
  covered : batch.amount ≤ coinValue ∧ batch.fee < coinValue

lemma BatchTotals.push (h : BatchTotals recipients batch) {i : ℕ}
    (hi : recipients[i]? = some recipient) {fragment : ℤ}
    (hmin : recipient.minimumOutputAmount ≤ fragment) (fee : ℤ) :
    BatchTotals recipients (batch.push recipient i fragment fee) := by
  obtain ⟨hfragments, hamount, hprivate, htransparent, htamount⟩ := h
  constructor
  · intro f hf
    obtain hf | hf := List.mem_append.mp hf
    · exact hfragments f hf
    · obtain rfl := List.mem_singleton.mp hf
      exact ⟨recipient, hi, hmin⟩
  · simp [SingleInputBatch.push, hamount]
  all_goals
    cases hp : recipient.isPrivate <;> simp_all [SingleInputBatch.push, fragmentsOf]

lemma BatchTotals.amount_nonneg (h : BatchTotals recipients batch)
    (hpos : ∀ recipient ∈ recipients, 0 < recipient.minimumOutputAmount) : 0 ≤ batch.amount := by
  rw [h.amount]
  apply sum_nonneg
  intro amount hamount
  obtain ⟨fragment, hfragment, rfl⟩ := mem_map.mp hamount
  obtain ⟨recipient, hrecipient, hmin⟩ := h.fragments fragment hfragment
  have := hpos recipient (mem_of_getElem? hrecipient)
  omega

lemma BatchTotals.fits_push {coinValue : ℤ} {st : FillState} (h : BatchTotals recipients st.batch)
    (hold : st.batch.fragments ≠ [] →
      BatchFits recipients limits estimateFee estimateSize coinValue st.batch)
    (hfits : Fits recipients limits estimateFee estimateSize coinValue st recipient fragment fee)
    (hpos : ∀ recipient ∈ recipients, 0 < recipient.minimumOutputAmount)
    (hfee : ∀ p t, 0 ≤ estimateFee p t)
    (hsize : ∀ p t, estimateSize p t * limits.weightScaleFactor < 2 ^ 64) :
    BatchFits recipients limits estimateFee estimateSize coinValue
      (st.batch.push recipient st.recipientIndex fragment fee) := by
  have hamount := h.amount_nonneg hpos
  have hfee0 : 0 ≤ fee := hfits.fee_eq ▸ hfee _ _
  have hweight := hfits.weight_lt
  rw [Nat.mod_eq_of_lt (hsize _ _)] at hweight
  refine ⟨hfits.private_le, hweight, hfits.fee_eq, hfits.fee_le, ?_, ?_, ?_⟩
  · intro hcase
    cases hp : recipient.isPrivate with
    | false =>
      have hle := hfits.transparent hp
      simp only [SingleInputBatch.push, hp, Bool.false_eq_true, if_false]
      omega
    | true =>
      simp only [SingleInputBatch.push, hp, if_true] at hcase ⊢
      by_cases hempty : st.batch.fragments = []
      · have hnone : fragmentsOf recipients false st.batch = [] := by
          rw [fragmentsOf, hempty, filter_nil]
        have houtputs := h.transparentOutputs
        have htamount := h.transparentAmount
        rw [hnone] at houtputs htamount
        rw [htamount]
        exact hcase.resolve_left (not_not.mpr houtputs)
      · exact (hold hempty).transparent_le hcase
  · intro hnone
    have hmode : recipient.subtractFeeFromAmount = false := by
      rw [subtractsFee, SingleInputBatch.push, List.any_append, Bool.or_eq_false_iff] at hnone
      simpa [hfits.recipient_eq] using hnone.2
    have hadded := hfits.added hmode
    simp only [SingleInputBatch.push]
    omega
  · simp only [SingleInputBatch.push]
    cases hmode : recipient.subtractFeeFromAmount with
    | true =>
      have hsubtracted := hfits.subtracted hmode
      omega
    | false =>
      have hadded := hfits.added hmode
      omega

def paidTo (i : ℕ) (fragments : List BatchFragment) : ℤ :=
  (fragments.map fun fragment =>
    if fragment.recipientIndex = i then fragment.amount else 0).sum

@[simp] lemma paidTo_nil (i : ℕ) : paidTo i [] = 0 := rfl

lemma paidTo_append (i : ℕ) (fragments fragments') :
    paidTo i (fragments ++ fragments') = paidTo i fragments + paidTo i fragments' := by
  simp [paidTo]

section

variable (recipients limits estimateFee estimateSize)

/-- The amounts of the recipients are in range; the estimates neither are negative nor
overflow. -/
structure PlanInputs : Prop where
  amount_pos : ∀ recipient ∈ recipients, 0 < recipient.amount
  minimum_pos : ∀ recipient ∈ recipients, 0 < recipient.minimumOutputAmount
  fee_nonneg : ∀ p t, 0 ≤ estimateFee p t
  weight_lt : ∀ p t, estimateSize p t * limits.weightScaleFactor < 2 ^ 64

/-- What the loops keep about the amounts that remain: the recipients before the index are
paid, and the fragments pay what is missing. -/
structure Ledger (recipientIndex : ℕ) (remaining : List ℤ) (fragments : List BatchFragment) :
    Prop where
  length : remaining.length = recipients.length
  index_le : recipientIndex ≤ recipients.length
  spent : ∀ i < recipientIndex, remaining.getD i 0 = 0
  nonneg : ∀ amount ∈ remaining, 0 ≤ amount
  paid : ∀ i recipient, recipients[i]? = some recipient →
    paidTo i fragments + remaining.getD i 0 = recipient.amount

/-- What the loop over the recipients keeps; `paid` are the fragments of earlier batches. -/
structure FillInv (coinValue : ℤ) (paid : List BatchFragment) (st : FillState) : Prop where
  ledger : Ledger recipients st.recipientIndex st.remaining (paid ++ st.batch.fragments)
  totals : BatchTotals recipients st.batch
  fits : st.batch.fragments ≠ [] →
    BatchFits recipients limits estimateFee estimateSize coinValue st.batch

end

variable {coinValue : ℤ} {paid : List BatchFragment} {st st' : FillState}

lemma getD_set (l : List ℤ) (i j : ℕ) (a : ℤ) (hi : i < l.length) :
    (l.set i a).getD j 0 = if i = j then a else l.getD j 0 := by
  by_cases hij : i = j
  · subst hij
    simp [hi]
  · simp [hij]

lemma Ledger.pay {k : ℕ} {remaining} {fragments} (h : Ledger recipients k remaining fragments)
    {fragment : ℤ} (hk : k < recipients.length) (hle : fragment ≤ remaining.getD k 0) :
    Ledger recipients (if remaining.getD k 0 - fragment = 0 then k + 1 else k)
      (remaining.set k (remaining.getD k 0 - fragment)) (fragments ++ [⟨k, fragment⟩]) := by
  have hk' : k < remaining.length := h.length ▸ hk
  constructor
  · rw [length_set, h.length]
  · split <;> omega
  · intro i hi
    rw [getD_set _ _ _ _ hk']
    split at hi
    · rename_i hzero
      split
      · exact hzero
      · exact h.spent i (by omega)
    · rw [if_neg (by omega)]
      exact h.spent i hi
  · intro amount hamount
    obtain hmem | rfl := mem_or_eq_of_mem_set hamount
    · exact h.nonneg amount hmem
    · omega
  · intro i recipient hi
    have hpaid := h.paid i recipient hi
    rw [getD_set _ _ _ _ hk', paidTo_append]
    by_cases hik : k = i
    · subst hik
      simp only [paidTo, map_cons, map_nil, if_true, sum_cons, sum_nil]
      rw [paidTo] at hpaid
      omega
    · simpa [paidTo, hik] using hpaid

section

variable (hinputs : PlanInputs recipients limits estimateFee estimateSize)
  (h : FillInv recipients limits estimateFee estimateSize coinValue paid st)
  (hfits : Fits recipients limits estimateFee estimateSize coinValue st recipient fragment fee)
include hinputs h hfits

/-- A fragment that fits keeps the invariant of the loop over the recipients. -/
lemma FillInv.push : FillInv recipients limits estimateFee estimateSize coinValue paid
      (st.push recipient fragment fee) where
  ledger := by
    obtain ⟨hk, -⟩ := List.getElem?_eq_some_iff.mp hfits.recipient_eq
    have hpay := h.ledger.pay hk hfits.le_remaining
    rw [append_assoc] at hpay
    exact hpay
  totals := h.totals.push hfits.recipient_eq hfits.minimum_le fee
  fits _ := h.totals.fits_push h.fits hfits hinputs.minimum_pos hinputs.fee_nonneg hinputs.weight_lt

lemma sum_remaining_push_lt :
    (st.push recipient fragment fee).remaining.sum < st.remaining.sum := by
  obtain ⟨hk, -⟩ := List.getElem?_eq_some_iff.mp hfits.recipient_eq
  have hk' : st.recipientIndex < st.remaining.length := h.ledger.length ▸ hk
  have hpos := hinputs.minimum_pos recipient (mem_of_getElem? hfits.recipient_eq)
  have hmin := hfits.minimum_le
  have hsum : st.remaining.sum = (st.remaining.take st.recipientIndex).sum +
      (st.remaining[st.recipientIndex] + (st.remaining.drop (st.recipientIndex + 1)).sum) := by
    rw [← sum_cons, ← drop_eq_getElem_cons hk', sum_take_add_sum_drop]
  rw [FillState.push, set_eq_take_append_cons_drop, if_pos hk', sum_append,
    sum_cons, getD_eq_getElem _ _ hk', hsum]
  omega

end

lemma fill_spec (hinputs : PlanInputs recipients limits estimateFee estimateSize)
    (hfuel : st.remaining.sum < fuel)
    (h : FillInv recipients limits estimateFee estimateSize coinValue paid st) :
    ∃ r, fill recipients limits estimateFee estimateSize coinValue fuel st = some r ∧
      ∀ st', r = some st' → FillInv recipients limits estimateFee estimateSize coinValue paid st' ∧
        st'.batch.coinIndex = st.batch.coinIndex ∧ st'.remaining.sum ≤ st.remaining.sum := by
  induction fuel generalizing st with
  | zero =>
    have hnonneg := sum_nonneg h.ledger.nonneg
    omega
  | succ fuel ih =>
    rw [fill]
    cases hstep : fillStep recipients limits estimateFee estimateSize coinValue st with
    | stop =>
      refine ⟨_, rfl, ?_⟩
      rintro st' ⟨⟩
      exact ⟨h, rfl, le_rfl⟩
    | feeTooHigh => exact ⟨_, rfl, fun _ hnone => nomatch hnone⟩
    | next st₁ =>
      obtain ⟨recipient, fragment, fee, rfl, hfits⟩ := fillStep_eq_next hstep
      have hlt := sum_remaining_push_lt hinputs h hfits
      obtain ⟨r, hrun, hr⟩ := ih (by push_cast at hfuel; omega) (h.push hinputs hfits)
      refine ⟨r, hrun, ?_⟩
      intro st' hst'
      obtain ⟨hinv, hcoin, hle⟩ := hr st' hst'
      exact ⟨hinv, hcoin, hle.trans hlt.le⟩

lemma fill_mono (hle : fuel ≤ fuel') {r}
    (h : fill recipients limits estimateFee estimateSize coinValue fuel st = some r) :
    fill recipients limits estimateFee estimateSize coinValue fuel' st = some r := by
  induction fuel generalizing fuel' st with
  | zero => cases h
  | succ fuel ih =>
    obtain ⟨fuel', rfl⟩ : ∃ f, fuel' = f + 1 := ⟨fuel' - 1, by omega⟩
    rw [fill] at h ⊢
    cases hstep : fillStep recipients limits estimateFee estimateSize coinValue st with
    | stop => rwa [hstep] at h
    | feeTooHigh => rwa [hstep] at h
    | next st₁ =>
      rw [hstep] at h
      exact ih (Nat.le_of_succ_le_succ hle) h

section

variable (recipients limits estimateFee estimateSize)

/-- The batches of a plan pay each recipient exactly, each from a coin of its own and within
the limits. -/
structure PlanExact (sortedCoinValues : List ℤ) (batches : List SingleInputBatch) : Prop where
  paid : ∀ i recipient, recipients[i]? = some recipient →
    paidTo i (batches.flatMap SingleInputBatch.fragments) = recipient.amount
  increasing : (batches.map SingleInputBatch.coinIndex).Pairwise (· < ·)
  count_le : batches.length ≤ limits.maxTransactions
  totals : ∀ batch ∈ batches, BatchTotals recipients batch
  fits : ∀ batch ∈ batches, ∃ coinValue, sortedCoinValues[batch.coinIndex]? = some coinValue ∧
    BatchFits recipients limits estimateFee estimateSize coinValue batch

/-- What the loop over the coins keeps before the coin at `coinIndex`. -/
structure PlanInv (sortedCoinValues : List ℤ) (coinIndex : ℕ) (st : PlanState) : Prop where
  ledger : Ledger recipients st.recipientIndex st.remaining
    (st.batches.flatMap SingleInputBatch.fragments)
  increasing : (st.batches.map SingleInputBatch.coinIndex).Pairwise (· < ·)
  below : ∀ batch ∈ st.batches, batch.coinIndex < coinIndex
  count_le : st.batches.length ≤ limits.maxTransactions
  count_lt : st.recipientIndex < recipients.length → st.batches.length < limits.maxTransactions
  totals : ∀ batch ∈ st.batches, BatchTotals recipients batch
  fits : ∀ batch ∈ st.batches, ∃ coinValue, sortedCoinValues[batch.coinIndex]? = some coinValue ∧
    BatchFits recipients limits estimateFee estimateSize coinValue batch

def ResultOk (sortedCoinValues : List ℤ) (result : BatchPlanResult) : Prop :=
  (result.status = .ok → PlanExact recipients limits estimateFee estimateSize sortedCoinValues
    result.batches) ∧ (result.status ≠ .ok → result.batches = [])

end

variable {sortedCoinValues : List ℤ} {coinIndex : ℕ} {plan : PlanState}

section

variable (h : PlanInv recipients limits estimateFee estimateSize sortedCoinValues coinIndex plan)
include h

/-- When the coins are used up the result is exact or has no batches. -/
lemma PlanInv.finish : ResultOk recipients limits estimateFee estimateSize sortedCoinValues
      (finishPlan recipients plan) := by
  rw [finishPlan]
  split
  · exact ⟨fun hok => (nomatch hok), fun _ => rfl⟩
  rename_i hindex
  refine ⟨fun _ => ⟨?_, h.increasing, h.count_le, h.totals, h.fits⟩, fun hok => absurd rfl hok⟩
  intro i recipient hi
  have hlt : i < recipients.length := (List.getElem?_eq_some_iff.mp hi).1
  have hpaid := h.ledger.paid i recipient hi
  rwa [h.ledger.spent i (by omega), add_zero] at hpaid

lemma PlanInv.skip :
    PlanInv recipients limits estimateFee estimateSize sortedCoinValues (coinIndex + 1) plan :=
  { h with below := fun batch hbatch => (h.below batch hbatch).trans (Nat.lt_succ_self _) }

lemma PlanInv.start (coinValue : ℤ) : FillInv recipients limits estimateFee estimateSize coinValue
      (plan.batches.flatMap SingleInputBatch.fragments)
      ⟨plan.recipientIndex, plan.remaining, { coinIndex := coinIndex }⟩ where
  ledger := by simpa using h.ledger
  totals := ⟨fun _ hf => (nomatch hf), rfl, rfl, rfl, rfl⟩
  fits hne := absurd rfl hne

variable (hfilled : FillInv recipients limits estimateFee estimateSize coinValue
  (plan.batches.flatMap SingleInputBatch.fragments) filled)
include hfilled

lemma PlanInv.empty
    (hempty : filled.batch.fragments = []) (hindex : plan.recipientIndex < recipients.length) :
    PlanInv recipients limits estimateFee estimateSize sortedCoinValues (coinIndex + 1)
      ⟨filled.recipientIndex, filled.remaining, plan.batches⟩ where
  ledger := by
    have hledger := hfilled.ledger
    rwa [hempty, append_nil] at hledger
  increasing := h.increasing
  below := h.skip.below
  count_le := h.count_le
  count_lt _ := h.count_lt hindex
  totals := h.totals
  fits := h.fits

/-- A filled batch keeps the invariant of the loop over the coins. -/
lemma PlanInv.append (hcoin : filled.batch.coinIndex = coinIndex)
    (hvalue : sortedCoinValues[coinIndex]? = some coinValue)
    (hne : filled.batch.fragments ≠ []) (hindex : plan.recipientIndex < recipients.length)
    (hcount : ¬(limits.maxTransactions ≤ (plan.batches ++ [filled.batch]).length ∧
      filled.recipientIndex < recipients.length)) :
    PlanInv recipients limits estimateFee estimateSize sortedCoinValues (coinIndex + 1)
      ⟨filled.recipientIndex, filled.remaining, plan.batches ++ [filled.batch]⟩ where
  ledger := by simpa using hfilled.ledger
  increasing := by
    rw [map_append, pairwise_append]
    refine ⟨h.increasing, pairwise_singleton _ _, ?_⟩
    intro i hi j hj
    obtain ⟨batch, hbatch, rfl⟩ := mem_map.mp hi
    obtain rfl : j = coinIndex := by simpa [hcoin] using hj
    exact h.below batch hbatch
  below batch hbatch := by
    obtain hmem | hmem := mem_append.mp hbatch
    · exact h.skip.below batch hmem
    · rw [mem_singleton.mp hmem, hcoin]
      exact Nat.lt_succ_self _
  count_le := by
    have hlt := h.count_lt hindex
    rw [length_append, length_singleton]
    omega
  count_lt hlt := by
    simp only at hlt ⊢
    omega
  totals batch hbatch := by
    obtain hmem | hmem := mem_append.mp hbatch
    · exact h.totals batch hmem
    · exact mem_singleton.mp hmem ▸ hfilled.totals
  fits batch hbatch := by
    obtain hmem | hmem := mem_append.mp hbatch
    · exact h.fits batch hmem
    · rw [mem_singleton.mp hmem, hcoin]
      exact ⟨coinValue, hvalue, hfilled.fits hne⟩

end

lemma planCoins_spec (hinputs : PlanInputs recipients limits estimateFee estimateSize)
    (hfuel : plan.remaining.sum < fuel) (hcoins : ∀ k, coins[k]? = sortedCoinValues[coinIndex + k]?)
    (h : PlanInv recipients limits estimateFee estimateSize sortedCoinValues coinIndex plan) :
    ∃ result, planCoins recipients limits estimateFee estimateSize fuel coinIndex coins plan =
        some result ∧
      ResultOk recipients limits estimateFee estimateSize sortedCoinValues result := by
  have hrejected : ∀ status, status ≠ .ok → ResultOk recipients limits estimateFee estimateSize
      sortedCoinValues { status := status } := by
    intro status hstatus
    exact ⟨fun hok => absurd hok hstatus, fun _ => rfl⟩
  induction coins generalizing coinIndex plan with
  | nil => exact ⟨_, rfl, h.finish⟩
  | cons coinValue coins ih =>
    have hrest : ∀ k, coins[k]? = sortedCoinValues[coinIndex + 1 + k]? := by
      intro k
      rw [Nat.add_assoc, Nat.add_comm 1 k]
      exact hcoins (k + 1)
    rw [planCoins]
    split
    · exact ⟨_, rfl, h.finish⟩
    rename_i hindex
    have hlt : plan.recipientIndex < recipients.length := lt_of_le_of_ne h.ledger.index_le hindex
    split
    · exact ih hfuel hrest h.skip
    obtain ⟨r, hrun, hr⟩ := fill_spec hinputs (by simpa using hfuel) (h.start coinValue)
    rw [hrun]
    cases r with
    | none => exact ⟨_, rfl, hrejected _ (by decide)⟩
    | some filled =>
      obtain ⟨hfilled, hcoin, hle⟩ := hr filled rfl
      dsimp only at hle ⊢
      split
      · rename_i hempty
        exact ih (hle.trans_lt hfuel) hrest (h.empty hfilled (List.isEmpty_iff.mp hempty) hlt)
      · rename_i hne
        split
        · exact ⟨_, rfl, hrejected _ (by decide)⟩
        · rename_i hcount
          exact ih (hle.trans_lt hfuel) hrest
            (h.append hfilled hcoin (hcoins 0).symm (fun heq => hne (List.isEmpty_iff.mpr heq))
              hlt hcount)

lemma planCoins_mono (hle : fuel ≤ fuel')
    {result}
    (h : planCoins recipients limits estimateFee estimateSize fuel coinIndex coins plan =
      some result) :
    planCoins recipients limits estimateFee estimateSize fuel' coinIndex coins plan =
      some result := by
  induction coins generalizing coinIndex plan with
  | nil => exact h
  | cons coinValue coins ih =>
    rw [planCoins] at h ⊢
    split at h
    · rwa [if_pos ‹_›]
    rw [if_neg ‹_›]
    split at h
    · rw [if_pos ‹_›]
      exact ih h
    rw [if_neg ‹_›]
    cases hfill : fill recipients limits estimateFee estimateSize coinValue fuel
        ⟨plan.recipientIndex, plan.remaining, { coinIndex := coinIndex }⟩ with
    | none =>
      rw [hfill] at h
      cases h
    | some r =>
      rw [hfill] at h
      rw [fill_mono hle hfill]
      cases r with
      | none => exact h
      | some filled =>
        dsimp only at h ⊢
        split at h
        · rw [if_pos ‹_›]
          exact ih h
        · rw [if_neg ‹_›]
          split at h
          · rwa [if_pos ‹_›]
          · rw [if_neg ‹_›]
            exact ih h

lemma checkRecipients_eq_none (h : checkRecipients limits total l = none) :
    ∀ recipient ∈ l, 0 < recipient.amount ∧ 0 < recipient.minimumOutputAmount := by
  induction l generalizing total with
  | nil => exact fun _ hr => (nomatch hr)
  | cons first rest ih =>
    rw [checkRecipients] at h
    split at h
    · cases h
    rename_i hfirst
    have hpos : 0 < first.amount ∧ 0 < first.minimumOutputAmount := by omega
    have hrest : ∃ total', checkRecipients limits total' rest = none := by
      split at h
      · exact ⟨_, h⟩
      split at h
      · cases h
      split at h
      · cases h
      · exact ⟨_, h⟩
    obtain ⟨total', htotal⟩ := hrest
    intro recipient hmem
    obtain rfl | hmem := mem_cons.mp hmem
    · exact hpos
    · exact ih htotal recipient hmem

lemma checkRecipients_ne_ok : checkRecipients limits total l ≠ some .ok := by
  induction l generalizing total with
  | nil => exact nofun
  | cons first rest ih =>
    rw [checkRecipients]
    split
    · decide
    split
    · exact ih
    split
    · decide
    split
    · decide
    · exact ih

lemma PlanInv.init (hmax : 1 ≤ limits.maxTransactions)
    (hpos : ∀ recipient ∈ recipients, 0 < recipient.amount) :
    PlanInv recipients limits estimateFee estimateSize sortedCoinValues 0
      ⟨0, recipients.map BatchRecipient.amount, []⟩ where
  ledger := {
    length := by simp
    index_le := Nat.zero_le _
    spent := fun i hi => absurd hi (Nat.not_lt_zero i)
    nonneg := by
      intro amount hamount
      obtain ⟨recipient, hrecipient, rfl⟩ := mem_map.mp hamount
      exact (hpos recipient hrecipient).le
    paid := fun i recipient hi => by simp [hi] }
  increasing := List.Pairwise.nil
  below _ hbatch := (nomatch hbatch)
  count_le := Nat.zero_le _
  count_lt _ := hmax
  totals _ hbatch := (nomatch hbatch)
  fits _ hbatch := (nomatch hbatch)

/-- For any coins, recipients and limits with at least one transaction, and any estimates that are
neither negative nor overflow, the plan ends. When its status is OK it pays each recipient exactly,
in fragments no smaller than the recipient allows, each batch from a coin of its own and within the
limits; otherwise it has no batches. -/
theorem planSingleInputSpend_exact (recipients : List BatchRecipient) (limits : BatchPlanLimits)
    (estimateFee : ℕ → ℕ → ℤ) (estimateSize : ℕ → ℕ → ℕ) (sortedCoinValues : List ℤ)
    (hmax : 1 ≤ limits.maxTransactions) (hfee : ∀ p t, 0 ≤ estimateFee p t)
    (hsize : ∀ p t, estimateSize p t * limits.weightScaleFactor < 2 ^ 64) :
    ∃ fuel₀ result, (∀ fuel ≥ fuel₀, planSingleInputSpend recipients limits estimateFee estimateSize
        sortedCoinValues fuel = some result) ∧
      (result.status = .ok →
        PlanExact recipients limits estimateFee estimateSize sortedCoinValues result.batches) ∧
      (result.status ≠ .ok → result.batches = []) := by
  cases hcheck : checkRecipients limits 0 recipients with
  | some status =>
    have hstatus : status ≠ .ok := fun hok => checkRecipients_ne_ok (hok ▸ hcheck)
    refine ⟨0, { status := status }, ?_, fun hok => absurd hok hstatus, fun _ => rfl⟩
    intro fuel _
    rw [planSingleInputSpend, hcheck]
  | none =>
    have hpos := checkRecipients_eq_none hcheck
    have hinputs : PlanInputs recipients limits estimateFee estimateSize :=
      ⟨fun r hr => (hpos r hr).1, fun r hr => (hpos r hr).2, hfee, hsize⟩
    have hinit : PlanInv recipients limits estimateFee estimateSize sortedCoinValues 0
        ⟨0, recipients.map BatchRecipient.amount, []⟩ := PlanInv.init hmax hinputs.amount_pos
    have hfuel : (recipients.map BatchRecipient.amount).sum <
        ((recipients.map BatchRecipient.amount).sum.toNat + 1 : ℕ) := by omega
    obtain ⟨result, hrun, hresult⟩ := planCoins_spec hinputs hfuel
      (fun k => by rw [Nat.zero_add]) hinit
    refine ⟨(recipients.map BatchRecipient.amount).sum.toNat + 1, result, ?_, hresult⟩
    intro fuel hfuel
    rw [planSingleInputSpend, hcheck]
    exact planCoins_mono hfuel hrun

def smallLimits : BatchPlanLimits where
  maxTransactions := 2
  maxPrivateOutputs := 3
  maxTransparentAmount := 50
  maxFee := 5
  maxMoney := 1000
  maxWeight := 100
  weightScaleFactor := 4

/-- One private recipient that needs two coins. -/
theorem planSingleInputSpend_exact_two : ∃ fuel₀ result,
      (∀ fuel ≥ fuel₀, planSingleInputSpend [⟨30, true, 2, false⟩] smallLimits (fun _ _ => 1)
        (fun _ _ => 10) [20, 15] fuel = some result) ∧ result.batches.length = 2 ∧
      PlanExact [⟨30, true, 2, false⟩] smallLimits (fun _ _ => 1) (fun _ _ => 10) [20, 15]
        result.batches := by
  have hrun : (planCoins [⟨30, true, 2, false⟩] smallLimits (fun _ _ => 1) (fun _ _ => 10) 5 0
      [20, 15] ⟨0, [30], []⟩).any
      (fun result => result.status == .ok && result.batches.length == 2) = true := by
    decide +kernel
  obtain ⟨plan, hplan, htest⟩ := (Option.any_eq_true ..).mp hrun
  rw [Bool.and_eq_true, beq_iff_eq, beq_iff_eq] at htest
  obtain ⟨fuel₀, result, hresult, hexact, -⟩ := planSingleInputSpend_exact [⟨30, true, 2, false⟩]
    smallLimits (fun _ _ => 1) (fun _ _ => 10) [20, 15] (by decide) (fun _ _ => by decide)
    (fun _ _ => by decide)
  obtain rfl : result = plan := Option.some.inj
    ((hresult (max fuel₀ 5) (le_max_left _ _)).symm.trans
      (planCoins_mono (le_max_right fuel₀ 5) hplan))
  exact ⟨fuel₀, result, hresult, htest.2, hexact htest.1⟩

/-- A negative limit on the transparent amount does not stop a plan without transparent
outputs, whose batches have the transparent amount zero. -/
theorem transparent_amount_above_negative_limit :
    ¬∀ (recipients : List BatchRecipient) (limits : BatchPlanLimits)
      (estimateFee : ℕ → ℕ → ℤ) (estimateSize : ℕ → ℕ → ℕ) (sortedCoinValues : List ℤ),
      1 ≤ limits.maxTransactions → (∀ p t, 0 ≤ estimateFee p t) →
      (∀ p t, estimateSize p t * limits.weightScaleFactor < 2 ^ 64) →
      ∀ fuel result, planSingleInputSpend recipients limits estimateFee estimateSize
          sortedCoinValues fuel = some result → result.status = .ok →
        ∀ batch ∈ result.batches, batch.transparentAmount ≤ limits.maxTransparentAmount := by
  intro hall
  have hrun : (planSingleInputSpend [⟨30, true, 2, false⟩]
      { smallLimits with maxTransparentAmount := -1 } (fun _ _ => 1) (fun _ _ => 10) [40] 5).any
      (fun result => result.status == .ok && result.batches.any fun batch =>
        decide (-1 < batch.transparentAmount)) = true := by
    decide +kernel
  obtain ⟨result, hresult, hbatches⟩ := (Option.any_eq_true ..).mp hrun
  rw [Bool.and_eq_true, beq_iff_eq, any_eq_true] at hbatches
  obtain ⟨hok, batch, hbatch, hlt⟩ := hbatches
  have hle := hall _ _ _ _ _ (by decide) (fun _ _ => by decide) (fun _ _ => by decide) _ result
    hresult hok batch hbatch
  exact absurd (of_decide_eq_true hlt) (not_lt.mpr hle)

end Firo.Wallet
