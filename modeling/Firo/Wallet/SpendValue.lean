import Firo.Lib.Check
import Firo.Wallet.SparkSpend

/-! The coins of a selection cover the amount, the fee split takes exactly the fee, and what the
outputs leave of the coins is the change. The coins of a wallet are worth less than `2 ^ 63`
together; then no sum of the source wraps around. -/
namespace Firo.Wallet

open List Option Prod

def coinSum (coins : List SparkMint) : ℤ :=
  (coins.map fun coin => (coin.v : ℤ)).sum

@[simp] lemma coinSum_nil : coinSum [] = 0 := rfl

@[simp] lemma coinSum_cons (coin) (coins) : coinSum (coin :: coins) = coin.v + coinSum coins := by
  simp [coinSum]

lemma coinSum_append (coins coins') :
    coinSum (coins ++ coins') = coinSum coins + coinSum coins' := by
  simp [coinSum]

lemma coinSum_nonneg (coins) : 0 ≤ coinSum coins := by
  induction coins with
  | nil => exact le_rfl
  | cons coin coins ih =>
    rw [coinSum_cons]
    positivity

lemma coinSum_perm {coins coins' : List SparkMint} (h : coins.Perm coins') :
    coinSum coins = coinSum coins' :=
  (h.map _).sum_eq

lemma coinSum_sortCoins (less) (coins) : coinSum (sortCoins less coins) = coinSum coins :=
  coinSum_perm (perm_insertionSort _ coins)

lemma toCAmount_eq {x : ℤ} (h0 : 0 ≤ x) (h : x < 2 ^ 63) : toCAmount x = x := by
  rw [toCAmount]
  apply Int.bmod_eq_of_le <;> norm_num <;> omega

variable {coins : List SparkMint} {fee : ℤ} {amounts : List (ℤ × Bool)}

lemma foldl_balance {balance : ℤ} (h0 : 0 ≤ balance) (h : balance + coinSum coins < 2 ^ 63) :
    coins.foldl (fun balance coin => toCAmount (balance + coin.v)) balance =
      balance + coinSum coins := by
  induction coins generalizing balance with
  | nil => simp
  | cons coin coins ih =>
    have hrest := coinSum_nonneg coins
    rw [coinSum_cons] at h ⊢
    rw [foldl_cons, toCAmount_eq (by omega) (by omega), ih (by omega) (by omega)]
    omega

lemma calculateBalance_eq (h : coinSum coins < 2 ^ 63) :
    calculateBalance coins = coinSum coins := by
  rw [calculateBalance, foldl_balance le_rfl (by omega), zero_add]

section

variable {need : ℤ} {coins rest : List SparkMint} {chosen : SparkMint}

lemma pickCovering_spec (h : pickCovering need coins = some (chosen, rest)) :
    need ≤ chosen.v ∧ rest.Sublist coins ∧ (chosen :: rest).Perm coins := by
  induction coins generalizing chosen rest with
  | nil => cases h
  | cons coin more ih =>
    rw [pickCovering] at h
    split at h
    · rename_i hcover
      cases h
      exact ⟨hcover.1, sublist_cons_self _ _, .rfl⟩
    · obtain ⟨⟨chosen', rest'⟩, hmore, heq⟩ := map_eq_some_iff.mp h
      cases heq
      obtain ⟨hcover, hrest, hperm⟩ := ih hmore
      exact ⟨hcover, hrest.cons_cons coin, (Perm.swap coin chosen rest').trans (hperm.cons coin)⟩

lemma pickCovering_isSome {first : SparkMint} (hfirst : need ≤ first.v)
    (coins) : (pickCovering need (coins ++ [first])).isSome := by
  induction coins with
  | nil => simp [pickCovering, hfirst]
  | cons coin coins ih =>
    rw [cons_append, pickCovering]
    split
    · rfl
    · rw [isSome_map]
      exact ih

lemma pickCoin_spec (h : pickCoin need coins = some (chosen, rest)) :
    (coins = chosen :: rest ∨ need ≤ chosen.v) ∧ rest.Sublist coins ∧
      (chosen :: rest).Perm coins := by
  cases coins with
  | nil => cases h
  | cons first more =>
    rw [pickCoin] at h
    split at h
    · cases h
      exact ⟨.inl rfl, sublist_cons_self _ _, .rfl⟩
    · obtain ⟨⟨chosen', rest'⟩, hmore, heq⟩ := map_eq_some_iff.mp h
      cases heq
      obtain ⟨hcover, hrest, hperm⟩ := pickCovering_spec hmore
      have hsublist := hrest.reverse
      rw [reverse_reverse] at hsublist
      exact ⟨.inr hcover, hsublist, ((reverse_perm rest').cons chosen).trans
        (hperm.trans (reverse_perm (first :: more)))⟩

lemma pickCoin_eq_none (h : pickCoin need coins = none) : coins = [] := by
  cases coins with
  | nil => rfl
  | cons first more =>
    rw [pickCoin] at h
    split at h
    · cases h
    · rename_i hlt
      have hsome := pickCovering_isSome (show need ≤ first.v by omega) more.reverse
      rw [map_eq_none_iff, reverse_cons] at h
      rw [h] at hsome
      cases hsome

end

lemma coinSum_append_singleton (coins) (coin) :
    coinSum (coins ++ [coin]) = coinSum coins + coin.v := by
  rw [coinSum_append, coinSum_cons, coinSum_nil, add_zero]

lemma chooseCoins_spec (required : ℤ) {fuel : ℕ} (coins chosen : List SparkMint)
    (hfuel : coins.length ≤ fuel) (h : coinSum chosen + coinSum coins < 2 ^ 63) :
    ∃ out, chooseCoins required fuel (coinSum chosen) coins chosen = (coinSum out, out) ∧
      coinSum out ≤ coinSum chosen + coinSum coins ∧
      (required ≤ coinSum out ∨ coinSum out = coinSum chosen + coinSum coins) := by
  induction fuel generalizing coins chosen with
  | zero =>
    obtain rfl := length_eq_zero_iff.mp (Nat.le_zero.mp hfuel)
    exact ⟨chosen, rfl, by simp, .inr (by simp)⟩
  | succ fuel ih =>
    have hcoins := coinSum_nonneg coins
    rw [chooseCoins]
    split
    · cases hpick : pickCoin (required - coinSum chosen) coins with
      | none =>
        obtain rfl := pickCoin_eq_none hpick
        exact ⟨chosen, rfl, by simp, .inr (by simp)⟩
      | some picked =>
        obtain ⟨coin, rest⟩ := picked
        obtain ⟨-, -, hperm⟩ := pickCoin_spec hpick
        have hsum := coinSum_perm hperm
        have hlength := hperm.length_eq
        have hchosen := coinSum_nonneg chosen
        have hrest := coinSum_nonneg rest
        rw [coinSum_cons] at hsum
        rw [length_cons] at hlength
        have happend := coinSum_append_singleton chosen coin
        dsimp only
        rw [toCAmount_eq (by omega) (by omega), ← happend]
        obtain ⟨out, hout, hle, hcover⟩ := ih rest (chosen ++ [coin]) (by omega) (by omega)
        exact ⟨out, hout, by omega, hcover.imp_right fun heq => by omega⟩
    · exact ⟨chosen, rfl, by omega, .inl (by omega)⟩

lemma getCoinsToSpend_spec {required : ℤ} {coins spendCoins}
    {hasSelected : Bool} {change : ℤ} (hcoins : coinSum coins < 2 ^ 63)
    (h : getCoinsToSpend required coins hasSelected = .ok (spendCoins, change)) :
    required ≤ coinSum spendCoins ∧ coinSum spendCoins ≤ coinSum coins ∧
      change = coinSum spendCoins - required := by
  rw [getCoinsToSpend] at h
  split at h
  · cases h
  rename_i hbalance
  rw [calculateBalance_eq hcoins] at hbalance
  cases h
  rw [coinSum_sortCoins]
  have hsorted := coinSum_sortCoins comparer coins
  cases hasSelected with
  | true =>
    have hreverse := coinSum_perm (reverse_perm (sortCoins comparer coins))
    simp only [if_true]
    rw [calculateBalance_eq (by omega), hreverse]
    exact ⟨by omega, hsorted.le, rfl⟩
  | false =>
    obtain ⟨out, hout, hle, hcover⟩ := chooseCoins_spec required (sortCoins comparer coins)
      [] le_rfl (by simpa [hsorted] using hcoins)
    rw [coinSum_nil] at hout hle hcover
    simp only [Bool.false_eq_true, if_false, hout]
    exact ⟨by omega, by omega, trivial⟩

section

variable {options : SpendOptions} {required : ℤ} {subtractFeeFromAmount : Bool}
  {coins : List SparkMint} {mintNum utxoNum : ℕ}

/-- A successful selection covers the amount, with the fee unless the recipients pay it. -/
def Covers (required : ℤ) (subtractFeeFromAmount : Bool) (selection : ℤ × List SparkMint) : Prop :=
  0 ≤ selection.1 ∧
    currentRequired required subtractFeeFromAmount selection.1 ≤ coinSum selection.2 ∧
    coinSum selection.2 < 2 ^ 63

variable {selection : ℤ × List SparkMint}

lemma finishSelection_eq_ok {chosen} (h : finishSelection fee chosen = .ok selection) :
    selection = (fee, chosen.1) := by
  rw [finishSelection] at h
  split at h
  · cases h
  · exact (Except.ok.inj h).symm

lemma selectLoop_eq_ok {fuel : ℕ} (hfee : 0 ≤ fee)
    (h : selectLoop options required subtractFeeFromAmount coins mintNum utxoNum fuel fee =
      some (.ok selection)) :
    ∃ fee' change size, 0 ≤ fee' ∧
      getCoinsToSpend (currentRequired required subtractFeeFromAmount fee') coins
        options.hasSelected = .ok (selection.2, change) ∧
      estimateSpendSize selection.2.length mintNum utxoNum options.additionalTxSize
        options.useChaumV2 = .ok size ∧
      options.minimumFee size ≤ selection.1 ∧
      (selection.1 = fee' ∨ subtractFeeFromAmount = true ∧ fee' < selection.1) := by
  induction fuel generalizing fee with
  | zero => cases h
  | succ fuel ih =>
    rw [selectLoop] at h
    split at h
    · cases h
    split at h
    · cases h
    split at h
    · cases h
    · cases h
    rename_i chosen hchosen
    split at h
    · cases h
    split at h
    · cases h
    rename_i size hsize
    split at h
    · rename_i hneeded
      obtain rfl := finishSelection_eq_ok (Option.some.inj h)
      exact ⟨fee, chosen.2, size, hfee, hchosen, hsize, hneeded, .inl rfl⟩
    rename_i hneeded
    split at h
    · rename_i hsubtract
      obtain rfl := finishSelection_eq_ok (Option.some.inj h)
      exact ⟨fee, chosen.2, size, hfee, hchosen, hsize, le_rfl, .inr ⟨hsubtract, by omega⟩⟩
    · exact ih (by omega) h

lemma selectLoop_spec (hcoins : coinSum coins < 2 ^ 63) {fuel : ℕ} (hfee : 0 ≤ fee)
    (h : selectLoop options required subtractFeeFromAmount coins mintNum utxoNum fuel fee =
      some (.ok selection)) :
    Covers required subtractFeeFromAmount selection := by
  obtain ⟨fee', change, size, hfee', hchosen, -, -, hcases⟩ := selectLoop_eq_ok hfee h
  obtain ⟨hcover, hsum, -⟩ := getCoinsToSpend_spec hcoins hchosen
  obtain heq | ⟨hsubtract, hlt⟩ := hcases
  · exact ⟨by omega, heq ▸ hcover, hsum.trans_lt hcoins⟩
  · rw [currentRequired, if_pos hsubtract] at hcover
    refine ⟨by omega, ?_, hsum.trans_lt hcoins⟩
    rwa [currentRequired, if_pos hsubtract]

lemma selectSparkCoins_spec (hcoins : coinSum coins < 2 ^ 63) {fuel : ℕ}
    (h : selectSparkCoins options required subtractFeeFromAmount coins mintNum utxoNum fuel =
      some (.ok selection)) :
    Covers required subtractFeeFromAmount selection := by
  rw [selectSparkCoins] at h
  split at h
  · cases h
  · exact selectLoop_spec hcoins le_rfl h

end

lemma except_map_eq_ok {ε α β} {x : Except ε α} {f} {b : β} :
    x.map f = .ok b ↔ ∃ a, x = .ok a ∧ f a = b := by
  cases x with
  | error => simp [Except.map]
  | ok a => simp [Except.map]

/-- Of the amounts with their flags, those that pay the fee are reduced by `total` together,
and the others are kept. -/
structure FeeTaken (amounts : List (ℤ × Bool)) (final : List ℤ) (total : ℤ) : Prop where
  length_eq : final.length = amounts.length
  kept : ∀ (i : ℕ) amount, amounts[i]? = some (amount, false) → final[i]? = some amount
  reduced : (((amounts.zip final).filter fun p => p.1.2).map fun p => p.1.1 - p.2).sum = total
  sum_eq : final.sum = (amounts.map Prod.fst).sum - total
  nonneg : (∀ amount ∈ amounts, 0 ≤ amount.1) → ∀ amount ∈ final, 0 ≤ amount

lemma FeeTaken.nil : FeeTaken [] [] 0 :=
  ⟨rfl, by simp, rfl, rfl, by simp⟩

variable {final : List ℤ} {total : ℤ} {message : ℕ → String} {i : ℕ} {flag flag' : Bool}

lemma FeeTaken.cons_kept (h : FeeTaken amounts final total) (amount : ℤ) :
    FeeTaken ((amount, false) :: amounts) (amount :: final) total where
  length_eq := congrArg (· + 1) h.length_eq
  kept i := by
    cases i with
    | zero => simp
    | succ i => simpa using h.kept i
  reduced := by simpa using h.reduced
  sum_eq := by
    have hsum := h.sum_eq
    simp only [map_cons, sum_cons]
    omega
  nonneg hall := forall_mem_cons.mpr ⟨hall _ mem_cons_self,
    h.nonneg fun a ha => hall a (mem_cons_of_mem _ ha)⟩

lemma FeeTaken.cons_reduced (h : FeeTaken amounts final total)
    {amount fee : ℤ} (hlt : fee < amount) :
    FeeTaken ((amount, true) :: amounts) ((amount - fee) :: final) (fee + total) where
  length_eq := congrArg (· + 1) h.length_eq
  kept i := by
    cases i with
    | zero => simp
    | succ i => simpa using h.kept i
  reduced := by simpa using h.reduced
  sum_eq := by
    have hsum := h.sum_eq
    simp only [map_cons, sum_cons]
    omega
  nonneg hall := forall_mem_cons.mpr ⟨by omega, h.nonneg fun a ha => hall a (mem_cons_of_mem _ ha)⟩

lemma splitFee_spec {feePerRecipient feeRemainder : ℤ}
    (h : splitFee message feePerRecipient feeRemainder i flag amounts = .ok (final, flag')) :
    FeeTaken amounts final (feePerRecipient * amounts.countP snd +
      if flag = false ∧ flag' = true then feeRemainder else 0) ∧
    flag' = (flag || decide (0 < amounts.countP snd)) := by
  induction amounts generalizing i flag final with
  | nil =>
    cases h
    cases flag' <;> exact ⟨by simpa using FeeTaken.nil, by simp⟩
  | cons first rest ih =>
    obtain ⟨amount, subtracts⟩ := first
    cases subtracts with
    | false =>
      rw [splitFee] at h
      obtain ⟨⟨final', flag''⟩, hrest, heq⟩ := except_map_eq_ok.mp h
      cases heq
      obtain ⟨htaken, hflag⟩ := ih hrest
      have hcount : ((amount, false) :: rest).countP snd = rest.countP snd :=
        countP_cons_of_neg Bool.false_ne_true
      rw [hcount]
      exact ⟨htaken.cons_kept amount, hflag⟩
    | true =>
      rw [splitFee] at h
      dsimp only at h
      generalize hsubtract : (if flag = true then feePerRecipient
        else feePerRecipient + feeRemainder) = feeToSubtract at h
      split at h
      · cases h
      rename_i hlt
      obtain ⟨⟨final', flag''⟩, hrest, heq⟩ := except_map_eq_ok.mp h
      cases heq
      obtain ⟨htaken, hflag⟩ := ih hrest
      have htotal : feeToSubtract + (feePerRecipient * rest.countP snd +
          if true = false ∧ flag'' = true then feeRemainder else 0) =
          feePerRecipient * ((amount, true) :: rest).countP snd +
          if flag = false ∧ flag'' = true then feeRemainder else 0 := by
        have htrue : flag'' = true := by simpa using hflag
        have hcount : ((amount, true) :: rest).countP snd = rest.countP snd + 1 := by
          simp
        rw [hcount, htrue, ← hsubtract]
        push_cast
        cases flag <;> simp <;> ring
      exact ⟨htotal ▸ htaken.cons_reduced (by omega), by simpa using hflag⟩

/-- The two loops together take exactly the fee when some recipient pays it, and nothing
otherwise. -/
lemma splitFee_total {message'} {n i' : ℕ}
    {amounts amounts' : List (ℤ × Bool)} {final'}
    (hn : n = amounts.countP snd + amounts'.countP snd)
    (h : splitFee message (if 0 < n then fee / n else 0) (if 0 < n then fee % n else 0) i false
      amounts = .ok (final, flag))
    (h' : splitFee message' (if 0 < n then fee / n else 0) (if 0 < n then fee % n else 0) i' flag
      amounts' = .ok (final', flag')) :
    ∃ total total', FeeTaken amounts final total ∧ FeeTaken amounts' final' total' ∧
      total + total' = if 0 < n then fee else 0 := by
  obtain ⟨htaken, hflag⟩ := splitFee_spec h
  obtain ⟨htaken', hflag'⟩ := splitFee_spec h'
  refine ⟨_, _, htaken, htaken', ?_⟩
  obtain hzero | hpos := Nat.eq_zero_or_pos n
  · simp [hzero]
  · have hdiv := Int.mul_ediv_add_emod fee n
    have hflags : flag' = true := by
      rw [hflag', hflag]
      simp only [Bool.false_or, ← Bool.decide_or, decide_eq_true_eq]
      omega
    have hremainder : (if false = false ∧ flag = true then fee % n else 0) +
        (if flag = false ∧ flag' = true then fee % n else 0) = fee % n := by
      cases flag <;> simp [hflags]
    have hcount : (n : ℤ) = amounts.countP snd + amounts'.countP snd := by
      exact_mod_cast hn
    simp only [if_pos hpos, true_and] at hremainder ⊢
    linear_combination hdiv + hremainder - (fee / n) * hcount

section

variable {S : Type} {rules : SpendRules S}

variable {i : ℕ} {total : ℤ} {items : List (Recipient S × ℤ)} {error : SpendError}

lemma sumRecipients_spec {vOut : ℤ} {recipients}
    (h : sumRecipients rules i vOut recipients = .ok total) :
    total = vOut + (recipients.map Recipient.nAmount).sum ∧
      ∀ recipient ∈ recipients, 0 ≤ recipient.nAmount := by
  induction recipients generalizing i vOut with
  | nil =>
    cases h
    simp
  | cons recipient rest ih =>
    rw [sumRecipients] at h
    split at h
    · cases h
    split at h
    · cases h
    rename_i hrange
    obtain ⟨hsum, hnonneg⟩ := ih h
    rw [map_cons, sum_cons]
    refine ⟨by omega, forall_mem_cons.mpr ⟨?_, hnonneg⟩⟩
    simp only [moneyRange, Bool.not_eq_true', decide_eq_false_iff_not, not_or, not_not] at hrange
    exact hrange.1.1

lemma sumPrivateRecipients_spec {mintVOut : ℤ} {recipients}
    (h : sumPrivateRecipients mintVOut recipients = .ok total) :
    total = mintVOut + (recipients.map fun recipient => (recipient.v : ℤ)).sum := by
  induction recipients generalizing mintVOut with
  | nil =>
    cases h
    simp
  | cons recipient rest ih =>
    rw [sumPrivateRecipients] at h
    split at h
    · cases h
    rw [ih h, map_cons, sum_cons]
    omega

lemma sum_filter_ne_zero (amounts : List ℤ) : (amounts.filter (· ≠ 0)).sum = amounts.sum := by
  induction amounts with
  | nil => rfl
  | cons amount amounts ih =>
    by_cases hzero : amount = 0
    · simpa [hzero] using ih
    · simpa [hzero] using ih

lemma fillTransparent_spec {vout} (h : fillTransparent rules fee i items = .ok vout) :
    vout = (items.map snd).filter (· ≠ 0) := by
  induction items generalizing i vout with
  | nil =>
    cases h
    rfl
  | cons item rest ih =>
    obtain ⟨recipient, amount⟩ := item
    rw [fillTransparent] at h
    split at h
    · rename_i hzero
      simpa [hzero] using ih h
    split at h
    · cases h
    rename_i hzero _
    obtain ⟨vout', hrest, rfl⟩ := except_map_eq_ok.mp h
    simpa [hzero] using ih hrest

lemma foldl_sub (l : List ℤ) (x : ℤ) : l.foldl (· - ·) x = x - l.sum := by
  induction l generalizing x with
  | nil => simp
  | cons a l ih =>
    rw [foldl_cons, ih, sum_cons]
    omega

lemma foldl_unsigned {l : List ℤ} {x : ℤ} (hx : 0 ≤ x) (hl : ∀ a ∈ l, 0 ≤ a)
    (h : x + l.sum < 2 ^ 64) : l.foldl (fun out value => (out + value) % 2 ^ 64) x = x + l.sum := by
  induction l generalizing x with
  | nil => simp
  | cons a l ih =>
    have ha := hl a mem_cons_self
    have hrest : ∀ b ∈ l, 0 ≤ b := fun b hb => hl b (mem_cons_of_mem _ hb)
    have hsum := sum_nonneg hrest
    rw [sum_cons] at h ⊢
    rw [foldl_cons, Int.emod_eq_of_lt (by omega) (by omega), ih (by omega) hrest (by omega)]
    omega

lemma splitFee_error {message} {feePerRecipient feeRemainder : ℤ} {flag : Bool}
    (h : splitFee message feePerRecipient feeRemainder i flag amounts = .error error) :
    ∃ text, error = .runtimeError text := by
  induction amounts generalizing i flag with
  | nil => cases h
  | cons first rest ih =>
    obtain ⟨amount, subtracts⟩ := first
    cases subtracts with
    | false =>
      rw [splitFee] at h
      cases hrest : splitFee message feePerRecipient feeRemainder (i + 1) flag rest with
      | ok _ =>
        rw [hrest] at h
        cases h
      | error _ =>
        rw [hrest] at h
        cases h
        exact ih hrest
    | true =>
      rw [splitFee] at h
      dsimp only at h
      generalize (if flag = true then feePerRecipient else feePerRecipient + feeRemainder) =
        feeToSubtract at h
      split at h
      · cases h
        exact ⟨_, rfl⟩
      cases hrest : splitFee message feePerRecipient feeRemainder (i + 1) true rest with
      | ok _ =>
        rw [hrest] at h
        cases h
      | error _ =>
        rw [hrest] at h
        cases h
        exact ih hrest

lemma fillTransparent_error (h : fillTransparent rules fee i items = .error error) :
    ∃ text, error = .runtimeError text := by
  induction items generalizing i with
  | nil => cases h
  | cons item rest ih =>
    obtain ⟨recipient, amount⟩ := item
    rw [fillTransparent] at h
    split at h
    · exact ih h
    split at h
    · cases h
      exact ⟨_, rfl⟩
    cases hrest : fillTransparent rules fee (i + 1) rest with
    | ok _ =>
      rw [hrest] at h
      cases h
    | error _ =>
      rw [hrest] at h
      cases h
      exact ih hrest

def unableToCreate : SpendError := .invalidArgument "Unable to create spend transaction."

structure Conserves (recipients : List (Recipient S)) (privateRecipients : List PrivateRecipient)
    (amounts : SpendAmounts) : Prop where
  value : coinSum amounts.selectedCoins = amounts.fee + amounts.vout.sum + amounts.privOutputs.sum
  vout : amounts.vout = amounts.finalRecipients.filter (· ≠ 0)
  privOutputs : ∃ change, amounts.privOutputs =
    amounts.finalPrivateRecipients.filter (· ≠ 0) ++ change
  split : ∃ total total', FeeTaken (recipients.map fun r => (r.nAmount, r.fSubtractFeeFromAmount))
      amounts.finalRecipients total ∧
    FeeTaken (privateRecipients.map fun r => ((r.v : ℤ), r.subtractFee))
      amounts.finalPrivateRecipients total' ∧
    total + total' =
      if 0 < recipientsToSubtractFee recipients privateRecipients then amounts.fee else 0

variable {finalRecipients finalPrivate : List ℤ}
  {selectedCoins : List SparkMint} {fee : ℤ}

lemma fillOutputs_spec (rules) (recipients : List (Recipient S))
    (hlength : finalRecipients.length = recipients.length)
    (hnonneg : ∀ amount ∈ finalRecipients, 0 ≤ amount)
    (hprivate : ∀ amount ∈ finalPrivate, 0 ≤ amount) (hfee : 0 ≤ fee)
    (hcoins : coinSum selectedCoins < 2 ^ 63)
    (hcover : fee + finalRecipients.sum + finalPrivate.sum ≤ coinSum selectedCoins) :
    fillOutputs rules fee selectedCoins recipients finalRecipients finalPrivate ≠
        .error unableToCreate ∧
      ∀ amounts, fillOutputs rules fee selectedCoins recipients finalRecipients finalPrivate =
          .ok amounts →
        amounts.fee = fee ∧ amounts.finalRecipients = finalRecipients ∧
        amounts.finalPrivateRecipients = finalPrivate ∧
        coinSum amounts.selectedCoins = amounts.fee + amounts.vout.sum + amounts.privOutputs.sum ∧
        amounts.vout = finalRecipients.filter (· ≠ 0) ∧
        ∃ change, amounts.privOutputs = finalPrivate.filter (· ≠ 0) ++ change := by
  rw [fillOutputs]
  cases hvout : fillTransparent rules fee 0 (recipients.zip finalRecipients) with
  | error error =>
    obtain ⟨text, rfl⟩ := fillTransparent_error hvout
    exact ⟨nofun, nofun⟩
  | ok vout =>
    have hfilter : vout = finalRecipients.filter (· ≠ 0) := by
      rw [fillTransparent_spec hvout, map_snd_zip hlength.le]
    have hsumR := sum_nonneg hnonneg
    have hsumP := sum_nonneg hprivate
    have hvoutSum : vout.sum = finalRecipients.sum := by
      rw [hfilter, sum_filter_ne_zero]
    have hout : vout.foldl (fun out value => (out + value) % 2 ^ 64) 0 = finalRecipients.sum := by
      rw [foldl_unsigned le_rfl ?_ (by omega), zero_add, hvoutSum]
      intro amount hamount
      rw [hfilter] at hamount
      exact hnonneg amount (mem_of_mem_filter hamount)
    have hprivSum : (fillPrivate finalPrivate).sum = finalPrivate.sum :=
      sum_filter_ne_zero finalPrivate
    have hspend : (fillPrivate finalPrivate).foldl (· - ·) (toCAmount
        (calculateBalance selectedCoins - fee -
          vout.foldl (fun out value => (out + value) % 2 ^ 64) 0)) =
        coinSum selectedCoins - fee - finalRecipients.sum - finalPrivate.sum := by
      rw [hout, calculateBalance_eq hcoins, toCAmount_eq (by omega) (by omega), foldl_sub, hprivSum]
    simp only [Firo.Lib.except_ok_bind, hspend]
    rw [if_neg (by omega)]
    refine ⟨nofun, ?_⟩
    intro amounts hamounts
    cases hamounts
    refine ⟨rfl, rfl, rfl, ?_, hfilter, _, rfl⟩
    dsimp only
    rw [sum_append, hprivSum, hvoutSum]
    split
    · rw [sum_singleton]
      omega
    · rename_i hchange
      obtain ⟨-, hle⟩ := not_or.mp hchange
      rw [sum_nil]
      omega

end

section

variable {S : Type} {rules : SpendRules S}
  {recipients : List (Recipient S)} {privateRecipients : List PrivateRecipient}

lemma spendRequired_spec {required : ℤ}
    (h : spendRequired rules recipients privateRecipients = .ok required) :
    required = (recipients.map Recipient.nAmount).sum +
        (privateRecipients.map fun recipient => (recipient.v : ℤ)).sum ∧
      ∀ recipient ∈ recipients, 0 ≤ recipient.nAmount := by
  rw [spendRequired] at h
  split at h
  · cases h
  split at h
  · cases h
  obtain ⟨vOut, hvOut, h⟩ := Firo.Lib.except_bind_eq_ok.mp h
  obtain ⟨mintVOut, hmintVOut, h⟩ := Firo.Lib.except_bind_eq_ok.mp h
  split at h
  · cases h
  split at h
  · cases h
  cases h
  obtain ⟨hsum, hnonneg⟩ := sumRecipients_spec hvOut
  rw [hsum, sumPrivateRecipients_spec hmintVOut]
  exact ⟨by omega, hnonneg⟩

lemma fillSpend_spec {required : ℤ} {selection}
    (hrequired : spendRequired rules recipients privateRecipients = .ok required)
    (hcovers : Covers required
      (decide (0 < recipientsToSubtractFee recipients privateRecipients)) selection) :
    fillSpend rules selection.1 selection.2 recipients privateRecipients
        (recipientsToSubtractFee recipients privateRecipients) ≠ .error unableToCreate ∧
      ∀ amounts, fillSpend rules selection.1 selection.2 recipients privateRecipients
          (recipientsToSubtractFee recipients privateRecipients) = .ok amounts →
        Conserves recipients privateRecipients amounts := by
  obtain ⟨hsum, hnonneg⟩ := spendRequired_spec hrequired
  obtain ⟨hfee, hcover, hcoins⟩ := hcovers
  generalize hn : recipientsToSubtractFee recipients privateRecipients = n at *
  have hcount : n = (recipients.map fun r => (r.nAmount, r.fSubtractFeeFromAmount)).countP snd +
        (privateRecipients.map fun r => ((r.v : ℤ), r.subtractFee)).countP snd := by
    rw [← hn, recipientsToSubtractFee, countP_map, countP_map]
    rfl
  rw [fillSpend]
  cases htransparent : splitFeeTransparent (if 0 < n then selection.1 / n else 0)
      (if 0 < n then selection.1 % n else 0) 0 false
      (recipients.map fun r => (r.nAmount, r.fSubtractFeeFromAmount)) with
  | error error =>
    obtain ⟨text, rfl⟩ := splitFee_error htransparent
    exact ⟨nofun, nofun⟩
  | ok transparent =>
    simp only [Firo.Lib.except_ok_bind]
    cases hpriv : splitFeePrivate (if 0 < n then selection.1 / n else 0)
        (if 0 < n then selection.1 % n else 0) 0 transparent.2
        (privateRecipients.map fun r => ((r.v : ℤ), r.subtractFee)) with
    | error error =>
      obtain ⟨text, rfl⟩ := splitFee_error hpriv
      exact ⟨nofun, nofun⟩
    | ok priv =>
      simp only [Firo.Lib.except_ok_bind]
      obtain ⟨total, total', htaken, htaken', htotal⟩ := splitFee_total hcount htransparent hpriv
      have hR : transparent.1.sum = (recipients.map Recipient.nAmount).sum - total := by
        rw [htaken.sum_eq, List.map_map]
        rfl
      have hP : priv.1.sum = (privateRecipients.map fun r => (r.v : ℤ)).sum - total' := by
        rw [htaken'.sum_eq, List.map_map]
        rfl
      have hcovered : selection.1 + transparent.1.sum + priv.1.sum ≤ coinSum selection.2 := by
        rw [currentRequired] at hcover
        obtain hzero | hpos := Nat.eq_zero_or_pos n
        · rw [if_neg (by simp [hzero])] at hcover
          rw [if_neg (by omega)] at htotal
          omega
        · rw [if_pos (by simpa using hpos)] at hcover
          rw [if_pos hpos] at htotal
          omega
      obtain ⟨hexit, hok⟩ := fillOutputs_spec rules recipients
        (htaken.length_eq.trans (length_map _)) (htaken.nonneg (by simpa using hnonneg))
        (htaken'.nonneg (by simp)) hfee hcoins hcovered
      refine ⟨hexit, ?_⟩
      intro amounts hamounts
      obtain ⟨hfee', hfinal, hfinal', hvalue, hvout, hpriv'⟩ := hok amounts hamounts
      refine ⟨hvalue, hfinal ▸ hvout, hfinal' ▸ hpriv', total, total', ?_, ?_, ?_⟩
      · rwa [hfinal]
      · rwa [hfinal']
      · rwa [hn, hfee']

/-- For coins worth less than `2 ^ 63` together, whenever
the amounts of a spend are completed the selected coins are worth the fee and all outputs,
the recipients that do not pay the fee keep their amounts and the others are reduced by
exactly the fee; and after a successful selection the change is never negative. -/
theorem spark_spend_conserves_value (rules : SpendRules S) (options : SpendOptions)
    (coins : List SparkMint) (recipients : List (Recipient S))
    (privateRecipients : List PrivateRecipient) (hcoins : coinSum coins < 2 ^ 63) (fuel : ℕ) :
    (∀ amounts, createSparkSpend rules options coins recipients privateRecipients fuel =
        some (.ok amounts) → Conserves recipients privateRecipients amounts) ∧
      ∀ required selection, spendRequired rules recipients privateRecipients = .ok required →
        selectSparkCoins options required
          (decide (0 < recipientsToSubtractFee recipients privateRecipients)) coins
          privateRecipients.length recipients.length fuel = some (.ok selection) →
        fillSpend rules selection.1 selection.2 recipients privateRecipients
          (recipientsToSubtractFee recipients privateRecipients) ≠ .error unableToCreate := by
  constructor
  · intro amounts h
    rw [createSparkSpend] at h
    split at h
    · cases h
    rename_i required hrequired
    split at h
    · cases h
    · cases h
    rename_i selection hselection
    split at h
    · cases h
    exact (fillSpend_spec hrequired (selectSparkCoins_spec hcoins hselection)).2 amounts
      (Option.some.inj h)
  · intro required selection hrequired hselection
    exact (fillSpend_spec hrequired (selectSparkCoins_spec hcoins hselection)).1

end

def smallRules : SpendRules Unit where
  isPayToExchangeAddress _ := false
  isDust _ _ := false
  maxSparkOutLimitPerTx := 16
  maxValueSparkSpendPerTransaction := 1000

def smallOptions : SpendOptions where
  hasSelected := false
  useChaumV2 := true
  additionalTxSize := 0
  minimumFee _ := 7

/-- Two recipients share the fee; three coins are needed. -/
theorem spark_spend_conserves_value_two :
    ∃ amounts, createSparkSpend smallRules smallOptions [⟨40, 1, 1⟩, ⟨50, 2, 1⟩, ⟨30, 3, 1⟩]
        [⟨(), 60, true⟩] [⟨50, true⟩, ⟨5, false⟩] 5 = some (.ok amounts) ∧
      Conserves [⟨(), 60, true⟩] [⟨50, true⟩, ⟨5, false⟩] amounts := by
  have hrun : ((createSparkSpend smallRules smallOptions [⟨40, 1, 1⟩, ⟨50, 2, 1⟩, ⟨30, 3, 1⟩]
      [⟨(), 60, true⟩] [⟨50, true⟩, ⟨5, false⟩] 5).bind Except.toOption).isSome = true := by
    decide +kernel
  obtain ⟨amounts, hamounts⟩ := isSome_iff_exists.mp hrun
  obtain ⟨result, hresult, hok⟩ := bind_eq_some_iff.mp hamounts
  rw [Firo.Lib.except_toOption_eq_some.mp hok] at hresult
  exact ⟨amounts, hresult,
    (spark_spend_conserves_value smallRules smallOptions _ _ _ (by decide) 5).1 amounts hresult⟩

/-- Coins that are worth `2 ^ 64` and more together are counted modulo `2 ^ 64`. -/
theorem spend_of_overflowing_coins_burns_value :
    ∃ amounts, createSparkSpend smallRules { smallOptions with hasSelected := true }
        [⟨2 ^ 63, 1, 1⟩, ⟨2 ^ 63 + 1000, 2, 1⟩] [⟨(), 60, false⟩] [] 5 = some (.ok amounts) ∧
      coinSum amounts.selectedCoins ≠
        amounts.fee + amounts.vout.sum + amounts.privOutputs.sum := by
  have hrun : ((createSparkSpend smallRules { smallOptions with hasSelected := true }
      [⟨2 ^ 63, 1, 1⟩, ⟨2 ^ 63 + 1000, 2, 1⟩] [⟨(), 60, false⟩] [] 5).bind
      Except.toOption).any (fun amounts => decide (coinSum amounts.selectedCoins ≠
        amounts.fee + amounts.vout.sum + amounts.privOutputs.sum)) = true := by
    decide +kernel
  obtain ⟨amounts, hamounts, hne⟩ := (Option.any_eq_true ..).mp hrun
  obtain ⟨result, hresult, hok⟩ := bind_eq_some_iff.mp hamounts
  rw [Firo.Lib.except_toOption_eq_some.mp hok] at hresult
  exact ⟨amounts, hresult, of_decide_eq_true hne⟩

end Firo.Wallet
