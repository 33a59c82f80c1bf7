import Firo.Wallet.SpendValue

/-! The selection takes the largest coin while it does not exceed the need and ends with the
smallest coin that covers it. So every coin taken is at least as large as the last one, and without
any one of them the rest does not cover the amount. -/
namespace Firo.Wallet

open List

/-- Without any one of the coins, the others are worth less than the amount. -/
def Irredundant (required : ℤ) (coins : List SparkMint) : Prop :=
  ∀ coin ∈ coins, coinSum coins - coin.v < required

variable {required : ℤ}

lemma Irredundant.perm {coins coins'} (h : Irredundant required coins)
    (hperm : coins.Perm coins') : Irredundant required coins' := by
  intro coin hcoin
  rw [← coinSum_perm hperm]
  exact h coin (hperm.mem_iff.mpr hcoin)

lemma Irredundant.append {coins} {coin : SparkMint} (hlt : coinSum coins < required)
    (hle : ∀ c ∈ coins, coin.v ≤ c.v) : Irredundant required (coins ++ [coin]) := by
  intro c hc
  rw [coinSum_append_singleton]
  rcases mem_append.mp hc with hold | hnew
  · have := hle c hold
    omega
  · rw [mem_singleton.mp hnew]
    omega

lemma coinSum_erase {coins} {coin} (h : coin ∈ coins) :
    coinSum (coins.erase coin) = coinSum coins - coin.v := by
  rw [coinSum_perm (perm_cons_erase h), coinSum_cons]
  omega

lemma sorted_sortCoins (coins) : (sortCoins comparer coins).Pairwise fun a b => b.v ≤ a.v := by
  have horder (a b : SparkMint) :
      comparer b a = false ↔ b.v < a.v ∨ b.v = a.v ∧ a.nHeight ≤ b.nHeight := by
    rw [comparer]
    split <;> simp <;> omega
  have : Std.Total fun a b : SparkMint => comparer b a = false :=
    ⟨fun a b => by rw [horder, horder]; omega⟩
  have : IsTrans SparkMint fun a b => comparer b a = false :=
    ⟨fun a b c => by rw [horder, horder, horder]; omega⟩
  refine (pairwise_insertionSort (fun a b => comparer b a = false) coins).imp ?_
  intro a b hab
  have := (horder a b).mp hab
  omega

/-- While the amount is not covered, every coin taken is at least as large as those left. -/
lemma chooseCoins_irredundant (required : ℤ) (fuel : ℕ) (coins chosen)
    (h : coinSum chosen + coinSum coins < 2 ^ 63)
    (hsorted : coins.Pairwise fun a b => b.v ≤ a.v) (hchosen : Irredundant required chosen)
    (hlarger : coinSum chosen < required → ∀ c ∈ chosen, ∀ coin ∈ coins, coin.v ≤ c.v) :
    Irredundant required (chooseCoins required fuel (coinSum chosen) coins chosen).2 ∧
      (chooseCoins required fuel (coinSum chosen) coins chosen).2.Subperm (chosen ++ coins) := by
  have hself : chosen.Subperm (chosen ++ coins) := (sublist_append_left _ _).subperm
  induction fuel generalizing coins chosen with
  | zero => exact ⟨hchosen, hself⟩
  | succ fuel ih =>
    rw [chooseCoins]
    split
    · rename_i hlt
      cases hpick : pickCoin (required - coinSum chosen) coins with
      | none => exact ⟨hchosen, hself⟩
      | some picked =>
        obtain ⟨coin, rest⟩ := picked
        obtain ⟨hcases, hsublist, hperm⟩ := pickCoin_spec hpick
        have hsum := coinSum_perm hperm
        rw [coinSum_cons] at hsum
        have hnonneg := coinSum_nonneg chosen
        have hrest := coinSum_nonneg rest
        have happend := coinSum_append_singleton chosen coin
        have hcoin : coin ∈ coins := hperm.mem_iff.mp mem_cons_self
        dsimp only
        rw [toCAmount_eq (by omega) (by omega), ← happend]
        -- the loop goes on only if the coin was the largest one
        have hlarger' : coinSum (chosen ++ [coin]) < required →
            ∀ c ∈ chosen ++ [coin], ∀ r ∈ rest, r.v ≤ c.v := by
          intro hnot c hc r hr
          rcases mem_append.mp hc with hold | hnew
          · exact hlarger hlt c hold r (hsublist.subset hr)
          · have hfirst := hsorted
            rw [hcases.resolve_right (by omega), pairwise_cons] at hfirst
            exact mem_singleton.mp hnew ▸ hfirst.1 r hr
        obtain ⟨hirredundant, hsubperm⟩ := ih rest (chosen ++ [coin]) (by omega)
          (hsorted.sublist hsublist)
          (Irredundant.append hlt fun c hc => hlarger hlt c hc coin hcoin) hlarger'
          (sublist_append_left _ _).subperm
        refine ⟨hirredundant, hsubperm.trans (Perm.subperm ?_)⟩
        rw [append_assoc, singleton_append]
        exact hperm.append_left chosen
    · exact ⟨hchosen, hself⟩

lemma getCoinsToSpend_irredundant {coins spendCoins} {change : ℤ} (hcoins : coinSum coins < 2 ^ 63)
    (h : getCoinsToSpend required coins false = .ok (spendCoins, change)) :
    Irredundant required spendCoins ∧ spendCoins.Subperm coins := by
  have hsorted := coinSum_sortCoins comparer coins
  rw [getCoinsToSpend] at h
  split at h
  · cases h
  cases h
  simp only [Bool.false_eq_true, if_false]
  obtain ⟨hirredundant, hsubperm⟩ := chooseCoins_irredundant required
    (sortCoins comparer coins).length (sortCoins comparer coins) []
    (by simpa [hsorted] using hcoins) (sorted_sortCoins coins) (by simp [Irredundant]) (by simp)
  rw [coinSum_nil] at hirredundant hsubperm
  have hbyId := perm_insertionSort (fun a b => idComparer b a = false)
    (chooseCoins required (sortCoins comparer coins).length 0 (sortCoins comparer coins) []).2
  refine ⟨hirredundant.perm hbyId.symm, hbyId.subperm.trans (hsubperm.trans ?_)⟩
  exact (perm_insertionSort _ coins).subperm

section

variable (options : SpendOptions) (required : ℤ) (subtractFeeFromAmount : Bool)
  (coins : List SparkMint) (mintNum utxoNum : ℕ)

lemma selectLoop_terminates {bound : ℕ} {fee : ℤ} (hbound : maxMoney - fee < bound) :
    ∃ result, ∀ fuel, bound < fuel →
      selectLoop options required subtractFeeFromAmount coins mintNum utxoNum fuel fee =
        some result := by
  induction bound generalizing fee with
  | zero =>
    refine ⟨.error (.invalidArgument "Spark spend fee is out of range"), fun fuel hfuel => ?_⟩
    obtain ⟨fuel, rfl⟩ := Nat.exists_eq_succ_of_ne_zero (Nat.pos_iff_ne_zero.mp hfuel)
    have hrange : moneyRange fee = false := by
      simp only [moneyRange, decide_eq_false_iff_not]
      omega
    simp [selectLoop, hrange]
  | succ bound ih =>
    have hnext {size : ℕ} (hless : ¬options.minimumFee size ≤ fee) :
        maxMoney - options.minimumFee size < bound := by
      push_cast at hbound
      omega
    -- the step does not depend on the fuel that is left
    suffices hstep : (∃ result, ∀ fuel,
        selectLoop options required subtractFeeFromAmount coins mintNum utxoNum (fuel + 1) fee =
          some result) ∨ ∃ size, ¬options.minimumFee size ≤ fee ∧ ∀ fuel,
        selectLoop options required subtractFeeFromAmount coins mintNum utxoNum (fuel + 1) fee =
          selectLoop options required subtractFeeFromAmount coins mintNum utxoNum fuel
            (options.minimumFee size) by
      obtain ⟨result, hresult⟩ | ⟨size, hless, hrest⟩ := hstep
      · refine ⟨result, fun fuel hfuel => ?_⟩
        obtain ⟨fuel, rfl⟩ := Nat.exists_eq_succ_of_ne_zero (Nat.ne_zero_of_lt hfuel)
        exact hresult fuel
      · obtain ⟨result, hresult⟩ := ih (hnext hless)
        refine ⟨result, fun fuel hfuel => ?_⟩
        obtain ⟨fuel, rfl⟩ := Nat.exists_eq_succ_of_ne_zero (Nat.ne_zero_of_lt hfuel)
        rw [hrest fuel]
        exact hresult fuel (by omega)
    simp only [selectLoop]
    split
    · exact .inl ⟨_, fun _ => rfl⟩
    split
    · exact .inl ⟨_, fun _ => rfl⟩
    split
    · exact .inl ⟨_, fun _ => rfl⟩
    · exact .inl ⟨_, fun _ => rfl⟩
    split
    · exact .inl ⟨_, fun _ => rfl⟩
    split
    · exact .inl ⟨_, fun _ => rfl⟩
    rename_i size _
    split
    · exact .inl ⟨_, fun _ => rfl⟩
    rename_i hless
    split
    · exact .inl ⟨_, fun _ => rfl⟩
    · exact .inr ⟨size, hless, fun _ => rfl⟩

lemma selectSparkCoins_terminates : ∃ result, ∀ fuel, maxMoney.toNat + 1 < fuel →
      selectSparkCoins options required subtractFeeFromAmount coins mintNum utxoNum fuel =
        some result := by
  simp only [selectSparkCoins]
  split
  · exact ⟨_, fun _ _ => rfl⟩
  · exact selectLoop_terminates options required subtractFeeFromAmount coins mintNum utxoNum
      (by rw [maxMoney]; omega)

end

/-- Spark coin selection is sufficient and irredundant. Without coin control the chosen coins
are some of the available ones, they cover the amount, the change is what they exceed it by,
and without any one of them the rest does not cover it. The loop over the fee terminates; the
fee it returns is at least the fee of the selection's size, and the selection covers the
amount, with the fee unless the recipients pay it. -/
theorem sparkCoinSelection_sufficient_irredundant :
    (∀ (required : ℤ) (coins : List SparkMint), coinSum coins < 2 ^ 63 →
      ∀ spendCoins change, getCoinsToSpend required coins false = .ok (spendCoins, change) →
        spendCoins.Subperm coins ∧ required ≤ coinSum spendCoins ∧
        change = coinSum spendCoins - required ∧
        ∀ coin ∈ spendCoins, coinSum (spendCoins.erase coin) < required) ∧
    ∀ (options : SpendOptions) (required : ℤ) (subtractFeeFromAmount : Bool)
      (coins : List SparkMint) (mintNum utxoNum : ℕ), coinSum coins < 2 ^ 63 →
      ∃ result, (∀ fuel, maxMoney.toNat + 1 < fuel →
          selectSparkCoins options required subtractFeeFromAmount coins mintNum utxoNum fuel =
            some result) ∧
        ∀ fee spendCoins, result = .ok (fee, spendCoins) →
          (∃ size, estimateSpendSize spendCoins.length mintNum utxoNum options.additionalTxSize
              options.useChaumV2 = .ok size ∧ options.minimumFee size ≤ fee) ∧
          currentRequired required subtractFeeFromAmount fee ≤ coinSum spendCoins := by
  constructor
  · intro required coins hcoins spendCoins change h
    obtain ⟨hirredundant, hsubperm⟩ := getCoinsToSpend_irredundant hcoins h
    obtain ⟨hcover, -, hchange⟩ := getCoinsToSpend_spec hcoins h
    refine ⟨hsubperm, hcover, hchange, ?_⟩
    intro coin hcoin
    rw [coinSum_erase hcoin]
    exact hirredundant coin hcoin
  · intro options required subtractFeeFromAmount coins mintNum utxoNum hcoins
    obtain ⟨result, hresult⟩ := selectSparkCoins_terminates options required
      subtractFeeFromAmount coins mintNum utxoNum
    refine ⟨result, hresult, ?_⟩
    rintro fee spendCoins rfl
    have hselect := hresult _ (Nat.lt_succ_self _)
    refine ⟨?_, (selectSparkCoins_spec hcoins hselect).2.1⟩
    rw [selectSparkCoins] at hselect
    split at hselect
    · cases hselect
    · obtain ⟨-, -, size, -, -, hsize, hfee, -⟩ := selectLoop_eq_ok le_rfl hselect
      exact ⟨size, hsize, hfee⟩

/-- Coins worth 5, 3 and 2 for an amount of 6: the largest one and then the smallest that
covers the rest. -/
def threeCoins : List SparkMint := [⟨3, 1, 1⟩, ⟨5, 1, 1⟩, ⟨2, 1, 1⟩]

theorem sparkCoinSelection_threeCoins :
    getCoinsToSpend 6 threeCoins false = .ok ([⟨5, 1, 1⟩, ⟨2, 1, 1⟩], 1) ∧
      (∀ coin ∈ [(⟨5, 1, 1⟩ : SparkMint), ⟨2, 1, 1⟩],
        coinSum ([(⟨5, 1, 1⟩ : SparkMint), ⟨2, 1, 1⟩].erase coin) < 6) ∧
      ∃ result, ∀ fuel, maxMoney.toNat + 1 < fuel →
        selectSparkCoins ⟨false, true, 0, fun size => size⟩ 6 false threeCoins 0 1 fuel =
          some result := by
  have hcoins : coinSum threeCoins < 2 ^ 63 := by decide
  have hget : getCoinsToSpend 6 threeCoins false = .ok ([⟨5, 1, 1⟩, ⟨2, 1, 1⟩], 1) := by
    decide +kernel
  obtain ⟨hchosen, hselect⟩ := sparkCoinSelection_sufficient_irredundant
  obtain ⟨result, hresult, -⟩ := hselect ⟨false, true, 0, fun size => size⟩ 6 false threeCoins 0 1
    hcoins
  exact ⟨hget, (hchosen 6 threeCoins hcoins _ _ hget).2.2.2, result, hresult⟩

end Firo.Wallet
