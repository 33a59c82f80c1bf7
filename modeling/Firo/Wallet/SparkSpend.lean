import Mathlib

/-! How `CSparkWallet::CreateSparkSpendTransaction` chooses coins, splits the fee and fills the
outputs. A `CAmount` is a signed and a coin value an unsigned 64-bit integer; where the source mixes
them the result is taken modulo `2 ^ 64` into the signed range. -/
namespace Firo.Wallet

def maxMoney : ℤ := 21000000 * 100000000

def moneyRange (value : ℤ) : Bool :=
  decide (0 ≤ value ∧ value ≤ maxMoney)

/-- The conversion of an unsigned 64-bit result to `CAmount`. -/
def toCAmount (x : ℤ) : ℤ := x.bmod (2 ^ 64)

structure SparkMint where
  v : ℕ
  nHeight : ℤ
  nId : ℤ
  deriving DecidableEq

inductive SpendError
  | insufficientFunds (requiredFee : ℤ)
  | invalidArgument (message : String)
  | runtimeError (message : String)
  deriving DecidableEq

def calculateBalance (coins : List SparkMint) : ℤ :=
  coins.foldl (fun balance coin => toCAmount (balance + coin.v)) 0

def comparer (a b : SparkMint) : Bool :=
  if a.v ≠ b.v then decide (b.v < a.v) else decide (a.nHeight < b.nHeight)

def idComparer (a b : SparkMint) : Bool :=
  decide (a.nId < b.nId)

/-- `std::list::sort`, which is stable. -/
def sortCoins (less : SparkMint → SparkMint → Bool) (coins : List SparkMint) : List SparkMint :=
  coins.insertionSort fun a b => less b a = false

/-- The search from the last coin for one that covers the need and is the first of its
value; with the coins that are left. The argument is the list in reverse order. -/
def pickCovering (need : ℤ) : List SparkMint → Option (SparkMint × List SparkMint)
  | [] => none
  | coin :: more =>
    if need ≤ coin.v ∧ (more.head?.all fun next => next.v ≠ coin.v) then some (coin, more)
    else (pickCovering need more).map fun (chosen, rest) => (chosen, coin :: rest)

/-- The coin that one pass of the selection takes, with the coins that are left. -/
def pickCoin (need : ℤ) : List SparkMint → Option (SparkMint × List SparkMint)
  | [] => none
  | first :: rest =>
    if first.v ≤ need then some (first, rest)
    else (pickCovering need (first :: rest).reverse).map fun (chosen, more) =>
      (chosen, more.reverse)

/-- The loop `while (spend_val < required)`; every pass removes a coin. -/
def chooseCoins (required : ℤ) : ℕ → ℤ → List SparkMint → List SparkMint → ℤ × List SparkMint
  | 0, spendVal, _, coinsToSpend => (spendVal, coinsToSpend)
  | fuel + 1, spendVal, coins, coinsToSpend =>
    if spendVal < required then
      match pickCoin (required - spendVal) coins with
      | none => (spendVal, coinsToSpend)
      | some (chosen, rest) =>
        chooseCoins required fuel (toCAmount (spendVal + chosen.v)) rest (coinsToSpend ++ [chosen])
    else (spendVal, coinsToSpend)

/-- `GetCoinsToSpend`: the chosen coins and the change; `hasSelected` tells that the coin
control has selected the coins. -/
def getCoinsToSpend (required : ℤ) (coins : List SparkMint) (hasSelected : Bool) :
    Except SpendError (List SparkMint × ℤ) :=
  if calculateBalance coins < required then .error (.insufficientFunds 0)
  else
    let coins := sortCoins comparer coins
    let chosen :=
      if hasSelected then (calculateBalance coins.reverse, coins)
      else chooseCoins required coins.length 0 coins []
    .ok (sortCoins idComparer chosen.2, chosen.1 - required)

def addEstimatedSize (bytesPerItem itemCount estimatedSize : ℕ) : Except SpendError ℕ :=
  if (2 ^ 32 - 1 - estimatedSize) / bytesPerItem < itemCount then
    .error (.invalidArgument "Spark spend size estimate is out of range")
  else .ok (estimatedSize + bytesPerItem * itemCount)

def estimateSpendSize (spendCoins mintNum utxoNum additionalTxSize : ℕ) (useChaumV2 : Bool) :
    Except SpendError ℕ := do
  let size ← addEstimatedSize 1803 spendCoins 924
  let size ← addEstimatedSize 322 mintNum size
  let size ← addEstimatedSize 322 1 size
  let size ← addEstimatedSize 34 utxoNum size
  let size ← addEstimatedSize 1 additionalTxSize size
  if useChaumV2 then
    let size ← addEstimatedSize 32 1 size
    if 1 < spendCoins then addEstimatedSize 98 (spendCoins - 1) size else pure size
  else pure size

structure SpendOptions where
  hasSelected : Bool
  useChaumV2 : Bool
  additionalTxSize : ℕ
  /-- `CWallet::GetMinimumFee` for a size. -/
  minimumFee : ℕ → ℤ

def maxChaumV2Inputs : ℕ := 100

section

variable (options : SpendOptions) (required : ℤ) (subtractFeeFromAmount : Bool)
  (coins : List SparkMint) (mintNum utxoNum : ℕ)

def currentRequired (fee : ℤ) : ℤ :=
  if subtractFeeFromAmount then required else required + fee

def finishSelection (fee : ℤ) (chosen : List SparkMint × ℤ) :
    Except SpendError (ℤ × List SparkMint) :=
  if chosen.2 < 0 then .error (.invalidArgument "Unable to select cons for spend")
  else .ok (fee, chosen.1)

/-- The loop over the fee; `none` means that the fuel ran out. -/
def selectLoop : ℕ → ℤ → Option (Except SpendError (ℤ × List SparkMint))
  | 0, _ => none
  | fuel + 1, fee =>
    if !moneyRange fee then
      some (.error (.invalidArgument "Spark spend fee is out of range"))
    else if subtractFeeFromAmount = false ∧ maxMoney - required < fee then
      some (.error (.invalidArgument "Spark spend amount plus fee is out of range"))
    else
      match getCoinsToSpend (currentRequired required subtractFeeFromAmount fee) coins
        options.hasSelected with
      | .error (.insufficientFunds requiredFee) =>
        some (.error (.insufficientFunds (if 0 < fee then fee else requiredFee)))
      | .error error => some (.error error)
      | .ok chosen =>
        if options.useChaumV2 = true ∧ maxChaumV2Inputs < chosen.1.length then
          some (.error (.invalidArgument "Spark V2 spends are limited to 100 inputs"))
        else
          match estimateSpendSize chosen.1.length mintNum utxoNum options.additionalTxSize
            options.useChaumV2 with
          | .error error => some (.error error)
          | .ok size =>
            if options.minimumFee size ≤ fee then some (finishSelection fee chosen)
            else if subtractFeeFromAmount then
              some (finishSelection (options.minimumFee size) chosen)
            else selectLoop fuel (options.minimumFee size)

def selectSparkCoins (fuel : ℕ) : Option (Except SpendError (ℤ × List SparkMint)) :=
  if !moneyRange required then
    some (.error (.invalidArgument "Spark spend amount is out of range"))
  else selectLoop options required subtractFeeFromAmount coins mintNum utxoNum fuel 0

end

structure Recipient (S : Type) where
  scriptPubKey : S
  nAmount : ℤ
  fSubtractFeeFromAmount : Bool

structure PrivateRecipient where
  v : ℕ
  subtractFee : Bool

structure SpendRules (S : Type) where
  isPayToExchangeAddress : S → Bool
  isDust : S → ℤ → Bool
  maxSparkOutLimitPerTx : ℕ
  maxValueSparkSpendPerTransaction : ℤ

section

variable {S : Type} (rules : SpendRules S)

/-- The total of the transparent recipients from recipient `i` on. -/
def sumRecipients : ℕ → ℤ → List (Recipient S) → Except SpendError ℤ
  | _, vOut, [] => .ok vOut
  | i, vOut, recipient :: rest =>
    if rules.isPayToExchangeAddress recipient.scriptPubKey then
      .error (.runtimeError ("Exchange addresses cannot receive private funds. Please transfer " ++
        "your funds to a transparent address first before sending to an Exchange address"))
    else if !moneyRange recipient.nAmount ∨ maxMoney - vOut < recipient.nAmount then
      .error (.runtimeError s!"Recipient {i} has invalid amount")
    else sumRecipients (i + 1) (vOut + recipient.nAmount) rest

def sumPrivateRecipients : ℤ → List PrivateRecipient → Except SpendError ℤ
  | mintVOut, [] => .ok mintVOut
  | mintVOut, recipient :: rest =>
    if maxMoney < recipient.v ∨ maxMoney - mintVOut < recipient.v then
      .error (.runtimeError "Private recipient has invalid amount")
    else sumPrivateRecipients (mintVOut + recipient.v) rest

/-- The loop that takes the fee from the recipients that pay it, over amounts with their
flags, from recipient `i` on. The first of them also pays the remainder. -/
def splitFee (message : ℕ → String) (feePerRecipient feeRemainder : ℤ) :
    ℕ → Bool → List (ℤ × Bool) → Except SpendError (List ℤ × Bool)
  | _, remainderSubtracted, [] => .ok ([], remainderSubtracted)
  | i, remainderSubtracted, (amount, true) :: rest =>
    let feeToSubtract :=
      if remainderSubtracted then feePerRecipient else feePerRecipient + feeRemainder
    if amount ≤ feeToSubtract then .error (.runtimeError (message i))
    else (splitFee message feePerRecipient feeRemainder (i + 1) true rest).map
      fun (amounts, flag) => ((amount - feeToSubtract) :: amounts, flag)
  | i, remainderSubtracted, (amount, false) :: rest =>
    (splitFee message feePerRecipient feeRemainder (i + 1) remainderSubtracted rest).map
      fun (amounts, flag) => (amount :: amounts, flag)

def splitFeeTransparent : ℤ → ℤ → ℕ → Bool → List (ℤ × Bool) → Except SpendError (List ℤ × Bool) :=
  splitFee fun i =>
    s!"Amount for recipient {i} is too small to send after the fee has been deducted"

def splitFeePrivate : ℤ → ℤ → ℕ → Bool → List (ℤ × Bool) → Except SpendError (List ℤ × Bool) :=
  splitFee fun i =>
    s!"Amount for private recipient {i} is too small to send after the fee has been deducted"

def dustMessage (i : ℕ) (subtractsFee : Bool) (fee value : ℤ) : String :=
  if subtractsFee = true ∧ 0 < fee then
    if value < 0 then s!"Amount for recipient {i} is too small to pay the fee"
    else s!"Amount for recipient {i} is too small to send after the fee has been deducted"
  else s!"Amount for recipient {i} is too small"

/-- The transparent outputs for the final amounts; zero amounts have no output. -/
def fillTransparent (fee : ℤ) : ℕ → List (Recipient S × ℤ) → Except SpendError (List ℤ)
  | _, [] => .ok []
  | i, (recipient, amount) :: rest =>
    if amount = 0 then fillTransparent fee (i + 1) rest
    else if rules.isDust recipient.scriptPubKey amount then
      .error (.runtimeError (dustMessage i recipient.fSubtractFeeFromAmount fee amount))
    else (fillTransparent fee (i + 1) rest).map (amount :: ·)

/-- The private outputs for the final amounts; zero amounts have no output. -/
def fillPrivate (amounts : List ℤ) : List ℤ :=
  amounts.filter (· ≠ 0)

structure SpendAmounts where
  fee : ℤ
  selectedCoins : List SparkMint
  /-- The amounts of the recipients after the fee. -/
  finalRecipients : List ℤ
  finalPrivateRecipients : List ℤ
  /-- The values of the transparent outputs. -/
  vout : List ℤ
  /-- The values of the private outputs, the change last. -/
  privOutputs : List ℤ

def fillOutputs (fee : ℤ) (selectedCoins : List SparkMint) (recipients : List (Recipient S))
    (finalRecipients finalPrivateRecipients : List ℤ) : Except SpendError SpendAmounts := do
  let vout ← fillTransparent rules fee 0 (recipients.zip finalRecipients)
  let transparentOut := vout.foldl (fun out value => (out + value) % 2 ^ 64) 0
  let privOutputs := fillPrivate finalPrivateRecipients
  let spendInCurrentTx := toCAmount (calculateBalance selectedCoins - fee - transparentOut)
  let spendInCurrentTx := privOutputs.foldl (· - ·) spendInCurrentTx
  if spendInCurrentTx < 0 then
    .error (.invalidArgument "Unable to create spend transaction.")
  else
    let change := if privOutputs.isEmpty ∨ 0 < spendInCurrentTx then [spendInCurrentTx] else []
    .ok { fee, selectedCoins, finalRecipients, finalPrivateRecipients, vout
          privOutputs := privOutputs ++ change }

def fillSpend (fee : ℤ) (selectedCoins : List SparkMint) (recipients : List (Recipient S))
    (privateRecipients : List PrivateRecipient) (recipientsToSubtractFee : ℕ) :
    Except SpendError SpendAmounts := do
  let feePerRecipient := if 0 < recipientsToSubtractFee then fee / recipientsToSubtractFee else 0
  let feeRemainder := if 0 < recipientsToSubtractFee then fee % recipientsToSubtractFee else 0
  let transparent ← splitFeeTransparent feePerRecipient feeRemainder 0 false
    (recipients.map fun r => (r.nAmount, r.fSubtractFeeFromAmount))
  let priv ← splitFeePrivate feePerRecipient feeRemainder 0 transparent.2
    (privateRecipients.map fun r => ((r.v : ℤ), r.subtractFee))
  fillOutputs rules fee selectedCoins recipients transparent.1 priv.1

def recipientsToSubtractFee (recipients : List (Recipient S))
    (privateRecipients : List PrivateRecipient) : ℕ :=
  recipients.countP Recipient.fSubtractFeeFromAmount +
    privateRecipients.countP PrivateRecipient.subtractFee

def spendRequired (recipients : List (Recipient S)) (privateRecipients : List PrivateRecipient) :
    Except SpendError ℤ :=
  if recipients.isEmpty ∧ privateRecipients.isEmpty then
    .error (.runtimeError "Either recipients or newMints has to be nonempty.")
  else if rules.maxSparkOutLimitPerTx - 1 ≤ privateRecipients.length then
    .error (.runtimeError "Spark shielded output limit exceeded.")
  else do
    let vOut ← sumRecipients rules 0 0 recipients
    let mintVOut ← sumPrivateRecipients 0 privateRecipients
    if maxMoney - vOut < mintVOut then
      .error (.runtimeError "Spark spend output amount is out of range")
    else if rules.maxValueSparkSpendPerTransaction < vOut then
      .error (.runtimeError "Spend to transparent address limit exceeded.")
    else .ok (vOut + mintVOut)

/-- The amount part of `CreateSparkSpendTransaction` for the available coins; `none` means
that the fuel of the selection ran out. -/
def createSparkSpend (options : SpendOptions) (coins : List SparkMint)
    (recipients : List (Recipient S)) (privateRecipients : List PrivateRecipient) (fuel : ℕ) :
    Option (Except SpendError SpendAmounts) :=
  let toSubtract := recipientsToSubtractFee recipients privateRecipients
  match spendRequired rules recipients privateRecipients with
  | .error error => some (.error error)
  | .ok required =>
    match selectSparkCoins options required (decide (0 < toSubtract)) coins
      privateRecipients.length recipients.length fuel with
    | none => none
    | some (.error error) => some (.error error)
    | some (.ok selection) =>
      if options.useChaumV2 = false ∧ selection.2.length ≠ 1 then
        some (.error (.insufficientFunds 0))
      else some (fillSpend rules selection.1 selection.2 recipients privateRecipients toSubtract)

end

end Firo.Wallet
