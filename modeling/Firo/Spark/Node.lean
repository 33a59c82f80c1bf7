import Firo.Spark.CheckTx

/-! `ConnectBlock` and `ConnectBlockSpark`, `DisconnectTip` and the admission of a transaction to
the mempool, as steps on the part of the node that Spark reads and writes. The verdicts of the
checks that do not touch Spark data are an input of the step. -/
namespace Firo.Spark

open Firo.Lib

variable {Coin Tag Proof : Type}

/-- The Spark part of a node. `chain` is `chainActive`, tip first; `blockIndex` holds
the index entries of blocks that were disconnected. -/
structure Node (Coin Tag Proof : Type) where
  chain : List (CBlockIndex Coin Tag)
  blockIndex : Uint256 → Option (CBlockIndex Coin Tag)
  sparkState : CSparkState Coin Tag
  sparkNameManager : CSparkNameManager
  checkedSpends : List Uint256
  batch : BatchProofContainer (SpendTransaction Coin Tag Proof)
  verifyDBContext : Option (CSparkState Coin Tag × CSparkNameManager)

def Node.initial (maxCoinInGroup startGroupSize : Nat) : Node Coin Tag Proof where
  chain := []
  blockIndex := fun _ => none
  sparkState := { maxCoinInGroup, startGroupSize }
  sparkNameManager := {}
  checkedSpends := []
  batch := {}
  verifyDBContext := none

/-- The state and the names that validation reads: those of the live node, or those of
`VerifyDB`. -/
def Node.view (n : Node Coin Tag Proof) (isVerifyDB : Bool) : View Coin Tag :=
  match isVerifyDB, n.verifyDBContext with
  | true, some (state, names) => ⟨n.chain, n.sparkState, state, names, true⟩
  | _, ctx => ⟨n.chain, n.sparkState, n.sparkState, n.sparkNameManager, ctx.isSome⟩

/-- What `ConnectBlock` learns outside the Spark code about one transaction: the
verdicts before and after its Spark checks, and its transparent fee. -/
structure OtherTxChecks where
  before : Option Reject := none
  after : Option Reject := none
  fee : Int := 0

/-- What `ConnectBlock` learns outside the Spark code about a block. `nullRead` is what
a read through the null pointer of an empty vector gives, if it returns at all. -/
structure OtherChecks where
  checkBlock : Option Reject := none
  beforeTransactions : Option Reject := none
  transaction : Nat → OtherTxChecks := fun _ => {}
  afterTransactions : Option Reject := none
  shouldBatchSparkProofs : Bool := false
  nullRead : Option (List UInt8) := none

def verdict : Option Reject → Except Reject Unit
  | some r => .error r
  | none => .ok ()

def checkOutputValues : List CTxOut → Int → Except Reject Unit
  | [], _ => .ok ()
  | txout :: rest, nValueOut => do
    rejectIf (decide (txout.nValue < 0)) (.dos 100 REJECT_INVALID "bad-txns-vout-negative")
    rejectIf (decide (MAX_MONEY < txout.nValue)) (.dos 100 REJECT_INVALID "bad-txns-vout-toolarge")
    rejectIf (!moneyRange (nValueOut + txout.nValue))
      (.dos 100 REJECT_INVALID "bad-txns-txouttotal-toolarge")
    checkOutputValues rest (nValueOut + txout.nValue)

def COIN_TYPE_MINT : UInt8 := 0
def COIN_TYPE_SPEND : UInt8 := 1

def hasConsistentSparkCoinTypes (tx : CTransaction) : Bool :=
  tx.vout.all fun txout =>
    (!txout.scriptPubKey.isSparkMint || txout.scriptPubKey[1]? == some COIN_TYPE_MINT) &&
    (!txout.scriptPubKey.isSparkSMint || txout.scriptPubKey[1]? == some COIN_TYPE_SPEND)

variable [DecidableEq Tag]

variable (env : SparkEnv Coin Tag Proof)

def checkTransaction (cp : ConsensusParams) (v : View Coin Tag)
    (tx : CTransaction) (hashTx : Uint256) (isVerifyDB : Bool) (nHeight : Int)
    (isCheckWallet fStatefulZerocoinCheck : Bool) : CheckM Coin Tag Proof Unit := do
  let nTxHeight := if nHeight = INT_MAX then nextBlockHeight v.chain - 1 else nHeight
  liftCheck (rejectIf (nHeight != INT_MAX && decide (cp.nSparkChaumV2StartBlock ≤ nTxHeight) &&
      !hasConsistentSparkCoinTypes tx) (.dos 100 REJECT_INVALID "bad-spark-coin-type"))
  liftCheck (checkOutputValues tx.vout 0)
  liftCheck (rejectIf (decide (cp.nSparkNamesV21StartBlock ≤ nTxHeight) &&
      tx.vout.any fun o => o.scriptPubKey.isSparkSMint && o.nValue != 0)
    (.dos 100 REJECT_INVALID "bad-spark-smint-nvalue"))
  if !tx.isCoinBase && tx.isSparkTransaction then
    checkSparkTransaction env cp v tx hashTx isVerifyDB nHeight isCheckWallet fStatefulZerocoinCheck

/-- `GetSparkSpendFee`, with the verdicts of its exceptions in `ConnectBlock`. -/
def sparkSpendFee (tx : CTransaction) : Except Reject Int :=
  match parseSparkSpend env tx with
  | .error .badTxIn => .error (.dos 0 REJECT_INVALID "unable to parse spark spend")
  | .error .exception => .error (.dos 0 REJECT_INVALID "failed to deserialize spark spend")
  | .ok spend =>
    if MAX_MONEY.toNat < spend.f.toNat then
      .error (.dos 0 REJECT_INVALID "failed to deserialize spark spend")
    else .ok spend.f.toNat

def addVerdict {σ α : Type} (f : Reject → Reject) (x : EStateM Reject σ α) :
    EStateM Reject σ α := fun s =>
  match x s with
  | .ok a s => .ok a s
  | .error e s => .error (f e) s

/-- The Spark checks of one transaction in the loop of `ConnectBlock`; the result is
its Spark fee. -/
def connectTransaction (cp : ConsensusParams) (v : View Coin Tag) (tx : CTransaction)
    (isVerifyDB : Bool) (nHeight nFees : Int) : CheckM Coin Tag Proof Int := do
  if tx.isSparkTransaction then
    let fee ← liftCheck (if tx.isSparkSpend then sparkSpendFee env tx else .ok 0)
    liftCheck (rejectIf (!moneyRange (nFees + fee))
      (.dos 100 REJECT_INVALID "bad-txns-fee-outofrange"))
    addVerdict (Reject.dosAgain 100 REJECT_INVALID "bad-txns-zerocoin")
      (checkTransaction env cp v tx (env.getHash tx) isVerifyDB nHeight false true)
    return fee
  else
    return 0

def connectTransactions (env : SparkEnv Coin Tag Proof) (cp : ConsensusParams)
    (v : View Coin Tag) (other : OtherChecks) (isVerifyDB : Bool) (nHeight : Int) :
    List CTransaction → Nat → List Uint256 → Int → CheckM Coin Tag Proof Unit
  | [], _, _, _ => return ()
  | tx :: rest, i, txIds, nFees => do
    let txHash := env.getHash tx
    liftCheck (rejectIf (txIds.contains txHash &&
        (!cp.isMain || decide (HF_ZNODE_HEIGHT ≤ nHeight)))
      (.dos 100 REJECT_INVALID "bad-txns-duplicatetxid"))
    liftCheck (rejectIf (tx.isSparkSpend && decide (1 < tx.vin.length))
      (.dos 100 REJECT_INVALID "bad-txns-input-invalid"))
    liftCheck (verdict (other.transaction i).before)
    let fee ← connectTransaction env cp v tx isVerifyDB nHeight nFees
    liftCheck (verdict (other.transaction i).after)
    connectTransactions env cp v other isVerifyDB nHeight rest (i + 1) (txHash :: txIds)
      (nFees + fee + (other.transaction i).fee)

/-- `CSparkTxInfo::Complete` sorts the mints by their serialisation. -/
def CSparkTxInfo.complete (info : CSparkTxInfo Coin Tag) : CSparkTxInfo Coin Tag :=
  { info with
    mints := info.mints.insertionSort fun m₁ m₂ =>
      ¬ env.serializeCoin m₂ < env.serializeCoin m₁
    fInfoIsComplete := true }

def checkSparkMintDuplicates [DecidableEq Coin] (env : SparkEnv Coin Tag Proof)
    (s : CSparkState Coin Tag) (nHeight : Int) : List Coin → List Uint256 → Except Reject Unit
  | [], _ => .ok ()
  | mint :: rest, blockMints => do
    let height := (s.getMintedCoinHeightAndId mint).1
    rejectIf (blockMints.contains (env.coinHash mint) ||
        (decide (0 ≤ height) && decide (height < nHeight)))
      (.dos 100 REJECT_INVALID "bad-txns-spark-mint-duplicate")
    checkSparkMintDuplicates env s nHeight rest (env.coinHash mint :: blockMints)

def checkSparkBlock (cp : ConsensusParams) (block : CBlock) (nBlockHeight : Int) :
    Except Reject Unit := do
  rejectIf (block.vtx.any fun tx => decide
      (cp.getMaxValueSparkSpendPerTransaction nBlockHeight < getSpendTransparentAmount tx))
    (.dos 100 REJECT_INVALID "bad-txns-spark-spend-invalid")
  rejectIf (decide (cp.getMaxValueSparkSpendPerBlock nBlockHeight <
      (block.vtx.map getSpendTransparentAmount).sum))
    (.dos 100 REJECT_INVALID "bad-txns-spark-spend-invalid")

/-- The bytes that the set hash of a block's mints is computed from: the hash of the
set so far, of the previous group's set when the group is new, then the coins. -/
def setHashInput (other : OtherChecks)
    (s : CSparkState Coin Tag) (chain : List (CBlockIndex Coin Tag)) (includeFirstBlock : Bool)
    (coins : List Coin) : Option (List UInt8) := do
  let prevHash ← getAnonymitySetHash s chain s.latestCoinId true includeFirstBlock
  let prevHash ←
    if !prevHash.isEmpty then some (prevHash.take 32)
    else if 1 < s.latestCoinId then do
      let prevHash ← getAnonymitySetHash s chain (s.latestCoinId - 1) true includeFirstBlock
      if prevHash.isEmpty then other.nullRead else some (prevHash.take 32)
    else some []
  some (prevHash ++ coins.flatMap env.serializeCoin)

/-- The validity height of a name that a block registers or transfers: from v2.1 on
the remaining validity is kept. -/
def newValidityHeight (m : CSparkNameManager) (cp : ConsensusParams) (nHeight : Int)
    (name : String) (d : CSparkNameTxData) : Nat :=
  let validityBlocks := int32 d.sparkNameValidityBlocks
  let remainingBlocks :=
    if cp.nSparkNamesV21StartBlock ≤ nHeight then
      match m.getSparkNameBlockHeight name with
      | some height => max 0 (int32 (int32 height - nHeight))
      | none => 0
    else 0
  uint32 (nHeight + (validityBlocks + remainingBlocks))

def indexSparkName (m : CSparkNameManager) (cp : ConsensusParams) (index : CBlockIndex Coin Tag)
    (entry : String × CSparkNameTxData) : Except Reject (CBlockIndex Coin Tag) :=
  let (name, d) := entry
  let opType := if 2 ≤ d.nVersion then d.operationType else opRegister
  let added : CSparkNameBlockIndexData :=
    ⟨d.name, d.sparkAddress, newValidityHeight m cp index.nHeight name d, d.additionalInfo⟩
  let removed (sparkAddress : String) : Except Reject CSparkNameBlockIndexData := do
    let height ← orReject (m.getSparkNameBlockHeight name)
      (.dosError 100 "ConnectBlockSpark: failed to index spark names")
    let additionalInfo ← orReject (m.getSparkNameAdditionalData name)
      (.dosError 100 "ConnectBlockSpark: failed to index spark names")
    .ok ⟨d.name, sparkAddress, height, additionalInfo⟩
  if opType = opRegister then
    .ok { index with addedSparkNames := index.addedSparkNames.insert name added }
  else if opType = opTransfer then do
    let old ← removed d.oldSparkAddress
    .ok { index with
      removedSparkNames := index.removedSparkNames.insert name old
      addedSparkNames := index.addedSparkNames.insert name added }
  else if opType = opUnregister then do
    let old ← removed d.sparkAddress
    .ok { index with removedSparkNames := index.removedSparkNames.insert name old }
  else .error (.dosError 100 "ConnectBlockSpark: invalid spark name op type")

/-- What `ConnectBlock` may write: the node and the index of the block. -/
abbrev ConnectM (Coin Tag Proof : Type) :=
  EStateM Reject (Node Coin Tag Proof × CBlockIndex Coin Tag)

def connectSpends (info : CSparkTxInfo Coin Tag) : ConnectM Coin Tag Proof Unit :=
  modify fun (n, index) =>
    ({ n with sparkState := n.sparkState.addSpends info.spentLTags },
      { index with spentLTags := info.spentLTags })

def connectMints [DecidableEq Coin] (env : SparkEnv Coin Tag Proof) (cp : ConsensusParams)
    (other : OtherChecks) (mints : List Coin) : ConnectM Coin Tag Proof (List UInt8) := do
  let (n, index) ← get
  let (s, index) ← liftCheck (orReject
    (n.sparkState.addMintsToStateAndBlockIndex index n.chain mints) .abort)
  set ({ n with sparkState := s }, index)
  let input ← liftCheck (orReject (setHashInput env other s n.chain
    (includeFirstBlockSetHash cp index.nHeight)
    ((index.sparkMintedCoins[s.latestCoinId]?).getD [])) .abort)
  return env.hash256 input

def indexSparkNames (cp : ConsensusParams) :
    List (String × CSparkNameTxData) → ConnectM Coin Tag Proof Unit
  | [] => return ()
  | entry :: rest => do
    let (n, index) ← get
    let index ← liftCheck (indexSparkName n.sparkNameManager cp index entry)
    set (n, index)
    indexSparkNames cp rest

/-- The end of `ConnectBlockSpark`: names that expire leave, and the block's names are
applied. -/
def connectNames (cp : ConsensusParams) (fBackupRewrittenSparkNames : Bool) :
    ConnectM Coin Tag Proof Unit :=
  modify fun (n, index) =>
    let (m, removedNames) := n.sparkNameManager.removeSparkNamesLosingValidity index.nHeight
    let index := { index with
      removedSparkNames := removedNames.foldl (fun removed name => removed.insert name.1 name.2)
        index.removedSparkNames }
    let (m, index) := m.addBlock index fBackupRewrittenSparkNames
    let checkedSpends :=
      if index.nHeight + 1 = cp.nSparkChaumV2StartBlock then [] else n.checkedSpends
    ({ n with sparkNameManager := m, checkedSpends }, index)

def verifyDBAddBlock [DecidableEq Coin] (n : Node Coin Tag Proof)
    (index : CBlockIndex Coin Tag) : Node Coin Tag Proof :=
  { n with
    verifyDBContext := n.verifyDBContext.map fun (state, names) =>
      (state.addBlock index (below CBlockIndex.hash index.hash n.chain).tail,
        (names.addBlock index false).1) }

def connectBlockSpark [DecidableEq Coin] (env : SparkEnv Coin Tag Proof) (cp : ConsensusParams)
    (other : OtherChecks) (block : CBlock) (info : CSparkTxInfo Coin Tag)
    (fJustCheck isVerifyDB : Bool) : ConnectM Coin Tag Proof Unit := do
  if !fJustCheck then
    modify fun (n, index) =>
      (n, { index with sparkMintedCoins := ∅, spentLTags := [], sparkSetHash := ∅ })
  let (n, index) ← get
  liftCheck (checkSparkBlock cp block index.nHeight)
  liftCheck (info.spentLTags.forM fun lTag => checkLTag (some info) lTag.1 index.nHeight
    (!isVerifyDB || n.verifyDBContext.isSome) (n.view isVerifyDB).validationState)
  if fJustCheck then
    if isVerifyDB then
      modify fun (n, index) => (verifyDBAddBlock n index, index)
  else
    connectSpends info
    let setHash ← if info.mints.isEmpty then pure none
      else some <$> connectMints env cp other info.mints
    indexSparkNames cp info.sparkNames.toList
    modify fun (n, index) => (n, match setHash with
      | some hash => { index with
          sparkSetHash := index.sparkSetHash.insert n.sparkState.latestCoinId hash }
      | none => index)
    connectNames cp (!info.sparkNames.isEmpty)

/-- Run the transaction checks of a block with an empty info; what they do to the
cache and to the batch stays when one fails. -/
def runChecks (x : CheckM Coin Tag Proof Unit) : ConnectM Coin Tag Proof (CSparkTxInfo Coin Tag) :=
  fun (n, index) =>
    match x ⟨some {}, n.checkedSpends, n.batch⟩ with
    | .ok _ ctx => .ok (ctx.sparkTxInfo.getD {})
        ({ n with checkedSpends := ctx.checkedSpends, batch := ctx.batch }, index)
    | .error e ctx => .error e
        ({ n with checkedSpends := ctx.checkedSpends, batch := ctx.batch }, index)

/-- `ConnectBlock` up to the writing of the undo data. -/
def connectBlock [DecidableEq Coin] (env : SparkEnv Coin Tag Proof) (cp : ConsensusParams)
    (other : OtherChecks) (fJustCheck isVerifyDB : Bool) : ConnectM Coin Tag Proof Unit := do
  let (n, index) ← get
  let block := index.block
  liftCheck (rejectIf (isVerifyDB && !fJustCheck) .abort)
  liftCheck (verdict other.checkBlock)
  if block.hash = cp.hashGenesisBlock then
    return ()
  liftCheck (verdict other.beforeTransactions)
  modify fun (n, index) =>
    ({ n with batch := { n.batch with fCollectProofs := other.shouldBatchSparkProofs }.init },
      index)
  let info ← runChecks (connectTransactions env cp (n.view isVerifyDB) other isVerifyDB
    index.nHeight block.vtx 0 [] 0)
  let info := info.complete env
  if cp.nSparkChaumV2StartBlock ≤ index.nHeight then
    liftCheck (checkSparkMintDuplicates env n.sparkState index.nHeight info.mints [])
  liftCheck (verdict other.afterTransactions)
  connectBlockSpark env cp other block info (fJustCheck || isVerifyDB) isVerifyDB
  if !fJustCheck then
    modify fun (n, index) => ({ n with batch := n.batch.finalize }, index)

end Firo.Spark
