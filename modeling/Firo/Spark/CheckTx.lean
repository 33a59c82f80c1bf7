import Firo.Spark.Spend

/-! `CheckSparkSpendTransaction`, `CheckSparkMintTransaction` and `CheckSparkTransaction` of
`spark/state.cpp`. Each group of checks that has no effects is a definition of its own; the effects
are on `CheckCtx`. -/
namespace Firo.Spark

open Firo.Lib

variable {Coin Tag Proof : Type}

/-- The activation flags that `CheckSparkSpendTransaction` derives from the height. -/
structure SpendGates where
  height : Int
  isMempoolAcceptance : Bool
  isChaumV2 : Bool
  enforceChaumV1SingleInput : Bool
  requireChaumV1SingleInput : Bool
  enforceCanonicalGroupIds : Bool
  enforceExactCoverSetReferences : Bool
  enforceBoundCoverSetHash : Bool
  useBoundCoverSetHash : Bool

def spendGates (cp : ConsensusParams) (tx : CTransaction) (height : Int)
    (isMempoolAcceptance : Bool) : SpendGates :=
  let isChaumV2 := tx.nType == TRANSACTION_SPARK_V2
  let singleInputActivation := min cp.nSparkSingleInputStartBlock cp.nSparkChaumV2StartBlock
  let enforceChaumV1SingleInput := !isChaumV2 && decide (singleInputActivation ≤ height)
  { height, isMempoolAcceptance, isChaumV2, enforceChaumV1SingleInput
    requireChaumV1SingleInput := !isChaumV2 &&
      (if isMempoolAcceptance then decide (singleInputActivation - 10 ≤ height)
        else enforceChaumV1SingleInput)
    enforceCanonicalGroupIds :=
      isMempoolAcceptance || decide (cp.nSparkChaumV2StartBlock ≤ height)
    enforceExactCoverSetReferences :=
      isMempoolAcceptance || decide (cp.nSparkChaumV2StartBlock ≤ height)
    enforceBoundCoverSetHash :=
      if isMempoolAcceptance then decide (cp.nSparkChaumV2StartBlock - 10 ≤ height)
      else decide (cp.nSparkChaumV2StartBlock ≤ height)
    useBoundCoverSetHash := decide (cp.nSparkChaumV2StartBlock ≤ height) }

/-- A failure that is a policy failure in the mempool and a consensus failure in a
block. -/
def SpendGates.dos (g : SpendGates) (code : Nat) (reason : String) : Reject :=
  if g.isMempoolAcceptance then .dos 0 REJECT_NONSTANDARD reason else .dos 100 code reason

variable (env : SparkEnv Coin Tag Proof)

def checkSpendInput (cp : ConsensusParams) (tx : CTransaction) (g : SpendGates)
    (isVerifyDB fStatefulSigmaCheck : Bool) : Except Reject (SpendTransaction Coin Tag Proof) := do
  rejectIf (tx.vin.length != 1 || !(tx.vin.all fun txin => txin.scriptSig.isSparkSpend))
    (.dos 100 REJECT_MALFORMED ("CheckSparkSpendTransaction: can't mix spark spend input with " ++
      "other tx types or have more than one spend"))
  rejectIf (fStatefulSigmaCheck && g.isMempoolAcceptance && g.isChaumV2 &&
      decide (g.height < cp.nSparkChaumV2StartBlock))
    (.dos 0 REJECT_NONSTANDARD "CheckSparkSpendTransaction: CHAUM_V2 is not active")
  rejectIf (!isVerifyDB && decide (cp.nSparkStartBlock ≤ g.height) && !tx.isSparkSpend)
    (.dos 100 NSEQUENCE_INCORRECT
      "CheckSparkSpendTransaction: spark data should reside in transaction payload")
  match parseSparkSpend env tx with
  | .ok spend => .ok spend
  | .error .badTxIn => .error (.dos 100 REJECT_MALFORMED
      "CheckSparkSpendTransaction: invalid spend transaction")
  | .error .exception => .error (.dos 100 REJECT_MALFORMED
      "CheckSparkSpendTransaction: failed to deserialize spend")

def isInvalidGroupId (id : UInt64) : Bool :=
  id == 0 || decide (2 ^ 31 - 1 < id.toNat)

/-- `std::set<uint64_t>(ids)`, in order. -/
def uniqueIds (ids : List UInt64) : List UInt64 :=
  (ids.foldl (fun set id => set.insert id ()) (∅ : Std.ExtTreeMap UInt64 Unit)).keys

def checkSpendReferences (cp : ConsensusParams) (g : SpendGates)
    (spend : SpendTransaction Coin Tag Proof) : Except Reject Unit := do
  rejectIf (g.isChaumV2 && decide (g.height < cp.nSparkChaumV2StartBlock))
    (g.dos REJECT_INVALID "CheckSparkSpendTransaction: CHAUM_V2 is not active")
  rejectIf (g.requireChaumV1SingleInput && spend.T.length != 1) (g.dos REJECT_INVALID
      "CheckSparkSpendTransaction: multi-input Spark spends are disabled")
  rejectIf (g.enforceCanonicalGroupIds && (spend.coverSetIds.any isInvalidGroupId ||
      spend.setIdBlockHash.keys.any isInvalidGroupId))
    (g.dos REJECT_INVALID "CheckSparkSpendTransaction: invalid coin group id")
  rejectIf (g.enforceExactCoverSetReferences && !(spend.coverSetIds.length == spend.T.length &&
        uniqueIds spend.coverSetIds == spend.setIdBlockHash.keys))
    (g.dos REJECT_INVALID "CheckSparkSpendTransaction: invalid cover set references")
  rejectIf (decide (MAX_MONEY.toNat < spend.f.toNat))
    (.dos 100 REJECT_INVALID "CheckSparkSpendTransaction: fee out of range")

def checkPrivateOutputV2 (txout : CTxOut) : Except Reject Unit := do
  rejectIf (txout.nValue != 0) (.dos 100 REJECT_INVALID
    "CheckSparkSpendTransaction: nonzero Spark V2 private output")
  let coin ← orReject (env.parseSparkMintCoin txout.scriptPubKey) (.dos 100 REJECT_INVALID
    "CheckSparkSpendTransaction: invalid Spark V2 private output")
  rejectIf (txout.scriptPubKey.drop 1 != env.serializeCoin coin) (.dos 100 REJECT_INVALID
    "CheckSparkSpendTransaction: non-canonical Spark V2 private output")

/-- The output loop: the transparent value `Vout`, the number of private outputs, and
whether one was seen. -/
def checkSpendOutputs (env : SparkEnv Coin Tag Proof) (isChaumV2 : Bool) :
    List CTxOut → Nat → Nat → Bool → Except Reject (Nat × Nat)
  | [], vout, privateNum, _ => .ok (vout, privateNum)
  | txout :: rest, vout, privateNum, sawPrivateOutput => do
    let script := txout.scriptPubKey
    if script.isSparkSMint then
      if isChaumV2 then
        checkPrivateOutputV2 env txout
      checkSpendOutputs env isChaumV2 rest vout (privateNum + 1) true
    else if script.isSparkMint || script.isLelantusMint || script.isLelantusJMint ||
        script.isSigmaMint then
      .error (.dos 100 REJECT_INVALID
        "CheckSparkSpendTransaction: incompatible private output type")
    else
      rejectIf (isChaumV2 && sawPrivateOutput) (.dos 100 REJECT_INVALID
        "CheckSparkSpendTransaction: non-canonical Spark V2 output order")
      rejectIf (decide (txout.nValue < 0) || decide (2 ^ 64 - 1 - vout < txout.nValue.toNat))
        (.dos 100 REJECT_INVALID "CheckSparkSpendTransaction: transparent output overflow")
      checkSpendOutputs env isChaumV2 rest (vout + txout.nValue.toNat) privateNum sawPrivateOutput

def parseSMintCoins (env : SparkEnv Coin Tag Proof) : List CTxOut → Except Reject (List Coin)
  | [] => .ok []
  | txout :: rest =>
    if txout.scriptPubKey.isSparkSMint then do
      let coin ← orReject (env.parseSparkMintCoin txout.scriptPubKey) (.dos 100 REJECT_INVALID
        "CTransaction::CheckTransaction() : Spark Mint is invalid.")
      let coins ← parseSMintCoins env rest
      .ok (coin :: coins)
    else parseSMintCoins env rest

def checkSparkSMintTransaction (vout : List CTxOut) : CheckM Coin Tag Proof (List Coin) := do
  let outCoins ← liftCheck (parseSMintCoins env vout)
  modify fun ctx => ctx.updateInfo fun info => { info with mints := info.mints ++ outCoins }
  return outCoins

/-- Where the cover set of a group comes from; the reference is the chain from the
referenced block downwards. -/
structure CoverSetSource (Coin Tag : Type) where
  stateId : Int
  previousStateId : Int
  referenceBlock : List (CBlockIndex Coin Tag)
  firstBlock : BlockPtr
  size : Nat

def uint256Bytes (h : Uint256) : List UInt8 :=
  (List.range 32).map fun i => UInt8.ofNat (h.toNat / 2 ^ (8 * i))

def coverSetSource (v : View Coin Tag) (g : SpendGates) (txHashForMetadata : Uint256)
    (wireGroupId : UInt64) (blockHash : Uint256) :
    Except Reject (CoverSetSource Coin Tag × CoverSetData) := do
  let stateGroupId := int32 wireGroupId.toNat
  let previousStateGroupId := int32 (wireGroupId - 1).toNat
  let coinGroup ← orReject (v.validationState.coinGroups stateGroupId)
    (g.dos NO_MINT_ZEROCOIN "CheckSparkSpendTransaction: no matching cover set")
  let last ← orReject coinGroup.lastBlock .abort
  let index ← orReject (findReference coinGroup.firstBlock blockHash
    (below CBlockIndex.hash last v.chain)) .abort
  let unknownReference := (index.head?.map CBlockIndex.hash) != some blockHash
  rejectIf (unknownReference &&
      (g.isMempoolAcceptance || g.isChaumV2 || g.enforceChaumV1SingleInput))
    (g.dos REJECT_INVALID "CheckSparkSpendTransaction: unknown cover-set reference")
  let setHash ← orReject
    (getAnonymitySetHash v.sparkState index stateGroupId false g.useBoundCoverSetHash) .abort
  let setSize ← orReject
    (coverSetSize stateGroupId previousStateGroupId coinGroup.firstBlock index) .abort
  rejectIf (g.enforceBoundCoverSetHash && decide (0 < setSize) && setHash.length != 32)
    (g.dos REJECT_INVALID
      "CheckSparkSpendTransaction: cover set is not bound to a canonical state hash")
  .ok (⟨stateGroupId, previousStateGroupId, index, coinGroup.firstBlock, setSize⟩,
    ⟨setSize, setHash ++ uint256Bytes txHashForMetadata⟩)

/-- The sources of all referenced groups, in the order of their ids. -/
def coverSetSources (v : View Coin Tag) (g : SpendGates) (txHashForMetadata : Uint256) :
    List (UInt64 × Uint256) → Except Reject (List (UInt64 × CoverSetSource Coin Tag × CoverSetData))
  | [] => .ok []
  | (id, hash) :: rest => do
    let source ← coverSetSource v g txHashForMetadata id hash
    let sources ← coverSetSources v g txHashForMetadata rest
    .ok ((id, source) :: sources)

def coverSetProvider (sources : List (UInt64 × CoverSetSource Coin Tag × CoverSetData))
    (wireId : UInt64) : Option (List Coin) :=
  match sources.lookup wireId with
  | none => none
  | some (source, _) =>
    match loadCoverSet source.stateId source.previousStateId source.firstBlock
      source.referenceBlock with
    | none => none
    | some coins => if coins.length = source.size then some coins else none

/-- The spend as it is verified: with its outputs, cover sets and transparent value. -/
def completeSpend (g : SpendGates) (spend : SpendTransaction Coin Tag Proof)
    (sources : List (UInt64 × CoverSetSource Coin Tag × CoverSetData)) (vout : Nat) :
    Except Reject (SpendTransaction Coin Tag Proof) := do
  let spend ← (spend.setCoverSets (sources.map fun s => (s.1, s.2.2))).setVout (UInt64.ofNat vout)
  rejectIf (spend.coverSetIds.any fun id => (sources.lookup id).isNone)
    (g.dos REJECT_INVALID "bad-spark-cover-set-missing")
  .ok spend

def verifySpend (g : SpendGates) (hashTx : Uint256)
    (isVerifyDB isCheckWallet : Bool) (spend : SpendTransaction Coin Tag Proof)
    (provider : UInt64 → Option (List Coin)) : CheckM Coin Tag Proof Bool := do
  let ctx ← get
  let filling := match ctx.sparkTxInfo with
    | some info => !info.fInfoIsComplete
    | none => false
  if ctx.batch.fCollectProofs && !isVerifyDB && !isCheckWallet && filling then
    if g.isChaumV2 || g.requireChaumV1SingleInput then
      set { ctx with batch := ctx.batch.add spend hashTx }
    else
      set { ctx with batch := ctx.batch.addHistorical spend hashTx }
    return true
  else if !isVerifyDB && ctx.checkedSpends.contains hashTx then
    return true
  else if g.isMempoolAcceptance then
    let passVerify := env.verify spend provider
    if passVerify then
      set { ctx with checkedSpends := hashTx :: ctx.checkedSpends }
    return passVerify
  else if g.isChaumV2 || g.requireChaumV1SingleInput then
    return env.verify spend provider
  else
    return env.verifyHistorical spend provider

def mintVerdict (m : MintTransaction Coin) : Except Reject Bool :=
  match m.verify with
  | .ok b => .ok b
  | .error what => .error (.error what)

def checkSparkMintTransaction (txOuts : List CTxOut)
    (hashTx : Uint256) : CheckM Coin Tag Proof Unit := do
  let mintTransaction ← liftCheck (orReject
    (env.parseSparkMintTransaction (txOuts.map (·.scriptPubKey))) (.dos 100 PUBCOIN_NOT_VALIDATE
      "CTransaction::CheckTransaction() : SparkMint parsing failure."))
  let verified ← liftCheck (mintVerdict mintTransaction)
  liftCheck (rejectIf (!verified) (.dos 100 PUBCOIN_NOT_VALIDATE
    "CheckSparkMintTransaction : mintTransaction verification failed"))
  let coins := mintTransaction.coins
  liftCheck (rejectIf (coins.length != txOuts.length) (.dos 100 PUBCOIN_NOT_VALIDATE
    "CheckSparkMintTransaction : mintTransaction parsing failed"))
  liftCheck (rejectIf ((coins.zip txOuts).any fun (coin, txOut) =>
      ((env.coinValue coin).toNat : Int) != txOut.nValue) (.dos 100 PUBCOIN_NOT_VALIDATE
    "CheckSparkMintTransaction : mintTransaction failed, wrong amount"))
  modify fun ctx => ctx.updateInfo fun info =>
    { info with
      mints := info.mints ++ coins
      spTransactions := hashTx :: info.spTransactions }

def sparkMintOuts (tx : CTransaction) : List CTxOut :=
  tx.vout.filter fun txout => txout.scriptPubKey.isSparkMint

variable [DecidableEq Tag]

def checkLTag (sparkTxInfo : Option (CSparkTxInfo Coin Tag)) (lTag : Tag) (nHeight : Int)
    (fConnectTip : Bool) (validationState : CSparkState Coin Tag) : Except Reject Unit := do
  rejectIf (match sparkTxInfo with
      | some info => !info.fInfoIsComplete && (info.spentLTags.map (·.1)).contains lTag
      | none => false)
    (.dos 0 REJECT_INVALID "bad-spark-linking-tag-duplicate")
  rejectIf (validationState.isUsedLTag lTag && (nHeight == INT_MAX || fConnectTip))
    (.dos 0 REJECT_INVALID "bad-spark-linking-tag-used")

/-- `spentLTags.insert`, which keeps an entry that is there. -/
def insertLTag (lTags : List (Tag × Int)) (entry : Tag × Int) : List (Tag × Int) :=
  if (lTags.map (·.1)).contains entry.1 then lTags else lTags ++ [entry]

/-- The linking tags of a verified spend: each is fresh, no two are the same, and the
block's info gets them. -/
def checkSpendTags (v : View Coin Tag) (hashTx : Uint256) (isVerifyDB isCheckWallet : Bool)
    (nHeight : Int) (spend : SpendTransaction Coin Tag Proof) : CheckM Coin Tag Proof Unit := do
  liftCheck (rejectIf (spend.T.length != spend.coverSetIds.length) (.dosError 100
    "CheckSparkSpendTransaction: size of lTags and group ids don't match."))
  let ctx ← get
  let seen := match ctx.sparkTxInfo with
    | some info => info.spTransactions.contains hashTx
    | none => false
  let fConnectTip := ctx.sparkTxInfo.isSome && (!isVerifyDB || v.hasVerifyDBContext)
  liftCheck (if seen then .ok () else spend.T.forM fun lTag =>
    checkLTag ctx.sparkTxInfo lTag nHeight fConnectTip v.validationState)
  liftCheck (rejectIf (!decide spend.T.Nodup) (.dosError 100
    "CheckSparkSpendTransaction: two or more spends with same linking tag in the same transaction"))
  if !isCheckWallet then
    modify fun ctx => ctx.updateInfo fun info =>
      { info with
        spentLTags := (spend.T.zip (spend.coverSetIds.map fun id => int32 id.toNat)).foldl
          insertLTag info.spentLTags
        spTransactions := hashTx :: info.spTransactions }

variable (cp : ConsensusParams) (v : View Coin Tag) (tx : CTransaction)

def checkSparkSpendTransaction (hashTx : Uint256) (isVerifyDB : Bool)
    (nHeight : Int) (isCheckWallet fStatefulSigmaCheck : Bool) : CheckM Coin Tag Proof Unit := do
  let ctx ← get
  let g := spendGates cp tx (if nHeight = INT_MAX then nextBlockHeight v.chain else nHeight)
    (ctx.sparkTxInfo.isNone && nHeight == INT_MAX)
  let spend ← liftCheck (checkSpendInput env cp tx g isVerifyDB fStatefulSigmaCheck)
  if !fStatefulSigmaCheck then
    return ()
  liftCheck (checkSpendReferences cp g spend)
  let (vout, privateNum) ← liftCheck (checkSpendOutputs env g.isChaumV2 tx.vout 0 0 false)
  liftCheck (rejectIf (decide (cp.nMaxSparkOutLimitPerTx < privateNum)) (.dos 100 REJECT_INVALID
    "CheckSparkSpendTransaction: too many private outputs"))
  let outCoins ← checkSparkSMintTransaction env tx.vout
  let spend ← liftCheck (spend.setOutCoins outCoins)
  let txHashForMetadata := env.getHash { tx with
    vExtraPayload := []
    vout := tx.vout.filter fun o => !o.scriptPubKey.isSparkSMint }
  let sources ← liftCheck (coverSetSources v g txHashForMetadata spend.setIdBlockHash.toList)
  let spend ← liftCheck (completeSpend g spend sources vout)
  let passVerify ← verifySpend env g hashTx isVerifyDB isCheckWallet spend
    (coverSetProvider sources)
  liftCheck (rejectIf (!passVerify) (.dos 100 REJECT_INVALID
    "CheckSparkSpendTransaction: proof verification failed"))
  checkSpendTags v hashTx isVerifyDB isCheckWallet nHeight spend

def checkSparkName (nRealHeight : Int) (nContextualFailureDoS : Nat) :
    CheckM Coin Tag Proof Unit := do
  let data ← liftCheck (v.nameManager.checkSparkNameTx env.names cp tx nRealHeight
    nContextualFailureDoS)
  match data with
  | none => return ()
  | some d =>
    let ctx ← get
    match ctx.sparkTxInfo with
    | none => return ()
    | some info =>
      if !info.fInfoIsComplete then
        liftCheck (rejectIf (CSparkNameManager.isInConflict d info.sparkNames) .failed)
        modify fun ctx => ctx.updateInfo fun info =>
          { info with
            sparkNames := info.sparkNames.insert (CSparkNameManager.toUpper d.name) d }

def checkSparkTransaction (hashTx : Uint256) (isVerifyDB : Bool)
    (nHeight : Int) (isCheckWallet fStatefulSigmaCheck : Bool) : CheckM Coin Tag Proof Unit := do
  let nRealHeight := if nHeight = INT_MAX then nextBlockHeight v.chain else nHeight
  if decide (cp.nSparkStartBlock ≤ nRealHeight) && tx.isSparkMint then
    liftCheck (rejectIf (sparkMintOuts tx).isEmpty
      (.dos 100 REJECT_INVALID "bad-txns-mint-invalid"))
    checkSparkMintTransaction env (sparkMintOuts tx) hashTx
  if tx.isSparkSpend then
    liftCheck (rejectIf (decide (cp.getMaxValueSparkSpendPerTransaction nRealHeight <
      getSpendTransparentAmount tx)) (.dos 100 REJECT_INVALID "bad-txns-spend-invalid"))
    checkSparkSpendTransaction env cp v tx hashTx isVerifyDB nHeight isCheckWallet
      fStatefulSigmaCheck
    if !isVerifyDB || v.hasVerifyDBContext then
      checkSparkName env cp v tx nRealHeight (if nHeight = INT_MAX then 0 else 100)

end Firo.Spark
