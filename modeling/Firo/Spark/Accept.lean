import Firo.Spark.Node

/-! What `CheckSparkTransaction` guarantees about a transaction of a block that passes it, and what
it adds to the info of the block. -/
namespace Firo.Spark

open Firo.Lib

variable {Coin Tag Proof : Type}

structure CheckCtx.Filling (ctx : CheckCtx Coin Tag Proof) (info : CSparkTxInfo Coin Tag) :
    Prop where
  info_eq : ctx.sparkTxInfo = some info
  incomplete : info.fInfoIsComplete = false

lemma CheckCtx.Filling.updateInfo {ctx : CheckCtx Coin Tag Proof} {info} (h : ctx.Filling info)
    (f) : ctx.updateInfo f = { ctx with sparkTxInfo := some (f info) } := by
  simp [CheckCtx.updateInfo, h.info_eq, h.incomplete]

/-- The activation flags for a transaction of a block at the height `nHeight`. -/
def blockGates (cp : ConsensusParams) (nHeight : Int) (tx : CTransaction) : SpendGates :=
  spendGates cp tx nHeight false

lemma realHeight_eq {chain : List (CBlockIndex Coin Tag)} {nHeight : Int}
    (h : nextBlockHeight chain = nHeight) :
    (if nHeight = INT_MAX then nextBlockHeight chain else nHeight) = nHeight := by
  rw [h, ite_self]

def SparkEnv.verifies (env : SparkEnv Coin Tag Proof) (g : SpendGates)
    (spend : SpendTransaction Coin Tag Proof) (provider : UInt64 → Option (List Coin)) : Bool :=
  if g.isChaumV2 || g.requireChaumV1SingleInput then env.verify spend provider
  else env.verifyHistorical spend provider

def BatchProofContainer.collect {Spend : Type} (b : BatchProofContainer Spend) (g : SpendGates)
    (spend : Spend) (txHash : Uint256) : BatchProofContainer Spend :=
  if g.isChaumV2 || g.requireChaumV1SingleInput then b.add spend txHash
  else b.addHistorical spend txHash

inductive SpendVerified (env : SparkEnv Coin Tag Proof) (g : SpendGates) (hashTx : Uint256)
    (spend : SpendTransaction Coin Tag Proof) (provider : UInt64 → Option (List Coin))
    (ctx ctx' : CheckCtx Coin Tag Proof) : Prop
  | collected (h : ctx.batch.fCollectProofs = true)
      (h' : ctx' = { ctx with batch := ctx.batch.collect g spend hashTx })
  | cached (hcollect : ctx.batch.fCollectProofs = false) (h : hashTx ∈ ctx.checkedSpends)
      (h' : ctx' = ctx)
  | verified (hcollect : ctx.batch.fCollectProofs = false)
      (h : env.verifies g spend provider = true) (h' : ctx' = ctx)

variable {g : SpendGates} {hashTx : Uint256} {spend : SpendTransaction Coin Tag Proof}
  {provider : UInt64 → Option (List Coin)} {sp sp' : SpendTransaction Coin Tag Proof} {u : Unit}

lemma SpendVerified.sparkTxInfo_eq {env}
    {ctx ctx'} (h : SpendVerified env g hashTx spend provider ctx ctx') :
    ctx'.sparkTxInfo = ctx.sparkTxInfo := by
  cases h with
  | collected _ h' => rw [h']
  | cached _ _ h' => rw [h']
  | verified _ _ h' => rw [h']

lemma verifySpend_eq_ok {env} {ctx ctx' : CheckCtx Coin Tag Proof}
    {info} (hctx : ctx.Filling info) (hg : g.isMempoolAcceptance = false)
    (h : verifySpend env g hashTx false false spend provider ctx = .ok true ctx') :
    SpendVerified env g hashTx spend provider ctx ctx' := by
  unfold verifySpend at h
  obtain ⟨ctx₀, ctx₁, hget, hbody⟩ := estate_bind_eq_ok.mp h
  obtain ⟨rfl, rfl⟩ := estate_get_eq_ok.mp hget
  simp only [hctx.info_eq, hctx.incomplete, hg, Bool.not_false, Bool.and_true,
    Bool.false_eq_true, if_false, Bool.true_and] at hbody
  split at hbody
  case isTrue hcollect =>
    apply SpendVerified.collected hcollect
    unfold BatchProofContainer.collect
    split at hbody
    case isTrue hver =>
      obtain ⟨_, _, hset, hpure⟩ := estate_bind_eq_ok.mp hbody
      rw [if_pos hver, (estate_pure_eq_ok.mp hpure).2, estate_set_eq_ok.mp hset, hctx.info_eq]
    case isFalse hver =>
      obtain ⟨_, _, hset, hpure⟩ := estate_bind_eq_ok.mp hbody
      rw [if_neg hver, (estate_pure_eq_ok.mp hpure).2, estate_set_eq_ok.mp hset, hctx.info_eq]
  case isFalse hcollect =>
    rw [Bool.not_eq_true] at hcollect
    split at hbody
    case isTrue hcached =>
      exact .cached hcollect (by simpa using hcached) (estate_pure_eq_ok.mp hbody).2
    case isFalse =>
      split at hbody
      case isTrue hver =>
        obtain ⟨hpass, hctx'⟩ := estate_pure_eq_ok.mp hbody
        exact .verified hcollect (by rw [SparkEnv.verifies, if_pos hver, ← hpass]) hctx'
      case isFalse hver =>
        obtain ⟨hpass, hctx'⟩ := estate_pure_eq_ok.mp hbody
        exact .verified hcollect (by rw [SparkEnv.verifies, if_neg hver, ← hpass]) hctx'

/-- A spend that passed `CheckSparkSpendTransaction`, with what the checks found: its
parsed form, the coins of its private outputs, its transparent value, the sources of its
cover sets and the form in which it is verified. -/
structure AcceptedSpend (env : SparkEnv Coin Tag Proof) (cp : ConsensusParams)
    (v : View Coin Tag) (g : SpendGates) (tx : CTransaction) where
  spend : SpendTransaction Coin Tag Proof
  outCoins : List Coin
  vout : Nat
  privateNum : Nat
  sources : List (UInt64 × CoverSetSource Coin Tag × CoverSetData)
  verified : SpendTransaction Coin Tag Proof
  parse_eq : parseSparkSpend env tx = .ok spend
  references_ok : checkSpendReferences cp g spend = .ok ()
  outputs_eq : checkSpendOutputs env g.isChaumV2 tx.vout 0 0 false = .ok (vout, privateNum)
  outCoins_eq : parseSMintCoins env tx.vout = .ok outCoins
  sources_eq : coverSetSources v g (env.getHash { tx with
      vExtraPayload := []
      vout := tx.vout.filter fun o => !o.scriptPubKey.isSparkSMint })
    spend.setIdBlockHash.toList = .ok sources
  verified_eq : completeSpend g { spend with outCoins } sources vout = .ok verified
  length_eq : spend.T.length = spend.coverSetIds.length
  nodup : spend.T.Nodup

lemma checkSpendInput_eq_ok {env} {cp} {tx} {isVerifyDB stateful : Bool}
    (h : checkSpendInput env cp tx g isVerifyDB stateful = .ok spend) :
    parseSparkSpend env tx = .ok spend := by
  unfold checkSpendInput at h
  simp only [except_bind_eq_ok] at h
  obtain ⟨_, -, _, -, _, -, hparse⟩ := h
  split at hparse
  case h_1 sp hsp => rw [hsp, Except.ok.inj hparse]
  case h_2 => cases hparse
  case h_3 => cases hparse

variable {outCoins : List Coin} {vout : Nat} {isChaumV2 saw : Bool} {privateNum : Nat}
  {r : Nat × Nat}

lemma SpendTransaction.setOutCoins_eq_ok (h : sp.setOutCoins outCoins = .ok sp') :
    sp' = { sp with outCoins } := by
  unfold SpendTransaction.setOutCoins at h
  obtain ⟨_, -, h⟩ := except_bind_eq_ok.mp h
  exact (Except.ok.inj h).symm

lemma checkLTag_eq_ok [DecidableEq Tag] {info : CSparkTxInfo Coin Tag} {lTag : Tag} {nHeight : Int}
    {s : CSparkState Coin Tag} (h : checkLTag (some info) lTag nHeight true s = .ok ()) :
    (info.fInfoIsComplete = false → lTag ∉ info.spentLTags.map (·.1)) ∧
      s.isUsedLTag lTag = false := by
  unfold checkLTag at h
  obtain ⟨_, hfresh, hunused⟩ := except_bind_eq_ok.mp h
  simp only [rejectIf_eq_ok, Bool.or_true, Bool.and_true] at hfresh hunused
  refine ⟨fun hinfo => ?_, hunused⟩
  simpa [hinfo] using hfresh

def SpendTransaction.lTags (sp : SpendTransaction Coin Tag Proof) : List (Tag × Int) :=
  sp.T.zip (sp.coverSetIds.map fun id => int32 id.toNat)

lemma SpendTransaction.map_fst_lTags {sp : SpendTransaction Coin Tag Proof}
    (h : sp.T.length = sp.coverSetIds.length) : sp.lTags.map Prod.fst = sp.T := by
  unfold SpendTransaction.lTags
  rw [List.map_fst_zip]
  simp [h]

lemma SpendTransaction.setCoverSets_eq (sp : SpendTransaction Coin Tag Proof) (data) :
    ∃ sizes reps, sp.setCoverSets data =
      { sp with coverSetSizes := sizes, coverSetRepresentations := reps } := by
  induction data generalizing sp with
  | nil => exact ⟨sp.coverSetSizes, sp.coverSetRepresentations, rfl⟩
  | cons entry data ih =>
    obtain ⟨sizes, reps, h⟩ := ih _
    exact ⟨sizes, reps, h⟩

lemma completeSpend_eq_ok {sources} (h : completeSpend g sp sources vout = .ok sp') :
    sp' = { sp.setCoverSets (sources.map fun s => (s.1, s.2.2)) with
        vout := UInt64.ofNat vout } ∧
      (0 < UInt64.ofNat vout → sp.f.toNat ≤ 2 ^ 64 - 1 - (UInt64.ofNat vout).toNat) ∧
      ∀ id ∈ sp'.coverSetIds, (sources.lookup id).isSome := by
  unfold completeSpend SpendTransaction.setVout at h
  simp only [except_bind_eq_ok, rejectIf_eq_ok] at h
  obtain ⟨sp₁, ⟨_, hvout, hsp₁⟩, _, hids, hsp'⟩ := h
  obtain rfl := Except.ok.inj hsp₁
  obtain rfl := Except.ok.inj hsp'
  obtain ⟨sizes, reps, hsets⟩ := sp.setCoverSets_eq (sources.map fun s => (s.1, s.2.2))
  refine ⟨rfl, fun hpos => ?_, fun id hid => ?_⟩
  · rw [hsets] at hvout
    simpa [hpos] using hvout
  · simpa [Option.isSome_iff_ne_none] using List.any_eq_false.mp hids id hid

lemma checkSparkSMintTransaction_eq_ok {env} {vout} {ctx ctx' : CheckCtx Coin Tag Proof} {info}
    (hctx : ctx.Filling info) (h : checkSparkSMintTransaction env vout ctx = .ok outCoins ctx') :
    parseSMintCoins env vout = .ok outCoins ∧
      ctx' = { ctx with sparkTxInfo := some { info with mints := info.mints ++ outCoins } } := by
  unfold checkSparkSMintTransaction at h
  obtain ⟨coins, ctx₁, hlift, hrest⟩ := estate_bind_eq_ok.mp h
  obtain ⟨hparse, rfl⟩ := liftCheck_eq_ok.mp hlift
  obtain ⟨_, ctx₂, hmod, hpure⟩ := estate_bind_eq_ok.mp hrest
  obtain ⟨rfl, rfl⟩ := estate_pure_eq_ok.mp hpure
  refine ⟨hparse, ?_⟩
  rw [estate_modify_eq_ok.mp hmod, hctx.updateInfo]

section

variable [DecidableEq Tag]

lemma insertLTag_of_notMem {lTags : List (Tag × Int)} {entry : Tag × Int}
    (h : entry.1 ∉ lTags.map Prod.fst) : insertLTag lTags entry = lTags ++ [entry] := by
  unfold insertLTag
  rw [if_neg (by simpa using h)]

lemma foldl_insertLTag {lTags new : List (Tag × Int)}
    (h : ((lTags ++ new).map Prod.fst).Nodup) : new.foldl insertLTag lTags = lTags ++ new := by
  induction new generalizing lTags with
  | nil => simp
  | cons entry new ih =>
    have hentry : entry.1 ∉ lTags.map Prod.fst := by
      simp only [List.map_append, List.map_cons, List.nodup_append] at h
      exact fun hmem => h.2.2 _ hmem _ List.mem_cons_self rfl
    rw [List.foldl_cons, insertLTag_of_notMem hentry, ih (by simpa using h)]
    simp

lemma checkSpendTags_eq_ok {v} {nHeight : Int}
    {ctx ctx' : CheckCtx Coin Tag Proof} {info} (hctx : ctx.Filling info)
    (h : checkSpendTags v hashTx false false nHeight spend ctx = .ok u ctx') :
    spend.T.length = spend.coverSetIds.length ∧ spend.T.Nodup ∧
      (hashTx ∉ info.spTransactions → ∀ lTag ∈ spend.T,
        lTag ∉ info.spentLTags.map Prod.fst ∧ v.validationState.isUsedLTag lTag = false) ∧
      ctx' = { ctx with sparkTxInfo := some { info with
        spentLTags := spend.lTags.foldl insertLTag info.spentLTags
        spTransactions := hashTx :: info.spTransactions } } := by
  unfold checkSpendTags at h
  simp only [liftCheck_bind_eq_ok, get_bind_apply, rejectIf_eq_ok, Bool.not_false, if_true,
    estate_modify_eq_ok, hctx.updateInfo, hctx.info_eq, Option.isSome_some, Bool.true_or,
    Bool.and_true] at h
  obtain ⟨_, hlen, _, hfresh, _, hnodup, hctx'⟩ := h
  refine ⟨by simpa using hlen, by simpa using hnodup, fun hseen => ?_, hctx'⟩
  rw [if_neg (by simpa using hseen), except_forM_eq_ok] at hfresh
  intro lTag hlTag
  obtain ⟨hnew, hunused⟩ := checkLTag_eq_ok (hfresh lTag hlTag)
  exact ⟨hnew hctx.incomplete, hunused⟩

lemma checkSparkSpendTransaction_eq_ok {env : SparkEnv Coin Tag Proof} {cp} {v : View Coin Tag} {tx}
    {nHeight : Int} {ctx ctx' : CheckCtx Coin Tag Proof} {info : CSparkTxInfo Coin Tag}
    (hctx : ctx.Filling info) (hheight : nextBlockHeight v.chain = nHeight)
    (h : checkSparkSpendTransaction env cp v tx hashTx false nHeight false true ctx = .ok u ctx') :
    ∃ (a : AcceptedSpend env cp v (blockGates cp nHeight tx) tx) (ctx₁ : CheckCtx Coin Tag Proof),
      SpendVerified env (blockGates cp nHeight tx) hashTx a.verified (coverSetProvider a.sources)
        { ctx with sparkTxInfo := some { info with mints := info.mints ++ a.outCoins } } ctx₁ ∧
      (hashTx ∉ info.spTransactions → ∀ lTag ∈ a.spend.T,
        lTag ∉ info.spentLTags.map Prod.fst ∧ v.validationState.isUsedLTag lTag = false) ∧
      ctx' = { ctx₁ with sparkTxInfo := some { info with
        mints := info.mints ++ a.outCoins
        spentLTags := a.spend.lTags.foldl insertLTag info.spentLTags
        spTransactions := hashTx :: info.spTransactions } } := by
  unfold checkSparkSpendTransaction at h
  simp only [get_bind_apply, hctx.info_eq, Option.isNone_some, Bool.false_and,
    realHeight_eq hheight] at h
  change (liftCheck (checkSpendInput env cp tx (blockGates cp nHeight tx) false true) >>= _) ctx
    = _ at h
  simp only [liftCheck_bind_eq_ok, Bool.not_true, Bool.false_eq_true, if_false] at h
  obtain ⟨spend, hinput, _, hrefs, ⟨vout, privateNum⟩, houts, _, -, hrest⟩ := h
  obtain ⟨outCoins, ctx₁, hsmint, hrest₁⟩ := estate_bind_eq_ok.mp hrest
  obtain ⟨hcoins, rfl⟩ := checkSparkSMintTransaction_eq_ok hctx hsmint
  have hctx₁ : CheckCtx.Filling
      { ctx with sparkTxInfo := some { info with mints := info.mints ++ outCoins } }
      { info with mints := info.mints ++ outCoins } := ⟨rfl, hctx.incomplete⟩
  simp only [liftCheck_bind_eq_ok] at hrest₁
  obtain ⟨spend₁, hout, sources, hsources, verified, hverified, hrest₂⟩ := hrest₁
  obtain rfl := SpendTransaction.setOutCoins_eq_ok hout
  obtain ⟨passed, ctx₂, hverify, hrest₃⟩ := estate_bind_eq_ok.mp hrest₂
  obtain ⟨_, hpassed, htags⟩ := liftCheck_bind_eq_ok.mp hrest₃
  obtain rfl : passed = true := by simpa using hpassed
  have hsettled := verifySpend_eq_ok hctx₁ rfl hverify
  have hctx₂ : ctx₂.Filling { info with mints := info.mints ++ outCoins } :=
    ⟨hsettled.sparkTxInfo_eq, hctx.incomplete⟩
  obtain ⟨hlen, hnodup, hfresh, rfl⟩ := checkSpendTags_eq_ok hctx₂ htags
  obtain ⟨sizes, reps, hsets⟩ := SpendTransaction.setCoverSets_eq
    { spend with outCoins } (sources.map fun s => (s.1, s.2.2))
  have hver := (completeSpend_eq_ok hverified).1
  rw [hsets] at hver
  subst hver
  exact ⟨⟨spend, outCoins, vout, privateNum, sources, _, checkSpendInput_eq_ok hinput, hrefs,
    houts, hcoins, hsources, hverified, hlen, hnodup⟩, ctx₂, hsettled, hfresh, rfl⟩

end

/-- The names of a block with one more, if the transaction carries one. -/
def insertName (names : Std.ExtTreeMap String CSparkNameTxData) :
    Option CSparkNameTxData → Std.ExtTreeMap String CSparkNameTxData
  | some d => names.insert (CSparkNameManager.toUpper d.name) d
  | none => names

lemma checkSparkName_eq_ok {env} {cp} {v} {tx} {nRealHeight : Int} {nDoS : Nat}
    {ctx ctx' : CheckCtx Coin Tag Proof} {info} (hctx : ctx.Filling info)
    (h : checkSparkName env cp v tx nRealHeight nDoS ctx = .ok u ctx') :
    ∃ data, v.nameManager.checkSparkNameTx env.names cp tx nRealHeight nDoS = .ok data ∧
      (∀ d ∈ data, CSparkNameManager.isInConflict d info.sparkNames = false) ∧
      ctx' = { ctx with
        sparkTxInfo := some { info with sparkNames := insertName info.sparkNames data } } := by
  unfold checkSparkName at h
  obtain ⟨data, hdata, hrest⟩ := liftCheck_bind_eq_ok.mp h
  refine ⟨data, hdata, ?_⟩
  cases data with
  | none =>
    rw [(estate_pure_eq_ok.mp hrest).2]
    exact ⟨by simp, by rw [insertName, ← hctx.info_eq]⟩
  | some d =>
    simp only [get_bind_apply, hctx.info_eq, hctx.incomplete, Bool.not_false, if_true,
      liftCheck_bind_eq_ok, rejectIf_eq_ok, estate_modify_eq_ok, hctx.updateInfo] at hrest
    obtain ⟨_, hconflict, hctx'⟩ := hrest
    exact ⟨by simpa using hconflict, by rw [hctx', hctx.incomplete, insertName]⟩

structure AcceptedMint (env : SparkEnv Coin Tag Proof) (tx : CTransaction) where
  mint : MintTransaction Coin
  parse_eq : env.parseSparkMintTransaction ((sparkMintOuts tx).map (·.scriptPubKey)) = some mint
  verify_eq : mint.verify = .ok true
  length_eq : mint.coins.length = (sparkMintOuts tx).length
  value_eq : ∀ p ∈ mint.coins.zip (sparkMintOuts tx), ((env.coinValue p.1).toNat : Int) = p.2.nValue

section

variable {env : SparkEnv Coin Tag Proof}

lemma checkSparkMintTransaction_eq_ok {tx}
    {ctx ctx' : CheckCtx Coin Tag Proof} {info} (hctx : ctx.Filling info)
    (h : checkSparkMintTransaction env (sparkMintOuts tx) hashTx ctx = .ok u ctx') :
    ∃ a : AcceptedMint env tx, ctx' = { ctx with sparkTxInfo := some { info with
      mints := info.mints ++ a.mint.coins
      spTransactions := hashTx :: info.spTransactions } } := by
  unfold checkSparkMintTransaction at h
  simp only [liftCheck_bind_eq_ok, orReject_eq_ok, rejectIf_eq_ok, estate_modify_eq_ok,
    hctx.updateInfo] at h
  obtain ⟨m, hparse, verified, hverdict, _, hverified, _, hlen, _, hvalue, hctx'⟩ := h
  obtain rfl : verified = true := by simpa using hverified
  have hverify : m.verify = .ok true := by
    unfold mintVerdict at hverdict
    split at hverdict
    case h_1 b hb => rw [hb, Except.ok.inj hverdict]
    case h_2 => cases hverdict
  refine ⟨⟨m, hparse, hverify, by simpa using hlen, fun p hp => ?_⟩, hctx'⟩
  simpa using List.any_eq_false.mp hvalue p hp

lemma checkSpendOutputs_cons {txout} {rest}
    (h : checkSpendOutputs env isChaumV2 (txout :: rest) vout privateNum saw = .ok r) :
    (txout.scriptPubKey.isSparkSMint = true ∧ txout.scriptPubKey.isSparkMint = false ∧
      checkSpendOutputs env isChaumV2 rest vout (privateNum + 1) true = .ok r) ∨
    (txout.scriptPubKey.isSparkSMint = false ∧ txout.scriptPubKey.isSparkMint = false ∧
      0 ≤ txout.nValue ∧ txout.nValue.toNat ≤ 2 ^ 64 - 1 - vout ∧
      checkSpendOutputs env isChaumV2 rest (vout + txout.nValue.toNat) privateNum saw =
        .ok r) := by
  rw [checkSpendOutputs] at h
  split at h
  case isTrue hsmint =>
    have hmint : txout.scriptPubKey.isSparkMint = false := by
      by_contra hmint
      rw [CScript.isSparkMint_isSparkSMint (by simpa using hmint)] at hsmint
      cases hsmint
    dsimp only at h
    split at h
    case isTrue =>
      obtain ⟨_, -, hrest⟩ := except_bind_eq_ok.mp h
      exact .inl ⟨hsmint, hmint, hrest⟩
    case isFalse => exact .inl ⟨hsmint, hmint, h⟩
  case isFalse hsmint =>
    split at h
    case isTrue => cases h
    case isFalse hother =>
      simp only [Bool.or_eq_true, not_or, Bool.not_eq_true] at hother
      simp only [except_bind_eq_ok, rejectIf_eq_ok, Bool.or_eq_false_iff,
        decide_eq_false_iff_not, not_lt] at h
      obtain ⟨_, -, _, ⟨hneg, hfits⟩, hrest⟩ := h
      exact .inr ⟨by simpa using hsmint, hother.1.1.1, hneg, hfits, hrest⟩

lemma checkSpendOutputs_noMints {outs}
    (h : checkSpendOutputs env isChaumV2 outs vout privateNum saw = .ok r) :
    ∀ o ∈ outs, o.scriptPubKey.isSparkMint = false := by
  induction outs generalizing vout privateNum saw with
  | nil => simp
  | cons txout rest ih =>
    rw [List.forall_mem_cons]
    obtain ⟨-, hmint, hrest⟩ | ⟨-, hmint, -, -, hrest⟩ := checkSpendOutputs_cons h
    · exact ⟨hmint, ih hrest⟩
    · exact ⟨hmint, ih hrest⟩

lemma AcceptedSpend.not_isSparkMint {cp} {v} {tx} (a : AcceptedSpend env cp v g tx) :
    tx.isSparkMint = false := by
  unfold CTransaction.isSparkMint
  simpa using checkSpendOutputs_noMints a.outputs_eq

lemma parseSparkSpend_eq_ok {tx} (h : parseSparkSpend env tx = .ok spend) :
    tx.isSparkSpend = true ∧ tx.isCoinBase = false := by
  unfold parseSparkSpend at h
  split at h
  case h_2 => cases h
  case h_1 txin hvin =>
    split at h
    case isFalse => cases h
    case isTrue hsig =>
      rw [Bool.and_eq_true] at hsig
      refine ⟨hsig.2, ?_⟩
      unfold CTransaction.isCoinBase
      rw [hvin]
      simp only [CScript.isSparkSpend, CScript.startsWith, beq_iff_eq,
        List.head?_eq_some_iff] at hsig
      obtain ⟨⟨rest, hscript⟩, -⟩ := hsig
      simp [hscript]

lemma not_isCoinBase_of_sparkSpendFee {tx}
    {fee : Int} (h : sparkSpendFee env tx = .ok fee) : tx.isCoinBase = false := by
  unfold sparkSpendFee at h
  split at h
  case h_1 => cases h
  case h_2 => cases h
  case h_3 spend hspend => exact (parseSparkSpend_eq_ok hspend).2

end

lemma addVerdict_eq_ok {σ α : Type} {f} {x} {s s' : σ}
    {a : α} : addVerdict f x s = .ok a s' ↔ x s = .ok a s' := by
  unfold addVerdict
  cases x s with
  | ok b t => simp
  | error e t => simp

section

variable [DecidableEq Tag]

/-- How a transaction of a block passes the Spark checks. No transaction is both a mint
and a spend: a spend may not have mint outputs. -/
inductive TxAccepted (env : SparkEnv Coin Tag Proof) (cp : ConsensusParams) (v : View Coin Tag)
    (nHeight : Int) (tx : CTransaction) (ctx : CheckCtx Coin Tag Proof)
    (info : CSparkTxInfo Coin Tag) : CheckCtx Coin Tag Proof → CSparkTxInfo Coin Tag → Prop
  | unchecked (hspend : tx.isSparkSpend = false)
      (houts : tx.isSparkTransaction = true → checkOutputValues tx.vout 0 = .ok ())
      (hmint : tx.isSparkMint = true → tx.isCoinBase = true ∨ nHeight < cp.nSparkStartBlock) :
      TxAccepted env cp v nHeight tx ctx info ctx info
  | mint (hspend : tx.isSparkSpend = false) (hcoinbase : tx.isCoinBase = false)
      (houts : checkOutputValues tx.vout 0 = .ok ()) (a : AcceptedMint env tx) {ctx'} {info'}
      (hctx : ctx' = { ctx with sparkTxInfo := some info' })
      (hinfo : info' = { info with
        mints := info.mints ++ a.mint.coins
        spTransactions := env.getHash tx :: info.spTransactions }) :
      TxAccepted env cp v nHeight tx ctx info ctx' info'
  | spend (hspend : tx.isSparkSpend = true) (houts : checkOutputValues tx.vout 0 = .ok ())
      (a : AcceptedSpend env cp v (blockGates cp nHeight tx) tx)
      {ctx₁ ctx' : CheckCtx Coin Tag Proof} {info'}
      (hverified : SpendVerified env (blockGates cp nHeight tx) (env.getHash tx) a.verified
        (coverSetProvider a.sources)
        { ctx with sparkTxInfo := some { info with mints := info.mints ++ a.outCoins } } ctx₁)
      (hfresh : env.getHash tx ∉ info.spTransactions → ∀ lTag ∈ a.spend.T,
        lTag ∉ info.spentLTags.map Prod.fst ∧ v.validationState.isUsedLTag lTag = false)
      (data : Option CSparkNameTxData)
      (hdata : v.nameManager.checkSparkNameTx env.names cp tx nHeight
        (if nHeight = INT_MAX then 0 else 100) = .ok data)
      (hconflict : ∀ d ∈ data, CSparkNameManager.isInConflict d info.sparkNames = false)
      (hctx : ctx' = { ctx₁ with sparkTxInfo := some info' })
      (hinfo : info' = { info with
        mints := info.mints ++ a.outCoins
        spentLTags := a.spend.lTags.foldl insertLTag info.spentLTags
        spTransactions := env.getHash tx :: info.spTransactions
        sparkNames := insertName info.sparkNames data }) :
      TxAccepted env cp v nHeight tx ctx info ctx' info'

variable {env : SparkEnv Coin Tag Proof} {cp : ConsensusParams} {v : View Coin Tag}
  {tx : CTransaction} {nHeight : Int} {ctx ctx' : CheckCtx Coin Tag Proof}
  {info : CSparkTxInfo Coin Tag}

section

variable (hctx : ctx.Filling info) (hheight : nextBlockHeight v.chain = nHeight)
include hctx hheight

lemma checkSparkTransaction_spend (hspend : tx.isSparkSpend = true)
    (houts : checkOutputValues tx.vout 0 = .ok ())
    (h : checkSparkTransaction env cp v tx (env.getHash tx) false nHeight false true ctx =
      .ok u ctx') :
    ∃ info', TxAccepted env cp v nHeight tx ctx info ctx' info' := by
  unfold checkSparkTransaction at h
  simp only [realHeight_eq hheight, hspend, if_true, Bool.not_false, Bool.true_or] at h
  split at h
  case isTrue hmint =>
    obtain ⟨_, -, hrest⟩ := liftCheck_bind_eq_ok.mp h
    obtain ⟨_, ctx₁, hminted, hrest₁⟩ := estate_bind_eq_ok.mp hrest
    obtain ⟨m, rfl⟩ := checkSparkMintTransaction_eq_ok hctx hminted
    obtain ⟨_, -, hrest₂⟩ := liftCheck_bind_eq_ok.mp hrest₁
    obtain ⟨_, ctx₂, hspent, -⟩ := estate_bind_eq_ok.mp hrest₂
    obtain ⟨a, -⟩ := checkSparkSpendTransaction_eq_ok
      (by constructor; exacts [rfl, hctx.incomplete]) hheight hspent
    simp [a.not_isSparkMint] at hmint
  case isFalse =>
    obtain ⟨_, -, hrest⟩ := liftCheck_bind_eq_ok.mp h
    obtain ⟨_, ctx₁, hspent, hname⟩ := estate_bind_eq_ok.mp hrest
    obtain ⟨a, ctx₂, hverified, hfresh, rfl⟩ := checkSparkSpendTransaction_eq_ok hctx hheight hspent
    obtain ⟨data, hdata, hconflict, rfl⟩ :=
      checkSparkName_eq_ok (by constructor; exacts [rfl, hctx.incomplete]) hname
    exact ⟨_, .spend hspend houts a hverified hfresh data hdata hconflict rfl rfl⟩

lemma checkSparkTransaction_mint (hspend : tx.isSparkSpend = false)
    (hcoinbase : tx.isCoinBase = false) (houts : checkOutputValues tx.vout 0 = .ok ())
    (h : checkSparkTransaction env cp v tx (env.getHash tx) false nHeight false true ctx =
      .ok u ctx') :
    ∃ info', TxAccepted env cp v nHeight tx ctx info ctx' info' := by
  unfold checkSparkTransaction at h
  simp only [realHeight_eq hheight, hspend, Bool.false_eq_true, if_false] at h
  split at h
  case isTrue hmint =>
    obtain ⟨_, -, hrest⟩ := liftCheck_bind_eq_ok.mp h
    obtain ⟨_, ctx₁, hminted, hpure⟩ := estate_bind_eq_ok.mp hrest
    obtain ⟨m, rfl⟩ := checkSparkMintTransaction_eq_ok hctx hminted
    rw [(estate_pure_eq_ok.mp hpure).2]
    exact ⟨_, .mint hspend hcoinbase houts m rfl rfl⟩
  case isFalse hmint =>
    rw [(estate_pure_eq_ok.mp h).2]
    refine ⟨_, .unchecked hspend (fun _ => houts) fun hm => .inr ?_⟩
    simpa [hm] using hmint

lemma checkTransaction_eq_ok (hspark : tx.isSparkTransaction = true)
    (hcoinbase : tx.isSparkSpend = true → tx.isCoinBase = false)
    (h : checkTransaction env cp v tx (env.getHash tx) false nHeight false true ctx = .ok u ctx') :
    ∃ info', TxAccepted env cp v nHeight tx ctx info ctx' info' := by
  unfold checkTransaction at h
  simp only [liftCheck_bind_eq_ok, hspark, Bool.and_true] at h
  obtain ⟨_, -, _, houts, _, -, hrest⟩ := h
  cases hspend : tx.isSparkSpend with
  | true =>
    rw [if_pos (by simp [hcoinbase hspend])] at hrest
    exact checkSparkTransaction_spend hctx hheight hspend houts hrest
  | false =>
    cases hcb : tx.isCoinBase with
    | false =>
      rw [if_pos (by simp [hcb])] at hrest
      exact checkSparkTransaction_mint hctx hheight hspend hcb houts hrest
    | true =>
      rw [if_neg (by simp [hcb])] at hrest
      rw [(estate_pure_eq_ok.mp hrest).2]
      exact ⟨_, .unchecked hspend (fun _ => houts) fun _ => .inl hcb⟩

end

lemma connectTransaction_eq_ok {nHeight nFees fee : Int} (hctx : ctx.Filling info)
    (hheight : nextBlockHeight v.chain = nHeight)
    (h : connectTransaction env cp v tx false nHeight nFees ctx = .ok fee ctx') :
    ∃ info', TxAccepted env cp v nHeight tx ctx info ctx' info' := by
  unfold connectTransaction at h
  split at h
  case isFalse hspark =>
    rw [(estate_pure_eq_ok.mp h).2]
    simp only [CTransaction.isSparkTransaction, Bool.or_eq_true, not_or, Bool.not_eq_true] at hspark
    exact ⟨_, .unchecked hspark.2 (by simp [CTransaction.isSparkTransaction, hspark])
      (by simp [hspark])⟩
  case isTrue hspark =>
    simp only [liftCheck_bind_eq_ok] at h
    obtain ⟨sparkFee, hfee, _, -, hrest⟩ := h
    obtain ⟨_, ctx₁, hchecked, hpure⟩ := estate_bind_eq_ok.mp hrest
    rw [(estate_pure_eq_ok.mp hpure).2]
    have hcoinbase : tx.isSparkSpend = true → tx.isCoinBase = false := by
      intro hspend
      rw [if_pos hspend] at hfee
      exact not_isCoinBase_of_sparkSpendFee hfee
    exact checkTransaction_eq_ok hctx hheight hspark hcoinbase (addVerdict_eq_ok.mp hchecked)

lemma TxAccepted.filling {info info'} (h : TxAccepted env cp v nHeight tx ctx info ctx' info')
    (hctx : ctx.Filling info) : ctx'.Filling info' := by
  cases h with
  | unchecked => exact hctx
  | mint _ _ _ _ hctx' hinfo => subst hctx' hinfo; exact ⟨rfl, hctx.incomplete⟩
  | spend _ _ _ _ _ _ _ _ hctx' hinfo => subst hctx' hinfo; exact ⟨rfl, hctx.incomplete⟩

/-- How the transactions of a block pass, behind transactions with the ids `txIds`. From
a height on a block may not repeat a transaction. -/
inductive TxsAccepted (env : SparkEnv Coin Tag Proof) (cp : ConsensusParams)
    (v : View Coin Tag) (nHeight : Int) : List Uint256 → List CTransaction →
      CheckCtx Coin Tag Proof → CSparkTxInfo Coin Tag →
      CheckCtx Coin Tag Proof → CSparkTxInfo Coin Tag → Prop
  | nil {txIds ctx info} : TxsAccepted env cp v nHeight txIds [] ctx info ctx info
  | cons {txIds tx rest ctx info ctx₁ info₁ ctx' info'}
      (hid : env.getHash tx ∈ txIds → cp.isMain = true ∧ nHeight < HF_ZNODE_HEIGHT)
      (htx : TxAccepted env cp v nHeight tx ctx info ctx₁ info₁)
      (hrest : TxsAccepted env cp v nHeight (env.getHash tx :: txIds) rest ctx₁ info₁ ctx' info') :
      TxsAccepted env cp v nHeight txIds (tx :: rest) ctx info ctx' info'

lemma connectTransactions_eq_ok {other} {nHeight nFees : Int} {vtx} {i : Nat}
    {txIds} (hctx : ctx.Filling info) (hheight : nextBlockHeight v.chain = nHeight)
    (h : connectTransactions env cp v other false nHeight vtx i txIds nFees ctx = .ok u ctx') :
    ∃ info', TxsAccepted env cp v nHeight txIds vtx ctx info ctx' info' ∧ ctx'.Filling info' := by
  induction vtx generalizing i txIds nFees ctx info with
  | nil =>
    rw [(estate_pure_eq_ok.mp h).2]
    exact ⟨info, .nil, hctx⟩
  | cons tx rest ih =>
    rw [connectTransactions] at h
    simp only [liftCheck_bind_eq_ok, rejectIf_eq_ok] at h
    obtain ⟨_, hid, _, -, _, -, hrest⟩ := h
    obtain ⟨fee, ctx₁, hconnect, hrest₁⟩ := estate_bind_eq_ok.mp hrest
    obtain ⟨_, -, hrest₂⟩ := liftCheck_bind_eq_ok.mp hrest₁
    obtain ⟨info₁, htx⟩ := connectTransaction_eq_ok hctx hheight hconnect
    obtain ⟨info', htxs, hctx'⟩ := ih (htx.filling hctx) hrest₂
    refine ⟨info', .cons (fun hmem => ?_) htx htxs, hctx'⟩
    simpa [hmem] using hid

end

end Firo.Spark
