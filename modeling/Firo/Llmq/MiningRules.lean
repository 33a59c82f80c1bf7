import Firo.Llmq.BlockProcessor
import Firo.Lib.Run

/-! A processed block meets the rules for its commitments, and the records of mined commitments are
a function of the active chain. Undoing a block takes its records away. -/
namespace Firo.Llmq

open Firo.Lib Firo.Spark Firo.Bls List
open Function (update update_of_ne update_self)

variable {G₁ G₂ : Type}

section

variable {db : MinedDb G₁ G₂} {p p' : CQuorumBlockProcessor G₁ G₂} {llmqType : UInt8}
  {quorumHash : Uint256}

/-- The cache tells about the records `db`, also while other records are being written. -/
def CacheFits (db : MinedDb G₁ G₂) (p : CQuorumBlockProcessor G₁ G₂) : Prop :=
  ∀ k v, p.hasMinedCommitmentCache k = some v →
    v = (db.commitments k).isSome ∧ p.evoDb.mined.commitments k = db.commitments k

structure SameRecords (p p' : CQuorumBlockProcessor G₁ G₂) : Prop where
  evoDb : p'.evoDb = p.evoDb
  byQuorum : p'.minableCommitmentsByQuorum = p.minableCommitmentsByQuorum
  minable : p'.minableCommitments = p.minableCommitments

lemma SameRecords.refl (p : CQuorumBlockProcessor G₁ G₂) : SameRecords p p :=
  ⟨rfl, rfl, rfl⟩

lemma SameRecords.trans {p''} (h : SameRecords p p')
    (h' : SameRecords p' p'') : SameRecords p p'' :=
  ⟨h'.evoDb.trans h.evoDb, h'.byQuorum.trans h.byQuorum, h'.minable.trans h.minable⟩

lemma hasMinedCommitment_spec (hfits : CacheFits db p)
    (hdb : p.evoDb.mined.commitments (llmqType, quorumHash) =
      db.commitments (llmqType, quorumHash)) :
    ∃ p', hasMinedCommitment llmqType quorumHash p =
        .ok (db.commitments (llmqType, quorumHash)).isSome p' ∧
      SameRecords p p' ∧ CacheFits db p' := by
  unfold hasMinedCommitment
  rw [get_bind_apply]
  cases hcache : p.hasMinedCommitmentCache (llmqType, quorumHash) with
  | some ret =>
    obtain ⟨hret, -⟩ := hfits _ _ hcache
    exact ⟨p, by rw [← hret]; rfl, .refl p, hfits⟩
  | none =>
    let ret := (p.evoDb.mined.commitments (llmqType, quorumHash)).isSome
    let cache := update p.hasMinedCommitmentCache (llmqType, quorumHash) (some ret)
    refine ⟨{ p with hasMinedCommitmentCache := cache }, by rw [← hdb]; rfl, ⟨rfl, rfl, rfl⟩,
      fun k v hv => ?_⟩
    change cache k = some v at hv
    by_cases hk : k = (llmqType, quorumHash)
    · subst hk
      have hret : ret = v := by simpa [cache] using hv
      exact ⟨by rw [← hret, ← hdb], hdb⟩
    · have hold : p.hasMinedCommitmentCache k = some v := by simpa [cache, hk] using hv
      exact hfits k v hold

end

variable {u : Unit}

section

variable {env : CommitmentEnv G₁ G₂} {cons : LlmqConsensus} {db : MinedDb G₁ G₂}
  {p p' : CQuorumBlockProcessor G₁ G₂} {chain : List CBlock} {nHeight : Nat}
  {blockHash : Uint256} {qc : CFinalCommitment G₁ G₂} {params : LLMQParams}

/-- A commitment is required: the block is in the mining window of a session for which no
commitment is recorded. -/
def LLMQParams.requires (params : LLMQParams) (db : MinedDb G₁ G₂) (chain : List CBlock)
    (nHeight : Nat) : Bool :=
  let quorumHash := getQuorumBlockHash chain params nHeight
  quorumHash != 0 && params.isMiningPhase nHeight &&
    (db.commitments (params.type, quorumHash)).isNone

/-- The cache may have learnt something about `db` since `p`. -/
def Kept (db : MinedDb G₁ G₂) (p q : CQuorumBlockProcessor G₁ G₂) : Prop :=
  SameRecords p q ∧ CacheFits db q

lemma kept_hasMinedCommitment {llmqType} {quorumHash}
    (hdb : p.evoDb.mined.commitments (llmqType, quorumHash) =
      db.commitments (llmqType, quorumHash)) :
    ∀ q, Kept db p q → ∃ q', hasMinedCommitment llmqType quorumHash q =
      .ok (db.commitments (llmqType, quorumHash)).isSome q' ∧ Kept db p q' := by
  intro q hq
  obtain ⟨q', hrun, hsame, hfits⟩ := hasMinedCommitment_spec hq.2 (by rw [hq.1.evoDb, hdb])
  exact ⟨q', hrun, hq.1.trans hsame, hfits⟩

lemma kept_isCommitmentRequired (hdb : p.evoDb.mined = db) :
    ∀ q, Kept db p q → ∃ q', isCommitmentRequired chain params nHeight q =
      .ok (params.requires db chain nHeight) q' ∧ Kept db p q' := by
  intro q hq
  unfold isCommitmentRequired LLMQParams.requires
  by_cases hnull : getQuorumBlockHash chain params nHeight = 0
  · exact ⟨q, by simp [hnull, pure, EStateM.pure], hq⟩
  · obtain ⟨q', hrun, hq'⟩ := kept_hasMinedCommitment
      (show p.evoDb.mined.commitments (params.type, getQuorumBlockHash chain params nHeight) = _
        by rw [hdb]) q hq
    refine ⟨q', ?_, hq'⟩
    dsimp only
    rw [if_neg hnull, estate_bind_of_ok hrun, bne_iff_ne.mpr hnull]
    simp [pure, EStateM.pure]

variable {qcs : Std.ExtTreeMap UInt8 (CFinalCommitment G₁ G₂)}

lemma keepsUntil_checkRequired (hdb : p.evoDb.mined = db) (llmqs) :
    KeepsUntil (Kept db p) (fun q => (∀ params ∈ llmqs,
        qcs.contains params.type = params.requires db chain nHeight) ∧ Kept db p q)
      (checkRequired chain nHeight qcs llmqs) := by
  induction llmqs with
  | nil => exact .mono (fun q hq => ⟨by simp, hq⟩) (Keeps.pure ())
  | cons params rest ih =>
    refine .bind_of_ok (kept_isCommitmentRequired hdb) (.liftCheck_bind fun _ hallowed =>
      .liftCheck_bind fun _ hmissing => .mono (fun q hq => ?_) ih)
    refine ⟨forall_mem_cons.mpr ⟨?_, hq.1⟩, hq.2⟩
    rw [rejectIf_eq_ok] at hallowed hmissing
    cases hc : qcs.contains params.type with
    | true => simpa [hc] using hallowed
    | false => simpa [hc] using hmissing

structure CommitmentOk (env : CommitmentEnv G₁ G₂) (cons : LlmqConsensus) (db : MinedDb G₁ G₂)
    (chain : List CBlock) (nHeight : Nat) (qc : CFinalCommitment G₁ G₂) (params : LLMQParams) :
    Prop where
  find_eq : cons.find qc.llmqType = some params
  quorumHash_eq : getQuorumBlockHash chain params nHeight = qc.quorumHash
  quorumHash_ne : qc.quorumHash ≠ 0
  null_ok : qc.isNull = true → qc.verifyNull cons = true
  mined_ok : qc.isNull = false →
    qc.verify env cons (env.getAllQuorumMembers params.type qc.quorumHash) true = true
  inWindow : qc.isNull = false → params.isMiningPhase nHeight = true
  fresh : qc.isNull = false → db.commitments (qc.llmqType, qc.quorumHash) = none

lemma CommitmentOk.type_eq (h : CommitmentOk env cons db chain nHeight qc params) :
    params.type = qc.llmqType :=
  (LlmqConsensus.find_eq_some.mp h.find_eq).2

lemma keepsUntil_processMined (hdb : p.evoDb.mined.commitments (params.type, qc.quorumHash) =
      db.commitments (params.type, qc.quorumHash)) :
    KeepsUntil (Kept db p) (fun p' => db.commitments (params.type, qc.quorumHash) = none ∧
        params.isMiningPhase nHeight = true ∧
        qc.verify env cons (env.getAllQuorumMembers params.type qc.quorumHash) true = true ∧
        ∃ q, Kept db p q ∧ p' = q.store params nHeight blockHash qc)
      (processMined env cons params nHeight blockHash qc) := by
  refine .bind_of_ok (kept_hasMinedCommitment hdb) (.liftCheck_bind fun _ hdup =>
    .liftCheck_bind fun _ hphase => .liftCheck_bind fun _ hverify => .modify fun q hq => ?_)
  rw [rejectIf_eq_ok] at hdup hphase hverify
  exact ⟨by simpa using hdup, by simpa using hphase, by simpa using hverify, q, hq, rfl⟩

lemma CacheFits.drop {mined : MinedDb G₁ G₂} {key} (hfits : CacheFits db p)
    (hmined : ∀ k ≠ key, mined.commitments k = p.evoDb.mined.commitments k) : CacheFits db { p with
      evoDb := { p.evoDb with mined }
      hasMinedCommitmentCache := update p.hasMinedCommitmentCache key none } := by
  intro k v hv
  change update p.hasMinedCommitmentCache key none k = some v at hv
  by_cases hk : k = key
  · rw [hk, update_self] at hv
    cases hv
  · rw [update_of_ne hk] at hv
    obtain ⟨hv, heq⟩ := hfits k v hv
    exact ⟨hv, (hmined k hk).trans heq⟩

lemma CacheFits.store (hfits : CacheFits db p) :
    CacheFits db (p.store params nHeight blockHash qc) :=
  hfits.drop fun _ hk => update_of_ne hk ..

inductive CommitmentStep (p : CQuorumBlockProcessor G₁ G₂) (params : LLMQParams)
    (nHeight : Nat) (blockHash : Uint256) (qc : CFinalCommitment G₁ G₂) :
    CQuorumBlockProcessor G₁ G₂ → Prop
  | null (h : qc.isNull = true) : CommitmentStep p params nHeight blockHash qc p
  | mined (h : qc.isNull = false) {p₁ : CQuorumBlockProcessor G₁ G₂} (hsame : SameRecords p p₁) :
    CommitmentStep p params nHeight blockHash qc (p₁.store params nHeight blockHash qc)

variable (env cons chain nHeight blockHash) in
lemma keepsUntil_processCommitment
    (hdb : ∀ quorumHash, p.evoDb.mined.commitments (qc.llmqType, quorumHash) =
      db.commitments (qc.llmqType, quorumHash)) :
    KeepsUntil (Kept db p)
      (fun p' => ∃ params q, CommitmentOk env cons db chain nHeight qc params ∧ SameRecords p q ∧
        CommitmentStep q params nHeight blockHash qc p' ∧ CacheFits db p')
      (processCommitment env cons chain nHeight blockHash qc) := by
  refine .liftCheck_bind fun params hfind => .liftCheck_bind fun _ hne =>
    .liftCheck_bind fun _ heq => ?_
  rw [orReject_eq_ok] at hfind
  rw [rejectIf_eq_ok] at hne heq
  have htype : params.type = qc.llmqType := (LlmqConsensus.find_eq_some.mp hfind).2
  have heq' : getQuorumBlockHash chain params nHeight = qc.quorumHash := by simpa using heq
  have hne' : qc.quorumHash ≠ 0 := by
    rw [← heq']
    simpa using hne
  split
  case isTrue hnull =>
    refine .liftCheck fun _ hverify q hq => ⟨params, q, ?_, hq.1, .null hnull, hq.2⟩
    have hok : qc.verifyNull cons = true := by simpa using hverify
    exact ⟨hfind, heq', hne', fun _ => hok, by simp [hnull], by simp [hnull], by simp [hnull]⟩
  case isFalse hnull =>
    rw [Bool.not_eq_true] at hnull
    refine .mono ?_ (keepsUntil_processMined (by rw [htype]; exact hdb _))
    rintro _ ⟨hfresh, hphase, hverify, q, hq, rfl⟩
    exact ⟨params, p, ⟨hfind, heq', hne', by simp [hnull], fun _ => hverify, fun _ => hphase,
      fun _ => htype ▸ hfresh⟩, .refl p, .mined hnull hq.1, hq.2.store⟩

end

section

variable {env : CommitmentEnv G₁ G₂} {cons : LlmqConsensus} {db : MinedDb G₁ G₂}
  {p p' : CQuorumBlockProcessor G₁ G₂} {chain : List CBlock} {block : CBlock} {nHeight : Nat}
  {blockHash : Uint256} {l : List (UInt8 × CFinalCommitment G₁ G₂)}

def minedOf (l : List (UInt8 × CFinalCommitment G₁ G₂)) : List (CFinalCommitment G₁ G₂) :=
  (l.map Prod.snd).filter fun qc => !qc.isNull

/-- The height of the base block of a commitment that is mined at the height `nHeight`. -/
def quorumHeight (cons : LlmqConsensus) (nHeight : Nat) (qc : CFinalCommitment G₁ G₂) : Nat :=
  ((cons.find qc.llmqType).map fun params => params.quorumStartHeight nHeight).getD 0

def commitmentEntries (blockHash : Uint256) (qcs : List (CFinalCommitment G₁ G₂)) :
    List ((UInt8 × Uint256) × CFinalCommitment G₁ G₂ × Uint256) :=
  qcs.map fun qc => ((qc.llmqType, qc.quorumHash), qc, blockHash)

def heightEntries (cons : LlmqConsensus) (nHeight : Nat) (qcs : List (CFinalCommitment G₁ G₂)) :
    List ((UInt8 × List UInt8) × Nat) :=
  qcs.map fun qc => (buildInversedHeightKey qc.llmqType nHeight, quorumHeight cons nHeight qc)

def MinedDb.connect (cons : LlmqConsensus) (nHeight : Nat) (blockHash : Uint256)
    (db : MinedDb G₁ G₂) (qcs : List (CFinalCommitment G₁ G₂)) : MinedDb G₁ G₂ where
  commitments := writeAll db.commitments (commitmentEntries blockHash qcs)
  byInversedHeight := writeAll db.byInversedHeight (heightEntries cons nHeight qcs)

def MinedDb.disconnect (nHeight : Nat) (db : MinedDb G₁ G₂)
    (qcs : List (CFinalCommitment G₁ G₂)) : MinedDb G₁ G₂ where
  commitments := eraseAll db.commitments (qcs.map fun qc => (qc.llmqType, qc.quorumHash))
  byInversedHeight := eraseAll db.byInversedHeight
    (qcs.map fun qc => buildInversedHeightKey qc.llmqType nHeight)

variable {e : UInt8 × CFinalCommitment G₁ G₂} {qcs : Std.ExtTreeMap UInt8 (CFinalCommitment G₁ G₂)}

lemma CommitmentStep.spec {params} {q} (h : CommitmentStep q params nHeight blockHash e.2 p')
    (hsame : SameRecords p q) (hok : CommitmentOk env cons db chain nHeight e.2 params)
    (htype : e.2.llmqType = e.1) : p'.minableCommitmentsByQuorum = p.minableCommitmentsByQuorum ∧
      p'.minableCommitments = p.minableCommitments ∧
      p'.evoDb.mined.connect cons nHeight blockHash (minedOf l) =
        p.evoDb.mined.connect cons nHeight blockHash (minedOf (e :: l)) ∧
      ∀ k, k.1 ≠ e.1 → p'.evoDb.mined.commitments k = p.evoDb.mined.commitments k := by
  rw [← hsame.byQuorum, ← hsame.minable, ← hsame.evoDb]
  cases h with
  | null hnull =>
    refine ⟨rfl, rfl, ?_, fun _ _ => rfl⟩
    rw [minedOf, minedOf, map_cons, filter_cons_of_neg (by simp [hnull])]
  | mined hnull hsame =>
    refine ⟨hsame.byQuorum, hsame.minable, ?_, fun k hk => ?_⟩
    · have hheight : quorumHeight cons nHeight e.2 = params.quorumStartHeight nHeight := by
        rw [quorumHeight, hok.find_eq]
        rfl
      rw [minedOf, minedOf, map_cons, filter_cons_of_pos (by simp [hnull]),
        CQuorumBlockProcessor.store, hsame.evoDb, hok.type_eq]
      simp only [MinedDb.connect, commitmentEntries, heightEntries, map_cons, hheight]
      rfl
    · have hne : k ≠ (params.type, e.2.quorumHash) := by
        rintro rfl
        exact hk (hok.type_eq.trans htype)
      change update _ _ _ k = _
      rw [update_of_ne hne, hsame.evoDb]

/-- The loop of `ProcessBlock` over the commitments: each passes its checks against the
records before the block, and those that are not null are recorded. -/
lemma processCommitments_spec (hnodup : (l.map Prod.fst).Nodup)
    (htypes : ∀ e ∈ l, e.2.llmqType = e.1) (hfits : CacheFits db p)
    (hdb : ∀ k, k.1 ∈ l.map Prod.fst → p.evoDb.mined.commitments k = db.commitments k) :
    (∀ u p', processCommitments env cons chain nHeight blockHash l p = .ok u p' →
      (∀ e ∈ l, ∃ params, CommitmentOk env cons db chain nHeight e.2 params) ∧
        p'.evoDb.mined = p.evoDb.mined.connect cons nHeight blockHash (minedOf l) ∧
        p'.minableCommitmentsByQuorum = p.minableCommitmentsByQuorum ∧
        p'.minableCommitments = p.minableCommitments ∧ CacheFits db p') ∧
    ∀ err p', processCommitments env cons chain nHeight blockHash l p = .error err p' →
      p'.minableCommitmentsByQuorum = p.minableCommitmentsByQuorum ∧
        p'.minableCommitments = p.minableCommitments ∧ CacheFits db p' := by
  induction l generalizing p with
  | nil =>
    refine ⟨fun u p' h => ?_, fun err p' h => by cases h⟩
    obtain ⟨-, rfl⟩ := estate_pure_eq_ok.mp h
    exact ⟨by simp, rfl, rfl, rfl, hfits⟩
  | cons e l ih =>
    rw [map_cons, nodup_cons] at hnodup
    rw [forall_mem_cons] at htypes
    have hdb₁ : ∀ quorumHash, p.evoDb.mined.commitments (e.2.llmqType, quorumHash) =
        db.commitments (e.2.llmqType, quorumHash) :=
      fun quorumHash => hdb _ (by simp [htypes.1])
    obtain ⟨hpass, hfail⟩ := keepsUntil_processCommitment env cons chain nHeight blockHash hdb₁ p
      ⟨.refl p, hfits⟩
    have hnext {p₁ : CQuorumBlockProcessor G₁ G₂} (hfits₁ : CacheFits db p₁)
        (hother : ∀ k, k.1 ≠ e.1 → p₁.evoDb.mined.commitments k = p.evoDb.mined.commitments k) :=
      ih hnodup.2 htypes.2 hfits₁ fun k hk => (hother k (ne_of_mem_of_not_mem hk hnodup.1)).trans
        (hdb k (mem_cons_of_mem _ hk))
    refine ⟨fun u p' h => ?_, fun err p' h => ?_⟩
    · obtain ⟨_, p₁, hfirst, hrest⟩ := estate_bind_eq_ok.mp h
      obtain ⟨params, q, hok, hsame, hstep, hfits₁⟩ := hpass _ _ hfirst
      obtain ⟨hby₁, hminable₁, hconnect, hother⟩ := hstep.spec hsame hok htypes.1
      obtain ⟨hoks, hmined, hby, hminable, hfits'⟩ := (hnext hfits₁ hother).1 _ _ hrest
      exact ⟨forall_mem_cons.mpr ⟨⟨params, hok⟩, hoks⟩, hmined.trans hconnect,
        hby.trans hby₁, hminable.trans hminable₁, hfits'⟩
    · rcases estate_bind_eq_error.mp h with hfirst | ⟨_, p₁, hfirst, hrest⟩
      · obtain ⟨hsame, hfits'⟩ := hfail _ _ hfirst
        exact ⟨hsame.byQuorum, hsame.minable, hfits'⟩
      · obtain ⟨params, q, hok, hsame, hstep, hfits₁⟩ := hpass _ _ hfirst
        obtain ⟨hby₁, hminable₁, -, hother⟩ := hstep.spec (l := l) hsame hok htypes.1
        obtain ⟨hby, hminable, hfits'⟩ := (hnext hfits₁ hother).2 _ _ hrest
        exact ⟨hby.trans hby₁, hminable.trans hminable₁, hfits'⟩

def blockCommitments (env : CommitmentEnv G₁ G₂) (vtx : List CTransaction) :
    List (CFinalCommitment G₁ G₂) :=
  vtx.filterMap fun tx =>
    if tx.nType = TRANSACTION_QUORUM_COMMITMENT then
      (env.getTxPayload tx.vExtraPayload).map CFinalCommitmentTxPayload.commitment
    else none

lemma collectCommitments_eq_ok {vtx} {ret ret'} (h : collectCommitments env vtx ret = .ok ret')
    (llmqType) : (ret'[llmqType]?).toList = (ret[llmqType]?).toList ++
      (blockCommitments env vtx).filter fun qc => qc.llmqType = llmqType := by
  induction vtx generalizing ret with
  | nil =>
    obtain rfl := Except.ok.inj h
    simp [blockCommitments]
  | cons tx rest ih =>
    unfold collectCommitments at h
    unfold blockCommitments
    split at h
    case isTrue htype =>
      simp only [except_bind_eq_ok, orReject_eq_ok, rejectIf_eq_ok] at h
      obtain ⟨payload, hpayload, _, hnew, h⟩ := h
      rw [ih h, filterMap_cons_some (by rw [if_pos htype, hpayload]; rfl), getElem?_insert_eq]
      change _ = _ ++ List.filter _ (payload.commitment :: blockCommitments env rest)
      by_cases hk : payload.commitment.llmqType = llmqType
      · subst hk
        simp [contains_eq_false_iff.mp hnew]
      · simp [hk]
    case isFalse htype =>
      rw [ih h, filterMap_cons_none (by rw [if_neg htype])]
      rfl

lemma getCommitmentsFromBlock_eq_ok (h : getCommitmentsFromBlock env cons block nHeight = .ok qcs)
    (llmqType) : (qcs[llmqType]?).toList =
      (blockCommitments env block.vtx).filter fun qc => qc.llmqType = llmqType := by
  unfold getCommitmentsFromBlock at h
  simp only [except_bind_eq_ok] at h
  obtain ⟨ret, hret, _, -, h⟩ := h
  obtain rfl := Except.ok.inj h
  simpa using collectCommitments_eq_ok hret llmqType

lemma getCommitmentsFromBlock_mem (h : getCommitmentsFromBlock env cons block nHeight = .ok qcs) :
    e ∈ qcs.toList ↔ e.2 ∈ blockCommitments env block.vtx ∧ e.2.llmqType = e.1 := by
  have hlist := getCommitmentsFromBlock_eq_ok h e.1
  rw [show e = (e.1, e.2) from rfl, Std.ExtTreeMap.mem_toList_iff_getElem?_eq_some,
    ← Option.mem_toList, hlist]
  simp

structure BlockRules (env : CommitmentEnv G₁ G₂) (cons : LlmqConsensus) (db : MinedDb G₁ G₂)
    (chain : List CBlock) (block : CBlock) : Prop where
  parses : ∃ qcs, getCommitmentsFromBlock env cons block chain.length = .ok qcs
  single : ∀ llmqType, ((blockCommitments env block.vtx).filter fun qc =>
    qc.llmqType = llmqType).length ≤ 1
  carried : ∀ params ∈ cons.llmqs, (∃ qc ∈ blockCommitments env block.vtx,
    qc.llmqType = params.type) ↔ params.requires db chain chain.length = true
  each : ∀ qc ∈ blockCommitments env block.vtx,
    ∃ params, CommitmentOk env cons db chain chain.length qc params

def minedIn (env : CommitmentEnv G₁ G₂) (cons : LlmqConsensus) (block : CBlock) (nHeight : Nat) :
    List (CFinalCommitment G₁ G₂) :=
  match getCommitmentsFromBlock env cons block nHeight with
  | .ok qcs => minedOf qcs.toList
  | .error _ => []

def minedBy (env : CommitmentEnv G₁ G₂) (cons : LlmqConsensus) : List CBlock → MinedDb G₁ G₂
  | [] => {}
  | block :: chain =>
    if chain.length < cons.DIP0003Height then minedBy env cons chain
    else (minedBy env cons chain).connect cons chain.length block.hash
      (minedIn env cons block chain.length)

lemma processBlock_eq_ok (hfits : CacheFits db p) (hdb : p.evoDb.mined = db)
    (h : processBlock env cons chain block p = .ok u p') :
    (cons.DIP0003Height ≤ chain.length → BlockRules env cons db chain block) ∧
      p'.evoDb.mined = (if chain.length < cons.DIP0003Height then db
        else db.connect cons chain.length block.hash (minedIn env cons block chain.length)) ∧
      p'.minableCommitmentsByQuorum = p.minableCommitmentsByQuorum ∧
      p'.minableCommitments = p.minableCommitments ∧ CacheFits db p' := by
  unfold processBlock at h
  by_cases hactive : chain.length < cons.DIP0003Height
  · rw [if_pos hactive] at h
    obtain rfl := estate_modify_eq_ok.mp h
    rw [if_pos hactive]
    exact ⟨fun hle => absurd hactive hle.not_gt, hdb, rfl, rfl, hfits⟩
  · rw [if_neg hactive] at h
    obtain ⟨qcs, hqcs, h⟩ := liftCheck_bind_eq_ok.mp h
    obtain ⟨_, p₁, hcheck, h⟩ := estate_bind_eq_ok.mp h
    obtain ⟨_, p₂, hprocess, h⟩ := estate_bind_eq_ok.mp h
    obtain rfl := estate_modify_eq_ok.mp h
    obtain ⟨hrequired, hsame, hfits₁⟩ :=
      (keepsUntil_checkRequired hdb _ p ⟨.refl p, hfits⟩).1 _ _ hcheck
    have hmem := fun e => getCommitmentsFromBlock_mem hqcs (e := e)
    have hlist := getCommitmentsFromBlock_eq_ok hqcs
    obtain ⟨heach, hmined, hby, hminable, hfits₂⟩ := (processCommitments_spec
      (nodup_keys_toList qcs) (fun e he => ((hmem e).mp he).2) hfits₁
      fun k _ => by rw [hsame.evoDb, hdb]).1 _ _ hprocess
    refine ⟨fun _ => ⟨⟨qcs, hqcs⟩, fun llmqType => ?_, fun params hparams => ?_,
      fun qc hqc => heach (qc.llmqType, qc) ((hmem _).mpr ⟨hqc, rfl⟩)⟩, ?_,
      hby.trans hsame.byQuorum, hminable.trans hsame.minable, hfits₂⟩
    · rw [← hlist]
      exact Option.length_toList_le
    · rw [← hrequired params hparams, Std.ExtTreeMap.contains_eq_isSome_getElem?,
        Option.isSome_iff_exists]
      simp only [← Option.mem_toList, hlist]
      simp
    · rw [if_neg hactive, minedIn, hqcs]
      change p₂.evoDb.mined = _
      rw [hmined, hsame.evoDb, hdb]

lemma processBlock_eq_error {e} (hfits : CacheFits db p) (hdb : p.evoDb.mined = db)
    (h : processBlock env cons chain block p = .error e p') :
    p'.minableCommitmentsByQuorum = p.minableCommitmentsByQuorum ∧
      p'.minableCommitments = p.minableCommitments ∧ CacheFits db p' := by
  unfold processBlock at h
  by_cases hactive : chain.length < cons.DIP0003Height
  · rw [if_pos hactive] at h
    cases h
  · rw [if_neg hactive] at h
    rcases liftCheck_bind_eq_error.mp h with ⟨-, rfl⟩ | ⟨qcs, hqcs, h⟩
    · exact ⟨rfl, rfl, hfits⟩
    · obtain ⟨hpass, hfail⟩ := keepsUntil_checkRequired hdb cons.llmqs p ⟨.refl p, hfits⟩
      rcases estate_bind_eq_error.mp h with hcheck | ⟨_, p₁, hcheck, h⟩
      · obtain ⟨hsame, hfits'⟩ := hfail _ _ hcheck
        exact ⟨hsame.byQuorum, hsame.minable, hfits'⟩
      · obtain ⟨-, hsame, hfits₁⟩ := hpass _ _ hcheck
        rcases estate_bind_eq_error.mp h with hprocess | ⟨_, p₂, -, h⟩
        · obtain ⟨hby, hminable, hfits'⟩ := (processCommitments_spec (nodup_keys_toList qcs)
            (fun e he => ((getCommitmentsFromBlock_mem hqcs).mp he).2) hfits₁
            fun k _ => by rw [hsame.evoDb, hdb]).2 _ _ hprocess
          exact ⟨hby.trans hsame.byQuorum, hminable.trans hsame.minable, hfits'⟩
        · cases h

def MinableOk (p : CQuorumBlockProcessor G₁ G₂) : Prop :=
  ∀ k hash, p.minableCommitmentsByQuorum k = some hash → (p.minableCommitments hash).isSome

lemma MinableOk.of_eq (h : MinableOk p)
    (hby : p'.minableCommitmentsByQuorum = p.minableCommitmentsByQuorum)
    (hminable : p'.minableCommitments = p.minableCommitments) : MinableOk p' := by
  intro k hash hk
  rw [hby] at hk
  rw [hminable]
  exact h k hash hk

omit env in
lemma isSome_update {κ δ : Type} [DecidableEq κ] {f} {k k' : κ} {d : δ}
    (h : k ≠ k' → (f k).isSome) : (update f k' (some d) k).isSome := by
  by_cases hk : k = k'
  · simp [hk]
  · rw [update_of_ne hk]
    exact h hk

lemma MinableOk.update {k : UInt8 × Uint256} {hash} {minable} (h : MinableOk p)
    (hhash : (minable hash).isSome)
    (hminable : ∀ hash', (p.minableCommitments hash').isSome → (minable hash').isSome) :
    MinableOk { p with
      minableCommitmentsByQuorum := Function.update p.minableCommitmentsByQuorum k (some hash)
      minableCommitments := minable } := by
  intro k' hash' hk'
  change Function.update p.minableCommitmentsByQuorum k (some hash) k' = some hash' at hk'
  by_cases hk : k' = k
  · rw [hk, update_self, Option.some.injEq] at hk'
    exact hk' ▸ hhash
  · rw [update_of_ne hk] at hk'
    exact hminable hash' (h k' hash' hk')

variable (env) in
lemma addMinableCommitment_spec (fqc) (h : MinableOk p) :
    ∃ p', addMinableCommitment env fqc p = .ok () p' ∧ p'.evoDb = p.evoDb ∧
      p'.hasMinedCommitmentCache = p.hasMinedCommitmentCache ∧ MinableOk p' := by
  unfold addMinableCommitment
  rw [get_bind_apply]
  cases hold : p.minableCommitmentsByQuorum (fqc.llmqType, fqc.quorumHash) with
  | none =>
    refine ⟨_, rfl, rfl, rfl, MinableOk.update h ?_ fun hash' hhash' => ?_⟩
    · split
      case isTrue hsome => exact hsome
      case isFalse => simp
    · split
      case isTrue => exact hhash'
      case isFalse => exact isSome_update fun _ => hhash'
  | some oldHash =>
    obtain ⟨oldFqc, hfqc⟩ := Option.isSome_iff_exists.mp (h _ _ hold)
    simp only [hfqc]
    split
    case isTrue =>
      refine ⟨_, rfl, rfl, rfl, MinableOk.update h ?_ fun hash' hhash' => ?_⟩
      · simp
      · exact isSome_update fun _ => hhash'
    case isFalse => exact ⟨p, rfl, rfl, rfl, h⟩

lemma CacheFits.unstore {qc} (hfits : CacheFits db p) : CacheFits db (p.unstore nHeight qc) :=
  hfits.drop fun _ hk => update_of_ne hk ..

lemma CacheFits.of_eq (hfits : CacheFits db p) (hdb : p'.evoDb = p.evoDb)
    (hcache : p'.hasMinedCommitmentCache = p.hasMinedCommitmentCache) : CacheFits db p' := by
  intro k v hv
  rw [hcache] at hv
  rw [hdb]
  exact hfits k v hv

variable (env nHeight l) in
lemma undoCommitments_spec (fAddMinable : Bool) (hfits : CacheFits db p) (h : MinableOk p) :
    ∃ p', undoCommitments env nHeight fAddMinable l p = .ok () p' ∧
      p'.evoDb.mined = p.evoDb.mined.disconnect nHeight (minedOf l) ∧ CacheFits db p' ∧
      MinableOk p' := by
  induction l generalizing p with
  | nil => exact ⟨p, rfl, rfl, hfits, h⟩
  | cons e l ih =>
    unfold undoCommitments
    cases hnull : e.2.isNull with
    | true =>
      obtain ⟨p', hrun, hmined, hrest⟩ := ih hfits h
      refine ⟨p', hrun, ?_, hrest⟩
      rw [hmined, minedOf, minedOf, map_cons, filter_cons_of_neg (by simp [hnull])]
    | false =>
      have hmined₁ : ∀ p₁ : CQuorumBlockProcessor G₁ G₂, p₁.evoDb = (p.unstore nHeight e.2).evoDb →
          p₁.evoDb.mined.disconnect nHeight (minedOf l) =
            p.evoDb.mined.disconnect nHeight (minedOf (e :: l)) := by
        intro p₁ hp₁
        rw [hp₁, minedOf, minedOf, map_cons, filter_cons_of_pos (by simp [hnull])]
        rfl
      rw [if_neg Bool.false_ne_true, modify_bind_apply]
      cases fAddMinable with
      | false =>
        obtain ⟨p', hrun, hmined, hrest⟩ := ih hfits.unstore h
        exact ⟨p', hrun, hmined.trans (hmined₁ _ rfl), hrest⟩
      | true =>
        obtain ⟨p₁, hadd, hdb₁, hcache₁, h₁⟩ := addMinableCommitment_spec env e.2
          (show MinableOk (p.unstore nHeight e.2) from h)
        obtain ⟨p', hrun, hmined, hrest⟩ := ih (hfits.unstore.of_eq hdb₁ hcache₁) h₁
        refine ⟨p', ?_, hmined.trans (hmined₁ _ hdb₁), hrest⟩
        change (addMinableCommitment env e.2 >>= fun _ =>
          undoCommitments env nHeight true l) (p.unstore nHeight e.2) = _
        rw [estate_bind_of_ok hadd]
        exact hrun

end

end Firo.Llmq
