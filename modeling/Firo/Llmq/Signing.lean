import Firo.Lib.Cursor
import Firo.Lib.Run
import Firo.Spark.Basic

/-! `CRecoveredSigsDb` and `CSigningManager::AsyncSignIfMember` of `llmq/quorums_signing.cpp`: the
record of what this masternode has voted for, the time keys by which old votes are erased, and the
calls that start a signing session. -/
namespace Firo.Llmq

open Firo.Lib Firo.Spark List

/-- The bytes of `htobe32(t)` as the database serialises them. -/
def htobe32 (t : UInt32) : List UInt8 :=
  [(t >>> 24).toUInt8, (t >>> 16).toUInt8, (t >>> 8).toUInt8, t.toUInt8]

/-- `uint256` serialises with its least significant byte first. -/
def uint256Bytes (x : Uint256) : List UInt8 :=
  (List.range 32).map fun i => UInt8.ofNat (x.toNat / 256 ^ i)

/-- The key of a `rs_vt` record: the time of a vote, its quorum type and its id. -/
structure VoteTimeKey where
  time : UInt32
  llmqType : UInt8
  id : Uint256
deriving DecidableEq, Repr

namespace VoteTimeKey

def bytes (k : VoteTimeKey) : List UInt8 :=
  htobe32 k.time ++ k.llmqType :: uint256Bytes k.id

def voteKey (k : VoteTimeKey) : UInt8 × Uint256 :=
  (k.llmqType, k.id)

def before (k k' : VoteTimeKey) : Prop :=
  k.bytes ≤ k'.bytes

instance : DecidableRel before :=
  fun k k' => inferInstanceAs (Decidable (k.bytes ≤ k'.bytes))

instance : Std.Total before :=
  ⟨fun k k' => List.le_total k.bytes k'.bytes⟩

instance : IsTrans VoteTimeKey before :=
  ⟨fun k k' _ h h' => List.le_trans (show k.bytes ≤ k'.bytes from h) h'⟩

lemma time_le_of_before {k k' : VoteTimeKey} (h : k.before k') : k.time.toNat ≤ k'.time.toNat := by
  simp only [before, bytes, htobe32, cons_append, nil_append, cons_le_cons_iff,
    UInt8.lt_iff_toNat_lt, ← UInt8.toNat_inj, UInt32.toNat_toUInt8, UInt32.toNat_shiftRight,
    Nat.shiftRight_eq_div_pow] at h
  have := k.time.toNat_lt
  have := k'.time.toNat_lt
  have h24 : UInt32.toNat 24 % 32 = 24 := rfl
  have h16 : UInt32.toNat 16 % 32 = 16 := rfl
  have h8 : UInt32.toNat 8 % 32 = 8 := rfl
  rw [h24, h16, h8] at h
  omega

end VoteTimeKey

/-- The records of `CRecoveredSigsDb` that voting reads and writes: `rs_v` by type and id,
`rs_vt` in the order of its keys, and whether `rs_r` has a recovered signature. -/
structure CRecoveredSigsDb where
  votes : UInt8 × Uint256 → Option Uint256
  voteTimes : List VoteTimeKey
  recoveredSigs : UInt8 × Uint256 → Bool

namespace CRecoveredSigsDb

def empty : CRecoveredSigsDb :=
  ⟨fun _ => none, [], fun _ => false⟩

variable (db : CRecoveredSigsDb) (llmqType : UInt8) (id : Uint256)

def hasVotedOnId : Bool :=
  (db.votes (llmqType, id)).isSome

def getVoteForId : Uint256 :=
  (db.votes (llmqType, id)).getD 0

def hasRecoveredSigForId : Bool :=
  db.recoveredSigs (llmqType, id)

def writeVoteTime (k : VoteTimeKey) (keys : List VoteTimeKey) : List VoteTimeKey :=
  if k ∈ keys then keys else keys.orderedInsert VoteTimeKey.before k

def writeVoteForId (db : CRecoveredSigsDb) (adjustedTime : Int) (llmqType : UInt8)
    (id msgHash : Uint256) : CRecoveredSigsDb :=
  { db with
    votes := Function.update db.votes (llmqType, id) (some msgHash)
    voteTimes := writeVoteTime ⟨UInt32.ofNat (uint32 adjustedTime), llmqType, id⟩ db.voteTimes }

def writeRecoveredSig :
    CRecoveredSigsDb :=
  { db with recoveredSigs := Function.update db.recoveredSigs (llmqType, id) true }

def removeRecoveredSig :
    CRecoveredSigsDb :=
  { db with recoveredSigs := Function.update db.recoveredSigs (llmqType, id) false }

def eraseVote (votes : UInt8 × Uint256 → Option Uint256) (k : VoteTimeKey) :
    UInt8 × Uint256 → Option Uint256 :=
  Function.update votes k.voteKey none

/-- The cursor starts at the first time key and stops at the first one that is not before
`endTime`, which is computed in unsigned 32-bit arithmetic. -/
def cleanupOldVotes (db : CRecoveredSigsDb) (adjustedTime maxAge : Int) : CRecoveredSigsDb :=
  let endTime := uint32 (adjustedTime - maxAge)
  let expired (k : VoteTimeKey) : Bool := decide (k.time.toNat < endTime)
  { db with
    votes := (db.voteTimes.takeWhile expired).foldl eraseVote db.votes
    voteTimes := db.voteTimes.dropWhile expired }

lemma foldl_eraseVote (keys : List VoteTimeKey) (votes) (v) :
    keys.foldl eraseVote votes v = if v ∈ keys.map VoteTimeKey.voteKey then none else votes v := by
  induction keys generalizing votes with
  | nil => simp
  | cons k keys ih =>
    rw [foldl_cons, ih]
    by_cases hk : v = k.voteKey
    · simp [eraseVote, hk]
    · simp [eraseVote, hk]

/-- Every vote on record has one time key, and the keys are in order. -/
structure WellFormed (db : CRecoveredSigsDb) : Prop where
  sorted : db.voteTimes.Pairwise VoteTimeKey.before
  distinct : (db.voteTimes.map VoteTimeKey.voteKey).Nodup
  voted : ∀ v, v ∈ db.voteTimes.map VoteTimeKey.voteKey ↔ (db.votes v).isSome

lemma WellFormed.empty : WellFormed .empty :=
  ⟨.nil, .nil, fun _ => by simp [CRecoveredSigsDb.empty]⟩

namespace WellFormed

variable {db : CRecoveredSigsDb}

lemma eq_of_voteKey_eq (h : db.WellFormed) {k k'} (hk : k ∈ db.voteTimes)
    (hk' : k' ∈ db.voteTimes) (heq : k.voteKey = k'.voteKey) : k = k' :=
  inj_on_of_nodup_map h.distinct hk hk' heq

section

variable (h : db.WellFormed) (adjustedTime : Int) {llmqType : UInt8} {id : Uint256}
  (msgHash : Uint256) (hnone : db.votes (llmqType, id) = none)
include h hnone

lemma writeVoteForId_voteTimes : (db.writeVoteForId adjustedTime llmqType id msgHash).voteTimes =
      db.voteTimes.orderedInsert VoteTimeKey.before
        ⟨UInt32.ofNat (uint32 adjustedTime), llmqType, id⟩ := by
  refine if_neg fun hmem => ?_
  have hvoted := (h.voted (llmqType, id)).mp (mem_map_of_mem hmem)
  rw [hnone] at hvoted
  cases hvoted

lemma writeVoteForId : (db.writeVoteForId adjustedTime llmqType id msgHash).WellFormed := by
  have htimes := h.writeVoteForId_voteTimes adjustedTime msgHash hnone
  have hperm := (perm_orderedInsert VoteTimeKey.before
    ⟨UInt32.ofNat (uint32 adjustedTime), llmqType, id⟩ db.voteTimes).map VoteTimeKey.voteKey
  refine ⟨?_, ?_, fun v => ?_⟩
  · rw [htimes]
    exact h.sorted.orderedInsert _ _
  · rw [htimes, hperm.nodup_iff, map_cons, nodup_cons, h.voted]
    exact ⟨by simp [VoteTimeKey.voteKey, hnone], h.distinct⟩
  · rw [htimes, hperm.mem_iff, map_cons, mem_cons, h.voted]
    by_cases hv : v = (llmqType, id)
    · simp [CRecoveredSigsDb.writeVoteForId, VoteTimeKey.voteKey, hv]
    · simp [CRecoveredSigsDb.writeVoteForId, VoteTimeKey.voteKey, hv]

end

variable (h : db.WellFormed) (adjustedTime maxAge : Int)
include h

lemma cleanupOldVotes_voteTimes : (db.cleanupOldVotes adjustedTime maxAge).voteTimes =
      db.voteTimes.filter fun k => !decide (k.time.toNat < uint32 (adjustedTime - maxAge)) :=
  dropWhile_eq_filter_of_pairwise h.sorted fun a b hab hb => by
    have := VoteTimeKey.time_le_of_before hab
    rw [decide_eq_true_eq] at hb ⊢
    omega

lemma cleanupOldVotes_votes (v) : (db.cleanupOldVotes adjustedTime maxAge).votes v =
      if ∃ k ∈ db.voteTimes, k.time.toNat < uint32 (adjustedTime - maxAge) ∧ k.voteKey = v then none
      else db.votes v := by
  have hscan : db.voteTimes.takeWhile
      (fun k => decide (k.time.toNat < uint32 (adjustedTime - maxAge))) = _ :=
    takeWhile_eq_filter_of_pairwise h.sorted fun a b hab hb => by
      have := VoteTimeKey.time_le_of_before hab
      rw [decide_eq_true_eq] at hb ⊢
      omega
  unfold cleanupOldVotes
  simp only [foldl_eraseVote, hscan, mem_map, mem_filter, decide_eq_true_eq, and_assoc]

lemma cleanupOldVotes : (db.cleanupOldVotes adjustedTime maxAge).WellFormed := by
  refine ⟨?_, ?_, fun v => ?_⟩
  · rw [h.cleanupOldVotes_voteTimes]
    exact h.sorted.filter _
  · rw [h.cleanupOldVotes_voteTimes]
    exact h.distinct.sublist (filter_sublist.map _)
  · rw [h.cleanupOldVotes_voteTimes, h.cleanupOldVotes_votes]
    simp only [mem_map, mem_filter, Bool.not_eq_true', decide_eq_false_iff_not]
    split
    case isTrue herased =>
      obtain ⟨k, hk, htime, rfl⟩ := herased
      refine iff_of_false ?_ (by simp)
      rintro ⟨k', ⟨hk', htime'⟩, heq⟩
      exact htime' (h.eq_of_voteKey_eq hk' hk heq ▸ htime)
    case isFalse hkept =>
      rw [← h.voted, mem_map]
      constructor
      · rintro ⟨k, ⟨hk, -⟩, hv⟩
        exact ⟨k, hk, hv⟩
      · rintro ⟨k, hk, hv⟩
        exact ⟨k, ⟨hk, fun htime => hkept ⟨k, hk, htime, hv⟩⟩, hv⟩

end WellFormed

end CRecoveredSigsDb

structure CQuorum where
  quorumHash : Uint256
  isValidMember : Uint256 → Bool

/-- A call of `AsyncSignIfMember`, with what it reads of the node: the masternode's own
data and the quorum selected at the current tip. -/
structure SignCall where
  llmqType : UInt8
  id : Uint256
  msgHash : Uint256
  allowReSign : Bool
  fMasternodeMode : Bool
  proTxHash : Uint256
  quorum : Option CQuorum

structure SignStart where
  time : Int
  llmqType : UInt8
  quorumHash : Uint256
  id : Uint256
  msgHash : Uint256
deriving DecidableEq, Repr

def SignStart.voteKey (a : SignStart) : UInt8 × Uint256 :=
  (a.llmqType, a.id)

def startSigning (adjustedTime : Int) (call : SignCall) : Option SignStart × Bool :=
  match call.quorum with
  | none => (none, false)
  | some quorum =>
    if !quorum.isValidMember call.proTxHash then (none, false)
    else (some ⟨adjustedTime, call.llmqType, quorum.quorumHash, call.id, call.msgHash⟩, true)

/-- `AsyncSignIfMember`: the database it leaves, the session it starts and its result. -/
def asyncSignIfMember (db : CRecoveredSigsDb) (adjustedTime : Int) (call : SignCall) :
    CRecoveredSigsDb × Option SignStart × Bool :=
  if !call.fMasternodeMode || call.proTxHash == 0 then (db, none, false)
  else
    let hasVoted := db.hasVotedOnId call.llmqType call.id
    if hasVoted && call.msgHash != db.getVoteForId call.llmqType call.id then (db, none, false)
    else if hasVoted && !call.allowReSign then (db, none, false)
    else if db.hasRecoveredSigForId call.llmqType call.id then (db, none, true)
    else if hasVoted then (db, startSigning adjustedTime call)
    else
      (db.writeVoteForId adjustedTime call.llmqType call.id call.msgHash,
        startSigning adjustedTime call)

inductive SignOutcome (db : CRecoveredSigsDb) (adjustedTime : Int) (call : SignCall) :
    CRecoveredSigsDb → Option SignStart → Prop
  | refused : SignOutcome db adjustedTime call db none
  | resigned (hvoted : db.votes (call.llmqType, call.id) = some call.msgHash)
      (hallow : call.allowReSign = true) :
      SignOutcome db adjustedTime call db (startSigning adjustedTime call).1
  | voted (hnone : db.votes (call.llmqType, call.id) = none) : SignOutcome db adjustedTime call
        (db.writeVoteForId adjustedTime call.llmqType call.id call.msgHash)
        (startSigning adjustedTime call).1

lemma asyncSignIfMember_outcome (db) (adjustedTime : Int) (call) :
    SignOutcome db adjustedTime call (asyncSignIfMember db adjustedTime call).1
      (asyncSignIfMember db adjustedTime call).2.1 := by
  unfold asyncSignIfMember
  split
  · exact .refused
  cases hvote : db.votes (call.llmqType, call.id) with
  | none =>
    simp only [CRecoveredSigsDb.hasVotedOnId, hvote, Option.isSome_none, Bool.false_and,
      Bool.false_eq_true, ↓reduceIte]
    split
    · exact .refused
    · exact .voted hvote
  | some prevMsgHash =>
    simp only [CRecoveredSigsDb.hasVotedOnId, CRecoveredSigsDb.getVoteForId, hvote,
      Option.isSome_some, Option.getD_some, Bool.true_and, ↓reduceIte]
    split
    · exact .refused
    case isFalse hsame =>
      split
      · exact .refused
      case isFalse hallow =>
        split
        · exact .refused
        · exact .resigned (by simp_all) (by simpa using hallow)

lemma startSigning_eq_some {adjustedTime : Int} {call} {a}
    (h : (startSigning adjustedTime call).1 = some a) :
    a.time = adjustedTime ∧ a.voteKey = (call.llmqType, call.id) ∧ a.msgHash = call.msgHash := by
  unfold startSigning at h
  split at h
  · cases h
  · split at h
    · cases h
    · cases h
      exact ⟨rfl, rfl, rfl⟩

/-- The signing manager of a masternode, its clock and the sessions it has started. -/
structure CSigningManager where
  db : CRecoveredSigsDb
  adjustedTime : Int
  started : List SignStart

inductive SigningAction
  | tick (adjustedTime : Int)
  | asyncSignIfMember (call : SignCall)
  | writeRecoveredSig (llmqType : UInt8) (id : Uint256)
  | removeRecoveredSig (llmqType : UInt8) (id : Uint256)
  | cleanupOldVotes

namespace CSigningManager

def init (adjustedTime : Int) : CSigningManager :=
  ⟨.empty, adjustedTime, []⟩

variable (maxAge : Int) (m : CSigningManager)

def step : SigningAction → Option CSigningManager
  | .tick adjustedTime =>
    if m.adjustedTime ≤ adjustedTime then some { m with adjustedTime } else none
  | .asyncSignIfMember call =>
    let (db, start, _) := Llmq.asyncSignIfMember m.db m.adjustedTime call
    some { m with db, started := start.toList ++ m.started }
  | .writeRecoveredSig llmqType id =>
    some { m with db := m.db.writeRecoveredSig llmqType id }
  | .removeRecoveredSig llmqType id =>
    some { m with db := m.db.removeRecoveredSig llmqType id }
  | .cleanupOldVotes =>
    some { m with db := m.db.cleanupOldVotes m.adjustedTime maxAge }

/-- Two sessions for one quorum type and id, no more than `maxAge` seconds apart, sign the
same message. -/
def NoDoubleVoting : Prop :=
  ∀ a ∈ m.started, ∀ b ∈ m.started, a.voteKey = b.voteKey → |a.time - b.time| ≤ maxAge →
    a.msgHash = b.msgHash

/-- The step does not sign again under a vote that is on record, and the clock is where the
32-bit time keys can follow it. -/
def SignsOnce : SigningAction → Prop
  | .asyncSignIfMember call =>
    (call.allowReSign = true → m.db.votes (call.llmqType, call.id) = none) ∧
      0 ≤ m.adjustedTime ∧ m.adjustedTime < 2 ^ 32
  | .cleanupOldVotes => 0 ≤ m.adjustedTime - maxAge ∧ m.adjustedTime - maxAge < 2 ^ 32
  | _ => True

instance (maxAge : Int) (m : CSigningManager) (a : SigningAction) :
    Decidable (SignsOnce maxAge m a) :=
  match a with
  | .asyncSignIfMember call =>
    inferInstanceAs (Decidable ((call.allowReSign = true →
      m.db.votes (call.llmqType, call.id) = none) ∧ 0 ≤ m.adjustedTime ∧ m.adjustedTime < 2 ^ 32))
  | .cleanupOldVotes =>
    inferInstanceAs (Decidable (0 ≤ m.adjustedTime - maxAge ∧ m.adjustedTime - maxAge < 2 ^ 32))
  | .tick _ | .writeRecoveredSig _ _ | .removeRecoveredSig _ _ => inferInstanceAs (Decidable True)

/-- A session is older than `maxAge`, or its vote is on record under its own time. -/
structure VoteInv (maxAge : Int) (m : CSigningManager) : Prop where
  wellFormed : m.db.WellFormed
  recent : ∀ a ∈ m.started, a.time + maxAge < m.adjustedTime ∨
    m.db.votes a.voteKey = some a.msgHash ∧
      ∀ k ∈ m.db.voteTimes, k.voteKey = a.voteKey → (k.time.toNat : Int) = a.time
  past : ∀ a ∈ m.started, a.time ≤ m.adjustedTime
  noDoubleVoting : m.NoDoubleVoting maxAge

namespace VoteInv

variable {maxAge : Int} {m : CSigningManager}

lemma init (adjustedTime : Int) : VoteInv maxAge (CSigningManager.init adjustedTime) where
  wellFormed := .empty
  recent := by simp [CSigningManager.init]
  past := by simp [CSigningManager.init]
  noDoubleVoting := by simp [NoDoubleVoting, CSigningManager.init]

section

variable (h : VoteInv maxAge m)
include h

lemma tick {adjustedTime : Int} (hle : m.adjustedTime ≤ adjustedTime) :
    VoteInv maxAge { m with adjustedTime } where
  wellFormed := h.wellFormed
  recent a ha := (h.recent a ha).imp_left fun hold => hold.trans_le hle
  past a ha := (h.past a ha).trans hle
  noDoubleVoting := h.noDoubleVoting

lemma recoveredSigs (recoveredSigs : UInt8 × Uint256 → Bool) :
    VoteInv maxAge { m with db := { m.db with recoveredSigs } } where
  wellFormed := ⟨h.wellFormed.sorted, h.wellFormed.distinct, h.wellFormed.voted⟩
  recent := h.recent
  past := h.past
  noDoubleVoting := h.noDoubleVoting

lemma old_of_votes_none {a} (ha : a ∈ m.started)
    (hnone : m.db.votes a.voteKey = none) : a.time + maxAge < m.adjustedTime := by
  rcases h.recent a ha with hold | ⟨hvote, -⟩
  · exact hold
  · cases hnone.symm.trans hvote

lemma writeVoteForId {llmqType} {id} (msgHash : Uint256)
    (hnone : m.db.votes (llmqType, id) = none) : VoteInv maxAge
      { m with db := m.db.writeVoteForId m.adjustedTime llmqType id msgHash } where
  wellFormed := h.wellFormed.writeVoteForId _ _ hnone
  recent a ha := by
    by_cases hkey : a.voteKey = (llmqType, id)
    · exact .inl (h.old_of_votes_none ha (hkey ▸ hnone))
    · refine (h.recent a ha).imp_right fun ⟨hvote, htimes⟩ => ⟨?_, fun k hk hka => ?_⟩
      · show Function.update m.db.votes (llmqType, id) (some msgHash) a.voteKey = _
        rw [Function.update_of_ne hkey, hvote]
      · simp only [h.wellFormed.writeVoteForId_voteTimes _ msgHash hnone, mem_orderedInsert] at hk
        rcases hk with rfl | hk
        · exact absurd hka.symm hkey
        · exact htimes k hk hka
  past := h.past
  noDoubleVoting := h.noDoubleVoting

lemma start {a : SignStart} (htime : a.time = m.adjustedTime)
    (hvote : m.db.votes a.voteKey = some a.msgHash)
    (htimes : ∀ k ∈ m.db.voteTimes, k.voteKey = a.voteKey → (k.time.toNat : Int) = a.time)
    (hold : ∀ b ∈ m.started, b.voteKey = a.voteKey → b.time + maxAge < m.adjustedTime) :
    VoteInv maxAge { m with started := a :: m.started } where
  wellFormed := h.wellFormed
  recent := forall_mem_cons.mpr ⟨.inr ⟨hvote, htimes⟩, h.recent⟩
  past := forall_mem_cons.mpr ⟨htime.le, h.past⟩
  noDoubleVoting := by
    -- a session of the same type and id is more than `maxAge` seconds back
    have hfar : ∀ b ∈ m.started, b.voteKey = a.voteKey → maxAge < a.time - b.time := by
      intro b hb hkey
      have := hold b hb hkey
      omega
    show ∀ b ∈ a :: m.started, ∀ c ∈ a :: m.started, _
    simp only [forall_mem_cons]
    refine ⟨⟨fun _ _ => trivial, fun b hb hkey hnear => ?_⟩, fun b hb => ⟨fun hkey hnear => ?_, ?_⟩⟩
    · have := (le_abs_self _).trans hnear
      have := hfar b hb hkey.symm
      omega
    · have := (neg_le_abs _).trans hnear
      have := hfar b hb hkey
      omega
    · exact h.noDoubleVoting b hb

lemma cleanupOldVotes (hlow : 0 ≤ m.adjustedTime - maxAge)
    (hhigh : m.adjustedTime - maxAge < 2 ^ 32) :
    VoteInv maxAge { m with db := m.db.cleanupOldVotes m.adjustedTime maxAge } where
  wellFormed := h.wellFormed.cleanupOldVotes _ _
  recent a ha := by
    rcases h.recent a ha with hold | ⟨hvote, htimes⟩
    · exact .inl hold
    · simp only [h.wellFormed.cleanupOldVotes_votes, h.wellFormed.cleanupOldVotes_voteTimes,
        mem_filter]
      split
      case isTrue herased =>
        -- the vote goes only when its own time is more than `maxAge` back
        obtain ⟨k, hk, hlt, hkey⟩ := herased
        have := htimes k hk hkey
        have := uint32_of_lt hlow hhigh
        exact .inl (by show a.time + maxAge < m.adjustedTime; omega)
      case isFalse => exact .inr ⟨hvote, fun k hk hkey => htimes k hk.1 hkey⟩
  past := h.past
  noDoubleVoting := h.noDoubleVoting

lemma asyncSignIfMember {call : SignCall}
    (honce : call.allowReSign = true → m.db.votes (call.llmqType, call.id) = none)
    (hlow : 0 ≤ m.adjustedTime) (hhigh : m.adjustedTime < 2 ^ 32) {db}
    {start} (hout : SignOutcome m.db m.adjustedTime call db start) :
    VoteInv maxAge { m with db, started := start.toList ++ m.started } := by
  cases hout with
  | refused => exact h
  | resigned hvoted hallow => cases (honce hallow).symm.trans hvoted
  | voted hnone =>
    have hwrite := h.writeVoteForId call.msgHash hnone
    cases hstart : (startSigning m.adjustedTime call).1 with
    | none => exact hwrite
    | some a =>
      obtain ⟨htime, hkey, hmsg⟩ := startSigning_eq_some hstart
      refine hwrite.start htime ?_ (fun k hk hka => ?_) fun b hb hba => ?_
      · show Function.update m.db.votes _ _ a.voteKey = _
        rw [hkey, Function.update_self, hmsg]
      · simp only [h.wellFormed.writeVoteForId_voteTimes _ call.msgHash hnone,
          mem_orderedInsert] at hk
        rcases hk with rfl | hk
        · have hfits := uint32_of_lt hlow hhigh
          have htoNat : (UInt32.ofNat (uint32 m.adjustedTime)).toNat = uint32 m.adjustedTime :=
            UInt32.toNat_ofNat_of_lt' (by show _ < 2 ^ 32; omega)
          show ((UInt32.ofNat (uint32 m.adjustedTime)).toNat : Int) = a.time
          rw [htoNat, hfits, htime]
        · have hvoted := (h.wellFormed.voted k.voteKey).mp (mem_map_of_mem hk)
          rw [hka, hkey, hnone] at hvoted
          cases hvoted
      · exact h.old_of_votes_none hb (hba.trans hkey ▸ hnone)

lemma step {a} (hok : SignsOnce maxAge m a)
    {m'} (hstep : m.step maxAge a = some m') : VoteInv maxAge m' := by
  cases a with
  | tick adjustedTime =>
    simp only [CSigningManager.step] at hstep
    split at hstep
    case isTrue hle => exact Option.some.inj hstep ▸ h.tick hle
    case isFalse => cases hstep
  | asyncSignIfMember call =>
    exact Option.some.inj hstep ▸
      h.asyncSignIfMember hok.1 hok.2.1 hok.2.2 (asyncSignIfMember_outcome _ _ call)
  | writeRecoveredSig llmqType id => exact Option.some.inj hstep ▸ h.recoveredSigs _
  | removeRecoveredSig llmqType id => exact Option.some.inj hstep ▸ h.recoveredSigs _
  | cleanupOldVotes => exact Option.some.inj hstep ▸ h.cleanupOldVotes hok.1 hok.2

end

end VoteInv

/-- Where no call signs again under a vote on record and the clock fits the time keys, no
two sessions within `maxAge` seconds sign different messages for one type and id. -/
theorem no_double_voting {maxAge adjustedTime : Int} {m : CSigningManager}
    (h : Reach (step maxAge) (SignsOnce maxAge) (init adjustedTime) m) :
    m.NoDoubleVoting maxAge :=
  (h.invariant (VoteInv.init adjustedTime) fun _ _ _ hi hok hstep =>
    hi.step hok hstep).noDoubleVoting

/-- A masternode that is a member of the only quorum signs message `msgHash` for id 1. -/
def memberCall (msgHash : Uint256) (allowReSign : Bool) : SignCall :=
  ⟨1, 1, msgHash, allowReSign, true, 7, some ⟨9, fun proTxHash => proTxHash == 7⟩⟩

/-- The default of `-recsigsmaxage`: one week. -/
def DEFAULT_MAX_RECOVERED_SIGS_AGE : Int := 60 * 60 * 24 * 7

/-- The vote for message 5 is a week and a second old when it is erased, and message 6 is
signed for the same id. -/
def voteTwiceAfterWeek : List SigningAction :=
  [.asyncSignIfMember (memberCall 5 false), .tick 1700604801, .cleanupOldVotes,
    .asyncSignIfMember (memberCall 6 false)]

theorem no_double_voting_twoVotes :
    ∃ m, Reach (step DEFAULT_MAX_RECOVERED_SIGS_AGE) (SignsOnce DEFAULT_MAX_RECOVERED_SIGS_AGE)
        (init 1700000000) m ∧
      m.started.map (fun a => (a.time, a.msgHash)) = [(1700604801, 6), (1700000000, 5)] ∧
      m.NoDoubleVoting DEFAULT_MAX_RECOVERED_SIGS_AGE := by
  have hrun : ((voteTwiceAfterWeek.foldlM (fun m a =>
      if SignsOnce DEFAULT_MAX_RECOVERED_SIGS_AGE m a then step DEFAULT_MAX_RECOVERED_SIGS_AGE m a
      else none) (init 1700000000)).any fun m =>
        m.started.map (fun a => (a.time, a.msgHash)) == [(1700604801, 6), (1700000000, 5)]) =
          true := by
    decide +kernel
  obtain ⟨m, hm, hstarted⟩ := (Option.any_eq_true _ _).mp hrun
  have hreach := Reach.of_foldlM_guarded .init hm
  exact ⟨m, hreach, eq_of_beq hstarted, no_double_voting hreach⟩

/-- The same, but message 5 is signed again shortly before its vote expires: the vote keeps
its first time, so message 6 follows 4801 seconds later. -/
def resignThenVote : List SigningAction :=
  [.asyncSignIfMember (memberCall 5 false), .tick 1700600000,
    .asyncSignIfMember (memberCall 5 true), .tick 1700604801, .cleanupOldVotes,
    .asyncSignIfMember (memberCall 6 false)]

theorem double_vote_of_resign :
    ∃ m, Reach (step DEFAULT_MAX_RECOVERED_SIGS_AGE) (fun _ _ => True) (init 1700000000) m ∧
      ¬ m.NoDoubleVoting DEFAULT_MAX_RECOVERED_SIGS_AGE := by
  have hrun : ((resignThenVote.foldlM (step DEFAULT_MAX_RECOVERED_SIGS_AGE)
      (init 1700000000)).any fun m => m.started ==
        [⟨1700604801, 1, 9, 1, 6⟩, ⟨1700600000, 1, 9, 1, 5⟩, ⟨1700000000, 1, 9, 1, 5⟩]) = true := by
    decide +kernel
  obtain ⟨m, hm, hstarted⟩ := (Option.any_eq_true _ _).mp hrun
  refine ⟨m, Reach.of_foldlM .init (fun _ _ _ => trivial) hm, fun hnone => ?_⟩
  rw [NoDoubleVoting, eq_of_beq hstarted] at hnone
  exact absurd (hnone ⟨1700604801, 1, 9, 1, 6⟩ (by simp) ⟨1700600000, 1, 9, 1, 5⟩ (by simp) rfl
    (by decide)) (by decide)

end CSigningManager

end Firo.Llmq
