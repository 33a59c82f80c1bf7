import Firo.Lib.Run
import Firo.Spark.Basic

/-! `CChainLocksHandler` of `llmq/quorums_chainlocks.cpp`: how signed locks are taken in and which
blocks count as locked. A call of `ProcessNewChainLock` takes its locks three times, and other calls
run between its sections. -/
namespace Firo.Llmq.ChainLocks

open Firo.Lib Firo.Spark

/-- A block of the index as its own hash followed by those of its ancestors. -/
abbrev BlockPath := List Uint256

namespace BlockPath

def nHeight (pindex : BlockPath) : Int := pindex.length - 1

def getBlockHash (pindex : BlockPath) : Uint256 := pindex.headD 0

def getAncestor (pindex : BlockPath) (height : Int) : Option BlockPath :=
  if height > nHeight pindex ∨ height < 0 then none
  else some (pindex.drop (pindex.length - 1 - height.toNat))

end BlockPath

open BlockPath

structure CChainLockSig where
  nHeight : Int
  blockHash : Uint256
  sig : List UInt8
deriving DecidableEq, Repr

def CChainLockSig.null : CChainLockSig := ⟨-1, 0, []⟩

/-- A call of `ProcessNewChainLock` that has not returned, and whether it has passed its
test of the height. -/
structure PendingCall where
  clsig : CChainLockSig
  hash : Uint256
  tested : Bool

structure CChainLocksHandler where
  isEnforced : Bool
  isChainLocksActive : Bool
  seenChainLocks : Finset Uint256
  bestChainLockHash : Uint256
  bestChainLock : CChainLockSig
  bestChainLockWithKnownBlock : CChainLockSig
  bestChainLockBlockIndex : Option BlockPath
  lastSignedHeight : Int
  lastSignedRequestId : Uint256
  lastSignedMsgHash : Uint256

namespace CChainLocksHandler

variable (s : CChainLocksHandler)

def internalHasChainLock (height : Int) (blockHash : Uint256) : Bool :=
  if !s.isEnforced then false
  else
    match s.bestChainLockBlockIndex with
    | none => false
    | some index =>
      if height > nHeight index then false
      else if height = nHeight index then blockHash == getBlockHash index
      else
        match getAncestor index height with
        | none => false
        | some pAncestor => getBlockHash pAncestor == blockHash

/-- `none` is the failed assertion that there is an ancestor. -/
def internalHasConflictingChainLock (height : Int) (blockHash : Uint256) : Option Bool :=
  if !s.isEnforced then some false
  else
    match s.bestChainLockBlockIndex with
    | none => some false
    | some index =>
      if height > nHeight index then some false
      else if height = nHeight index then some (blockHash != getBlockHash index)
      else (getAncestor index height).map fun pAncestor => getBlockHash pAncestor != blockHash

def installChainLock (mapBlockIndex : Uint256 → Option BlockPath)
    (clsig : CChainLockSig) (hash : Uint256) : Option CChainLocksHandler := do
  if ← s.internalHasConflictingChainLock clsig.nHeight clsig.blockHash then some s
  else
    let s := { s with bestChainLockHash := hash, bestChainLock := clsig }
    match mapBlockIndex clsig.blockHash with
    | none => some s
    | some pindex =>
      if nHeight pindex ≠ clsig.nHeight then some s
      else some { s with
        bestChainLockWithKnownBlock := clsig, bestChainLockBlockIndex := some pindex }

def acceptedBlockHeader (pindexNew : BlockPath) : CChainLocksHandler :=
  if getBlockHash pindexNew = s.bestChainLock.blockHash then
    if s.bestChainLock.nHeight ≠ nHeight pindexNew then s
    else { s with
      bestChainLockWithKnownBlock := s.bestChainLock
      bestChainLockBlockIndex := some pindexNew }
  else s

def handleNewRecoveredSig (id msgHash : Uint256) (sig : List UInt8) : Option CChainLockSig :=
  if !s.isChainLocksActive then none
  else if id ≠ s.lastSignedRequestId ∨ msgHash ≠ s.lastSignedMsgHash then none
  else if s.bestChainLock.nHeight ≥ s.lastSignedHeight then none
  else some ⟨s.lastSignedHeight, s.lastSignedMsgHash, sig⟩

end CChainLocksHandler

/-- The handler, the block index it reads and the calls that are under way. -/
structure State where
  handler : CChainLocksHandler
  mapBlockIndex : Uint256 → Option BlockPath
  calls : List PendingCall

/-- The sections of the calls. A change of the active chain alone touches none of what they
read, so it is not an action of its own. -/
inductive Action
  | processNewChainLock (clsig : CChainLockSig)
  | handleNewRecoveredSig (id msgHash : Uint256) (sig : List UInt8)
  | testHeight (call : Nat)
  | install (call : Nat)
  | acceptedBlockHeader (hash hashPrev : Uint256)
  | trySignChainTip (height : Int) (requestId msgHash : Uint256)
  | cleanup (hash : Uint256)

/-- `::SerializeHash` of a lock, and `VerifyRecoveredSig` of its signature. -/
structure Env where
  serializeHash : CChainLockSig → Uint256
  verifyRecoveredSig : CChainLockSig → Bool

variable (env : Env)

namespace State

def init (genesis : Uint256) : State :=
  ⟨⟨true, true, ∅, 0, .null, .null, none, -1, 0, 0⟩,
    fun hash => if hash = genesis then some [genesis] else none, []⟩

def startCall (s : State) (clsig : CChainLockSig) : State :=
  { s with calls := s.calls ++ [⟨clsig, env.serializeHash clsig, false⟩] }

/-- The second section of call `i`: it returns, or it goes on to verify the signature. -/
def testHeight (s : State) (i : Nat) (c : PendingCall) : State :=
  if c.hash ∈ s.handler.seenChainLocks then { s with calls := s.calls.eraseIdx i }
  else
    let s := { s with
      handler.seenChainLocks := insert c.hash s.handler.seenChainLocks }
    if s.handler.bestChainLock.nHeight ≠ -1 ∧
        c.clsig.nHeight ≤ s.handler.bestChainLock.nHeight then
      { s with calls := s.calls.eraseIdx i }
    else { s with calls := s.calls.set i { c with tested := true } }

def step (s : State) : Action → Option State
  | .processNewChainLock clsig => some (s.startCall env clsig)
  | .handleNewRecoveredSig id msgHash sig =>
    match s.handler.handleNewRecoveredSig id msgHash sig with
    | none => some s
    | some clsig => some (s.startCall env clsig)
  | .testHeight i =>
    match s.calls[i]? with
    | none => none
    | some c => if c.tested then none else some (s.testHeight i c)
  | .install i =>
    match s.calls[i]? with
    | none => none
    | some c =>
      if !c.tested then none
      else if !env.verifyRecoveredSig c.clsig then some { s with calls := s.calls.eraseIdx i }
      else (s.handler.installChainLock s.mapBlockIndex c.clsig c.hash).map fun handler =>
        { s with handler, calls := s.calls.eraseIdx i }
  | .acceptedBlockHeader hash hashPrev =>
    match s.mapBlockIndex hash, s.mapBlockIndex hashPrev with
    | none, some pindexPrev =>
      some { s with
        handler := s.handler.acceptedBlockHeader (hash :: pindexPrev)
        mapBlockIndex := Function.update s.mapBlockIndex hash (some (hash :: pindexPrev)) }
    | _, _ => none
  | .trySignChainTip height requestId msgHash =>
    some { s with
      handler.lastSignedHeight := height
      handler.lastSignedRequestId := requestId
      handler.lastSignedMsgHash := msgHash }
  | .cleanup hash =>
    some { s with handler.seenChainLocks := s.handler.seenChainLocks.erase hash }

end State

/-- The best lock does not go down, the locked block is followed by itself or a descendant,
and what is reported as locked stays reported. -/
structure Forward (s s' : CChainLocksHandler) : Prop where
  nHeight_le : s.bestChainLock.nHeight ≤ s'.bestChainLock.nHeight
  descends : ∀ index, s.bestChainLockBlockIndex = some index →
    ∃ index', s'.bestChainLockBlockIndex = some index' ∧ index <:+ index'
  hasChainLock : ∀ height blockHash, s.internalHasChainLock height blockHash = true →
    s'.internalHasChainLock height blockHash = true

/-- A signed lock is installed only while no other call with a valid signature is between its test
of the height and its install. The hash of a block tells its parent. -/
def InOrder (parent : Uint256 → Uint256) (s : State) : Action → Prop
  | .install i =>
    ∀ c ∈ s.calls[i]?, env.verifyRecoveredSig c.clsig = true →
      ∀ c' ∈ s.calls.eraseIdx i, c'.tested = true → env.verifyRecoveredSig c'.clsig = false
  | .acceptedBlockHeader hash hashPrev => hashPrev = parent hash
  | _ => True

instance (parent : Uint256 → Uint256) (s : State) (a : Action) :
    Decidable (InOrder env parent s a) :=
  match a with
  | .install i =>
    inferInstanceAs (Decidable (∀ c ∈ s.calls[i]?, _ → ∀ c' ∈ s.calls.eraseIdx i, _ → _ = false))
  | .acceptedBlockHeader hash hashPrev => inferInstanceAs (Decidable (hashPrev = parent hash))
  | .processNewChainLock _ | .handleNewRecoveredSig .. | .testHeight _ | .trySignChainTip .. |
    .cleanup _ => inferInstanceAs (Decidable True)

/-- Of two locks with valid signatures, the lower one names an ancestor of the other's block. -/
structure SignedLocks (parent : Uint256 → Uint256) : Prop where
  nonneg : ∀ clsig, env.verifyRecoveredSig clsig = true → 0 ≤ clsig.nHeight
  ancestor : ∀ clsig clsig', env.verifyRecoveredSig clsig = true →
    env.verifyRecoveredSig clsig' = true → clsig.nHeight ≤ clsig'.nHeight →
    parent^[(clsig'.nHeight - clsig.nHeight).toNat] clsig'.blockHash = clsig.blockHash

/-- The paths of `branch` are blocks on one branch of the block tree. -/
structure OneBranch (branch : BlockPath → Prop) : Prop where
  ne_nil : ∀ index, branch index → index ≠ []
  suffix : ∀ index index', branch index → branch index' → index <:+ index' ∨ index' <:+ index

section

variable {branch : BlockPath → Prop} {s : CChainLocksHandler}

/-- The locked block is on the branch, and the best lock is not below it. -/
def LockInv (branch : BlockPath → Prop) (s : CChainLocksHandler) : Prop :=
  ∀ index, s.bestChainLockBlockIndex = some index →
    branch index ∧ nHeight index ≤ s.bestChainLock.nHeight

variable {index index' : BlockPath} {hash : Uint256}

lemma suffix_of_nHeight_le (hbranch : OneBranch branch) (h : branch index) (h' : branch index')
    (hle : nHeight index ≤ nHeight index') : index <:+ index' := by
  rcases hbranch.suffix index index' h h' with hsuffix | hsuffix
  · exact hsuffix
  · have hlen := hsuffix.length_le
    have heq : index'.length = index.length := by
      unfold nHeight at hle
      omega
    exact (hsuffix.eq_of_length heq) ▸ List.suffix_rfl

lemma getAncestor_of_suffix (h : index <:+ index') {height : Int}
    (hle : height ≤ nHeight index) : getAncestor index' height = getAncestor index height := by
  obtain ⟨above, rfl⟩ := h
  unfold getAncestor
  unfold nHeight at hle ⊢
  rw [List.length_append]
  by_cases hneg : height < 0
  · rw [if_pos (.inr hneg), if_pos (.inr hneg)]
  · rw [if_neg (by push_cast; omega), if_neg (by omega),
      show above.length + index.length - 1 - height.toNat =
        above.length + (index.length - 1 - height.toNat) by omega, List.drop_append]
    simp

lemma getAncestor_self (hne : index ≠ []) : getAncestor index (nHeight index) = some index := by
  have := List.length_pos_iff.mpr hne
  unfold getAncestor nHeight
  rw [if_neg (by omega), show index.length - 1 - ((index.length : Int) - 1).toNat = 0 by omega,
    List.drop_zero]

lemma internalHasChainLock_iff (hne : index ≠ []) (hindex : s.bestChainLockBlockIndex = some index)
    (height : Int) (blockHash) : s.internalHasChainLock height blockHash = true ↔
      s.isEnforced = true ∧ (getAncestor index height).map getBlockHash = some blockHash := by
  unfold CChainLocksHandler.internalHasChainLock
  rw [hindex]
  cases hforced : s.isEnforced
  · simp
  · simp only [Bool.not_true, Bool.false_eq_true, ↓reduceIte, true_and]
    rcases lt_trichotomy height (nHeight index) with hlt | heq | hgt
    · rw [if_neg (by omega), if_neg (by omega)]
      cases getAncestor index height <;> simp
    · rw [if_neg (by omega), if_pos heq, heq, getAncestor_self hne]
      simp only [Option.map_some, beq_iff_eq, Option.some.injEq]
      exact eq_comm
    · rw [if_pos hgt, getAncestor, if_pos (.inl hgt)]
      simp

variable {s' : CChainLocksHandler}

lemma forward_of_descends (hle : s.bestChainLock.nHeight ≤ s'.bestChainLock.nHeight)
    (henforced : s'.isEnforced = s.isEnforced)
    (hdescends : ∀ index, s.bestChainLockBlockIndex = some index → index ≠ [] ∧ ∃ index',
      s'.bestChainLockBlockIndex = some index' ∧ index <:+ index') :
    Forward s s' where
  nHeight_le := hle
  descends index hindex := (hdescends index hindex).2
  hasChainLock height blockHash h := by
    cases hindex : s.bestChainLockBlockIndex with
    | none => simp [CChainLocksHandler.internalHasChainLock, hindex] at h
    | some index =>
      obtain ⟨hne, index', hindex', hsuffix⟩ := hdescends index hindex
      have hne' : index' ≠ [] := by
        rintro rfl
        exact hne (List.suffix_nil.mp hsuffix)
      rw [internalHasChainLock_iff hne hindex] at h
      rw [internalHasChainLock_iff hne' hindex', henforced]
      refine ⟨h.1, ?_⟩
      by_cases hheight : height ≤ nHeight index
      · rw [getAncestor_of_suffix hsuffix hheight]
        exact h.2
      · rw [getAncestor, if_pos (.inl (by omega))] at h
        simp at h

lemma bestChainLock_installChainLock {mapBlockIndex} {clsig : CChainLockSig}
    (h : s.installChainLock mapBlockIndex clsig hash = some s') :
    s'.bestChainLock = s.bestChainLock ∨ s'.bestChainLock = clsig := by
  unfold CChainLocksHandler.installChainLock at h
  cases hconflict : s.internalHasConflictingChainLock clsig.nHeight clsig.blockHash with
  | none => simp [hconflict] at h
  | some conflict =>
    simp only [hconflict, Option.bind_eq_bind, Option.bind_some] at h
    split at h
    · cases h
      exact .inl rfl
    · split at h
      · cases h
        exact .inr rfl
      · split at h <;> cases h <;> exact .inr rfl

variable (hbranch : OneBranch branch) (hinv : LockInv branch s)
include hbranch hinv

lemma LockInv.forward (henforced : s'.isEnforced = s.isEnforced)
    (hle : s.bestChainLock.nHeight ≤ s'.bestChainLock.nHeight)
    (hindex : s'.bestChainLockBlockIndex = s.bestChainLockBlockIndex ∨ ∃ index',
      s'.bestChainLockBlockIndex = some index' ∧ branch index' ∧ nHeight index' =
        s'.bestChainLock.nHeight) :
    Forward s s' ∧ LockInv branch s' := by
  rcases hindex with hsame | ⟨index', hindex', hbranch', hheight⟩
  · refine ⟨forward_of_descends hle henforced fun index hindex => ?_, fun index hindex => ?_⟩
    · exact ⟨hbranch.ne_nil index (hinv index hindex).1, index, hsame.trans hindex, List.suffix_rfl⟩
    · have := hinv index (hsame ▸ hindex)
      exact ⟨this.1, this.2.trans hle⟩
  · refine ⟨forward_of_descends hle henforced fun index hindex => ?_, fun index hindex => ?_⟩
    · have hold := hinv index hindex
      exact ⟨hbranch.ne_nil index hold.1, index', hindex',
        suffix_of_nHeight_le hbranch hold.1 hbranch' (by omega)⟩
    · cases hindex'.symm.trans hindex
      exact ⟨hbranch', hheight.le⟩

lemma LockInv.installChainLock {mapBlockIndex}
    {clsig : CChainLockSig} (hle : s.bestChainLock.nHeight ≤ clsig.nHeight)
    (hblock : ∀ pindex ∈ mapBlockIndex clsig.blockHash, nHeight pindex = clsig.nHeight →
      branch pindex)
    (h : s.installChainLock mapBlockIndex clsig hash = some s') :
    Forward s s' ∧ LockInv branch s' := by
  unfold CChainLocksHandler.installChainLock at h
  cases hconflict : s.internalHasConflictingChainLock clsig.nHeight clsig.blockHash with
  | none => simp [hconflict] at h
  | some conflict =>
    simp only [hconflict, Option.bind_eq_bind, Option.bind_some] at h
    cases conflict with
    | true =>
      cases h
      exact hinv.forward hbranch rfl le_rfl (.inl rfl)
    | false =>
      simp only [Bool.false_eq_true, ↓reduceIte] at h
      cases hpindex : mapBlockIndex clsig.blockHash with
      | none =>
        simp only [hpindex] at h
        cases h
        exact hinv.forward hbranch rfl hle (.inl rfl)
      | some pindex =>
        simp only [hpindex] at h
        split at h
        · cases h
          exact hinv.forward hbranch rfl hle (.inl rfl)
        case isFalse hheight =>
          cases h
          have hheight := not_not.mp hheight
          exact hinv.forward hbranch rfl hle (.inr ⟨pindex, rfl, hblock pindex hpindex hheight,
            hheight⟩)

lemma LockInv.acceptedBlockHeader {pindexPrev}
    (hblock : hash = s.bestChainLock.blockHash →
      s.bestChainLock.nHeight = nHeight (hash :: pindexPrev) → branch (hash :: pindexPrev)) :
    Forward s (s.acceptedBlockHeader (hash :: pindexPrev)) ∧
      LockInv branch (s.acceptedBlockHeader (hash :: pindexPrev)) := by
  unfold CChainLocksHandler.acceptedBlockHeader
  split
  case isTrue hhash =>
    split
    · exact hinv.forward hbranch rfl le_rfl (.inl rfl)
    case isFalse hheight =>
      have hheight := not_not.mp hheight
      exact hinv.forward hbranch rfl le_rfl (.inr ⟨_, rfl, hblock hhash hheight, hheight.symm⟩)
  · exact hinv.forward hbranch rfl le_rfl (.inl rfl)

end

section

variable {env : Env} {parent : Uint256 → Uint256}

/-- The block that a signed lock names. -/
def SignedPath (env : Env) (parent : Uint256 → Uint256) (index : BlockPath) : Prop :=
  ∃ clsig, env.verifyRecoveredSig clsig = true ∧
    index = List.iterate parent clsig.blockHash (clsig.nHeight.toNat + 1)

lemma SignedLocks.oneBranch (hsigned : SignedLocks env parent) :
    OneBranch (SignedPath env parent) := by
  have hsuffix : ∀ clsig clsig', env.verifyRecoveredSig clsig = true →
      env.verifyRecoveredSig clsig' = true → clsig.nHeight ≤ clsig'.nHeight →
      List.iterate parent clsig.blockHash (clsig.nHeight.toNat + 1) <:+
        List.iterate parent clsig'.blockHash (clsig'.nHeight.toNat + 1) := by
    intro clsig clsig' h h' hle
    have hnonneg := hsigned.nonneg clsig h
    rw [show clsig'.nHeight.toNat + 1 =
        (clsig'.nHeight - clsig.nHeight).toNat + (clsig.nHeight.toNat + 1) by omega,
      List.iterate_add parent clsig'.blockHash, hsigned.ancestor clsig clsig' h h' hle]
    exact List.suffix_append ..
  refine ⟨?_, ?_⟩
  · rintro _ ⟨clsig, -, rfl⟩
    simp
  · rintro _ _ ⟨clsig, h, rfl⟩ ⟨clsig', h', rfl⟩
    exact (le_total clsig.nHeight clsig'.nHeight).imp (hsuffix _ _ h h') (hsuffix _ _ h' h)

/-- Between the steps: the index has the paths of its hashes, the best lock is signed, a signed
call past its test is above the best lock, and the locked block is one that a signed lock names. -/
structure Ordered (env : Env) (parent : Uint256 → Uint256) (t : State) : Prop where
  known : ∀ hash, ∀ pindex ∈ t.mapBlockIndex hash, ∃ n, pindex = List.iterate parent hash (n + 1)
  best : t.handler.bestChainLock = .null ∨
    env.verifyRecoveredSig t.handler.bestChainLock = true
  above : ∀ c ∈ t.calls, c.tested = true → env.verifyRecoveredSig c.clsig = true →
    t.handler.bestChainLock.nHeight < c.clsig.nHeight
  locked : LockInv (SignedPath env parent) t.handler

lemma signedPath_of_nHeight {clsig : CChainLockSig} (h : env.verifyRecoveredSig clsig = true)
    {n : ℕ} (hheight : nHeight (List.iterate parent clsig.blockHash (n + 1)) = clsig.nHeight) :
    SignedPath env parent (List.iterate parent clsig.blockHash (n + 1)) := by
  rw [nHeight, List.length_iterate] at hheight
  refine ⟨clsig, h, ?_⟩
  rw [show clsig.nHeight.toNat = n by omega]

namespace Ordered

variable {t t' : State}

/-- A step that leaves the best lock, the locked block and the index alone. -/
lemma keep (hsigned : SignedLocks env parent) (h : Ordered env parent t)
    (hforced : t'.handler.isEnforced = t.handler.isEnforced)
    (hbest : t'.handler.bestChainLock = t.handler.bestChainLock)
    (hindex : t'.handler.bestChainLockBlockIndex = t.handler.bestChainLockBlockIndex)
    (hmap : t'.mapBlockIndex = t.mapBlockIndex)
    (hcalls : ∀ c ∈ t'.calls, c.tested = true → env.verifyRecoveredSig c.clsig = true →
      c ∈ t.calls ∨ t.handler.bestChainLock.nHeight < c.clsig.nHeight) :
    Forward t.handler t'.handler ∧ Ordered env parent t' := by
  obtain ⟨hforward, hlocked⟩ :=
    h.locked.forward hsigned.oneBranch hforced (hbest ▸ le_rfl) (.inl hindex)
  refine ⟨hforward, hmap ▸ h.known, hbest ▸ h.best, fun c hc htested hverify => ?_, hlocked⟩
  rw [hbest]
  exact (hcalls c hc htested hverify).elim (fun hold => h.above c hold htested hverify) id

/-- The test of the height puts a signed call above the best lock. -/
lemma testHeight (hsigned : SignedLocks env parent) (h : Ordered env parent t) (i : ℕ)
    (c : PendingCall) :
    Forward t.handler (t.testHeight i c).handler ∧ Ordered env parent (t.testHeight i c) := by
  have herase : ∀ c' ∈ t.calls.eraseIdx i, c'.tested = true →
      env.verifyRecoveredSig c'.clsig = true →
      c' ∈ t.calls ∨ t.handler.bestChainLock.nHeight < c'.clsig.nHeight :=
    fun c' hc' _ _ => .inl (List.mem_of_mem_eraseIdx hc')
  unfold State.testHeight
  dsimp only
  split
  · exact h.keep hsigned rfl rfl rfl rfl herase
  · split
    · exact h.keep hsigned rfl rfl rfl rfl herase
    case isFalse hheight =>
      refine h.keep hsigned rfl rfl rfl rfl fun c' hc' _ hverify => ?_
      rcases List.mem_or_eq_of_mem_set hc' with hold | rfl
      · exact .inl hold
      · have hnonneg := hsigned.nonneg _ hverify
        right
        dsimp only at hheight hnonneg ⊢
        omega

/-- No other signed call is past its test, and the lock that is installed is above the best one. -/
lemma install (hsigned : SignedLocks env parent) (h : Ordered env parent t) {i : ℕ}
    {c : PendingCall} (hc : t.calls[i]? = some c) (htested : c.tested = true)
    (hverify : env.verifyRecoveredSig c.clsig = true) (hok : InOrder env parent t (.install i))
    {s'} (hs' : t.handler.installChainLock t.mapBlockIndex c.clsig c.hash = some s') :
    Forward t.handler s' ∧ Ordered env parent { t with
      handler := s', calls := t.calls.eraseIdx i } := by
  have hlt := h.above c (List.mem_of_getElem? hc) htested hverify
  have hblock : ∀ pindex ∈ t.mapBlockIndex c.clsig.blockHash, nHeight pindex = c.clsig.nHeight →
      SignedPath env parent pindex := by
    intro pindex hpindex hheight
    obtain ⟨n, rfl⟩ := h.known _ pindex hpindex
    exact signedPath_of_nHeight hverify hheight
  obtain ⟨hforward, hlocked⟩ :=
    h.locked.installChainLock hsigned.oneBranch hlt.le hblock hs'
  refine ⟨hforward, h.known, ?_, fun c' hc' htested' hverify' => ?_, hlocked⟩
  · rcases bestChainLock_installChainLock hs' with hbest | hbest
    · exact hbest ▸ h.best
    · exact .inr (hbest ▸ hverify)
  · rw [hok c hc hverify c' hc' htested'] at hverify'
    cases hverify'

lemma acceptedBlockHeader (hsigned : SignedLocks env parent) (h : Ordered env parent t)
    {hash : Uint256} {pindexPrev : BlockPath}
    (hprev : t.mapBlockIndex (parent hash) = some pindexPrev) :
    Forward t.handler (t.handler.acceptedBlockHeader (hash :: pindexPrev)) ∧
      Ordered env parent { t with
        handler := t.handler.acceptedBlockHeader (hash :: pindexPrev)
        mapBlockIndex := Function.update t.mapBlockIndex hash (some (hash :: pindexPrev)) } := by
  obtain ⟨n, hn⟩ := h.known _ pindexPrev hprev
  have hpath : hash :: pindexPrev = List.iterate parent hash (n + 1 + 1) := by rw [hn]; rfl
  have hblock : hash = t.handler.bestChainLock.blockHash →
      t.handler.bestChainLock.nHeight = nHeight (hash :: pindexPrev) →
      SignedPath env parent (hash :: pindexPrev) := by
    intro hhash hheight
    rw [hpath, hhash] at hheight ⊢
    rcases h.best with hnull | hverify
    · have hnone : t.handler.bestChainLock.nHeight = -1 := congrArg CChainLockSig.nHeight hnull
      rw [nHeight, List.length_iterate] at hheight
      omega
    · exact signedPath_of_nHeight hverify hheight.symm
  obtain ⟨hforward, hlocked⟩ := h.locked.acceptedBlockHeader hsigned.oneBranch hblock
  have hbest : (t.handler.acceptedBlockHeader (hash :: pindexPrev)).bestChainLock =
      t.handler.bestChainLock := by
    unfold CChainLocksHandler.acceptedBlockHeader
    split_ifs <;> rfl
  refine ⟨hforward, fun hash' pindex hpindex => ?_, hbest ▸ h.best, hbest ▸ h.above, hlocked⟩
  dsimp only at hpindex
  rcases eq_or_ne hash' hash with rfl | hne
  · rw [Function.update_self, Option.mem_some] at hpindex
    exact ⟨n + 1, hpindex ▸ hpath⟩
  · rw [Function.update_of_ne hne] at hpindex
    exact h.known hash' pindex hpindex

lemma step (hsigned : SignedLocks env parent) (h : Ordered env parent t) {a}
    (hok : InOrder env parent t a) (hstep : t.step env a = some t') :
    Forward t.handler t'.handler ∧ Ordered env parent t' := by
  have hstart : ∀ clsig, ∀ c ∈ (t.startCall env clsig).calls, c.tested = true →
      env.verifyRecoveredSig c.clsig = true →
      c ∈ t.calls ∨ t.handler.bestChainLock.nHeight < c.clsig.nHeight := by
    intro clsig c hc htested _
    rcases List.mem_append.mp hc with hc | hc
    · exact .inl hc
    · rw [List.mem_singleton.mp hc] at htested
      cases htested
  cases a with
  | processNewChainLock clsig =>
    cases hstep
    exact h.keep hsigned rfl rfl rfl rfl (hstart clsig)
  | handleNewRecoveredSig id msgHash sig =>
    simp only [State.step] at hstep
    split at hstep
    · cases hstep
      exact h.keep hsigned rfl rfl rfl rfl fun c hc _ _ => .inl hc
    · cases hstep
      exact h.keep hsigned rfl rfl rfl rfl (hstart _)
  | testHeight i =>
    simp only [State.step] at hstep
    split at hstep
    case h_1 => cases hstep
    case h_2 c hc =>
      split at hstep
      · cases hstep
      · cases hstep
        exact h.testHeight hsigned i _
  | install i =>
    simp only [State.step] at hstep
    split at hstep
    case h_1 => cases hstep
    case h_2 c hc =>
      split at hstep
      · cases hstep
      case isFalse htested =>
        split at hstep
        · cases hstep
          exact h.keep hsigned rfl rfl rfl rfl
            fun c' hc' _ _ => .inl (List.mem_of_mem_eraseIdx hc')
        case isFalse hverify =>
          obtain ⟨s', hs', rfl⟩ := Option.map_eq_some_iff.mp hstep
          exact h.install hsigned hc (by simpa using htested) (by simpa using hverify) hok hs'
  | acceptedBlockHeader hash hashPrev =>
    simp only [State.step] at hstep
    split at hstep
    case h_1 pindexPrev _ hprev =>
      cases hstep
      exact h.acceptedBlockHeader hsigned (hok ▸ hprev)
    case h_2 => cases hstep
  | trySignChainTip height requestId msgHash =>
    cases hstep
    exact h.keep hsigned rfl rfl rfl rfl fun c hc _ _ => .inl hc
  | cleanup hash =>
    cases hstep
    exact h.keep hsigned rfl rfl rfl rfl fun c hc _ _ => .inl hc

lemma init (genesis : Uint256) : Ordered env parent (.init genesis) where
  known hash pindex hpindex := by
    unfold State.init at hpindex
    dsimp only at hpindex
    split at hpindex
    case isTrue heq =>
      cases hpindex
      exact ⟨0, by rw [heq]; rfl⟩
    case isFalse => cases hpindex
  best := .inl rfl
  above := nofun
  locked := nofun

end Ordered

end

/-- Where the signed locks lie on one branch and no lock is installed between the test and the
install of another call, every step of every run moves the locks forward. -/
theorem chainLocks_move_forward {env : Env} {parent : Uint256 → Uint256}
    (hsigned : SignedLocks env parent) {genesis : Uint256} {s s' : State} {a : Action}
    (hs : Reach (State.step env) (InOrder env parent) (.init genesis) s)
    (hok : InOrder env parent s a) (h : s.step env a = some s') :
    Forward s.handler s'.handler := by
  have hinv : Ordered env parent s :=
    hs.invariant (.init genesis) fun _ _ _ hi hok hstep => (hi.step hsigned hok hstep).2
  exact (hinv.step hsigned hok h).1

/-- Two locks are signed, and the hash of a lock is that of its block plus one. -/
def twoSigned : Env :=
  ⟨fun clsig => clsig.blockHash + 1, fun clsig => clsig ∈ [⟨1, 101, []⟩, ⟨2, 102, []⟩]⟩

lemma twoSigned_signedLocks : SignedLocks twoSigned (· - 1) := by
  have hmem : ∀ {clsig}, twoSigned.verifyRecoveredSig clsig = true →
      clsig = ⟨1, 101, []⟩ ∨ clsig = ⟨2, 102, []⟩ := by
    intro clsig h
    simpa [twoSigned] using h
  constructor
  · intro clsig h
    rcases hmem h with rfl | rfl <;> decide
  · intro clsig clsig' h h' hle
    rcases hmem h with rfl | rfl <;> rcases hmem h' with rfl | rfl <;> revert hle <;> decide

/-- Blocks 101 and 102 on the genesis block 100, and a lock for each. -/
def twoLocks : List Action :=
  [.acceptedBlockHeader 101 100, .acceptedBlockHeader 102 101, .processNewChainLock ⟨1, 101, []⟩,
    .processNewChainLock ⟨2, 102, []⟩]

/-- The lock of block 102 is tested and installed after that of block 101. -/
theorem chainLocks_move_forward_twoLocks : ∃ s s',
    Reach (State.step twoSigned) (InOrder twoSigned (· - 1)) (.init 100) s ∧
      s.handler.bestChainLock.nHeight = 1 ∧ s.step twoSigned (.install 0) = some s' ∧
      s'.handler.bestChainLock.nHeight = 2 ∧ Forward s.handler s'.handler := by
  have hrun : (((twoLocks ++ [Action.testHeight 0, .install 0, .testHeight 0]).foldlM (fun s a =>
      if InOrder twoSigned (· - 1) s a then State.step twoSigned s a else none) (.init 100)).any
        fun s => decide (InOrder twoSigned (· - 1) s (.install 0)) &&
          s.handler.bestChainLock.nHeight == 1 && (State.step twoSigned s (.install 0)).any
            fun s' => s'.handler.bestChainLock.nHeight == 2) = true := by
    decide +kernel
  obtain ⟨s, hs, hrest⟩ := (Option.any_eq_true _ _).mp hrun
  simp only [Bool.and_eq_true, decide_eq_true_eq, beq_iff_eq] at hrest
  obtain ⟨⟨hok, hone⟩, hstep⟩ := hrest
  obtain ⟨s', hs', htwo⟩ := (Option.any_eq_true _ _).mp hstep
  have hreach := Reach.of_foldlM_guarded .init hs
  exact ⟨s, s', hreach, hone, hs', beq_iff_eq.mp htwo,
    chainLocks_move_forward twoSigned_signedLocks hreach hok hs'⟩

/-- The call for block 102 overtakes the one for block 101: the best lock goes from height 2
back to height 1, and block 102 is no longer reported. -/
theorem overtaken_lock_goes_back :
    ∃ s s', Reach (State.step twoSigned) (fun _ _ => True) (.init 100) s ∧
      s.step twoSigned (.install 0) = some s' ∧ ¬ Forward s.handler s'.handler := by
  have hrun : (((twoLocks ++ [Action.testHeight 0, .testHeight 1, .install 1]).foldlM
      (State.step twoSigned) (.init 100)).any fun s =>
        (State.step twoSigned s (.install 0)).any fun s' =>
          s.handler.internalHasChainLock 2 102 &&
            !s'.handler.internalHasChainLock 2 102) = true := by
    decide +kernel
  obtain ⟨s, hs, hstep⟩ := (Option.any_eq_true _ _).mp hrun
  obtain ⟨s', hs', hlock⟩ := (Option.any_eq_true _ _).mp hstep
  rw [Bool.and_eq_true, Bool.not_eq_true'] at hlock
  refine ⟨s, s', Reach.of_foldlM .init (fun _ _ _ => trivial) hs, hs', fun hforward => ?_⟩
  exact Bool.false_ne_true (hlock.2.symm.trans (hforward.hasChainLock 2 102 hlock.1))

end Firo.Llmq.ChainLocks
