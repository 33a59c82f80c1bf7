import Firo.Llmq.QuorumChain

/-! Blocks are connected and disconnected inside a database transaction, which is rolled back when
the block fails there or later; the cache of mined commitments is not. In between the cache is asked
and cleared, and commitments arrive from the network. -/
namespace Firo.Llmq

open Firo.Lib Firo.Spark Firo.Bls List

variable {G₁ G₂ : Type} {env : CommitmentEnv G₁ G₂} {cons : LlmqConsensus}

section

variable {chain : List CBlock} {block : CBlock} {db : MinedDb G₁ G₂}
  {p p' : CQuorumBlockProcessor G₁ G₂} {fAddMinable : Bool}

lemma undoBlock_eq_ok {u} (hfits : CacheFits db p) (hminable : MinableOk p)
    (h : undoBlock env cons chain block fAddMinable p = .ok u p') :
    p'.evoDb.mined = p.evoDb.mined.disconnect chain.length
        (minedIn env cons block chain.length) ∧ CacheFits db p' ∧ MinableOk p' := by
  unfold undoBlock at h
  obtain ⟨qcs, hqcs, h⟩ := liftCheck_bind_eq_ok.mp h
  obtain ⟨p₁, hrun, hmined, hfits₁, hminable₁⟩ :=
    undoCommitments_spec env chain.length qcs.toList fAddMinable hfits hminable
  rw [estate_bind_of_ok hrun] at h
  obtain ⟨hash, -, h⟩ := liftCheck_bind_eq_ok.mp h
  obtain rfl := estate_modify_eq_ok.mp h
  rw [minedIn, hqcs]
  exact ⟨hmined, hfits₁, hminable₁⟩

lemma undoBlock_eq_error {e} (he : e ≠ .abort) (hfits : CacheFits db p) (hminable : MinableOk p)
    (h : undoBlock env cons chain block fAddMinable p = .error e p') : p' = p := by
  unfold undoBlock at h
  rcases liftCheck_bind_eq_error.mp h with ⟨-, rfl⟩ | ⟨qcs, hqcs, h⟩
  · rfl
  · obtain ⟨p₁, hrun, -⟩ :=
      undoCommitments_spec env chain.length qcs.toList fAddMinable hfits hminable
    rw [estate_bind_of_ok hrun, liftCheck_bind_eq_error] at h
    rcases h with ⟨hhash, -⟩ | ⟨_, -, h⟩
    · exact absurd (orReject_eq_error.mp hhash).2 he
    · cases h

lemma undoBlock_of_parses (hfits : CacheFits db p) (hminable : MinableOk p) (hchain : chain ≠ [])
    (hparses : ∃ qcs, getCommitmentsFromBlock env cons block chain.length = .ok qcs) :
    ∃ p', undoBlock env cons chain block fAddMinable p = .ok () p' := by
  obtain ⟨qcs, hqcs⟩ := hparses
  obtain ⟨p₁, hrun, -⟩ :=
    undoCommitments_spec env chain.length qcs.toList fAddMinable hfits hminable
  obtain ⟨tip, rest, rfl⟩ := exists_cons_of_ne_nil hchain
  unfold undoBlock
  rw [hqcs]
  exact ⟨{ p₁ with evoDb := { p₁.evoDb with bestBlockUpgrade := some tip.hash } },
    estate_bind_of_ok hrun⟩

lemma minedIn_of_lt (h : chain.length < cons.DIP0003Height) :
    minedIn env cons block chain.length = [] := by
  unfold minedIn
  split
  case h_1 qcs hqcs =>
    unfold getCommitmentsFromBlock at hqcs
    simp only [except_bind_eq_ok, rejectIf_eq_ok, h, decide_true, Bool.true_and,
      Bool.not_eq_false'] at hqcs
    obtain ⟨ret, -, _, hempty, hqcs⟩ := hqcs
    obtain rfl := Except.ok.inj hqcs
    rw [Std.ExtTreeMap.isEmpty_iff.mp hempty]
    rfl
  case h_2 => rfl

/-- The records of a block on top of a valid chain are new, so that undoing the block
restores those of the chain. -/
lemma ValidChain.disconnect_connect (h : ValidChain env cons chain)
    (hheight : chain.length < 2 ^ 31)
    (hrules : BlockRules env cons (minedBy env cons chain) chain block) :
    ((minedBy env cons chain).connect cons chain.length block.hash
      (minedIn env cons block chain.length)).disconnect chain.length
        (minedIn env cons block chain.length) = minedBy env cons chain := by
  have hcommitments : ∀ k ∈ (commitmentEntries block.hash
      (minedIn env cons block chain.length)).map Prod.fst,
      (minedBy env cons chain).commitments k = none := by
    intro k hk
    simp only [commitmentEntries, map_map, mem_map, Function.comp_apply] at hk
    obtain ⟨qc, hqc, rfl⟩ := hk
    exact hrules.fresh hqc
  have hheights : ∀ k ∈ (heightEntries cons chain.length
      (minedIn env cons block chain.length)).map Prod.fst,
      (minedBy env cons chain).byInversedHeight k = none := by
    intro k hk
    simp only [heightEntries, map_map, mem_map, Function.comp_apply] at hk
    obtain ⟨qc, -, rfl⟩ := hk
    rw [← Option.not_isSome_iff_eq_none, Option.isSome_iff_exists]
    rintro ⟨height, hheight'⟩
    obtain ⟨n', b, qc', hmined, hkey, -⟩ := h.byInversedHeight_iff.mp hheight'
    have hlt := lt_length_of_blockAt hmined.blockAt_eq
    have heq := ((buildInversedHeightKey_inj hheight (hlt.trans hheight)).mp hkey).2
    omega
  have h₁ := eraseAll_writeAll hcommitments
  have h₂ := eraseAll_writeAll hheights
  simp only [commitmentEntries, heightEntries, map_map] at h₁ h₂
  exact congrArg₂ MinedDb.mk h₁ h₂

end

structure QuorumChain (G₁ G₂ : Type) where
  chain : List CBlock := []
  processor : CQuorumBlockProcessor G₁ G₂ := {}

/-- What happens to the block processor. `otherOk` tells whether the rest of `ConnectBlock`
or `DisconnectBlock` succeeds and the block is not only checked. -/
inductive QuorumAction (G₁ G₂ : Type) where
  | connect (block : CBlock) (otherOk : Bool)
  | disconnect (fAddMinable otherOk : Bool)
  | hasMinedCommitment (llmqType : UInt8) (quorumHash : Uint256)
  | clearMinedCommitmentCache
  | addMinableCommitment (fqc : CFinalCommitment G₁ G₂)

/-- The block may be connected next: it is on top of the tip and not in the chain. -/
def Connectable (chain : List CBlock) (block : CBlock) : Prop :=
  block.hash ≠ 0 ∧ block.hash ∉ chain.map CBlock.hash ∧ chain.length < 2 ^ 31 ∧
    ∀ tip ∈ chain.head?, block.hashPrevBlock = tip.hash

instance (chain : List CBlock) (block : CBlock) : Decidable (Connectable chain block) :=
  inferInstanceAs (Decidable (_ ∧ _ ∧ _ ∧ ∀ tip ∈ chain.head?, block.hashPrevBlock = tip.hash))

namespace QuorumChain

variable (s : QuorumChain G₁ G₂)

def rollback (p : CQuorumBlockProcessor G₁ G₂) : QuorumChain G₁ G₂ :=
  { s with processor := { p with evoDb := s.processor.evoDb } }

variable (env cons) in
def connectTip (block : CBlock) (otherOk : Bool) : Option (QuorumChain G₁ G₂) :=
  if Connectable s.chain block then
    match processBlock env cons s.chain block s.processor with
    | .ok _ p => some (if otherOk then ⟨block :: s.chain, p⟩ else s.rollback p)
    | .error .abort _ => none
    | .error _ p => some (s.rollback p)
  else none

variable (env cons) in
def disconnectTip (fAddMinable otherOk : Bool) : Option (QuorumChain G₁ G₂) :=
  match s.chain with
  | [] => none
  | block :: chain =>
    match undoBlock env cons chain block fAddMinable s.processor with
    | .ok _ p => some (if otherOk then ⟨chain, p⟩ else s.rollback p)
    | .error .abort _ => none
    | .error _ p => some (s.rollback p)

def call {α : Type} (s : QuorumChain G₁ G₂) (x : ProcM G₁ G₂ α) : Option (QuorumChain G₁ G₂) :=
  match x s.processor with
  | .ok _ p => some { s with processor := p }
  | .error _ _ => none

variable (env cons) in
def step : QuorumAction G₁ G₂ → Option (QuorumChain G₁ G₂)
  | .connect block otherOk => s.connectTip env cons block otherOk
  | .disconnect fAddMinable otherOk => s.disconnectTip env cons fAddMinable otherOk
  | .hasMinedCommitment llmqType quorumHash => s.call (hasMinedCommitment llmqType quorumHash)
  | .clearMinedCommitmentCache =>
    some { s with processor := { s.processor with hasMinedCommitmentCache := fun _ => none } }
  | .addMinableCommitment fqc => s.call (addMinableCommitment env fqc)

/-- The records are those of the chain, which is valid, and the cache tells about them. -/
structure Inv (env : CommitmentEnv G₁ G₂) (cons : LlmqConsensus) (s : QuorumChain G₁ G₂) :
    Prop where
  valid : ValidChain env cons s.chain
  mined_eq : s.processor.evoDb.mined = minedBy env cons s.chain
  fits : CacheFits (minedBy env cons s.chain) s.processor
  minable : MinableOk s.processor

namespace Inv

variable {s s' : QuorumChain G₁ G₂} {block : CBlock} {p : CQuorumBlockProcessor G₁ G₂}

lemma initial : Inv env cons ({} : QuorumChain G₁ G₂) :=
  ⟨.nil, rfl, nofun, nofun⟩

lemma rollback (h : Inv env cons s) (hfits : CacheFits (minedBy env cons s.chain) p)
    (hminable : MinableOk p) : Inv env cons (s.rollback p) where
  valid := h.valid
  mined_eq := h.mined_eq
  fits k v hv := ⟨(hfits k v hv).1, congrFun (congrArg MinedDb.commitments h.mined_eq) k⟩
  minable := hminable

lemma connect (h : Inv env cons s) (hnext : Connectable s.chain block)
    (hrun : processBlock env cons s.chain block s.processor = .ok () p) :
    Inv env cons ⟨block :: s.chain, p⟩ := by
  obtain ⟨hhash, hnew, hheight, -⟩ := hnext
  obtain ⟨hrules, hmined, hby, hminable, hfits⟩ := processBlock_eq_ok h.fits h.mined_eq hrun
  refine ⟨.cons h.valid hhash hnew hheight hrules, hmined, fun k v hv => ?_, ?_⟩
  · -- the cache was not asked about a session after its commitment was stored
    obtain ⟨hv', heq⟩ := hfits k v hv
    rw [hmined] at heq
    change v = ((minedBy env cons (block :: s.chain)).commitments k).isSome ∧
      p.evoDb.mined.commitments k = (minedBy env cons (block :: s.chain)).commitments k
    rw [hmined, minedBy_cons, heq]
    exact ⟨hv', rfl⟩
  · exact h.minable.of_eq hby hminable

lemma disconnect_mined {chain} (h : ValidChain env cons (block :: chain)) :
    (minedBy env cons (block :: chain)).disconnect chain.length
      (minedIn env cons block chain.length) = minedBy env cons chain := by
  cases h with
  | cons hchain hhash hnew hheight hrules =>
    rw [minedBy_cons]
    split
    case isTrue hlt =>
      rw [minedIn_of_lt hlt]
      rfl
    case isFalse hge => exact hchain.disconnect_connect hheight (hrules (by omega))

lemma disconnect {chain} {fAddMinable : Bool} (h : Inv env cons s)
    (hchain : s.chain = block :: chain)
    (hrun : undoBlock env cons chain block fAddMinable s.processor = .ok () p) :
    Inv env cons ⟨chain, p⟩ := by
  obtain ⟨hvalid, hmined_eq, hfits, hminable⟩ := h
  rw [hchain] at hvalid hmined_eq hfits
  obtain ⟨hmined, hfits', hminable'⟩ := undoBlock_eq_ok hfits hminable hrun
  rw [hmined_eq, disconnect_mined hvalid] at hmined
  refine ⟨?_, hmined, fun k v hv => ?_, hminable'⟩
  · cases hvalid with
    | cons hvalid => exact hvalid
  · obtain ⟨hv', heq⟩ := hfits' k v hv
    rw [hmined] at heq ⊢
    exact ⟨by rw [hv', heq], rfl⟩

lemma connectTip {otherOk : Bool} (h : Inv env cons s)
    (hstep : s.connectTip env cons block otherOk = some s') : Inv env cons s' := by
  unfold QuorumChain.connectTip at hstep
  split at hstep
  case isFalse => cases hstep
  case isTrue hnext =>
    split at hstep
    case h_1 u p hrun =>
      cases hstep
      cases otherOk with
      | true => exact h.connect hnext hrun
      | false =>
        obtain ⟨-, -, hby, hminable, hfits⟩ := processBlock_eq_ok h.fits h.mined_eq hrun
        exact h.rollback hfits (h.minable.of_eq hby hminable)
    case h_2 => cases hstep
    case h_3 e p _ hrun =>
      cases hstep
      obtain ⟨hby, hminable, hfits⟩ := processBlock_eq_error h.fits h.mined_eq hrun
      exact h.rollback hfits (h.minable.of_eq hby hminable)

lemma disconnectTip {fAddMinable otherOk : Bool} (h : Inv env cons s)
    (hstep : s.disconnectTip env cons fAddMinable otherOk = some s') : Inv env cons s' := by
  unfold QuorumChain.disconnectTip at hstep
  split at hstep
  case h_1 => cases hstep
  case h_2 block chain hchain =>
    split at hstep
    case h_1 u p hrun =>
      cases hstep
      cases otherOk with
      | true => exact h.disconnect hchain hrun
      | false =>
        obtain ⟨-, hfits, hminable⟩ := undoBlock_eq_ok h.fits h.minable hrun
        exact h.rollback hfits hminable
    case h_2 => cases hstep
    case h_3 e p he hrun =>
      cases hstep
      rw [undoBlock_eq_error he h.fits h.minable hrun]
      exact h.rollback h.fits h.minable

lemma step {a} (h : Inv env cons s) (hstep : s.step env cons a = some s') : Inv env cons s' := by
  cases a with
  | connect block otherOk => exact h.connectTip hstep
  | disconnect fAddMinable otherOk => exact h.disconnectTip hstep
  | hasMinedCommitment llmqType quorumHash =>
    obtain ⟨p, hrun, hsame, hfits⟩ := hasMinedCommitment_spec h.fits
      (show s.processor.evoDb.mined.commitments (llmqType, quorumHash) = _ by rw [h.mined_eq])
    simp only [QuorumChain.step, call, hrun, Option.some.injEq] at hstep
    subst hstep
    exact ⟨h.valid, (congrArg EvoDb.mined hsame.evoDb).trans h.mined_eq, hfits,
      h.minable.of_eq hsame.byQuorum hsame.minable⟩
  | clearMinedCommitmentCache =>
    cases hstep
    exact ⟨h.valid, h.mined_eq, nofun, h.minable⟩
  | addMinableCommitment fqc =>
    obtain ⟨p, hrun, hdb, hcache, hminable⟩ := addMinableCommitment_spec env fqc h.minable
    simp only [QuorumChain.step, call, hrun, Option.some.injEq] at hstep
    subst hstep
    exact ⟨h.valid, (congrArg EvoDb.mined hdb).trans h.mined_eq, h.fits.of_eq hdb hcache, hminable⟩

lemma of_reach (hrun : Reach (QuorumChain.step env cons) (fun _ _ => True) {} s) : Inv env cons s :=
  hrun.invariant (I := Inv env cons) initial fun _ _ _ h _ hstep => h.step hstep

lemma commitments_iff (h : Inv env cons s) {llmqType} {quorumHash blockHash} {qc} :
    s.processor.evoDb.mined.commitments (llmqType, quorumHash) = some (qc, blockHash) ↔
      ∃ nHeight, MinesAt env cons s.chain llmqType nHeight qc ∧
        getBlockHash s.chain nHeight = some blockHash ∧ qc.quorumHash = quorumHash := by
  rw [h.mined_eq, h.valid.commitments_iff]
  simp only [minesAt_iff, getBlockHash_eq]
  constructor
  · rintro ⟨nHeight, block, hmined, rfl, htype, hhash⟩
    exact ⟨nHeight, ⟨block, hmined, htype⟩, by rw [hmined.blockAt_eq]; rfl, hhash⟩
  · rintro ⟨nHeight, ⟨block, hmined, htype⟩, hblock, hhash⟩
    rw [hmined.blockAt_eq] at hblock
    exact ⟨nHeight, block, hmined, Option.some.inj hblock, htype, hhash⟩

lemma byInversedHeight_iff (h : Inv env cons s) {k} {height : Nat} :
    s.processor.evoDb.mined.byInversedHeight k = some height ↔
      ∃ params ∈ cons.llmqs, ∃ nHeight qc, MinesAt env cons s.chain params.type nHeight qc ∧
        k = buildInversedHeightKey params.type nHeight ∧
        height = params.quorumStartHeight nHeight := by
  rw [h.mined_eq, h.valid.byInversedHeight_iff]
  simp only [minesAt_iff]
  constructor
  · rintro ⟨nHeight, block, qc, hmined, rfl, rfl⟩
    obtain ⟨-, older, -, -, -, hrules⟩ := h.valid.rulesAt hmined.blockAt_eq hmined.active
    obtain ⟨params, hok⟩ := hrules.each qc hmined.mem
    obtain ⟨hparams, htype⟩ := LlmqConsensus.find_eq_some.mp hok.find_eq
    refine ⟨params, hparams, nHeight, qc, ⟨block, hmined, htype.symm⟩, by rw [htype], ?_⟩
    rw [quorumHeight, hok.find_eq]
    rfl
  · rintro ⟨params, hparams, nHeight, qc, ⟨block, hmined, htype⟩, rfl, rfl⟩
    have hfind := LlmqConsensus.find_eq_some.mpr ⟨hparams, htype.symm⟩
    refine ⟨nHeight, block, qc, hmined, by rw [htype], ?_⟩
    rw [quorumHeight, hfind]
    rfl

lemma undo_restores {p'} {fAddMinable : Bool} {u}
    (h : Inv env cons s) (hnext : Connectable s.chain block)
    (hrun : processBlock env cons s.chain block s.processor = .ok () p)
    (hundo : undoBlock env cons s.chain block fAddMinable p = .ok u p') :
    p'.evoDb.mined = s.processor.evoDb.mined := by
  have hconnected := h.connect hnext hrun
  rw [(hconnected.disconnect rfl hundo).mined_eq, h.mined_eq]

lemma undo_succeeds (h : Inv env cons s) (hchain : s.chain ≠ [])
    (hactive : cons.DIP0003Height ≤ s.chain.length) (hnext : Connectable s.chain block)
    (hrun : processBlock env cons s.chain block s.processor = .ok () p) (fAddMinable : Bool) :
    ∃ p', undoBlock env cons s.chain block fAddMinable p = .ok () p' := by
  have hconnected := h.connect hnext hrun
  obtain ⟨hrules, -⟩ := processBlock_eq_ok h.fits h.mined_eq hrun
  exact undoBlock_of_parses hconnected.fits hconnected.minable hchain (hrules hactive).parses

end Inv

/-- In every run the commitments of the active chain keep to the windows of their sessions
from the height on from which they are active, the records are those of the mined
commitments, and undoing a block restores the records before it. -/
theorem commitments_follow_sessions {s : QuorumChain G₁ G₂}
    (hrun : Reach (QuorumChain.step env cons) (fun _ _ => True) {} s) :
    (∀ params ∈ cons.llmqs, TypeRules env cons s.chain params) ∧
    (∀ llmqType quorumHash qc blockHash,
      s.processor.evoDb.mined.commitments (llmqType, quorumHash) = some (qc, blockHash) ↔
        ∃ nHeight, MinesAt env cons s.chain llmqType nHeight qc ∧
          getBlockHash s.chain nHeight = some blockHash ∧ qc.quorumHash = quorumHash) ∧
    (∀ k height, s.processor.evoDb.mined.byInversedHeight k = some height ↔
      ∃ params ∈ cons.llmqs, ∃ nHeight qc, MinesAt env cons s.chain params.type nHeight qc ∧
        k = buildInversedHeightKey params.type nHeight ∧
        height = params.quorumStartHeight nHeight) ∧
    ∀ block p fAddMinable, Connectable s.chain block →
      processBlock env cons s.chain block s.processor = .ok () p →
      (∀ p', undoBlock env cons s.chain block fAddMinable p = .ok () p' →
        p'.evoDb.mined = s.processor.evoDb.mined) ∧
      (s.chain ≠ [] → cons.DIP0003Height ≤ s.chain.length →
        ∃ p', undoBlock env cons s.chain block fAddMinable p = .ok () p') := by
  have h := Inv.of_reach hrun
  refine ⟨fun params hparams => h.valid.typeRules hparams,
    fun _ _ _ _ => h.commitments_iff, fun _ _ => h.byInversedHeight_iff, ?_⟩
  intro block p fAddMinable hnext hprocess
  exact ⟨fun p' hundo => h.undo_restores hnext hprocess hundo,
    fun hchain hactive => h.undo_succeeds hchain hactive hnext hprocess fAddMinable⟩

end QuorumChain

section

/-- A payload is the type, the session and whether the commitment is not null; every
signature verifies. -/
def oneKeyEnv : CommitmentEnv Unit Unit where
  scheme := ⟨fun _ _ => (), fun _ _ => (), fun _ _ _ => true, fun _ _ _ => true⟩
  verifySecureAggregated _ _ _ := true
  buildCommitmentHash _ _ _ _ _ := 0
  serializeHash qc := qc.quorumHash
  getTxPayload
    | [llmqType, quorumHash, mined] =>
      let full := List.replicate 5 (mined != 0)
      let el := if mined != 0 then some () else none
      some ⟨1, 0, ⟨1, llmqType, quorumHash.toNat, full, full, el,
        if mined != 0 then 1 else 0, el, el⟩⟩
    | _ => none
  getAllQuorumMembers _ _ := List.replicate 5 (some ())

def numberedBlock (n : Nat) (payloads : List (List UInt8)) : CBlock :=
  ⟨n + 1, n, payloads.map fun payload =>
    ⟨3, TRANSACTION_QUORUM_COMMITMENT, [], [], 0, payload⟩⟩

def connectNumbered (n : Nat) (payloads : List (List UInt8)) : QuorumAction Unit Unit :=
  .connect (numberedBlock n payloads) true

def llmq5From (DIP0003Height : Nat) : LlmqConsensus := ⟨DIP0003Height, [.llmq5_60], by decide⟩

/-- The window of the first session is from block 10 on: a null commitment, a commitment, and
a block without. -/
def firstWindow : List (QuorumAction Unit Unit) :=
  (List.range 10).map (connectNumbered · []) ++
    [connectNumbered 10 [[100, 1, 0]], connectNumbered 11 [[100, 1, 1]], connectNumbered 12 []]

def endsMined (s : QuorumChain Unit Unit) : Bool :=
  s.chain.length == 13 && ((commitmentsAt oneKeyEnv s.chain 11 100).map (·.isNull)) == [false] &&
    ((commitmentsAt oneKeyEnv s.chain 10 100).map (·.isNull)) == [true]

theorem commitments_follow_sessions_firstWindow : ∃ s,
    Reach (QuorumChain.step oneKeyEnv (llmq5From 1)) (fun _ _ => True) {} s ∧
    endsMined s = true ∧ TypeRules oneKeyEnv (llmq5From 1) s.chain .llmq5_60 := by
  have hruns : (firstWindow.foldlM (QuorumChain.step oneKeyEnv (llmq5From 1)) {}).any
      endsMined = true := by decide +kernel
  obtain ⟨s, hs, hmined⟩ := (Option.any_eq_true ..).mp hruns
  have hreach : Reach (QuorumChain.step oneKeyEnv (llmq5From 1)) (fun _ _ => True) {} s :=
    Reach.of_foldlM .init (fun _ _ _ => trivial) hs
  exact ⟨s, hreach, hmined,
    (QuorumChain.commitments_follow_sessions hreach).1 _ (mem_singleton_self _)⟩

/-- Commitments are active from block 11 on: the first of them is mined there, and block 10
of the same window carries none. -/
def lateWindow : List (QuorumAction Unit Unit) :=
  (List.range 11).map (connectNumbered · []) ++
    [connectNumbered 11 [[100, 1, 1]], connectNumbered 12 []]

theorem block_before_activation_carries_none : ∃ s,
    Reach (QuorumChain.step oneKeyEnv (llmq5From 11)) (fun _ _ => True) {} s ∧
    (∃ qc ∈ commitmentsAt oneKeyEnv s.chain 11 100, qc.isNull = false) ∧
    LLMQParams.llmq5_60.quorumStartHeight 10 = LLMQParams.llmq5_60.quorumStartHeight 11 ∧
    LLMQParams.llmq5_60.isMiningPhase 10 = true ∧
    commitmentsAt oneKeyEnv s.chain 10 100 = [] := by
  have hruns : (lateWindow.foldlM (QuorumChain.step oneKeyEnv (llmq5From 11)) {}).any
      (fun s => (commitmentsAt oneKeyEnv s.chain 11 100).any (!·.isNull) &&
        (commitmentsAt oneKeyEnv s.chain 10 100).isEmpty) = true := by decide +kernel
  obtain ⟨s, hs, hmined⟩ := (Option.any_eq_true ..).mp hruns
  simp only [Bool.and_eq_true, any_eq_true, Bool.not_eq_true', List.isEmpty_iff] at hmined
  exact ⟨s, Reach.of_foldlM .init (fun _ _ _ => trivial) hs, hmined.1, by decide, by decide,
    hmined.2⟩

end

end Firo.Llmq
