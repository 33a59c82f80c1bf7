import Firo.Llmq.QuorumRun

/-! The commitments that wait to be mined: `ProcessMessage`, `AddMinableCommitment` and
`GetMinableCommitment` of `CQuorumBlockProcessor`. For a session the first commitment stays until
`AddMinableCommitment` brings one with more signers. A message never replaces it, since the test
ahead of the verification drops the better commitments. -/
namespace Firo.Llmq

open Firo.Lib Firo.Spark
open Function (update_self update update_of_ne)

variable {G₁ G₂ : Type}

namespace CFinalCommitment

def ofSession (params : LLMQParams) (quorumHash : Uint256) : CFinalCommitment G₁ G₂ where
  llmqType := params.type
  quorumHash
  signers := List.replicate params.size false
  validMembers := List.replicate params.size false

def session (qc : CFinalCommitment G₁ G₂) : UInt8 × Uint256 := (qc.llmqType, qc.quorumHash)

end CFinalCommitment

section

variable (env : CommitmentEnv G₁ G₂) (cons : LlmqConsensus)

def heightOf (chain : List CBlock) (hash : Uint256) : Option Nat :=
  chain.reverse.findIdx? fun block => block.hash == hash

def CQuorumBlockProcessor.known (p : CQuorumBlockProcessor G₁ G₂) (k : UInt8 × Uint256) :
    Option (CFinalCommitment G₁ G₂) :=
  (p.minableCommitmentsByQuorum k).bind p.minableCommitments

/-- `ProcessMessage` of a commitment; the result is the score of the peer. A block that is not in
the active chain is not held against the peer. -/
def processMessage (chain : List CBlock) (qc : CFinalCommitment G₁ G₂) : ProcM G₁ G₂ Nat := do
  if qc.isNull then return 100
  match cons.find qc.llmqType with
  | none => return 100
  | some params =>
    match heightOf chain qc.quorumHash with
    | none => return 0
    | some nHeight =>
      if params.quorumStartHeight nHeight ≠ nHeight then return 100
      let p ← get
      if (p.known qc.session).any fun old => decide (old.countSigners ≤ qc.countSigners) then
        return 0
      if !qc.verify env cons (env.getAllQuorumMembers params.type qc.quorumHash) true then
        return 100
      addMinableCommitment env qc
      return 0

def getMinableCommitment (chain : List CBlock) (params : LLMQParams) (nHeight : Nat) :
    ProcM G₁ G₂ (Option (CFinalCommitment G₁ G₂)) := do
  let isRequired ← isCommitmentRequired chain params nHeight
  if !isRequired then return none
  let quorumHash := getQuorumBlockHash chain params nHeight
  if quorumHash = 0 then return none
  let p ← get
  match p.minableCommitmentsByQuorum (params.type, quorumHash) with
  | none => return some (.ofSession params quorumHash)
  | some hash =>
    match p.minableCommitments hash with
    | none => throw .abort
    | some qc => return some qc

/-- A commitment that a peer sends while the given chain is active, or that is added directly. -/
inductive Arrival (G₁ G₂ : Type) where
  | message (chain : List CBlock) (qc : CFinalCommitment G₁ G₂)
  | add (qc : CFinalCommitment G₁ G₂)

namespace Arrival

def qc : Arrival G₁ G₂ → CFinalCommitment G₁ G₂
  | .message _ qc => qc
  | .add qc => qc

def run : Arrival G₁ G₂ → ProcM G₁ G₂ Unit
  | .message chain qc => do let _ ← processMessage env cons chain qc
  | .add qc => addMinableCommitment env qc

def runAll : List (Arrival G₁ G₂) → ProcM G₁ G₂ Unit
  | [] => return ()
  | d :: ds => do
    d.run env cons
    runAll ds

def Valid : Arrival G₁ G₂ → Prop
  | .message chain qc => qc.isNull = false ∧ (∃ params, cons.find qc.llmqType = some params ∧
        (∃ nHeight, heightOf chain qc.quorumHash = some nHeight ∧
          params.quorumStartHeight nHeight = nHeight) ∧
        qc.verify env cons (env.getAllQuorumMembers params.type qc.quorumHash) true = true)
  | .add _ => True

end Arrival

end

variable {env : CommitmentEnv G₁ G₂} {cons : LlmqConsensus} {p : CQuorumBlockProcessor G₁ G₂}
  {k : UInt8 × Uint256} {qc best : CFinalCommitment G₁ G₂} {d : Arrival G₁ G₂}

structure Knows (env : CommitmentEnv G₁ G₂) (p : CQuorumBlockProcessor G₁ G₂)
    (k : UInt8 × Uint256) (best : CFinalCommitment G₁ G₂) : Prop where
  byQuorum : p.minableCommitmentsByQuorum k = some (env.serializeHash best)
  minable : p.minableCommitments (env.serializeHash best) = some best

lemma Knows.known_eq (h : Knows env p k best) : p.known k = some best := by
  unfold CQuorumBlockProcessor.known
  rw [h.byQuorum]
  exact h.minable

def CQuorumBlockProcessor.put (env : CommitmentEnv G₁ G₂) (p : CQuorumBlockProcessor G₁ G₂)
    (qc : CFinalCommitment G₁ G₂) : CQuorumBlockProcessor G₁ G₂ :=
  { p with
    minableCommitmentsByQuorum :=
      update p.minableCommitmentsByQuorum qc.session (some (env.serializeHash qc))
    minableCommitments :=
      update p.minableCommitments (env.serializeHash qc) (some qc) }

lemma Knows.put (env) (p : CQuorumBlockProcessor G₁ G₂)
    (qc) : Knows env (p.put env qc) qc.session qc :=
  ⟨update_self .., update_self ..⟩

lemma addMinableCommitment_first (hnone : p.minableCommitmentsByQuorum qc.session = none)
    (hfresh : p.minableCommitments (env.serializeHash qc) = none) :
    addMinableCommitment env qc p = .ok () (p.put env qc) := by
  unfold addMinableCommitment
  rw [get_bind_apply]
  unfold CFinalCommitment.session at hnone
  simp only [hnone, hfresh, Option.isSome_none, Bool.false_eq_true, if_false]
  rfl

/-- A later commitment replaces the known one exactly if it has more signers. -/
lemma addMinableCommitment_next (h : Knows env p qc.session best) : addMinableCommitment env qc p =
      .ok () (if best.countSigners < qc.countSigners then p.put env qc else p) := by
  have hby := h.byQuorum
  unfold CFinalCommitment.session at hby
  unfold addMinableCommitment
  rw [get_bind_apply]
  simp only [hby, h.minable]
  split
  · rfl
  · rfl

variable {chain : List CBlock}

lemma processMessage_of_valid (hvalid : (Arrival.message chain qc).Valid env cons) :
    processMessage env cons chain qc p =
      if (p.known qc.session).any fun old => decide (old.countSigners ≤ qc.countSigners) then
        .ok 0 p
      else (do addMinableCommitment env qc; return 0 : ProcM G₁ G₂ Nat) p := by
  obtain ⟨hnull, params, hparams, ⟨nHeight, hheight, hstart⟩, hverify⟩ := hvalid
  unfold processMessage
  simp only [hnull, Bool.false_eq_true, if_false, hparams, hheight, hstart, ne_eq,
    not_true_eq_false, get_bind_apply, hverify, Bool.not_true]
  split
  · rfl
  · rfl

lemma Arrival.run_first (hvalid : d.Valid env cons)
    (hnone : p.minableCommitmentsByQuorum d.qc.session = none)
    (hfresh : p.minableCommitments (env.serializeHash d.qc) = none) :
    d.run env cons p = .ok () (p.put env d.qc) := by
  cases d with
  | message chain qc =>
    have hunknown : p.known qc.session = none := by
      unfold CQuorumBlockProcessor.known
      rw [show p.minableCommitmentsByQuorum qc.session = none from hnone]
      rfl
    have hadd := addMinableCommitment_first hnone hfresh
    have hmessage : processMessage env cons chain qc p = .ok 0 (p.put env qc) := by
      rw [processMessage_of_valid hvalid, hunknown]
      exact estate_bind_of_ok hadd
    exact estate_bind_of_ok hmessage
  | add qc => exact addMinableCommitment_first hnone hfresh

/-- The commitment of a session behind a delivery, if there was one before. -/
def Arrival.settle (best : CFinalCommitment G₁ G₂) : Arrival G₁ G₂ → CFinalCommitment G₁ G₂
  | .message _ _ => best
  | .add qc => if best.countSigners < qc.countSigners then qc else best

lemma Arrival.run_message (hvalid : (Arrival.message chain qc).Valid env cons)
    (h : Knows env p qc.session best) : (Arrival.message chain qc).run env cons p = .ok () p := by
  have hmessage : processMessage env cons chain qc p = .ok 0 p := by
    rw [processMessage_of_valid hvalid, h.known_eq]
    by_cases hle : best.countSigners ≤ qc.countSigners
    · rw [if_pos (by simpa using hle)]
    · rw [if_neg (by simpa using hle)]
      have hadd := addMinableCommitment_next h
      rw [if_neg (fun hlt => hle hlt.le)] at hadd
      exact estate_bind_of_ok hadd
  exact estate_bind_of_ok hmessage

lemma Arrival.run_cases (hvalid : d.Valid env cons) (h : Knows env p d.qc.session best) :
    (d.run env cons p = .ok () p ∧ d.settle best = best) ∨
    (d.run env cons p = .ok () (p.put env d.qc) ∧ d.settle best = d.qc ∧
      best.countSigners < d.qc.countSigners) := by
  cases d with
  | message chain qc => exact .inl ⟨run_message hvalid h, rfl⟩
  | add qc =>
    have hadd := addMinableCommitment_next (show Knows env p qc.session best from h)
    by_cases hlt : best.countSigners < qc.countSigners
    · rw [if_pos hlt] at hadd
      exact .inr ⟨hadd, if_pos hlt, hlt⟩
    · rw [if_neg hlt] at hadd
      exact .inl ⟨hadd, if_neg hlt⟩

/-- `minableCommitments` has exactly one entry for each session that is known. -/
structure OneEach (p : CQuorumBlockProcessor G₁ G₂) : Prop where
  indexed : ∀ k hash, p.minableCommitmentsByQuorum k = some hash →
    ∃ qc, p.minableCommitments hash = some qc ∧ qc.session = k
  single : ∀ hash qc, p.minableCommitments hash = some qc →
    p.minableCommitmentsByQuorum qc.session = some hash

lemma OneEach.put (h : OneEach p) (hnone : p.minableCommitmentsByQuorum qc.session = none)
    (hfresh : p.minableCommitments (env.serializeHash qc) = none) : OneEach (p.put env qc) where
  indexed k hash hk := by
    change update p.minableCommitmentsByQuorum qc.session _ k = some hash at hk
    by_cases heq : k = qc.session
    · rw [heq, update_self, Option.some.injEq] at hk
      subst hk
      exact ⟨qc, update_self .., heq.symm⟩
    · rw [update_of_ne heq] at hk
      obtain ⟨old, hold, hsession⟩ := h.indexed k hash hk
      refine ⟨old, ?_, hsession⟩
      have hne : hash ≠ env.serializeHash qc := by
        rintro rfl
        rw [hfresh] at hold
        cases hold
      exact (update_of_ne hne ..).trans hold
  single hash old hold := by
    change update p.minableCommitments (env.serializeHash qc) _ hash = some old at hold
    change update p.minableCommitmentsByQuorum qc.session _ old.session = some hash
    by_cases heq : hash = env.serializeHash qc
    · rw [heq, update_self, Option.some.injEq] at hold
      rw [← hold, update_self, heq]
    · rw [update_of_ne heq] at hold
      have hknown := h.single hash old hold
      have hne : old.session ≠ qc.session := by
        intro hsession
        rw [hsession, hnone] at hknown
        cases hknown
      exact (update_of_ne hne ..).trans hknown

def HashesApart (env : CommitmentEnv G₁ G₂) (ds : List (Arrival G₁ G₂)) : Prop :=
  ∀ x ∈ ds, ∀ y ∈ ds, env.serializeHash x.qc = env.serializeHash y.qc → x.qc = y.qc

/-- What deliveries for a session with the known commitment `best` lead to. -/
structure Settled (env : CommitmentEnv G₁ G₂) (k : UInt8 × Uint256) (ds : List (Arrival G₁ G₂))
    (best : CFinalCommitment G₁ G₂) (p p' : CQuorumBlockProcessor G₁ G₂) : Prop where
  knows : Knows env p' k (ds.foldl Arrival.settle best)
  unchanged : (∀ x ∈ ds, x.qc.countSigners ≤ best.countSigners) → p' = p
  kept : ∀ old, (∀ x ∈ ds, env.serializeHash x.qc = env.serializeHash old → x.qc = old) →
    p.minableCommitments (env.serializeHash old) = some old →
    p'.minableCommitments (env.serializeHash old) = some old

/-- Further deliveries settle on the known commitment or on a better one of theirs. -/
lemma Arrival.runAll_next {ds} (hsession : ∀ x ∈ ds, x.qc.session = k)
    (hvalid : ∀ x ∈ ds, x.Valid env cons) (h : Knows env p k best) :
    ∃ p', runAll env cons ds p = .ok () p' ∧ Settled env k ds best p p' := by
  induction ds generalizing p best with
  | nil => exact ⟨p, rfl, h, fun _ => rfl, fun _ _ => id⟩
  | cons d ds ih =>
    rw [List.forall_mem_cons] at hsession hvalid
    rcases d.run_cases hvalid.1 (hsession.1 ▸ h) with ⟨hrun, hstay⟩ | ⟨hrun, hnew, hlt⟩
    · obtain ⟨p', hp', hknows, hunchanged, hkept⟩ := ih hsession.2 hvalid.2 h
      refine ⟨p', (estate_bind_of_ok hrun).trans hp', ?_, fun hall => ?_, fun old hold => ?_⟩
      · rw [List.foldl_cons, hstay]
        exact hknows
      · exact hunchanged (List.forall_mem_cons.mp hall).2
      · exact hkept old (List.forall_mem_cons.mp hold).2
    · have hput : Knows env (p.put env d.qc) k d.qc := hsession.1 ▸ Knows.put env p d.qc
      obtain ⟨p', hp', hknows, -, hkept⟩ := ih hsession.2 hvalid.2 hput
      refine ⟨p', (estate_bind_of_ok hrun).trans hp', ?_, fun hall => ?_, fun old hold hin => ?_⟩
      · rw [List.foldl_cons, hnew]
        exact hknows
      · exact absurd hlt (not_lt.mpr (List.forall_mem_cons.mp hall).1)
      · rw [List.forall_mem_cons] at hold
        apply hkept old hold.2
        by_cases hhash : env.serializeHash old = env.serializeHash d.qc
        · rw [← hold.1 hhash.symm]
          exact (Knows.put env p d.qc).minable
        · exact (update_of_ne hhash ..).trans hin

/-- The settled commitment is one of those delivered, with no fewer signers than the first. -/
lemma countSigners_foldl_settle (ds : List (Arrival G₁ G₂)) (best : CFinalCommitment G₁ G₂) :
    best.countSigners ≤ (ds.foldl Arrival.settle best).countSigners ∧
      ds.foldl Arrival.settle best ∈ best :: ds.map Arrival.qc := by
  induction ds generalizing best with
  | nil => exact ⟨le_rfl, List.mem_cons_self⟩
  | cons d ds ih =>
    obtain ⟨hbest, hmem⟩ := ih (d.settle best)
    have hle : best.countSigners ≤ (d.settle best).countSigners ∧
        (d.settle best = best ∨ d.settle best = d.qc) := by
      cases d with
      | message chain qc => exact ⟨le_rfl, .inl rfl⟩
      | add qc =>
        by_cases hlt : best.countSigners < qc.countSigners
        · rw [Arrival.settle, if_pos hlt]
          exact ⟨hlt.le, .inr rfl⟩
        · rw [Arrival.settle, if_neg hlt]
          exact ⟨le_rfl, .inl rfl⟩
    refine ⟨hle.1.trans hbest, ?_⟩
    rw [List.mem_cons] at hmem
    rw [List.foldl_cons, List.map_cons, List.mem_cons, List.mem_cons]
    rcases hmem with heq | hmem
    · rw [heq]
      exact hle.2.imp_right .inl
    · exact .inr (.inr hmem)

variable {params : LLMQParams} {nHeight : Nat} {p' : CQuorumBlockProcessor G₁ G₂}

lemma isCommitmentRequired_sameRecords {isRequired : Bool}
    (h : isCommitmentRequired chain params nHeight p = .ok isRequired p') :
    SameRecords p p' ∧ (isRequired = true → getQuorumBlockHash chain params nHeight ≠ 0) := by
  unfold isCommitmentRequired at h
  split at h
  case isTrue hzero =>
    cases h
    exact ⟨.refl p, nofun⟩
  case isFalse hne =>
    refine ⟨?_, fun _ => hne⟩
    unfold hasMinedCommitment at h
    cases hcache : p.hasMinedCommitmentCache (params.type,
      getQuorumBlockHash chain params nHeight) with
    | none =>
      simp only [get_bind_apply, bind_assoc, hcache, set_bind_apply, pure_bind] at h
      cases h
      exact ⟨rfl, rfl, rfl⟩
    | some ret =>
      simp only [get_bind_apply, bind_assoc, hcache, pure_bind] at h
      cases h
      exact .refl p

lemma getMinableCommitment_of_knows
    (h : Knows env p (params.type, getQuorumBlockHash chain params nHeight) best)
    (hrequired : isCommitmentRequired chain params nHeight p = .ok true p') :
    getMinableCommitment chain params nHeight p = .ok (some best) p' := by
  obtain ⟨hsame, hne⟩ := isCommitmentRequired_sameRecords hrequired
  unfold getMinableCommitment
  rw [estate_bind_of_ok hrequired]
  simp only [Bool.not_true, Bool.false_eq_true, if_false, hne rfl, get_bind_apply,
    hsame.byQuorum, hsame.minable, h.byQuorum, h.minable]
  rfl

/-- Valid commitments for a session of which none is known are delivered. If no later one has more
signers than the first, the commitment to be mined is one of them with the most signers and
`minableCommitments` has one entry for each session. If the hashes tell the commitments apart, this
is the only case. -/
theorem minable_commitment_best (env : CommitmentEnv G₁ G₂) (cons : LlmqConsensus)
    (k : UInt8 × Uint256) (p : CQuorumBlockProcessor G₁ G₂) (d : Arrival G₁ G₂)
    (ds : List (Arrival G₁ G₂)) (hsession : ∀ x ∈ d :: ds, x.qc.session = k)
    (hvalid : ∀ x ∈ d :: ds, x.Valid env cons) (hnew : p.minableCommitmentsByQuorum k = none)
    (hfresh : p.minableCommitments (env.serializeHash d.qc) = none) (hone : OneEach p) :
    ∃ p' best, Arrival.runAll env cons (d :: ds) p = .ok () p' ∧ (∃ x ∈ d :: ds, x.qc = best) ∧
      (∀ chain params nHeight p'', (params.type, getQuorumBlockHash chain params nHeight) = k →
        isCommitmentRequired chain params nHeight p' = .ok true p'' →
        getMinableCommitment chain params nHeight p' = .ok (some best) p'') ∧
      ((∀ x ∈ d :: ds, x.qc.countSigners ≤ d.qc.countSigners) →
        (∀ x ∈ d :: ds, x.qc.countSigners ≤ best.countSigners) ∧ OneEach p') ∧
      (HashesApart env (d :: ds) →
        (∀ x ∈ d :: ds, x.qc.countSigners ≤ best.countSigners) ∧ OneEach p' →
        ∀ x ∈ d :: ds, x.qc.countSigners ≤ d.qc.countSigners) := by
  have hd := hsession d List.mem_cons_self
  have hnone : p.minableCommitmentsByQuorum d.qc.session = none := hd ▸ hnew
  have hfirst := d.run_first (hvalid d List.mem_cons_self) hnone hfresh
  have hput : Knows env (p.put env d.qc) k d.qc := hd ▸ Knows.put env p d.qc
  obtain ⟨p', hp', hsettled⟩ := Arrival.runAll_next
    (fun x hx => hsession x (List.mem_cons_of_mem _ hx))
    (fun x hx => hvalid x (List.mem_cons_of_mem _ hx)) hput
  obtain ⟨hbest, hmem⟩ := countSigners_foldl_settle ds d.qc
  refine ⟨p', ds.foldl Arrival.settle d.qc, (estate_bind_of_ok hfirst).trans hp',
    List.mem_map.mp hmem, ?_, ?_, ?_⟩
  · intro chain params nHeight p'' hk hrequired
    exact getMinableCommitment_of_knows (hk ▸ hsettled.knows) hrequired
  · intro hmax
    refine ⟨fun x hx => (hmax x hx).trans hbest, ?_⟩
    rw [hsettled.unchanged fun x hx => hmax x (List.mem_cons_of_mem _ hx)]
    exact hone.put hnone hfresh
  · rintro hapart ⟨hmax, hone'⟩
    -- the first commitment is still there by its hash, so it is the one of the session
    have hold := hsettled.kept d.qc
      (fun x hx => hapart x (List.mem_cons_of_mem _ hx) d List.mem_cons_self) hput.minable
    have hby := hone'.single _ _ hold
    rw [hd, hsettled.knows.byQuorum, Option.some.injEq] at hby
    have hminable := hsettled.knows.minable
    rw [hby, hold, Option.some.injEq] at hminable
    rw [hminable]
    exact hmax

def countedEnv : CommitmentEnv Unit Unit :=
  { oneKeyEnv with serializeHash := fun qc => BitVec.ofNat 256 qc.countSigners }

/-- A commitment of all five members with a number of signers, for the session of the first
block. -/
def signedBy (n : Nat) : CFinalCommitment Unit Unit where
  llmqType := 100
  quorumHash := 1
  signers := (List.range 5).map fun i => decide (i < n)
  validMembers := List.replicate 5 true
  quorumPublicKey := some ()
  quorumVvecHash := 1
  quorumSig := some ()
  membersSig := some ()

def firstBlock : List CBlock := [numberedBlock 0 []]

lemma signedBy_valid {n : Nat} (hn : n = 3 ∨ n = 5) :
    (Arrival.message firstBlock (signedBy n)).Valid countedEnv (llmq5From 1) := by
  rcases hn with rfl | rfl
  · exact ⟨by decide, .llmq5_60, rfl, ⟨0, by decide, by decide⟩, by decide⟩
  · exact ⟨by decide, .llmq5_60, rfl, ⟨0, by decide, by decide⟩, by decide⟩

lemma oneEach_empty : OneEach ({} : CQuorumBlockProcessor G₁ G₂) :=
  ⟨nofun, nofun⟩

theorem minable_commitment_best_first : ∃ p', ∃ best : CFinalCommitment Unit Unit,
    Arrival.runAll countedEnv (llmq5From 1)
      [.message firstBlock (signedBy 5), .add (signedBy 3)] {} = .ok () p' ∧
    (best = signedBy 5 ∨ best = signedBy 3) ∧ 5 ≤ best.countSigners ∧ OneEach p' := by
  obtain ⟨p', best, hrun, ⟨x, hx, rfl⟩, -, hbest, -⟩ :=
    minable_commitment_best countedEnv (llmq5From 1) (100, 1)
    {} (.message firstBlock (signedBy 5)) [.add (signedBy 3)]
    (by simp [Arrival.qc, CFinalCommitment.session, signedBy])
    (by
      rw [List.forall_mem_cons, List.forall_mem_singleton]
      exact ⟨signedBy_valid (.inr rfl), trivial⟩)
    rfl rfl oneEach_empty
  obtain ⟨hmax, hone⟩ := hbest (by simp [Arrival.qc]; decide)
  refine ⟨p', x.qc, hrun, ?_, hmax _ List.mem_cons_self, hone⟩
  rw [List.mem_pair] at hx
  rcases hx with rfl | rfl
  · exact .inl rfl
  · exact .inr rfl

/-- A message with five signers is dropped behind one with three. Added directly it wins, but then
there are two entries for the session. -/
theorem better_message_dropped :
    (∀ x ∈ [Arrival.message firstBlock (signedBy 3), .message firstBlock (signedBy 5)],
      x.Valid countedEnv (llmq5From 1)) ∧
    (∃ p' p'', Arrival.runAll countedEnv (llmq5From 1)
        [.message firstBlock (signedBy 3), .message firstBlock (signedBy 5)] {} = .ok () p' ∧
      getMinableCommitment firstBlock .llmq5_60 10 p' = .ok (some (signedBy 3)) p'') ∧
    ∃ p' p'', Arrival.runAll countedEnv (llmq5From 1)
        [.message firstBlock (signedBy 3), .add (signedBy 5)] {} = .ok () p' ∧
      getMinableCommitment firstBlock .llmq5_60 10 p' = .ok (some (signedBy 5)) p'' ∧
      p'.minableCommitments 3 = some (signedBy 3) ∧ p'.minableCommitments 5 =
        some (signedBy 5) := by
  refine ⟨?_, ⟨_, _, rfl, rfl⟩, _, _, rfl, rfl, rfl, rfl⟩
  rw [List.forall_mem_cons, List.forall_mem_singleton]
  exact ⟨signedBy_valid (.inl rfl), signedBy_valid (.inr rfl)⟩

end Firo.Llmq
