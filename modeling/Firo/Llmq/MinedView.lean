import Firo.Llmq.QuorumRun

/-! Blocks are processed and undone inside a transaction of the database, which ends with a commit
or a rollback; `HasMinedCommitment` may be asked at any point. The cache is dropped where the
transaction writes, and not where it is rolled back. -/
namespace Firo.Llmq

open Firo.Lib Firo.Spark Firo.Bls Function

variable {G₁ G₂ : Type} {env : CommitmentEnv G₁ G₂} {cons : LlmqConsensus}

/-- What the cache tells is what the current view of the database has. -/
def CacheTells (p : CQuorumBlockProcessor G₁ G₂) : Prop :=
  ∀ k v, p.hasMinedCommitmentCache k = some v → v = (p.evoDb.mined.commitments k).isSome

def Answers (p : CQuorumBlockProcessor G₁ G₂) : Prop :=
  ∀ llmqType quorumHash, ∃ p', hasMinedCommitment llmqType quorumHash p =
    .ok (p.evoDb.mined.commitments (llmqType, quorumHash)).isSome p'

section

variable {p p' : CQuorumBlockProcessor G₁ G₂} {llmqType : UInt8} {quorumHash : Uint256}

lemma hasMinedCommitment_of_cached {v : Bool}
    (h : p.hasMinedCommitmentCache (llmqType, quorumHash) = some v) :
    hasMinedCommitment llmqType quorumHash p = .ok v p := by
  unfold hasMinedCommitment
  rw [get_bind_apply, h]
  rfl

def CQuorumBlockProcessor.remember (p : CQuorumBlockProcessor G₁ G₂) (k : UInt8 × Uint256) :
    CQuorumBlockProcessor G₁ G₂ :=
  { p with
    hasMinedCommitmentCache := Function.update p.hasMinedCommitmentCache k
      (some (p.evoDb.mined.commitments k).isSome) }

lemma hasMinedCommitment_of_not_cached
    (h : p.hasMinedCommitmentCache (llmqType, quorumHash) = none) :
    hasMinedCommitment llmqType quorumHash p =
      .ok (p.evoDb.mined.commitments (llmqType, quorumHash)).isSome
        (p.remember (llmqType, quorumHash)) := by
  unfold hasMinedCommitment
  rw [get_bind_apply, h]
  rfl

lemma answers_iff : Answers p ↔ CacheTells p := by
  constructor
  · rintro h ⟨llmqType, quorumHash⟩ v hcached
    obtain ⟨p', hp'⟩ := h llmqType quorumHash
    rw [hasMinedCommitment_of_cached hcached] at hp'
    cases hp'
    rfl
  · intro h llmqType quorumHash
    cases hcached : p.hasMinedCommitmentCache (llmqType, quorumHash) with
    | some v =>
      rw [hasMinedCommitment_of_cached hcached, ← h _ _ hcached]
      exact ⟨p, rfl⟩
    | none =>
      rw [hasMinedCommitment_of_not_cached hcached]
      exact ⟨_, rfl⟩

namespace CacheTells

lemma of_empty (h : p.hasMinedCommitmentCache = fun _ => none) : CacheTells p := by
  intro k v hv
  rw [h] at hv
  cases hv

lemma of_eq (h : CacheTells p) (hdb : p'.evoDb.mined = p.evoDb.mined)
    (hcache : p'.hasMinedCommitmentCache = p.hasMinedCommitmentCache) : CacheTells p' := by
  intro k v hv
  rw [hcache] at hv
  rw [hdb]
  exact h k v hv

lemma drop {k} (h : CacheTells p)
    (hdb : ∀ k' ≠ k, p'.evoDb.mined.commitments k' = p.evoDb.mined.commitments k')
    (hcache : p'.hasMinedCommitmentCache = Function.update p.hasMinedCommitmentCache k none) :
    CacheTells p' := by
  intro k' v hv
  rw [hcache] at hv
  rcases eq_or_ne k' k with rfl | hne
  · rw [update_self] at hv
    cases hv
  · rw [update_of_ne hne] at hv
    rw [hdb k' hne]
    exact h k' v hv

lemma remember (h : CacheTells p) (k) : CacheTells (p.remember k) := by
  intro k' v hv
  unfold CQuorumBlockProcessor.remember at hv
  dsimp only at hv
  rcases eq_or_ne k' k with rfl | hne
  · rw [update_self] at hv
    exact (Option.some.inj hv).symm
  · rw [update_of_ne hne] at hv
    exact h k' v hv

lemma store (h : CacheTells p) (params) (nHeight : Nat) (blockHash)
    (qc) : CacheTells (p.store params nHeight blockHash qc) :=
  h.drop (fun _ hne => update_of_ne hne _ _) rfl

lemma unstore (h : CacheTells p) (nHeight : Nat) (qc) : CacheTells (p.unstore nHeight qc) :=
  h.drop (fun _ hne => update_of_ne hne _ _) rfl

end CacheTells

lemma remember_of_not_cached {I : CQuorumBlockProcessor G₁ G₂ → Prop}
    (hremember : ∀ p k, I p → I (p.remember k)) (llmqType) (quorumHash) :
    Keeps I (hasMinedCommitment llmqType quorumHash : ProcM G₁ G₂ Bool) := by
  apply Keeps.get_bind
  intro p h
  cases hcached : p.hasMinedCommitmentCache (llmqType, quorumHash) with
  | some v => exact .pure v
  | none => exact .bind (.set (hremember p (llmqType, quorumHash) h)) fun _ => .pure _

end

/-- The sessions of the commitments that a block carries. -/
def blockSessions (env : CommitmentEnv G₁ G₂) (block : CBlock) : List (UInt8 × Uint256) :=
  (blockCommitments env block.vtx).map fun qc => (qc.llmqType, qc.quorumHash)

section

variable {I : CQuorumBlockProcessor G₁ G₂ → Prop} (chain : List CBlock) (block : CBlock)
  (hsame : ∀ p p', p'.evoDb.mined = p.evoDb.mined →
    p'.hasMinedCommitmentCache = p.hasMinedCommitmentCache → I p → I p')

include hsame

lemma keeps_writeBestBlockUpgrade (blockHash) :
    Keeps I (writeBestBlockUpgrade blockHash : ProcM G₁ G₂ Unit) :=
  .modify fun p h => hsame p _ rfl rfl h

section

variable (hremember : ∀ p k, I p → I (p.remember k))
  (hstore : ∀ p params nHeight blockHash, ∀ qc : CFinalCommitment G₁ G₂,
    (params.type, qc.quorumHash) ∈ blockSessions env block → I p →
      I (p.store params nHeight blockHash qc))

include hremember

omit hsame in
lemma keeps_checkRequired (nHeight : Nat) (qcs : Std.ExtTreeMap UInt8 (CFinalCommitment G₁ G₂))
    (llmqs) : Keeps I (checkRequired chain nHeight qcs llmqs) := by
  induction llmqs with
  | nil => exact .pure ()
  | cons params rest ih =>
    have hrequired : Keeps I (isCommitmentRequired chain params nHeight : ProcM G₁ G₂ Bool) :=
      .ite (.pure _) (.bind (remember_of_not_cached hremember _ _) fun _ => .pure _)
    exact .bind hrequired fun isRequired => .liftCheck_bind fun _ => .liftCheck_bind fun _ => ih

include hstore

omit hsame in
lemma keeps_processCommitments (nHeight : Nat) (blockHash)
    {l : List (UInt8 × CFinalCommitment G₁ G₂)}
    (hl : ∀ e ∈ l, e.2 ∈ blockCommitments env block.vtx) :
    Keeps I (processCommitments env cons chain nHeight blockHash l) := by
  induction l with
  | nil => exact .pure ()
  | cons e rest ih =>
    rw [List.forall_mem_cons] at hl
    refine .bind (KeepsUntil.liftCheck_bind fun params hparams => ?_) fun _ => ih hl.2
    refine Keeps.liftCheck_bind fun _ => .liftCheck_bind fun _ => .ite (.liftCheck _) ?_
    refine .bind (remember_of_not_cached hremember _ _) fun hasMined => ?_
    refine .liftCheck_bind fun _ => .liftCheck_bind fun _ => .liftCheck_bind fun _ => ?_
    refine .modify fun p h => hstore p params nHeight blockHash e.2 ?_ h
    rw [(LlmqConsensus.find_eq_some.mp (orReject_eq_ok.mp hparams)).2]
    exact List.mem_map_of_mem hl.1

lemma keeps_processBlock : Keeps I (processBlock env cons chain block) := by
  refine .ite (keeps_writeBestBlockUpgrade hsame _) (KeepsUntil.liftCheck_bind fun qcs hqcs => ?_)
  refine .bind (keeps_checkRequired chain hremember _ qcs _) fun _ => ?_
  refine .bind (keeps_processCommitments chain block hremember hstore _ _ fun e he => ?_)
    fun _ => keeps_writeBestBlockUpgrade hsame _
  exact ((getCommitmentsFromBlock_mem hqcs).mp he).1

end

variable (hunstore : ∀ p nHeight, ∀ qc : CFinalCommitment G₁ G₂,
  (qc.llmqType, qc.quorumHash) ∈ blockSessions env block → I p → I (p.unstore nHeight qc))

lemma keeps_addMinableCommitment (fqc) : Keeps I (addMinableCommitment env fqc) := by
  apply Keeps.get_bind
  intro p h
  dsimp only
  split
  case h_1 => exact .set (hsame p _ rfl rfl h)
  case h_2 =>
    split
    case h_1 => exact fun _ hs => ⟨nofun, fun _ _ heq => by cases heq; exact hs⟩
    case h_2 => exact .ite (.set (hsame p _ rfl rfl h)) (.pure _)

include hunstore

lemma keeps_undoCommitments (nHeight : Nat) (fAddMinable : Bool)
    {l : List (UInt8 × CFinalCommitment G₁ G₂)}
    (hl : ∀ e ∈ l, e.2 ∈ blockCommitments env block.vtx) :
    Keeps I (undoCommitments env nHeight fAddMinable l) := by
  induction l with
  | nil => exact .pure ()
  | cons e rest ih =>
    rw [List.forall_mem_cons] at hl
    have hrest := ih hl.2
    refine .ite hrest (.bind (.modify fun p h => ?_) fun _ => ?_)
    · exact hunstore p nHeight e.2 (List.mem_map_of_mem hl.1) h
    · cases fAddMinable with
      | true => exact .bind (keeps_addMinableCommitment hsame e.2) fun _ => hrest
      | false => exact hrest

lemma keeps_undoBlock (fAddMinable : Bool) :
    Keeps I (undoBlock env cons chain block fAddMinable) := by
  refine KeepsUntil.liftCheck_bind fun qcs hqcs => ?_
  refine .bind (keeps_undoCommitments block hsame hunstore _ fAddMinable fun e he => ?_) fun _ => ?_
  · exact ((getCommitmentsFromBlock_mem hqcs).mp he).1
  · exact Keeps.liftCheck_bind fun _ => keeps_writeBestBlockUpgrade hsame _

end

/-- The processor works on the view of the current transaction of `evoDb`; `root` is the view
below it, to which a rollback leads back. -/
structure EvoTransaction (G₁ G₂ : Type) where
  root : EvoDb G₁ G₂ := {}
  processor : CQuorumBlockProcessor G₁ G₂ := {}

inductive EvoAction
  | processBlock (chain : List CBlock) (block : CBlock)
  | undoBlock (chain : List CBlock) (block : CBlock) (fAddMinable : Bool)
  | commit
  | rollback
  | clearMinedCommitmentCache
  | hasMinedCommitment (llmqType : UInt8) (quorumHash : Uint256)

namespace EvoTransaction

variable (s : EvoTransaction G₁ G₂)

def commit : EvoTransaction G₁ G₂ :=
  { s with root := s.processor.evoDb }

def rollback : EvoTransaction G₁ G₂ :=
  { s with processor := { s.processor with evoDb := s.root } }

/-- A failed call leaves what it has written; a failed assertion ends the node. -/
def call {α : Type} (s : EvoTransaction G₁ G₂) (x : ProcM G₁ G₂ α) :
    Option (EvoTransaction G₁ G₂) :=
  match x s.processor with
  | .ok _ p => some { s with processor := p }
  | .error .abort _ => none
  | .error _ p => some { s with processor := p }

variable (env cons) in
def step : EvoAction → Option (EvoTransaction G₁ G₂)
  | .processBlock chain block => s.call (Llmq.processBlock env cons chain block)
  | .undoBlock chain block fAddMinable => s.call (Llmq.undoBlock env cons chain block fAddMinable)
  | .commit => some s.commit
  | .rollback => some s.rollback
  | .clearMinedCommitmentCache =>
    some { s with processor := { s.processor with hasMinedCommitmentCache := fun _ => none } }
  | .hasMinedCommitment llmqType quorumHash =>
    s.call (Llmq.hasMinedCommitment llmqType quorumHash)

/-- What the actions of the open transaction have written, and whether one of these sessions may
have been asked for since. A block that is processed asks for the sessions in their windows. -/
structure Trace where
  written : List (UInt8 × Uint256) := []
  late : Bool := false

namespace Trace

variable (env) in
def next (t : Trace) : EvoAction → Trace
  | .processBlock _ block => ⟨t.written ++ blockSessions env block, t.late || !t.written.isEmpty⟩
  | .undoBlock _ block _ => { t with written := t.written ++ blockSessions env block }
  | .commit | .rollback => {}
  | .clearMinedCommitmentCache => { t with late := false }
  | .hasMinedCommitment llmqType quorumHash =>
    { t with late := t.late || t.written.contains (llmqType, quorumHash) }

def allows (t : Trace) : EvoAction → Bool
  | .rollback => !t.late
  | _ => true

variable (env) in
/-- No transaction is rolled back in which a session was asked for after a write to its record. -/
def quiet : Trace → List EvoAction → Bool
  | _, [] => true
  | t, a :: actions => t.allows a && quiet (t.next env a) actions

end Trace

lemma call_eq_some {α : Type} {s s' : EvoTransaction G₁ G₂} {x : ProcM G₁ G₂ α}
    (h : s.call x = some s') : s'.root = s.root ∧
      ((∃ a, x s.processor = .ok a s'.processor) ∨
        ∃ e, x s.processor = .error e s'.processor) := by
  unfold call at h
  split at h
  case h_1 a p heq =>
    cases h
    exact ⟨rfl, .inl ⟨a, heq⟩⟩
  case h_2 => cases h
  case h_3 e p _ heq =>
    cases h
    exact ⟨rfl, .inr ⟨e, heq⟩⟩

lemma call_keeps {α : Type} {I : CQuorumBlockProcessor G₁ G₂ → Prop}
    {s s' : EvoTransaction G₁ G₂} {x : ProcM G₁ G₂ α} (hx : Keeps I x) (hs : I s.processor)
    (h : s.call x = some s') : I s'.processor := by
  rcases (call_eq_some h).2 with ⟨a, ha⟩ | ⟨e, he⟩
  · exact (hx _ hs).1 a _ ha
  · exact (hx _ hs).2 e _ he

/-- Outside of the sessions `written` the view has the records of `db`. -/
def SameOutside (db : MinedDb G₁ G₂) (written : List (UInt8 × Uint256))
    (p : CQuorumBlockProcessor G₁ G₂) : Prop :=
  ∀ k ∉ written, p.evoDb.mined.commitments k = db.commitments k

lemma SameOutside.update {db : MinedDb G₁ G₂} {written} {p p' : CQuorumBlockProcessor G₁ G₂} {k}
    {record} (h : SameOutside db written p) (hk : ¬ k ∉ written)
    (hp' : p'.evoDb.mined.commitments = Function.update p.evoDb.mined.commitments k record) :
    SameOutside db written p' := by
  intro k' hk'
  have hne : k' ≠ k := fun heq => hk (heq ▸ hk')
  rw [hp', update_of_ne hne]
  exact h k' hk'

/-- What holds between the actions: the cache tells what the view has, the view differs from the
root only in what was written, and unless a session was asked for too late, the cache also tells
what the root has. -/
structure Inv (t : Trace) (s : EvoTransaction G₁ G₂) : Prop where
  tells : CacheTells s.processor
  outside : SameOutside s.root.mined t.written s.processor
  fits : t.late = false → CacheFits s.root.mined s.processor

namespace Inv

variable {t : Trace} {s s' : EvoTransaction G₁ G₂}

lemma of_view (h : CacheTells s.processor) (hroot : s.root = s.processor.evoDb) : Inv {} s := by
  refine ⟨h, fun k _ => by rw [hroot], fun _ k v hv => ?_⟩
  rw [hroot]
  exact ⟨h k v hv, rfl⟩

lemma processBlock (h : Inv t s) {chain} {block}
    (hstep : s.call (Llmq.processBlock env cons chain block) = some s') :
    Inv (t.next env (.processBlock chain block)) s' := by
  obtain ⟨hroot, hresult⟩ := call_eq_some hstep
  have htells : CacheTells s'.processor := call_keeps (keeps_processBlock chain block
    (fun _ _ hdb hcache h => h.of_eq hdb hcache) (fun _ k h => h.remember k)
    fun _ params nHeight blockHash qc _ h => h.store params nHeight blockHash qc) h.tells hstep
  have hfits : CacheFits s.processor.evoDb.mined s'.processor := by
    have hself : CacheFits s.processor.evoDb.mined s.processor := fun k v hv =>
      ⟨h.tells k v hv, rfl⟩
    rcases hresult with ⟨_, hok⟩ | ⟨_, herror⟩
    · exact (processBlock_eq_ok hself rfl hok).2.2.2.2
    · exact (processBlock_eq_error hself rfl herror).2.2
  refine ⟨htells, ?_, fun hlate => ?_⟩
  · rw [hroot]
    refine call_keeps (keeps_processBlock chain block (fun _ _ hdb _ h k hk => hdb ▸ h k hk)
      (fun _ _ h => h) fun _ params _ _ qc hqc h => ?_) ?_ hstep
    · exact h.update (fun hk => hk (List.mem_append_right _ hqc)) rfl
    · exact fun k hk => h.outside k fun hmem => hk (List.mem_append_left _ hmem)
  · -- nothing was written before, so the view that the block found is the root's
    obtain ⟨-, hwritten⟩ := Bool.or_eq_false_iff.mp hlate
    rw [Bool.not_eq_false', List.isEmpty_iff] at hwritten
    intro k v hv
    rw [hroot, ← h.outside k (by simp [hwritten])]
    exact hfits k v hv

lemma undoBlock (h : Inv t s) {chain} {block} {fAddMinable : Bool}
    (hstep : s.call (Llmq.undoBlock env cons chain block fAddMinable) = some s') :
    Inv (t.next env (.undoBlock chain block fAddMinable)) s' := by
  refine ⟨call_keeps (keeps_undoBlock chain block (fun _ _ hdb hcache h => h.of_eq hdb hcache)
    (fun _ nHeight qc _ h => h.unstore nHeight qc) fAddMinable) h.tells hstep, ?_, fun hlate => ?_⟩
  · rw [(call_eq_some hstep).1]
    refine call_keeps (keeps_undoBlock chain block (fun _ _ hdb _ h k hk => hdb ▸ h k hk)
      (fun _ _ qc hqc h => ?_) fAddMinable) ?_ hstep
    · exact h.update (fun hk => hk (List.mem_append_right _ hqc)) rfl
    · exact fun k hk => h.outside k fun hmem => hk (List.mem_append_left _ hmem)
  · rw [(call_eq_some hstep).1]
    refine call_keeps (I := CacheFits s.root.mined) (keeps_undoBlock chain block ?_
      (fun _ _ _ _ h => h.unstore) fAddMinable) (h.fits hlate) hstep
    exact fun _ _ hdb hcache h k v hv => hdb ▸ h k v (hcache ▸ hv)

lemma hasMinedCommitment (h : Inv t s) {llmqType} {quorumHash}
    (hstep : s.call (Llmq.hasMinedCommitment llmqType quorumHash) = some s') :
    Inv (t.next env (.hasMinedCommitment llmqType quorumHash)) s' := by
  cases hcached : s.processor.hasMinedCommitmentCache (llmqType, quorumHash) with
  | some v =>
    rw [call, hasMinedCommitment_of_cached hcached] at hstep
    cases hstep
    exact ⟨h.tells, h.outside, fun hlate => h.fits (Bool.or_eq_false_iff.mp hlate).1⟩
  | none =>
    rw [call, hasMinedCommitment_of_not_cached hcached] at hstep
    cases hstep
    refine ⟨h.tells.remember _, h.outside, fun hlate => ?_⟩
    obtain ⟨hlate, hnew⟩ := Bool.or_eq_false_iff.mp hlate
    have hsame := h.outside (llmqType, quorumHash) (by simpa using hnew)
    intro k v hv
    unfold CQuorumBlockProcessor.remember at hv ⊢
    dsimp only at hv ⊢
    rcases eq_or_ne k (llmqType, quorumHash) with rfl | hne
    · rw [update_self, Option.some.injEq] at hv
      rw [← hsame]
      exact ⟨hv.symm, rfl⟩
    · rw [update_of_ne hne] at hv
      exact h.fits hlate k v hv

lemma step (h : Inv t s) {a} (hallows : t.allows a = true)
    (hstep : s.step env cons a = some s') : Inv (t.next env a) s' := by
  cases a with
  | processBlock chain block => exact h.processBlock hstep
  | undoBlock chain block fAddMinable => exact h.undoBlock hstep
  | hasMinedCommitment llmqType quorumHash => exact h.hasMinedCommitment hstep
  | commit =>
    cases hstep
    exact .of_view h.tells rfl
  | rollback =>
    cases hstep
    have hfits := h.fits (by simpa [Trace.allows] using hallows)
    exact .of_view (fun k v hv => (hfits k v hv).1) rfl
  | clearMinedCommitmentCache =>
    cases hstep
    exact ⟨.of_empty rfl, h.outside, fun _ => nofun⟩

/-- The invariant along a run whose rollbacks come before the questions. -/
lemma run (h : Inv t s) {actions : List EvoAction} (hquiet : t.quiet env actions = true)
    (hrun : actions.foldlM (EvoTransaction.step env cons) s = some s') :
    CacheTells s'.processor := by
  induction actions generalizing t s with
  | nil =>
    cases hrun
    exact h.tells
  | cons a actions ih =>
    rw [List.foldlM_cons, Option.bind_eq_bind, Option.bind_eq_some_iff] at hrun
    obtain ⟨s₁, hs₁, hrun⟩ := hrun
    obtain ⟨hallows, hquiet⟩ := Bool.and_eq_true_iff.mp hquiet
    exact ih (h.step hallows hs₁) hquiet hrun

end Inv

/-- As long as no session is asked for between a write to its record and a rollback of that write,
`HasMinedCommitment` tells what is in the current view of the database, wherever it is asked. -/
theorem hasMinedCommitment_matches_view (env : CommitmentEnv G₁ G₂) (cons : LlmqConsensus)
    (db : EvoDb G₁ G₂) {actions : List EvoAction} (hquiet : Trace.quiet env {} actions = true)
    {s : EvoTransaction G₁ G₂}
    (h : actions.foldlM (step env cons) ⟨db, { evoDb := db }⟩ = some s) : Answers s.processor :=
  answers_iff.mpr (Inv.run (.of_view (.of_empty rfl) rfl) hquiet h)

def tenBlocks : List CBlock := ((List.range 10).map (numberedBlock · [])).reverse

def mineFirst : EvoAction := .processBlock tenBlocks (numberedBlock 10 [[100, 1, 1]])

/-- A transaction is rolled back before anything is asked; in the next one the session is asked for
before the commit. -/
def askedAfterRollback : List EvoAction :=
  [mineFirst, .rollback, .hasMinedCommitment 100 1, mineFirst, .hasMinedCommitment 100 1, .commit]

theorem hasMinedCommitment_matches_view_askedAfterRollback : ∃ s,
    askedAfterRollback.foldlM (step oneKeyEnv (llmq5From 1)) {} = some s ∧
      (s.root.mined.commitments (100, 1)).isSome = true ∧ Answers s.processor := by
  have hruns : (askedAfterRollback.foldlM (step oneKeyEnv (llmq5From 1)) {}).any
      (fun s => (s.root.mined.commitments (100, 1)).isSome) = true := by decide +kernel
  obtain ⟨s, hs, hmined⟩ := (Option.any_eq_true ..).mp hruns
  exact ⟨s, hs, hmined,
    hasMinedCommitment_matches_view oneKeyEnv (llmq5From 1) {} (by decide +kernel) hs⟩

/-- A block that mines a commitment is processed, the session is asked for, and the transaction is
rolled back: the answer stays, the record does not. -/
theorem rolledBack_commitment_reported : ∃ s p',
    [mineFirst, .hasMinedCommitment 100 1, .rollback].foldlM (step oneKeyEnv (llmq5From 1)) {} =
      some s ∧ hasMinedCommitment 100 1 s.processor = .ok true p' ∧
    (s.processor.evoDb.mined.commitments (100, 1)).isSome = false := by
  have hruns : ([mineFirst, .hasMinedCommitment 100 1, .rollback].foldlM
      (step oneKeyEnv (llmq5From 1)) {}).any
      (fun s => s.processor.hasMinedCommitmentCache (100, 1) == some true &&
        (s.processor.evoDb.mined.commitments (100, 1)).isNone) = true := by decide +kernel
  obtain ⟨s, hs, hstale⟩ := (Option.any_eq_true ..).mp hruns
  rw [Bool.and_eq_true, beq_iff_eq, Option.isNone_iff_eq_none] at hstale
  exact ⟨s, s.processor, hs, hasMinedCommitment_of_cached hstale.1, by rw [hstale.2]; rfl⟩

end EvoTransaction

end Firo.Llmq
