import Firo.Llmq.SigShares

/-! A round of `ProcessPendingSigShares` filters the collected shares in one loop and processes them
in a second one that skips only the bad sources of the batch verifier. What the filter leaves out
behind a malformed share is therefore processed, unless an invalid share of the same node was pushed
before it. -/
namespace Firo.Llmq

open Firo.Lib Firo.Spark Firo.Bls List

variable {G₁ G₂ : Type}

namespace CSigSharesManager

variable {env : ShareEnv G₁ G₂} {m m' m'' : CSigSharesManager G₂}

/-- From `m` to `m'` exactly the shares of `l` are passed, no recovered signature is lost, and
what is stored was stored before or is in `l` without a recovered signature in `m`. -/
structure Passes (l : List (NodeId × CSigShare G₂ × Filtered)) (m m' : CSigSharesManager G₂) :
    Prop where
  passed : ∃ new : List (PassedShare G₂), m'.passed = m.passed ++ new ∧
    new.map (fun p => (p.nodeId, p.sigShare, p.filtered)) = l ∧
    ∀ p ∈ new, m.hasRecoveredSigForId p.sigShare.llmqType p.sigShare.id = true →
      p.hasRecoveredSig = true
  recovered : ∀ k, m.recoveredSigs k = true → m'.recoveredSigs k = true
  stored : ∀ s ∈ m'.sigShares, s ∈ m.sigShares ∨
    m.hasRecoveredSigForId s.llmqType s.id = false ∧ ∃ x ∈ l, x.2.1 = s

namespace Passes

lemma of_eq (hpassed : m'.passed = m.passed)
    (hrecovered : ∀ k, m.recoveredSigs k = true → m'.recoveredSigs k = true)
    (hstored : ∀ s ∈ m'.sigShares, s ∈ m.sigShares) : Passes [] m m' where
  passed := ⟨[], by simp [hpassed]⟩
  recovered := hrecovered
  stored s hs := .inl (hstored s hs)

lemma refl (m : CSigSharesManager G₂) : Passes [] m m :=
  of_eq rfl (fun _ h => h) (fun _ h => h)

lemma trans {l l'} (h : Passes l m m') (h' : Passes l' m' m'') : Passes (l ++ l') m m'' where
  passed := by
    obtain ⟨new, hnew, hmap, hrec⟩ := h.passed
    obtain ⟨new', hnew', hmap', hrec'⟩ := h'.passed
    refine ⟨new ++ new', by simp [hnew, hnew'], by simp [hmap, hmap'], ?_⟩
    intro p hp hm
    rcases mem_append.mp hp with hp | hp
    · exact hrec p hp hm
    · exact hrec' p hp (h.recovered _ hm)
  recovered k hk := h'.recovered k (h.recovered k hk)
  stored s hs := by
    rcases h'.stored s hs with hs | ⟨hnone, x, hx, rfl⟩
    · rcases h.stored s hs with hs | ⟨hnone, x, hx, rfl⟩
      · exact .inl hs
      · exact .inr ⟨hnone, x, mem_append_left _ hx, rfl⟩
    · -- recovered signatures only grow, so there was none in `m` either
      have hm : m.hasRecoveredSigForId x.2.1.llmqType x.2.1.id = false := by
        by_contra hm
        have hm' := h.recovered _ (Bool.eq_true_of_not_eq_false hm)
        exact absurd (hm'.symm.trans hnone) (by decide)
      exact .inr ⟨hm, x, mem_append_right _ hx, rfl⟩

lemma foldl_nil {α : Type} {f : CSigSharesManager G₂ → α → CSigSharesManager G₂}
    (hf : ∀ m a, Passes [] m (f m a)) (l : List α) (m : CSigSharesManager G₂) :
    Passes [] m (l.foldl f m) := by
  induction l generalizing m with
  | nil => exact refl m
  | cons a l ih => exact (hf m a).trans (ih (f m a))

end Passes

section

variable (m : CSigSharesManager G₂)

lemma banNode_passes (nodeId) : Passes [] m (m.banNode nodeId) := by
  unfold banNode
  split
  · exact .refl m
  · split
    · exact .refl m
    · exact .of_eq rfl (fun _ h => h) (fun _ h => h)

lemma announce_passes (nodeId) : Passes [] m (m.announce nodeId) := by
  unfold announce
  split
  · exact .of_eq rfl (fun _ h => h) (fun _ h => h)
  · exact .refl m

lemma removeSigSharesForSession_passes (signHash) :
    Passes [] m (m.removeSigSharesForSession env signHash) :=
  .of_eq rfl (fun _ h => h) (fun _ h => (mem_filter.mp h).1)

lemma processRecoveredSig_passes (llmqType)
    (id signHash) : Passes [] m (m.processRecoveredSig env llmqType id signHash) := by
  unfold processRecoveredSig
  split
  · exact .refl m
  · have hwrite : Passes [] m
        { m with recoveredSigs := Function.update m.recoveredSigs (llmqType, id) true } := by
      refine .of_eq rfl (fun k hk => ?_) (fun _ h => h)
      by_cases h : k = (llmqType, id)
      · simp [h]
      · simpa [Function.update_of_ne h] using hk
    exact hwrite.trans (removeSigSharesForSession_passes _ signHash)

lemma tryRecoverSig_passes (quorum : ShareQuorum G₁)
    (id msgHash) : Passes [] m (m.tryRecoverSig env quorum id msgHash) := by
  have hcount : Passes [] m { m with recoveredSigsCounter := m.recoveredSigsCounter + 1 } :=
    .of_eq rfl (fun _ h => h) (fun _ h => h)
  unfold tryRecoverSig
  split
  · exact .refl m
  · dsimp only
    split
    · exact .refl m
    · split
      · exact .refl m
      · split
        · exact hcount
        · exact hcount.trans (processRecoveredSig_passes _ _ _ _)

end

variable {s : CSigShare G₂} {recovered : UInt8 × Uint256 → Bool}
  {nodes : List (NodeId × List (CSigShare G₂ × Filtered))} {verifier : BatchVerdict env}
  {rndNodes : List NodeId}

lemma processSigShare_stores (env : ShareEnv G₁ G₂) (m : CSigSharesManager G₂)
    {quorum : ShareQuorum G₁} (htype : quorum.type = s.llmqType) :
    (m.processSigShare env quorum s).passed = m.passed ∧
    (∀ k, m.recoveredSigs k = true → (m.processSigShare env quorum s).recoveredSigs k = true) ∧
    ∀ s' ∈ (m.processSigShare env quorum s).sigShares, s' ∈ m.sigShares ∨
      m.hasRecoveredSigForId s.llmqType s.id = false ∧ s = s' := by
  -- everything after the share is added passes nothing and stores nothing more
  have hrest : ∀ m₁, Passes [] { m with sigShares := m.sigShares ++ [s] } m₁ →
      m.hasRecoveredSigForId s.llmqType s.id = false →
      m₁.passed = m.passed ∧ (∀ k, m.recoveredSigs k = true → m₁.recoveredSigs k = true) ∧
      ∀ s' ∈ m₁.sigShares, s' ∈ m.sigShares ∨
        m.hasRecoveredSigForId s.llmqType s.id = false ∧ s = s' := by
    intro m₁ h hnone
    obtain ⟨new, hnew, hmap, -⟩ := h.passed
    rw [map_eq_nil_iff] at hmap
    refine ⟨by simpa [hmap] using hnew, h.recovered, fun s' hs' => ?_⟩
    rcases h.stored s' hs' with hs' | ⟨-, x, hx, -⟩
    · rcases mem_append.mp hs' with hs' | hs'
      · exact .inl hs'
      · exact .inr ⟨hnone, (mem_singleton.mp hs').symm⟩
    · cases hx
  unfold processSigShare
  rw [htype]
  split
  case isTrue => exact ⟨rfl, fun _ h => h, fun _ h => .inl h⟩
  case isFalse hnone =>
    rw [Bool.not_eq_true] at hnone
    split
    case isTrue => exact ⟨rfl, fun _ h => h, fun _ h => .inl h⟩
    case isFalse =>
      dsimp only
      have hnodes : Passes [] { m with sigShares := m.sigShares ++ [s] }
          (if quorum.memberIndex = some s.quorumMember then
            (env.masternodeQuorumNodes s.llmqType s.quorumHash).foldl announce
              { m with sigShares := m.sigShares ++ [s] }
          else { m with sigShares := m.sigShares ++ [s] }) := by
        split
        · exact .foldl_nil announce_passes _ _
        · exact .refl _
      generalize (if quorum.memberIndex = some s.quorumMember then
            (env.masternodeQuorumNodes s.llmqType s.quorumHash).foldl announce
              { m with sigShares := m.sigShares ++ [s] }
          else { m with sigShares := m.sigShares ++ [s] }) = m₁ at hnodes ⊢
      split
      · exact hrest _ (hnodes.trans (tryRecoverSig_passes _ _ _ _)) hnone
      · exact hrest _ hnodes hnone

lemma passShare_passes (m) (nodeId) (s) (filtered) :
    Passes [(nodeId, s, filtered)] m (m.passShare env nodeId s filtered) := by
  unfold passShare
  split
  case h_1 =>
    exact ⟨⟨_, rfl, rfl, by simp⟩, fun _ h => h, fun _ h => .inl h⟩
  case h_2 quorum hquorum =>
    obtain ⟨hpassed, hrecovered, hstored⟩ := processSigShare_stores env
      { m with passed := m.passed ++
        [⟨nodeId, s, filtered, m.hasRecoveredSigForId s.llmqType s.id⟩] }
      (env.getQuorum_type hquorum)
    refine ⟨⟨_, hpassed, rfl, by simp⟩, hrecovered, fun s' hs' => ?_⟩
    rcases hstored s' hs' with hs' | ⟨hnone, rfl⟩
    · exact .inl hs'
    · exact .inr ⟨hnone, _, mem_singleton_self _, rfl⟩

lemma processFromNode_passes (nodeId) (items : List (CSigShare G₂ × Filtered))
    (m : CSigSharesManager G₂) :
    Passes (items.map (nodeId, ·)) m (processFromNode env nodeId m items) := by
  induction items generalizing m with
  | nil => exact .refl m
  | cons item items ih => exact (passShare_passes m nodeId item.1 item.2).trans (ih _)

/-- What the second loop passes: everything of the nodes that are not bad sources. -/
def passedOn (bad : NodeId → Bool) (nodes : List (NodeId × List (CSigShare G₂ × Filtered))) :
    List (NodeId × CSigShare G₂ × Filtered) :=
  nodes.flatMap fun (n, items) => if bad n then [] else items.map (n, ·)

lemma processNodes_passes (bad) (nodes : List (NodeId × List (CSigShare G₂ × Filtered)))
    (m : CSigSharesManager G₂) : Passes (passedOn bad nodes) m (processNodes env bad m nodes) := by
  induction nodes generalizing m with
  | nil => exact .refl m
  | cons node nodes ih =>
    have hnode : Passes (if bad node.1 then [] else node.2.map (node.1, ·)) m
        (if bad node.1 then m.banNode node.1 else processFromNode env node.1 m node.2) := by
      split
      · exact banNode_passes m node.1
      · exact processFromNode_passes node.1 node.2 m
    exact hnode.trans (ih _)

def roundNodes (env : ShareEnv G₁ G₂) (m : CSigSharesManager G₂) (rndNodes : List NodeId) :
    List (NodeId × List (CSigShare G₂ × Filtered)) :=
  m.filterNodes env (m.collectPending env rndNodes 32).retSigShares

lemma filterShares_recovered {l} (h : (s, Filtered.recovered) ∈ filterShares recovered l) :
    recovered (s.llmqType, s.id) = true := by
  induction l with
  | nil => cases h
  | cons a l ih =>
    unfold filterShares at h
    split at h
    case isTrue ha =>
      rcases mem_cons.mp h with heq | h
      · cases heq
        exact ha
      · exact ih h
    case isFalse =>
      split at h
      · simp at h
      · exact ih (by simpa using h)

lemma filterShares_unread {l} (h : (s, Filtered.unread) ∈ filterShares recovered l) :
    ∃ item ∈ filterShares recovered l, item.2 = .malformed := by
  induction l with
  | nil => cases h
  | cons a l ih =>
    unfold filterShares at h ⊢
    split at h
    case isTrue ha =>
      rw [if_pos ha]
      obtain ⟨item, hitem, hm⟩ := ih (by simpa using h)
      exact ⟨item, mem_cons_of_mem _ hitem, hm⟩
    case isFalse ha =>
      rw [if_neg ha]
      split at h
      case isTrue hs =>
        rw [if_pos hs]
        exact ⟨_, mem_cons_self, rfl⟩
      case isFalse hs =>
        rw [if_neg hs]
        obtain ⟨item, hitem, hm⟩ := ih (by simpa using h)
        exact ⟨item, mem_cons_of_mem _ hitem, hm⟩

lemma mem_pushes {n} :
    (n, s) ∈ pushes nodes ↔ ∃ items, (n, items) ∈ nodes ∧ (s, Filtered.pushed) ∈ items := by
  simp [pushes, mem_flatMap]

lemma mem_passedOn {bad} {n} {item} : (n, item) ∈ passedOn bad nodes ↔
      bad n = false ∧ ∃ items, (n, items) ∈ nodes ∧ item ∈ items := by
  simp only [passedOn, mem_flatMap, Prod.exists]
  constructor
  · rintro ⟨n', items, hmem, h⟩
    split at h
    · cases h
    · rename_i hbad
      obtain ⟨item', hitem, heq⟩ := mem_map.mp h
      cases heq
      exact ⟨Bool.eq_false_iff.mpr hbad, items, hmem, hitem⟩
  · rintro ⟨hbad, items, hmem, hitem⟩
    exact ⟨n, items, hmem, by simpa [hbad] using hitem⟩

/-- An invalid share of the same node was pushed in every round in which the filter meets a
malformed share. -/
def MalformedCaught (env : ShareEnv G₁ G₂) (m : CSigSharesManager G₂) : ShareAction G₁ G₂ → Prop
  | .processPending rndNodes =>
    ∀ node ∈ roundNodes env m rndNodes, (∃ item ∈ node.2, item.2 = .malformed) →
      ∃ push ∈ pushes (roundNodes env m rndNodes), push.1 = node.1 ∧ env.valid push.2 = false
  | _ => True

/-- The filter skipped the share for a recovered signature, or pushed it and it is valid. -/
def Checked (env : ShareEnv G₁ G₂) (x : CSigShare G₂ × Filtered) : Prop :=
  x.2 = .recovered ∨ x.2 = .pushed ∧ env.valid x.1 = true

lemma passedOn_checked_iff (verifier : BatchVerdict env) (m) (rndNodes) :
    (∀ x ∈ passedOn (verifier.badSources (pushes (roundNodes env m rndNodes)))
        (roundNodes env m rndNodes), Checked env x.2) ↔
      MalformedCaught env m (.processPending rndNodes) := by
  constructor
  · rintro h ⟨n, items⟩ hnode ⟨⟨s, filtered⟩, hitem, rfl⟩
    by_cases hbad : verifier.badSources (pushes (roundNodes env m rndNodes)) n = true
    · obtain ⟨s', hs', hinvalid⟩ := (verifier.right _ _).mp hbad
      exact ⟨_, hs', rfl, hinvalid⟩
    · have hx := h (n, s, .malformed)
        (mem_passedOn.mpr ⟨Bool.eq_false_iff.mpr hbad, items, hnode, hitem⟩)
      rcases hx with hx | ⟨hx, -⟩ <;> cases hx
  · rintro h ⟨n, s, filtered⟩ hx
    obtain ⟨hbad, items, hnode, hitem⟩ := mem_passedOn.mp hx
    -- a malformed share would make the node a bad source
    have hnone : ¬ ∃ item ∈ items, item.2 = .malformed := by
      intro hmal
      obtain ⟨⟨n', s'⟩, hpush, rfl, hinvalid⟩ := h (n, items) hnode hmal
      have := (verifier.right _ _).mpr ⟨s', hpush, hinvalid⟩
      exact absurd (this.symm.trans hbad) (by decide)
    cases filtered with
    | recovered => exact .inl rfl
    | pushed =>
      refine .inr ⟨rfl, ?_⟩
      by_contra hinvalid
      have := (verifier.right _ _).mpr
        ⟨s, mem_pushes.mpr ⟨items, hnode, hitem⟩, Bool.eq_false_iff.mpr hinvalid⟩
      exact absurd (this.symm.trans hbad) (by decide)
    | malformed => exact absurd ⟨_, hitem, rfl⟩ hnone
    | unread =>
      obtain ⟨⟨_, v⟩, -, heq⟩ := mem_map.mp hnode
      cases heq
      exact absurd (filterShares_unread hitem) hnone

lemma processPendingSigShares_passes
    (h : m.processPendingSigShares env verifier rndNodes = some m') :
    Passes (passedOn (verifier.badSources (pushes (roundNodes env m rndNodes)))
      (roundNodes env m rndNodes)) m m' := by
  unfold processPendingSigShares at h
  dsimp only at h
  split at h
  case isTrue => cases h
  case isFalse =>
    cases h
    have hcollect : Passes [] m
        { m with nodeStates := (m.collectPending env rndNodes 32).nodeStates } :=
      .of_eq rfl (fun _ h => h) (fun _ h => h)
    have hban : ∀ (nodes : List (NodeId × List (CSigShare G₂ × Filtered)))
        (m₁ : CSigSharesManager G₂), Passes [] m₁ (nodes.foldl (fun m (n, _) => m.banNode n) m₁) :=
          by
      intro nodes m₁
      apply Passes.foldl_nil
      rintro m ⟨n, _⟩
      exact banNode_passes m n
    exact (hcollect.trans (hban _ _)).trans (processNodes_passes _ (roundNodes env m rndNodes) _)

/-- The share had a recovered signature for its id when it was passed, or it was pushed to the
batch verifier and is valid. -/
def PassedShare.Verified (env : ShareEnv G₁ G₂) (p : PassedShare G₂) : Prop :=
  p.hasRecoveredSig = true ∨ p.filtered = .pushed ∧ env.valid p.sigShare = true

/-- Every share passed so far is verified, and every stored share is valid. -/
structure OnlyVerified (env : ShareEnv G₁ G₂) (m : CSigSharesManager G₂) : Prop where
  passed : ∀ p ∈ m.passed, PassedShare.Verified env p
  stored : ∀ s ∈ m.sigShares, env.valid s = true

lemma OnlyVerified.of_passes_nil (hm : OnlyVerified env m) (h : Passes [] m m') :
    OnlyVerified env m' := by
  obtain ⟨new, hnew, hmap, -⟩ := h.passed
  rw [map_eq_nil_iff] at hmap
  refine ⟨by simpa [hnew, hmap] using hm.passed, fun s hs => ?_⟩
  rcases h.stored s hs with hs | ⟨-, x, hx, -⟩
  · exact hm.stored s hs
  · cases hx

lemma roundNodes_recovered {n} {items} (hnode : (n, items) ∈ roundNodes env m rndNodes)
    (hs : (s, Filtered.recovered) ∈ items) : m.hasRecoveredSigForId s.llmqType s.id = true := by
  obtain ⟨⟨_, v⟩, -, heq⟩ := mem_map.mp hnode
  cases heq
  exact filterShares_recovered hs

lemma OnlyVerified.round (hm : OnlyVerified env m)
    (hok : MalformedCaught env m (.processPending rndNodes))
    (h : m.processPendingSigShares env verifier rndNodes = some m') : OnlyVerified env m' := by
  have hpasses := processPendingSigShares_passes h
  have hchecked := (passedOn_checked_iff verifier m rndNodes).mpr hok
  constructor
  · obtain ⟨new, hnew, hmap, hrec⟩ := hpasses.passed
    rw [hnew]
    intro p hp
    rcases mem_append.mp hp with hp | hp
    · exact hm.passed p hp
    · have hx := hmap ▸ mem_map_of_mem hp
      rcases hchecked _ hx with hskip | hvalid
      · obtain ⟨-, items, hnode, hitem⟩ := mem_passedOn.mp hx
        have hskip : p.filtered = .recovered := hskip
        rw [hskip] at hitem
        exact .inl (hrec p hp (roundNodes_recovered hnode hitem))
      · exact .inr hvalid
  · intro s hs
    rcases hpasses.stored s hs with hs | ⟨hnone, ⟨n, s', filtered⟩, hx, rfl⟩
    · exact hm.stored s hs
    · rcases hchecked _ hx with hskip | ⟨-, hvalid⟩
      · obtain ⟨-, items, hnode, hitem⟩ := mem_passedOn.mp hx
        have hskip : filtered = .recovered := hskip
        rw [hskip] at hitem
        exact absurd ((roundNodes_recovered hnode hitem).symm.trans hnone) (by decide)
      · exact hvalid

lemma processBatchedSigShares_passes (m : CSigSharesManager G₂) (nodeId)
    (session) (active : Bool) (batch : List (Nat × CBLSSignature G₂)) :
    Passes [] m (m.processBatchedSigShares env nodeId session active batch) := by
  unfold processBatchedSigShares
  split
  · split
    · exact .refl m
    · dsimp only
      split
      · split
        · exact banNode_passes m nodeId
        · exact .refl m
      · exact .of_eq rfl (fun _ h => h) (fun _ h => h)
  · exact .refl m

/-- A step that lets no malformed share through keeps that only verified shares are stored. -/
lemma OnlyVerified.step {a} (hm : OnlyVerified env m) (hok : MalformedCaught env m a)
    (h : CSigSharesManager.step env verifier m a = some m') : OnlyVerified env m' := by
  cases a with
  | processPending rndNodes => exact hm.round hok h
  | sigSesAnn nodeId =>
    cases h
    exact hm.of_passes_nil (announce_passes m nodeId)
  | batchedSigShares nodeId session active batch =>
    cases h
    exact hm.of_passes_nil (processBatchedSigShares_passes m nodeId session active batch)
  | ban nodeId =>
    cases h
    exact hm.of_passes_nil (banNode_passes m nodeId)
  | recoveredSig llmqType id signHash =>
    cases h
    exact hm.of_passes_nil (processRecoveredSig_passes m llmqType id signHash)
  | cleanup signHash =>
    cases h
    exact hm.of_passes_nil (removeSigSharesForSession_passes m signHash)
  | removeNodeState nodeId =>
    cases h
    exact ⟨hm.passed, hm.stored⟩
  | forgetRecoveredSig llmqType id =>
    cases h
    exact ⟨hm.passed, hm.stored⟩

/-- In every run in which no malformed share goes uncaught, only verified shares are passed and
only valid shares are stored. A round passes only checked shares exactly under that
condition. -/
theorem only_verified_shares_stored (env : ShareEnv G₁ G₂) (verifier : BatchVerdict env) :
    (∀ m, Reach (CSigSharesManager.step env verifier) (MalformedCaught env) init m →
      OnlyVerified env m) ∧
    ∀ m m' rndNodes, m.processPendingSigShares env verifier rndNodes = some m' →
      ∃ new, m'.passed = m.passed ++ new ∧ ((∀ p ∈ new, Checked env (p.sigShare, p.filtered)) ↔
          MalformedCaught env m (.processPending rndNodes)) := by
  constructor
  · intro m hm
    have hinit : OnlyVerified env (init : CSigSharesManager G₂) := ⟨by simp [init], by simp [init]⟩
    exact hm.invariant hinit fun _ _ _ hI hok h => hI.step hok h
  · intro m m' rndNodes h
    obtain ⟨new, hnew, hmap, -⟩ := (processPendingSigShares_passes h).passed
    refine ⟨new, hnew, ?_⟩
    rw [← passedOn_checked_iff verifier m rndNodes, ← hmap]
    simp

def singleVerdict (env : ShareEnv G₁ G₂) : BatchVerdict env where
  badSources pushes node := pushes.any fun push => push.1 == node && !env.valid push.2
  right pushes node := by
    simp only [List.any_eq_true, Bool.and_eq_true, beq_iff_eq, Bool.not_eq_true', Prod.exists]
    constructor
    · rintro ⟨n, s, hmem, rfl, hs⟩
      exact ⟨s, hmem, hs⟩
    · rintro ⟨s, hmem, hs⟩
      exact ⟨node, s, hmem, rfl, hs⟩

/-- A quorum of three members that needs the shares of all; this node is the last one. -/
def threeQuorum (llmqType : UInt8) (quorumHash : Uint256) : ShareQuorum Unit where
  type := llmqType
  quorumHash := quorumHash
  threshold := 3
  proTxHashes := [1, 2, 3]
  validMembers := [true, true, true]
  memberIndex := some 2
  hasVvec := true
  quorumPublicKey := some ()
  pubKeyShare _ := some ()

def threeEnv : ShareEnv Unit Nat where
  scheme := defectScheme
  buildSignHash _ _ id msgHash := id + msgHash
  getQuorum llmqType quorumHash := some (threeQuorum llmqType quorumHash)
  getQuorum_type h := by
    cases h
    rfl
  recover _ _ := none
  masternodeQuorumNodes _ _ := []
  shareOrder l := l
  shareOrder_perm l := .refl l
  iterate l := l
  iterate_perm l := .refl l

/-- A peer announces a session and sends one batch, and a round processes it. -/
def oneBatch (batch : List (Nat × CBLSSignature Nat)) : List (ShareAction Unit Nat) :=
  [.sigSesAnn 7, .batchedSigShares 7 ⟨1, 5, 8, 9⟩ true batch, .processPending [7]]

/-- Of two peers one sends a valid share and the other an invalid one before a malformed one: only
the valid share comes through. -/
theorem only_verified_shares_stored_two :
    ∃ m, Reach (CSigSharesManager.step threeEnv (singleVerdict threeEnv))
        (MalformedCaught threeEnv) init m ∧
      m.passed.length = 1 ∧ m.sigShares.length = 1 ∧ OnlyVerified threeEnv m := by
  have hrun : ∃ m, Reach (CSigSharesManager.step threeEnv (singleVerdict threeEnv))
      (MalformedCaught threeEnv) init m ∧ m.passed.length = 1 ∧ m.sigShares.length = 1 := by
    refine ⟨_, .step (.processPending [7, 8]) (.step (.batchedSigShares 8 ⟨1, 5, 8, 9⟩ true
      [(1, some 1), (2, none)]) (.step (.sigSesAnn 8) (.step (.batchedSigShares 7 ⟨1, 5, 8, 9⟩ true
      [(0, some 0)]) (.step (.sigSesAnn 7) .init trivial rfl) trivial rfl) trivial rfl) trivial rfl)
      ?_ rfl, ?_, ?_⟩
    · unfold MalformedCaught
      decide +kernel
    · decide +kernel
    · decide +kernel
  obtain ⟨m, hm, hpassed, hstored⟩ := hrun
  exact ⟨m, hm, hpassed, hstored, (only_verified_shares_stored threeEnv _).1 m hm⟩

/-- A malformed share and an invalid one behind it are both passed and stored: nothing of the
node was pushed, so it is not a bad source. -/
theorem malformed_share_is_stored : ((oneBatch [(0, none), (1, some 1)]).foldlM
      (CSigSharesManager.step threeEnv (singleVerdict threeEnv)) init).any (fun m =>
        m.passed.map (fun p => (p.filtered, p.hasRecoveredSig, threeEnv.valid p.sigShare)) ==
          [(.malformed, false, false), (.unread, false, false)] &&
        m.sigShares.map CSigShare.sigShare == [none, some 1]) = true := by
  decide +kernel

end CSigSharesManager

end Firo.Llmq
