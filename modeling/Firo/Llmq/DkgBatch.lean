import Firo.Llmq.DkgMessages

/-! `BatchVerifyMessageSigs` and `ProcessPendingMessageBatch` of
`llmq/quorums_dkgsessionhandler.cpp`: the signatures of a batch are first verified as one aggregate,
and the nodes whose messages do not verify are singled out afterwards. -/
namespace Firo.Llmq

open Firo.Spark Firo.Bls List Option Bool

variable {G₁ G₂ Message : Type} (scheme : Scheme G₁ G₂) (kind : MessageKind G₁ G₂ Message)
  (session : CDKGSession G₁)

/-- The local variables of the loop that builds the aggregate. The set of hashes it keeps
holds the same hashes as the vector. -/
structure Collected (G₁ G₂ : Type) where
  ret : Finset NodeId
  first : Bool
  aggSig : CBLSSignature G₂
  pubKeys : List (CBLSPublicKey G₁)
  messageHashes : List Uint256
  revertToSingleVerification : Bool

def collect : List (NodeId × Message) → Collected G₁ G₂ → Option (Collected G₁ G₂)
  | [], c => some c
  | (nodeId, msg) :: rest, c =>
    match session.getMember (kind.proTxHash msg) with
    | none => collect rest { c with ret := insert nodeId c.ret }
    | some member =>
      if !(kind.sig msg).isSome then some { c with revertToSingleVerification := true }
      else do
        let aggSig ←
          if c.first then some (kind.sig msg)
          else CBLSSignature.aggregateInsecure scheme c.aggSig (kind.sig msg)
        let msgHash := kind.getSignHash msg
        if c.messageHashes.contains msgHash then
          some { c with first := false, aggSig, revertToSingleVerification := true }
        else
          collect rest { c with
            first := false
            aggSig
            pubKeys := c.pubKeys ++ [member.pubKeyOperator]
            messageHashes := c.messageHashes ++ [msgHash] }

/-- The loop that asks whether all messages come from one node: the first node it has kept
and its answer. The flag `first` is cleared only in the branch that needs it cleared. -/
def nodeIdsAllSame : List (NodeId × Message) → Bool → NodeId → NodeId × Bool
  | [], _, firstNodeId => (firstNodeId, true)
  | (nodeId, _) :: rest, first, firstNodeId =>
    if first then nodeIdsAllSame rest first nodeId
    else if nodeId ≠ firstNodeId then (firstNodeId, false)
    else nodeIdsAllSame rest false firstNodeId

def verifySingly : List (NodeId × Message) → Finset NodeId → Option (Finset NodeId)
  | [], ret => some ret
  | (nodeId, msg) :: rest, ret =>
    if nodeId ∈ ret then verifySingly rest ret
    else do
      let member ← session.getMember (kind.proTxHash msg)
      if CBLSSignature.verifyInsecure scheme (kind.sig msg) member.pubKeyOperator
          (kind.getSignHash msg) then
        verifySingly rest ret
      else verifySingly rest (insert nodeId ret)

def batchVerifyMessageSigs (messages : List (NodeId × Message)) : Option (Finset NodeId) :=
  if messages.isEmpty then some ∅
  else do
    let c ← collect scheme kind session messages ⟨∅, true, none, [], [], false⟩
    if c.revertToSingleVerification then verifySingly scheme kind session messages c.ret
    else do
      let valid ← CBLSSignature.verifyInsecureAggregated scheme c.aggSig c.pubKeys c.messageHashes
      if valid then some c.ret
      else
        let (firstNodeId, allSame) := nodeIdsAllSame messages true 0
        if allSame then some (insert firstNodeId c.ret)
        else verifySingly scheme kind session messages c.ret

structure Received (Message : Type) where
  nodeId : NodeId
  hash : Uint256
  msg : Message

/-- The messages of a batch that pass preverification, and the nodes that are banned for
one that does not. -/
def preverify : List (NodeId × Option Message) → List (Received Message) × List NodeId
  | [] => ([], [])
  | (nodeId, none) :: rest =>
    let (preverified, banned) := preverify rest
    (preverified, nodeId :: banned)
  | (nodeId, some msg) :: rest =>
    let (preverified, banned) := preverify rest
    match kind.preVerifyMessage session msg with
    | .accept => (⟨nodeId, kind.serializeHash msg, msg⟩ :: preverified, banned)
    | .drop => (preverified, banned)
    | .ban => (preverified, nodeId :: banned)

/-- The state of the last loop: the session, the messages handed to `ReceiveMessage` and
the nodes not to listen to any more. -/
structure Delivery (G₁ Message : Type) where
  session : CDKGSession G₁
  received : List (Received Message)
  badNodes : Finset NodeId
  banned : List NodeId

def deliver : List (Received Message) → Delivery G₁ Message → Delivery G₁ Message
  | [], d => d
  | r :: rest, d =>
    if r.nodeId ∈ d.badNodes then deliver rest d
    else
      let (session, ban) := kind.receiveMessage d.session r.hash r.msg
      let received := d.received ++ [r]
      if ban then
        deliver rest
          { session, received, badNodes := insert r.nodeId d.badNodes,
            banned := d.banned ++ [r.nodeId] }
      else deliver rest { d with session, received }

/-- What `ProcessPendingMessageBatch` leaves behind: the pending messages, the result, the
nodes reported for a bad signature and the rest of the run. -/
structure BatchOutcome (G₁ Message : Type) where
  pending : List (NodeId × List UInt8)
  result : Bool
  badNodes : Finset NodeId
  delivery : Delivery G₁ Message

/-- `PopAndDeserializeMessages`: a message that does not decode is a null pointer. -/
def popAndDeserializeMessages (pending : List (NodeId × List UInt8)) (maxCount : Nat) :
    List (NodeId × Option Message) :=
  (pending.take maxCount).map fun p => (p.1, kind.unserialize p.2)

def processPendingMessageBatch (pending : List (NodeId × List UInt8)) (maxCount : Nat) :
    Option (BatchOutcome G₁ Message) :=
  let msgs := popAndDeserializeMessages kind pending maxCount
  let pending := pending.drop maxCount
  if msgs.isEmpty then some ⟨pending, false, ∅, ⟨session, [], ∅, []⟩⟩
  else
    let (preverified, banned) := preverify kind session msgs
    if preverified.isEmpty then some ⟨pending, true, ∅, ⟨session, [], ∅, banned⟩⟩
    else do
      let badNodes ← batchVerifyMessageSigs scheme kind session
        (preverified.map fun r => (r.nodeId, r.msg))
      some ⟨pending, true, badNodes, deliver kind preverified ⟨session, [], badNodes, banned⟩⟩

/-- Whether the signature of a message is one that its member's operator key made. -/
def authentic (msg : Message) : Bool :=
  match session.getMember (kind.proTxHash msg) with
  | none => false
  | some member =>
    CBLSSignature.verifyInsecure scheme (kind.sig msg) member.pubKeyOperator (kind.getSignHash msg)

/-- The message is a member's, with a signature that decodes to that of `s`. -/
structure Decodes (msg : Message) (s : Signed G₁ G₂) : Prop where
  member : ∃ m, session.getMember (kind.proTxHash msg) = some m ∧ m.pubKeyOperator = s.pubKey
  sig : kind.sig msg = some s.sig
  hash : kind.getSignHash msg = s.hash

variable {scheme kind session}

variable {msg : Message} {s : Signed G₁ G₂} {rs : List (Received Message)}
  {out : BatchOutcome G₁ Message}

lemma Decodes.authentic_eq (h : Decodes kind session msg s) :
    authentic scheme kind session msg = s.verifies scheme := by
  obtain ⟨m, hm, hkey⟩ := h.member
  simp only [authentic, hm, h.sig, h.hash, hkey, Signed.verifies]

lemma exists_decodes (h : kind.preVerifyMessage session msg = .accept) :
    ∃ s, Decodes kind session msg s := by
  obtain ⟨m, hm⟩ := isSome_iff_exists.mp (kind.member_of_accept session msg h)
  obtain ⟨sig, hsig⟩ := isSome_iff_exists.mp (kind.sig_of_accept session msg h)
  exact ⟨⟨m.pubKeyOperator, kind.getSignHash msg, sig⟩, ⟨m, hm, rfl⟩, hsig, rfl⟩

variable {messages : List (NodeId × Message)}

lemma exists_forall₂_decodes (h : ∀ p ∈ messages, kind.preVerifyMessage session p.2 = .accept) :
    ∃ ss, Forall₂ (fun p s => Decodes kind session p.2 s) messages ss := by
  induction messages with
  | nil => exact ⟨[], .nil⟩
  | cons p messages ih =>
    rw [forall_mem_cons] at h
    have ⟨s, hs⟩ := exists_decodes h.1
    have ⟨ss, hss⟩ := ih h.2
    exact ⟨s :: ss, .cons hs hss⟩

section

variable {messages : List (NodeId × Message)} {ss : List (Signed G₁ G₂)}
  (h : List.Forall₂ (fun p s => Decodes kind session p.2 s) messages ss)
include h

lemma map_getSignHash_of_decodes :
    (messages.map fun p => kind.getSignHash p.2) = ss.map Signed.hash := by
  induction h with
  | nil => rfl
  | cons hp _ ih => rw [map_cons, map_cons, hp.hash, ih]

lemma all_verifies_of_decodes : ss.all (Signed.verifies scheme) =
      messages.all fun p => authentic scheme kind session p.2 := by
  induction h with
  | nil => rfl
  | cons hp _ ih => rw [all_cons, all_cons, hp.authentic_eq, ih]

end

lemma collect_cons {nodeId : NodeId} {rest} (h : Decodes kind session msg s) (c) :
    collect scheme kind session ((nodeId, msg) :: rest) c = (if c.first then some (some s.sig)
        else CBLSSignature.aggregateInsecure scheme c.aggSig (some s.sig)).bind fun aggSig =>
          if s.hash ∈ c.messageHashes then
            some { c with first := false, aggSig, revertToSingleVerification := true }
          else collect scheme kind session rest
            { c with
              first := false
              aggSig
              pubKeys := c.pubKeys ++ [s.pubKey]
              messageHashes := c.messageHashes ++ [s.hash] } := by
  obtain ⟨m, hm, hkey⟩ := h.member
  cases hfirst : c.first <;> simp [collect, hm, h.sig, h.hash, hkey, hfirst]

variable (scheme) in
def collectedOf (s : Signed G₁ G₂) (ss : List (Signed G₁ G₂)) : Collected G₁ G₂ :=
  ⟨∅, false, some (Signed.aggregate scheme s ss), (s :: ss).map Signed.pubKey,
    (s :: ss).map Signed.hash, false⟩

lemma collect_of_decodes {rest}
    (h : Forall₂ (fun p s => Decodes kind session p.2 s) messages rest) (s) (ss)
    (hss : ((s :: ss).map Signed.hash).Nodup) : if ((s :: ss ++ rest).map Signed.hash).Nodup then
      collect scheme kind session messages (collectedOf scheme s ss) =
        some (collectedOf scheme s (ss ++ rest))
    else ∃ c, collect scheme kind session messages (collectedOf scheme s ss) = some c ∧
      c.revertToSingleVerification = true ∧ c.ret = ∅ := by
  induction h generalizing ss with
  | nil => rw [append_nil, append_nil, if_pos hss]; rfl
  | @cons p s' messages rest hp _ ih =>
    have hagg : CBLSSignature.aggregateInsecure scheme (some (Signed.aggregate scheme s ss))
        (some s'.sig) = some (some (Signed.aggregate scheme s (ss ++ [s']))) := by
      rw [Signed.aggregate_append]
      rfl
    have hturn : collect scheme kind session (p :: messages) (collectedOf scheme s ss) =
        if s'.hash ∈ (s :: ss).map Signed.hash then
          some { collectedOf scheme s (ss ++ [s']) with
            pubKeys := (s :: ss).map Signed.pubKey
            messageHashes := (s :: ss).map Signed.hash
            revertToSingleVerification := true }
        else collect scheme kind session messages (collectedOf scheme s (ss ++ [s'])) := by
      rw [collect_cons hp]
      simp only [collectedOf, false_eq_true, ↓reduceIte, hagg, bind_some,
        map_cons, map_append, map_nil, cons_append]
    have hsplit : s :: ss ++ s' :: rest = s :: (ss ++ [s']) ++ rest := by simp
    rw [hturn]
    by_cases hmem : s'.hash ∈ (s :: ss).map Signed.hash
    · have hdup : ¬ ((s :: ss ++ s' :: rest).map Signed.hash).Nodup := by
        rw [map_append, map_cons]
        exact fun hnodup => disjoint_of_nodup_append hnodup hmem (mem_cons_self ..)
      rw [if_neg hdup, if_pos hmem]
      exact ⟨_, rfl, rfl, rfl⟩
    · have hnodup : ((s :: (ss ++ [s'])).map Signed.hash).Nodup := by
        rw [← cons_append, map_append]
        exact hss.append (nodup_singleton _) (by simpa using hmem)
      rw [if_neg hmem, hsplit]
      have hrest := ih (ss ++ [s']) hnodup
      rwa [append_assoc ss [s'] rest] at hrest

lemma nodeIdsAllSame_eq (hne : messages ≠ []) (nodeId : NodeId) :
    nodeIdsAllSame messages true nodeId = ((messages.getLast hne).1, true) := by
  induction messages generalizing nodeId with
  | nil => exact absurd rfl hne
  | cons p rest ih =>
    show nodeIdsAllSame rest true p.1 = _
    cases rest with
    | nil => rfl
    | cons q rest => exact ih (cons_ne_nil q rest) p.1

lemma verifySingly_eq
    (hmember : ∀ p ∈ messages, (session.getMember (kind.proTxHash p.2)).isSome = true) (ret) :
    ∃ bad, verifySingly scheme kind session messages ret = some bad ∧ ∀ nodeId, nodeId ∈ bad ↔
      nodeId ∈ ret ∨ ∃ p ∈ messages, p.1 = nodeId ∧ authentic scheme kind session p.2 = false := by
  induction messages generalizing ret with
  | nil => exact ⟨ret, rfl, by simp⟩
  | cons p messages ih =>
    rw [forall_mem_cons] at hmember
    obtain ⟨member, hm⟩ := isSome_iff_exists.mp hmember.1
    have hvalid : authentic scheme kind session p.2 = CBLSSignature.verifyInsecure scheme
        (kind.sig p.2) member.pubKeyOperator (kind.getSignHash p.2) := by
      simp only [authentic, hm]
    by_cases hret : p.1 ∈ ret
    · obtain ⟨bad, hbad, hiff⟩ := ih hmember.2 ret
      refine ⟨bad, by simp [verifySingly, hret, hbad], fun nodeId => ?_⟩
      rw [hiff, exists_mem_cons_iff]
      grind
    · cases hp : authentic scheme kind session p.2 with
      | true =>
        obtain ⟨bad, hbad, hiff⟩ := ih hmember.2 ret
        refine ⟨bad, by simp [verifySingly, hret, hm, ← hvalid, hp, hbad], fun nodeId => ?_⟩
        rw [hiff, exists_mem_cons_iff]
        grind
      | false =>
        obtain ⟨bad, hbad, hiff⟩ := ih hmember.2 (insert p.1 ret)
        refine ⟨bad, by simp [verifySingly, hret, hm, ← hvalid, hp, hbad], fun nodeId => ?_⟩
        rw [hiff, exists_mem_cons_iff, Finset.mem_insert]
        grind

/-- The batch holds two messages of one sign hash, or all its messages that are not authentic
come from the node of its last message. -/
def BlamesRightly (scheme : Scheme G₁ G₂) (kind : MessageKind G₁ G₂ Message)
    (session : CDKGSession G₁) (messages : List (NodeId × Message)) : Prop :=
  (messages.map fun p => kind.getSignHash p.2).Nodup →
    ∀ p ∈ messages, authentic scheme kind session p.2 = false →
      messages.getLast?.map Prod.fst = some p.1

instance (messages : List (NodeId × Message)) :
    Decidable (BlamesRightly scheme kind session messages) :=
  inferInstanceAs (Decidable (_ → ∀ p ∈ messages, _ → _))

/-- The verdict on a batch: the nodes with a message that is not authentic, if two messages
have one sign hash; else none or the last one. -/
lemma batchVerifyMessageSigs_eq (hscheme : scheme.AggregatesExactly) (hne : messages ≠ [])
    (haccept : ∀ p ∈ messages, kind.preVerifyMessage session p.2 = .accept) :
    ∃ bad, batchVerifyMessageSigs scheme kind session messages = some bad ∧
      if (messages.map fun p => kind.getSignHash p.2).Nodup then
        bad = if ∀ p ∈ messages, authentic scheme kind session p.2 = true then ∅
          else {(messages.getLast hne).1}
      else ∀ nodeId, nodeId ∈ bad ↔
        ∃ p ∈ messages, p.1 = nodeId ∧ authentic scheme kind session p.2 = false := by
  obtain ⟨ss, hss⟩ := exists_forall₂_decodes haccept
  have hhashes := map_getSignHash_of_decodes hss
  have hall : ss.all (Signed.verifies scheme) = _ := all_verifies_of_decodes hss
  have hmember : ∀ p ∈ messages, (session.getMember (kind.proTxHash p.2)).isSome = true :=
    fun p hp => kind.member_of_accept session p.2 (haccept p hp)
  cases hss with
  | nil => exact absurd rfl hne
  | @cons p s messages ss hp hrest =>
    have hfirst : collect scheme kind session (p :: messages) ⟨∅, true, none, [], [], false⟩ =
        collect scheme kind session messages (collectedOf scheme s []) := by
      rw [collect_cons hp]
      rfl
    have hcollect : if ([s] ++ ss |>.map Signed.hash).Nodup then
        collect scheme kind session messages (collectedOf scheme s []) = _ else _ :=
      collect_of_decodes hrest s [] (nodup_singleton _)
    rw [singleton_append, nil_append] at hcollect
    rw [hhashes]
    split at hcollect
    case isTrue hnodup =>
      have hagg := hscheme s ss hnodup
      rw [hall] at hagg
      have hverdict : batchVerifyMessageSigs scheme kind session (p :: messages) =
          some (if ∀ q ∈ p :: messages, authentic scheme kind session q.2 = true then ∅
            else {((p :: messages).getLast hne).1}) := by
        simp only [batchVerifyMessageSigs, hfirst.trans hcollect, nodeIdsAllSame_eq hne,
          isEmpty_cons, false_eq_true, ↓reduceIte, bind_eq_bind,
          bind_some]
        simp only [collectedOf, hagg, false_eq_true, ↓reduceIte, bind_some, List.all_eq_true]
        split <;> rfl
      exact ⟨_, hverdict, by rw [if_pos hnodup]⟩
    case isFalse hdup =>
      obtain ⟨c, hc, hrevert, hret⟩ := hcollect
      obtain ⟨bad, hbad, hiff⟩ : ∃ bad, verifySingly scheme kind session (p :: messages) ∅ =
        some bad ∧ _ := verifySingly_eq hmember ∅
      refine ⟨bad, ?_, ?_⟩
      · simp only [batchVerifyMessageSigs, hfirst, hc, hrevert, hret, hbad, isEmpty_cons,
          false_eq_true, ↓reduceIte, bind_eq_bind, bind_some]
      · rw [if_neg hdup]
        simpa using hiff

lemma preverify_accept {msgs} {r}
    (hr : r ∈ (preverify kind session msgs).1) : kind.preVerifyMessage session r.msg = .accept := by
  induction msgs with
  | nil => cases hr
  | cons p msgs ih =>
    obtain ⟨nodeId, _ | msg⟩ := p
    · exact ih hr
    · simp only [preverify] at hr
      cases hverdict : kind.preVerifyMessage session msg <;> simp only [hverdict] at hr
      case accept =>
        rcases mem_cons.mp hr with rfl | hr
        · exact hverdict
        · exact ih hr
      all_goals exact ih hr

lemma deliver_received (rs) (d) :
    (deliver kind rs d).received = d.received ++ rs.filter fun r => r.nodeId ∉ d.badNodes := by
  induction rs generalizing d with
  | nil => simp [deliver]
  | cons r rs ih =>
    by_cases hbad : r.nodeId ∈ d.badNodes
    · simp [deliver, hbad, ih]
    · simp [deliver, hbad, kind.receive_ban, ih]

def batchMessages (kind : MessageKind G₁ G₂ Message) (session : CDKGSession G₁)
    (pending : List (NodeId × List UInt8)) (maxCount : Nat) : List (NodeId × Message) :=
  (preverify kind session (popAndDeserializeMessages kind pending maxCount)).1.map
    fun r => (r.nodeId, r.msg)

/-- Every message handed on is authentic, and no node all of whose messages are authentic
is reported. -/
def Authenticates (scheme : Scheme G₁ G₂) (kind : MessageKind G₁ G₂ Message)
    (session : CDKGSession G₁) (messages : List (NodeId × Message))
    (out : BatchOutcome G₁ Message) : Prop :=
  (∀ r ∈ out.delivery.received, authentic scheme kind session r.msg = true) ∧
    ∀ nodeId, (∀ p ∈ messages, p.1 = nodeId → authentic scheme kind session p.2 = true) →
      nodeId ∉ out.badNodes

lemma authenticates_of_exact {badNodes} (hbad : out.badNodes = badNodes)
    (hreceived : out.delivery.received = rs.filter fun r => r.nodeId ∉ badNodes)
    (hexact : ∀ nodeId, nodeId ∈ badNodes ↔ ∃ p ∈ rs.map fun r => (r.nodeId, r.msg),
      p.1 = nodeId ∧ authentic scheme kind session p.2 = false) :
    Authenticates scheme kind session (rs.map fun r => (r.nodeId, r.msg)) out := by
  refine ⟨fun r hr => ?_, fun nodeId hgood hmem => ?_⟩
  · rw [hreceived, mem_filter, decide_eq_true_eq, hexact] at hr
    by_contra hr'
    exact hr.2 ⟨(r.nodeId, r.msg), mem_map_of_mem hr.1, rfl, eq_false_iff.mpr hr'⟩
  · rw [hbad, hexact] at hmem
    obtain ⟨p, hp, hnode, hp'⟩ := hmem
    exact absurd (hgood p hp hnode) (by simp [hp'])

lemma authenticates_iff_of_last (hne : (rs.map fun r => (r.nodeId, r.msg)) ≠ [])
    (hnodup : ((rs.map fun r => (r.nodeId, r.msg)).map fun p => kind.getSignHash p.2).Nodup)
    (hsome : ¬ ∀ p ∈ rs.map fun r => (r.nodeId, r.msg), authentic scheme kind session p.2 = true)
    (hbad : out.badNodes = {((rs.map fun r => (r.nodeId, r.msg)).getLast hne).1})
    (hreceived : out.delivery.received = rs.filter fun r => r.nodeId ∉ out.badNodes) :
    Authenticates scheme kind session (rs.map fun r => (r.nodeId, r.msg)) out ↔
      BlamesRightly scheme kind session (rs.map fun r => (r.nodeId, r.msg)) := by
  have hlast : (rs.map fun r => (r.nodeId, r.msg)).getLast?.map Prod.fst = _ :=
    congrArg _ (getLast?_eq_some_getLast hne)
  constructor
  · intro hauth _ p hp hfails
    obtain ⟨r, hr, rfl⟩ := mem_map.mp hp
    by_contra hother
    rw [hlast, map_some, Option.some.injEq] at hother
    have hmem : r ∈ out.delivery.received := by
      rw [hreceived, mem_filter, decide_eq_true_eq, hbad, Finset.mem_singleton]
      exact ⟨hr, Ne.symm hother⟩
    exact absurd (hauth.1 r hmem) (by simp [hfails])
  · intro hblames
    refine authenticates_of_exact rfl hreceived fun nodeId => ?_
    rw [hbad, Finset.mem_singleton]
    push Not at hsome
    obtain ⟨q, hq, hqfails⟩ := hsome
    constructor
    · rintro rfl
      have hqfails := eq_false_iff.mpr hqfails
      exact ⟨q, hq, Option.some.inj ((hblames hnodup q hq hqfails).symm.trans hlast), hqfails⟩
    · rintro ⟨p, hp, rfl, hpfails⟩
      exact Option.some.inj ((hblames hnodup p hp hpfails).symm.trans hlast)

/-- The batch is processed, and its messages are authenticated exactly if it holds two
messages of one sign hash or only the node of its last message has sent one that is not
authentic. -/
theorem batch_authenticates_iff (hscheme : scheme.AggregatesExactly)
    (pending : List (NodeId × List UInt8)) (maxCount : Nat) :
    ∃ out, processPendingMessageBatch scheme kind session pending maxCount = some out ∧
      (Authenticates scheme kind session (batchMessages kind session pending maxCount) out ↔
        BlamesRightly scheme kind session (batchMessages kind session pending maxCount)) := by
  unfold processPendingMessageBatch batchMessages
  generalize popAndDeserializeMessages kind pending maxCount = msgs
  have haccept : ∀ r ∈ (preverify kind session msgs).1, _ := fun r => preverify_accept
  have hempty : ∀ out : BatchOutcome G₁ Message, out.badNodes = ∅ → out.delivery.received = [] →
      (Authenticates scheme kind session [] out ↔ BlamesRightly scheme kind session []) :=
    fun out hbad hreceived => iff_of_true
      ⟨by simp [hreceived], by simp [hbad]⟩ fun _ p hp => absurd hp not_mem_nil
  cases msgs with
  | nil => exact ⟨_, rfl, hempty _ rfl rfl⟩
  | cons p msgs =>
    simp only [isEmpty_cons, false_eq_true, ↓reduceIte]
    generalize preverify kind session (p :: msgs) = preverified at haccept ⊢
    obtain ⟨rs, banned⟩ := preverified
    cases rs with
    | nil => exact ⟨_, rfl, hempty _ rfl rfl⟩
    | cons r rs =>
      have hne : ((r :: rs).map fun r => (r.nodeId, r.msg)) ≠ [] := cons_ne_nil _ _
      have haccept' : ∀ p ∈ (r :: rs).map fun r => (r.nodeId, r.msg),
          kind.preVerifyMessage session p.2 = .accept := forall_mem_map.mpr haccept
      obtain ⟨badNodes, hverdict, hbad⟩ := batchVerifyMessageSigs_eq hscheme hne haccept'
      simp only [isEmpty_cons, false_eq_true, ↓reduceIte, hverdict, bind_eq_bind, bind_some]
      refine ⟨_, rfl, ?_⟩
      have hreceived : (deliver kind (r :: rs) ⟨session, [], badNodes, banned⟩).received = _ :=
        deliver_received (r :: rs) _
      split at hbad
      case isTrue hnodup =>
        split at hbad
        case isTrue hall =>
          refine iff_of_true (authenticates_of_exact hbad (hbad ▸ hreceived) fun nodeId => ?_)
            fun _ q hq hfails => absurd (hall q hq) (by simp [hfails])
          refine iff_of_false (Finset.notMem_empty nodeId) fun ⟨q, hq, _, hfails⟩ => ?_
          exact absurd (hall q hq) (by simp [hfails])
        case isFalse hsome => exact authenticates_iff_of_last _ hnodup hsome hbad hreceived
      case isFalse hdup =>
        exact iff_of_true (authenticates_of_exact rfl hreceived hbad) fun h => absurd h hdup

def twoMembers : CDKGSession Unit :=
  ⟨⟨2, 2, 2⟩, 0, [⟨some (), ∅, ∅, ∅, ∅⟩, ⟨some (), ∅, ∅, ∅, ∅⟩],
    fun proTxHash => if proTxHash = 1 then some 0 else if proTxHash = 2 then some 1 else none⟩

/-- Complaints encoded as the masternode and the defects of the signature. -/
def twoByteComplaints : MessageKind Unit Nat (CDKGComplaint Nat) :=
  CDKGComplaint.kind CDKGComplaint.proTxHash CDKGComplaint.proTxHash (fun
      | [proTxHash, defects] =>
        some ⟨0, BitVec.ofNat 256 proTxHash.toNat, [false, false], [false, false],
          some defects.toNat⟩
      | _ => none)
    fun session _ _ => session

/-- Node 7 sends a good complaint and node 8 a forged one. -/
theorem batch_authenticates_iff_lastForged :
    ∃ out, processPendingMessageBatch defectScheme twoByteComplaints twoMembers
        [(7, [1, 0]), (8, [2, 1])] 10 = some out ∧
      Authenticates defectScheme twoByteComplaints twoMembers
        (batchMessages twoByteComplaints twoMembers [(7, [1, 0]), (8, [2, 1])] 10) out := by
  have ⟨out, hout, hiff⟩ : ∃ out, processPendingMessageBatch defectScheme twoByteComplaints
      twoMembers [(7, [1, 0]), (8, [2, 1])] 10 = some out ∧ _ :=
    batch_authenticates_iff defectScheme_aggregatesExactly _ _
  exact ⟨out, hout, hiff.mpr (by decide +kernel)⟩

/-- Node 7 sends a forged complaint and node 8 a good one: the forged one is handed on and
node 8 is reported. -/
theorem forged_complaint_received : defectScheme.AggregatesExactly ∧
    ∃ out, processPendingMessageBatch defectScheme twoByteComplaints twoMembers
        [(7, [1, 1]), (8, [2, 0])] 10 = some out ∧
      ¬ Authenticates defectScheme twoByteComplaints twoMembers
        (batchMessages twoByteComplaints twoMembers [(7, [1, 1]), (8, [2, 0])] 10) out := by
  have hrun : ((processPendingMessageBatch defectScheme twoByteComplaints twoMembers
      [(7, [1, 1]), (8, [2, 0])] 10).any fun out => decide (out.badNodes = {8})) = true := by
    decide +kernel
  obtain ⟨out, hout, hbad⟩ := (Option.any_eq_true _ _).mp hrun
  refine ⟨defectScheme_aggregatesExactly, out, hout, fun hauth => hauth.2 8 (by decide +kernel) ?_⟩
  rw [of_decide_eq_true hbad]
  exact Finset.mem_singleton_self 8

end Firo.Llmq
