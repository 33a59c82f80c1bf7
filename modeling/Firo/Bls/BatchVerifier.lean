import Firo.Bls.Scheme
import Firo.Lib.Registry

/-! `CBLSBatchVerifier` of `bls/bls_batchverifier.h`. Messages from several sources are verified as
one aggregate, then by source, and then one by one; only the messages and sources that fail are
named. -/
namespace Firo.Bls

open Firo.Spark Firo.Lib CBLSSignature
open List hiding le_antisymm
open Option hiding all or_assoc

variable {G₁ G₂ SourceId MessageId : Type} [LinearOrder SourceId] [LinearOrder MessageId]

structure Message (MessageId G₁ G₂ : Type) where
  msgId : MessageId
  msgHash : Uint256
  sig : CBLSSignature G₂
  pubKey : CBLSPublicKey G₁

/-- The iterators of the class point to entries of `messages`; here they are the messages
of those entries. -/
structure CBLSBatchVerifier (SourceId MessageId G₁ G₂ : Type) [LinearOrder SourceId]
    [LinearOrder MessageId] where
  secureVerification : Bool
  perMessageFallback : Bool
  subBatchSize : Nat
  messages : Std.ExtTreeMap MessageId (Message MessageId G₁ G₂)
  messagesBySource : Std.ExtTreeMap SourceId (List (Message MessageId G₁ G₂))
  badSources : Finset SourceId
  badMessages : Finset MessageId

abbrev ByMessageHash (MessageId G₁ G₂ : Type) :=
  List (Uint256 × List (Message MessageId G₁ G₂))

def groupByHash (messages : List (Message MessageId G₁ G₂)) : ByMessageHash MessageId G₁ G₂ :=
  (messages.foldl (fun (byMessageHash : Std.ExtTreeMap Uint256 (List (Message MessageId G₁ G₂)))
      msg => byMessageHash.insert msg.msgHash ((byMessageHash[msg.msgHash]?).getD [] ++ [msg]))
    ∅).toList

variable (scheme : Scheme G₁ G₂)

/-- An aggregate starts with the first signature or key and adds the others to it. -/
def addSig (aggSig sig : CBLSSignature G₂) : Option (CBLSSignature G₂) :=
  if !aggSig.isSome then some sig else CBLSSignature.aggregateInsecure scheme aggSig sig

def addPubKey (aggPubKey pubKey : CBLSPublicKey G₁) : Option (CBLSPublicKey G₁) :=
  if !aggPubKey.isSome then some pubKey else CBLSPublicKey.aggregateInsecure scheme aggPubKey pubKey

structure Aggregation (MessageId G₁ G₂ : Type) where
  aggSig : CBLSSignature G₂
  msgHashes : List Uint256
  pubKeys : List (CBLSPublicKey G₁)
  dups : Finset MessageId

def Aggregation.empty : Aggregation MessageId G₁ G₂ :=
  ⟨none, [], [], ∅⟩

/-- The inner loop of `VerifyBatchInsecure`, with the aggregate of the group's keys. -/
def aggregateGroup (aggPubKey : CBLSPublicKey G₁) (a : Aggregation MessageId G₁ G₂) :
    List (Message MessageId G₁ G₂) → Option (CBLSPublicKey G₁ × Aggregation MessageId G₁ G₂)
  | [] => some (aggPubKey, a)
  | msg :: rest =>
    if msg.msgId ∈ a.dups then aggregateGroup aggPubKey a rest
    else do
      let aggSig ← addSig scheme a.aggSig msg.sig
      let aggPubKey ← addPubKey scheme aggPubKey msg.pubKey
      aggregateGroup aggPubKey { a with aggSig, dups := insert msg.msgId a.dups } rest

def aggregateInsecure (a : Aggregation MessageId G₁ G₂) :
    ByMessageHash MessageId G₁ G₂ → Option (Aggregation MessageId G₁ G₂)
  | [] => some a
  | (msgHash, messages) :: rest => do
    let (aggPubKey, a) ← aggregateGroup scheme none a messages
    -- a group of duplicates only is passed over
    if !aggPubKey.isSome then aggregateInsecure a rest
    else
      aggregateInsecure
        { a with msgHashes := a.msgHashes ++ [msgHash], pubKeys := a.pubKeys ++ [aggPubKey] } rest

def verifyBatchInsecure (byMessageHash : ByMessageHash MessageId G₁ G₂) : Option Bool := do
  let a ← aggregateInsecure scheme .empty byMessageHash
  if a.msgHashes.isEmpty then some true
  else CBLSSignature.verifyInsecureAggregated scheme a.aggSig a.pubKeys a.msgHashes

/-- The turn of `VerifyBatchSecureStep` for the last message of a group. -/
def addLast (a : Aggregation MessageId G₁ G₂) (msgHash : Uint256)
    (msg : Message MessageId G₁ G₂) : Option (Aggregation MessageId G₁ G₂) :=
  if msg.msgId ∈ a.dups then some a
  else do
    let aggSig ← addSig scheme a.aggSig msg.sig
    some ⟨aggSig, a.msgHashes ++ [msgHash], a.pubKeys ++ [msg.pubKey], insert msg.msgId a.dups⟩

/-- One pass of `VerifyBatchSecureStep` over the groups: it takes the last message of each
group and leaves the groups that have more. -/
def aggregateSecure (a : Aggregation MessageId G₁ G₂) : ByMessageHash MessageId G₁ G₂ →
      Option (Aggregation MessageId G₁ G₂ × ByMessageHash MessageId G₁ G₂)
  | [] => some (a, [])
  | (msgHash, messages) :: rest => do
    let msg ← messages.getLast?
    let a ← addLast scheme a msgHash msg
    let (a, left) ← aggregateSecure a rest
    let messages := messages.dropLast
    some (a, if messages.isEmpty then left else (msgHash, messages) :: left)

/-- The loop of `VerifyBatchSecure`: every pass takes a message of each group. -/
def verifyBatchSecure : Nat → ByMessageHash MessageId G₁ G₂ → Option Bool
  | _, [] => some true
  | 0, _ :: _ => none
  | passes + 1, group :: byMessageHash => do
    let (a, left) ← aggregateSecure scheme .empty (group :: byMessageHash)
    if a.msgHashes.isEmpty then none
    else
      let valid ← CBLSSignature.verifyInsecureAggregated scheme a.aggSig a.pubKeys a.msgHashes
      if valid then verifyBatchSecure passes left else some false

namespace CBLSBatchVerifier

variable (v : CBLSBatchVerifier SourceId MessageId G₁ G₂)

def verifyBatch (byMessageHash : ByMessageHash MessageId G₁ G₂) : Option Bool :=
  if v.secureVerification then
    verifyBatchSecure scheme (byMessageHash.map fun g => g.2.length).sum byMessageHash
  else verifyBatchInsecure scheme byMessageHash

def create (secureVerification perMessageFallback : Bool) (subBatchSize : Nat) :
    CBLSBatchVerifier SourceId MessageId G₁ G₂ :=
  ⟨secureVerification, perMessageFallback, subBatchSize, ∅, ∅, ∅, ∅⟩

def clearMessages :
    CBLSBatchVerifier SourceId MessageId G₁ G₂ :=
  { v with messages := ∅, messagesBySource := ∅ }

/-- The check of a single message, unless it is known to be bad from another source. -/
def verifyMessage (badMessages : Finset MessageId) (msg : Message MessageId G₁ G₂) :
    Finset MessageId :=
  if msg.msgId ∈ badMessages then badMessages
  else if !CBLSSignature.verifyInsecure scheme msg.sig msg.pubKey msg.msgHash then
    insert msg.msgId badMessages
  else badMessages

def verifyMessages (badMessages : Finset MessageId) (messages : List (Message MessageId G₁ G₂)) :
    Finset MessageId :=
  match messages with
  | [msg] => insert msg.msgId badMessages
  | messages => messages.foldl (verifyMessage scheme) badMessages

def sourceValid (messages : List (Message MessageId G₁ G₂)) : Option Bool :=
  if v.messagesBySource.size ≠ 1 then v.verifyBatch scheme (groupByHash messages) else some false

def blameSource (sourceId : SourceId)
    (messages : List (Message MessageId G₁ G₂)) : CBLSBatchVerifier SourceId MessageId G₁ G₂ :=
  { v with
    badSources := insert sourceId v.badSources
    badMessages :=
      if v.perMessageFallback then verifyMessages scheme v.badMessages messages
      else v.badMessages }

def verifySource (source : SourceId × List (Message MessageId G₁ G₂)) :
    Option (CBLSBatchVerifier SourceId MessageId G₁ G₂) :=
  (v.sourceValid scheme source.2).map fun batchValid =>
    if !batchValid then v.blameSource scheme source.1 source.2 else v

def verify :
    Option (CBLSBatchVerifier SourceId MessageId G₁ G₂) := do
  if ← v.verifyBatch scheme (groupByHash (v.messages.toList.map Prod.snd)) then some v
  else v.messagesBySource.toList.foldlM (verifySource scheme) v

def emplaceMessage (sourceId : SourceId)
    (msg : Message MessageId G₁ G₂) : CBLSBatchVerifier SourceId MessageId G₁ G₂ :=
  let entry := (v.messages[msg.msgId]?).getD msg
  { v with
    messages := v.messages.insert msg.msgId entry
    messagesBySource := v.messagesBySource.insert sourceId
      ((v.messagesBySource[sourceId]?).getD [] ++ [entry]) }

def pushMessage (sourceId : SourceId)
    (msg : Message MessageId G₁ G₂) : Option (CBLSBatchVerifier SourceId MessageId G₁ G₂) :=
  if !(msg.sig.isSome && msg.pubKey.isSome) then none
  else
    let v := v.emplaceMessage sourceId msg
    if v.subBatchSize ≠ 0 ∧ v.subBatchSize ≤ v.messages.size then
      (v.verify scheme).map clearMessages
    else some v

def run (pushes : List (SourceId × Message MessageId G₁ G₂)) :
    Option (CBLSBatchVerifier SourceId MessageId G₁ G₂) :=
  (pushes.foldlM (fun v p => pushMessage scheme v p.1 p.2) v).bind (verify scheme)

end CBLSBatchVerifier

/-- The messages of a map of groups: those of `messages`, each under its own hash. -/
structure GroupsOf (messages : List (Message MessageId G₁ G₂))
    (groups : Std.ExtTreeMap Uint256 (List (Message MessageId G₁ G₂))) : Prop where
  ne_nil : ∀ (hash : Uint256) g, groups[hash]? = some g → g ≠ []
  mem : ∀ (hash : Uint256) g, groups[hash]? = some g → ∀ m ∈ g, m.msgHash = hash ∧ m ∈ messages
  cover : ∀ m ∈ messages, ∃ g, groups[m.msgHash]? = some g ∧ m ∈ g

variable {messages : List (Message MessageId G₁ G₂)} {a : Aggregation MessageId G₁ G₂}

section

omit [LinearOrder MessageId]

lemma GroupsOf.insert {groups} (h : GroupsOf messages groups) (msg) : GroupsOf (messages ++ [msg])
      (groups.insert msg.msgHash ((groups[msg.msgHash]?).getD [] ++ [msg])) := by
  refine ⟨fun hash g hg => ?_, fun hash g hg m hm => ?_, fun m hm => ?_⟩
  · rw [getElem?_insert_eq] at hg
    split at hg
    · cases hg
      simp
    · exact h.ne_nil hash g hg
  · rw [getElem?_insert_eq] at hg
    split at hg
    case isTrue heq =>
      cases hg
      subst heq
      rcases mem_append.mp hm with hm | hm
      · cases hold : groups[msg.msgHash]? with
        | none => simp [hold] at hm
        | some old =>
          rw [hold] at hm
          exact (h.mem _ old hold m hm).imp_right fun hm => mem_append_left _ hm
      · cases mem_singleton.mp hm
        exact ⟨rfl, by simp⟩
    case isFalse => exact (h.mem hash g hg m hm).imp_right fun hm => mem_append_left _ hm
  · rw [getElem?_insert_eq]
    rcases mem_append.mp hm with hm | hm
    · obtain ⟨g, hg, hmg⟩ := h.cover m hm
      split
      case isTrue heq =>
        refine ⟨_, rfl, mem_append_left _ ?_⟩
        rw [heq, hg]
        exact hmg
      case isFalse => exact ⟨g, hg, hmg⟩
    · cases mem_singleton.mp hm
      exact ⟨_, if_pos rfl, by simp⟩

lemma groupsOf_foldl (messages) : GroupsOf messages (messages.foldl
      (fun (byMessageHash : Std.ExtTreeMap Uint256 (List (Message MessageId G₁ G₂))) msg =>
        byMessageHash.insert msg.msgHash ((byMessageHash[msg.msgHash]?).getD [] ++ [msg])) ∅) := by
  induction messages using reverseRecOn with
  | nil => exact ⟨by simp, by simp, by simp⟩
  | append_singleton messages msg ih =>
    rw [foldl_append]
    exact ih.insert msg

/-- Groups of messages of `U`: none is empty, and each has one hash. -/
structure Grouped (U : Set (Message MessageId G₁ G₂)) (groups : ByMessageHash MessageId G₁ G₂) :
    Prop where
  ne_nil : ∀ g ∈ groups, g.2 ≠ []
  mem : ∀ g ∈ groups, ∀ m ∈ g.2, m.msgHash = g.1 ∧ m ∈ U

lemma grouped_groupByHash {U} (h : ∀ m ∈ messages, m ∈ U) : Grouped U (groupByHash messages) where
  ne_nil g hg := (groupsOf_foldl messages).ne_nil g.1 g.2
    (Std.ExtTreeMap.mem_toList_iff_getElem?_eq_some.mp hg)
  mem g hg m hm := ((groupsOf_foldl messages).mem g.1 g.2
    (Std.ExtTreeMap.mem_toList_iff_getElem?_eq_some.mp hg) m hm).imp_right (h m)

lemma exists_mem_groupByHash {m} (hm : m ∈ messages) : ∃ g ∈ groupByHash messages, m ∈ g.2 := by
  obtain ⟨g, hg, hmg⟩ := (groupsOf_foldl messages).cover m hm
  exact ⟨(m.msgHash, g), Std.ExtTreeMap.mem_toList_iff_getElem?_eq_some.mpr hg, hmg⟩

end

/-- The sum of a list as the loops build it: there is none of the empty list. -/
def total {A : Type} [AddCommGroup A] : List A → Option A
  | [] => none
  | x :: xs => some (x :: xs).sum

lemma total_append_singleton {A} [AddCommGroup A] (xs) (x : A) :
    total (xs ++ [x]) = some (xs.sum + x) := by
  cases xs <;> simp [total, add_assoc]

lemma total_isSome {A : Type} [AddCommGroup A] {xs : List A} (h : xs ≠ []) :
    total xs = some xs.sum := by
  cases xs
  · exact absurd rfl h
  · rfl

variable {G : Type} [AddCommGroup G₁] [AddCommGroup G₂] [AddCommGroup G] [DecidableEq G]
  (p : Pairing G₁ G₂ G)

def Message.deviation (m : Message MessageId G₁ G₂) : G :=
  p.e p.generator (m.sig.getD 0) - p.e (m.pubKey.getD 0) (p.hashToGroup m.msgHash)

/-- The messages of `U` are decoded, one for each id, and those that miss the equation do
not make up for each other. -/
structure NoCancellation (U : Set (Message MessageId G₁ G₂)) : Prop where
  valid : ∀ m ∈ U, m.sig.isSome = true ∧ m.pubKey.isSome = true
  eq_of_msgId : ∀ m ∈ U, ∀ m' ∈ U, m.msgId = m'.msgId → m = m'
  deviation : ∀ l : List (Message MessageId G₁ G₂), (∀ m ∈ l, m ∈ U) →
    (l.map Message.msgId).Nodup → (l.map (Message.deviation p)).sum = 0 → ∀ m ∈ l, m.deviation p = 0

def Decoded (U : Set (Message MessageId G₁ G₂)) : Prop :=
  ∀ m ∈ U, m.sig.isSome = true ∧ m.pubKey.isSome = true

/-- The messages of `U` are decoded, one for each id. -/
structure Identified (U : Set (Message MessageId G₁ G₂)) : Prop where
  valid : Decoded U
  eq_of_msgId : ∀ m ∈ U, ∀ m' ∈ U, m.msgId = m'.msgId → m = m'

variable {p}

omit [LinearOrder MessageId] [DecidableEq G] in
lemma NoCancellation.mono {U V : Set (Message MessageId G₁ G₂)} (h : NoCancellation p U)
    (hV : V ⊆ U) : NoCancellation p V where
  valid m hm := h.valid m (hV hm)
  eq_of_msgId m hm m' hm' := h.eq_of_msgId m (hV hm) m' (hV hm')
  deviation l hl := h.deviation l fun m hm => hV (hl m hm)

omit [LinearOrder MessageId] in
lemma verifyInsecure_eq {m : Message MessageId G₁ G₂} (hsig : m.sig.isSome = true)
    (hkey : m.pubKey.isSome = true) : verifyInsecure p.toScheme m.sig m.pubKey m.msgHash =
      decide (m.deviation p = 0) := by
  obtain ⟨msgId, msgHash, sig, pubKey⟩ := m
  obtain ⟨s, rfl⟩ := isSome_iff_exists.mp hsig
  obtain ⟨k, rfl⟩ := isSome_iff_exists.mp hkey
  simp [verifyInsecure, Pairing.toScheme, Message.deviation, sub_eq_zero]

lemma addSig_total (xs) (x : G₂) :
    addSig p.toScheme (total xs) (some x) = some (total (xs ++ [x])) := by
  rw [total_append_singleton]
  cases xs
  · simp [addSig, total]
  · rfl

lemma addPubKey_total (xs) (x : G₁) :
    addPubKey p.toScheme (total xs) (some x) = some (total (xs ++ [x])) := by
  rw [total_append_singleton]
  cases xs
  · simp [addPubKey, total]
  · rfl

/-- The signatures of the messages of `l` are added up, each message once. -/
structure Sums (a : Aggregation MessageId G₁ G₂) (l : List (Message MessageId G₁ G₂)) : Prop where
  aggSig : a.aggSig = total (l.map fun m => m.sig.getD 0)
  dups : ∀ id, id ∈ a.dups ↔ id ∈ l.map Message.msgId
  nodup : (l.map Message.msgId).Nodup

/-- The same, with the keys and hashes that the sum is checked against. -/
structure Collects (p : Pairing G₁ G₂ G) (a : Aggregation MessageId G₁ G₂)
    (l : List (Message MessageId G₁ G₂)) : Prop extends Sums a l where
  pairs : ∃ pairs : List (G₁ × Uint256), a.pubKeys = pairs.map (fun x => some x.1) ∧
    a.msgHashes = pairs.map Prod.snd ∧ (pairs = [] ↔ l = []) ∧
      (pairs.map fun x => p.e x.1 (p.hashToGroup x.2)).sum =
        (l.map fun m => p.e (m.pubKey.getD 0) (p.hashToGroup m.msgHash)).sum

section

omit [LinearOrder MessageId] [DecidableEq G]

lemma Collects.empty : Collects p (.empty : Aggregation MessageId G₁ G₂) [] :=
  ⟨⟨rfl, by simp [Aggregation.empty], nodup_nil⟩, [], rfl, rfl, by simp, rfl⟩

lemma sum_deviation (l : List (Message MessageId G₁ G₂)) :
    (l.map (Message.deviation p)).sum = p.e p.generator (l.map fun m => m.sig.getD 0).sum -
      (l.map fun m => p.e (m.pubKey.getD 0) (p.hashToGroup m.msgHash)).sum := by
  induction l with
  | nil => simp
  | cons m l ih =>
    simp only [map_cons, sum_cons, map_add, ih, Message.deviation]
    abel

end

omit [LinearOrder MessageId] in
lemma Collects.verify {l} (h : Collects p a l) (hne : l ≠ []) :
    verifyInsecureAggregated p.toScheme a.aggSig a.pubKeys a.msgHashes =
      some (decide ((l.map (Message.deviation p)).sum = 0)) := by
  obtain ⟨pairs, hkeys, hhashes, hempty, hsum⟩ := h.pairs
  have hpairs : pairs ≠ [] := fun hnil => hne (hempty.mp hnil)
  have hsig : a.aggSig = some (l.map fun m => m.sig.getD 0).sum :=
    h.aggSig.trans (total_isSome (by simpa using hne))
  have hzip : zipWith (fun pk hash => p.e pk (p.hashToGroup hash)) (pairs.map Prod.fst)
      (pairs.map Prod.snd) = pairs.map fun x => p.e x.1 (p.hashToGroup x.2) := by
    rw [zipWith_map, zipWith_self]
  have hreduce : (pairs.map fun x => some x.1).reduceOption = pairs.map Prod.fst := by
    simp [reduceOption, filterMap_map]
  rw [hsig, hkeys, hhashes, sum_deviation, ← hsum, ← hzip]
  simp [verifyInsecureAggregated, hpairs, hreduce, Pairing.toScheme, sub_eq_zero]

omit [AddCommGroup G₁] in
lemma Sums.add {l} (h : Sums a l) {msg : Message MessageId G₁ G₂} (hnew : msg.msgId ∉ a.dups) :
    Sums { a with
      aggSig := total ((l ++ [msg]).map fun m => m.sig.getD 0)
      dups := insert msg.msgId a.dups } (l ++ [msg]) where
  aggSig := rfl
  dups id := by simp [h.dups, or_comm]
  nodup := by
    rw [map_append]
    refine h.nodup.append (nodup_singleton _) ?_
    rw [h.dups] at hnew
    simpa using hnew

omit [LinearOrder MessageId] [DecidableEq G] in
lemma Collects.addGroup {a a' : Aggregation MessageId G₁ G₂}
    {l new : List (Message MessageId G₁ G₂)} {hash : Uint256} (h : Collects p a l)
    (hsums : Sums a' (l ++ new)) (hne : new ≠ []) (hhash : ∀ m ∈ new, m.msgHash = hash)
    (hhashes : a'.msgHashes = a.msgHashes) (hkeys : a'.pubKeys = a.pubKeys) : Collects p
      { a' with
        msgHashes := a'.msgHashes ++ [hash]
        pubKeys := a'.pubKeys ++ [some (new.map fun m => m.pubKey.getD 0).sum] } (l ++ new) := by
  obtain ⟨pairs, hpk, hph, -, hsum⟩ := h.pairs
  have hgroup : (new.map fun m => p.e (m.pubKey.getD 0) (p.hashToGroup m.msgHash)) =
      new.map fun m => p.e (m.pubKey.getD 0) (p.hashToGroup hash) :=
    map_congr_left fun m hm => by rw [hhash m hm]
  have hbilinear : p.e (new.map fun m => m.pubKey.getD 0).sum (p.hashToGroup hash) =
      (new.map fun m => p.e (m.pubKey.getD 0) (p.hashToGroup hash)).sum := by
    rw [← AddMonoidHom.flip_apply, map_list_sum, List.map_map]
    rfl
  refine ⟨⟨hsums.aggSig, hsums.dups, hsums.nodup⟩,
    pairs ++ [((new.map fun m => m.pubKey.getD 0).sum, hash)], ?_, ?_, ?_, ?_⟩
  · rw [map_append, ← hpk, hkeys]
    rfl
  · rw [map_append, ← hph, hhashes]
    rfl
  · simp [hne]
  · rw [map_append, map_append, sum_append, sum_append, hsum, hgroup,
      map_singleton, sum_singleton, hbilinear]

section

variable {U : Set (Message MessageId G₁ G₂)} (hU : Decoded U)
include hU

variable {m : Message MessageId G₁ G₂} {l : List (Message MessageId G₁ G₂)}
  {groups : ByMessageHash MessageId G₁ G₂}

omit [LinearOrder MessageId] [AddCommGroup G₁] in
lemma Decoded.sig_eq (hm : m ∈ U) : m.sig = some (m.sig.getD 0) := by
  obtain ⟨s, hs⟩ := isSome_iff_exists.mp (hU m hm).1
  rw [hs, getD_some]

omit [LinearOrder MessageId] [AddCommGroup G₂] in
lemma Decoded.pubKey_eq (hm : m ∈ U) : m.pubKey = some (m.pubKey.getD 0) := by
  obtain ⟨k, hk⟩ := isSome_iff_exists.mp (hU m hm).2
  rw [hk, getD_some]

lemma aggregateGroup_eq (messages) (hmem : ∀ m ∈ messages, m ∈ U) (new) (a)
    (ha : Sums a (l ++ new)) :
    ∃ more a', aggregateGroup p.toScheme (total (new.map fun m => m.pubKey.getD 0)) a messages =
        some (total ((new ++ more).map fun m => m.pubKey.getD 0), a') ∧
      Sums a' (l ++ (new ++ more)) ∧ a'.msgHashes = a.msgHashes ∧ a'.pubKeys = a.pubKeys ∧
      (∀ m ∈ more, m ∈ messages) ∧
      ∀ m ∈ messages, m.msgId ∈ (l ++ (new ++ more)).map Message.msgId := by
  induction messages generalizing new a with
  | nil =>
    exact ⟨[], a, by simp [aggregateGroup], by simpa using ha, rfl, rfl, by simp, by simp⟩
  | cons msg messages ih =>
    rw [forall_mem_cons] at hmem
    by_cases hdup : msg.msgId ∈ a.dups
    · obtain ⟨more, a', hrun, ha', hh, hk, hmore, hcover⟩ := ih hmem.2 new a ha
      refine ⟨more, a', by simpa [aggregateGroup, hdup] using hrun, ha', hh, hk,
        fun m hm => mem_cons_of_mem _ (hmore m hm), forall_mem_cons.mpr ⟨?_, hcover⟩⟩
      rw [ha.dups] at hdup
      rw [← append_assoc, map_append]
      exact mem_append_left _ hdup
    · have hturn := ha.add hdup
      rw [append_assoc] at hturn
      obtain ⟨more, a', hrun, ha', hh, hk, hmore, hcover⟩ := ih hmem.2 (new ++ [msg]) _ hturn
      rw [append_assoc] at ha' hrun hcover
      refine ⟨msg :: more, a', ?_, ha', hh, hk, ?_, forall_mem_cons.mpr ⟨?_, hcover⟩⟩
      · refine Eq.trans ?_ hrun
        rw [aggregateGroup, if_neg hdup, ha.aggSig, hU.sig_eq hmem.1, hU.pubKey_eq hmem.1,
          addSig_total, addPubKey_total]
        simp
      · rintro m (_ | ⟨_, hm⟩)
        · exact mem_cons_self ..
        · exact mem_cons_of_mem _ (hmore m hm)
      · simp

lemma aggregateInsecure_eq (groups) (hgroups : Grouped U groups) (l) (a) (ha : Collects p a l) :
    ∃ more a', aggregateInsecure p.toScheme a groups = some a' ∧ Collects p a' (l ++ more) ∧
      (∀ m ∈ more, m ∈ U) ∧
      ∀ g ∈ groups, ∀ m ∈ g.2, m.msgId ∈ (l ++ more).map Message.msgId := by
  induction groups generalizing l a with
  | nil => exact ⟨[], a, rfl, by simpa using ha, by simp, by simp⟩
  | cons g groups ih =>
    have hrest : Grouped U groups :=
      ⟨fun g' hg' => hgroups.ne_nil g' (.tail _ hg'), fun g' hg' => hgroups.mem g' (.tail _ hg')⟩
    have hg := hgroups.mem g (.head _)
    obtain ⟨new, a', hrun, ha', hh, hk, hnew, hcover⟩ := aggregateGroup_eq (p := p) hU (l := l) g.2
      (fun m hm => (hg m hm).2) [] a (by simpa using ha.toSums)
    rw [nil_append] at hrun ha' hcover
    have hturn : ∃ a'', aggregateInsecure p.toScheme a (g :: groups) =
        aggregateInsecure p.toScheme a'' groups ∧ Collects p a'' (l ++ new) := by
      rw [aggregateInsecure, show (none : CBLSPublicKey G₁) = total [] from rfl]
      simp only [map_nil] at hrun
      rw [hrun]
      cases new with
      | nil => exact ⟨a', rfl, ha', by simpa [hh, hk] using ha.pairs⟩
      | cons m new =>
        exact ⟨_, rfl, ha.addGroup ha' (cons_ne_nil _ _) (fun m hm => (hg m (hnew m hm)).1) hh hk⟩
    obtain ⟨a'', hturn, ha''⟩ := hturn
    obtain ⟨more, a₃, hrun', ha₃, hmore, hcover'⟩ := ih hrest (l ++ new) a'' ha''
    rw [append_assoc] at ha₃ hcover'
    refine ⟨new ++ more, a₃, hturn.trans hrun', ha₃, fun m hm => ?_,
      forall_mem_cons.mpr ⟨fun m hm => ?_, hcover'⟩⟩
    · rcases mem_append.mp hm with hm | hm
      · exact (hg m (hnew m hm)).2
      · exact hmore m hm
    · rw [← append_assoc, map_append]
      exact mem_append_left _ (hcover m hm)

section

omit [LinearOrder MessageId] [DecidableEq G] hU

lemma NoCancellation.deviation_eq_zero (hno : NoCancellation p U) (hl : ∀ m ∈ l, m ∈ U)
    (hnodup : (l.map Message.msgId).Nodup) (hsum : (l.map (Message.deviation p)).sum = 0)
    (hm : m ∈ U) (hid : m.msgId ∈ l.map Message.msgId) : m.deviation p = 0 := by
  obtain ⟨m', hm', heq⟩ := mem_map.mp hid
  rw [← hno.eq_of_msgId m' (hl m' hm') m hm heq]
  exact hno.deviation l hl hnodup hsum m' hm'

lemma exists_deviation_ne_zero (hl : ∀ m ∈ l, m ∈ U)
    (hsum : (l.map (Message.deviation p)).sum ≠ 0) : ∃ m ∈ U, m.deviation p ≠ 0 := by
  by_contra! hall
  exact hsum (sum_eq_zero (forall_mem_map.mpr fun m hm => hall m (hl m hm)))

end

/-- What the verdict on a batch of messages of `U` says: `of_false` needs nothing of the
deviations, since their sum is zero where all of them are. -/
structure Verdict (p : Pairing G₁ G₂ G) (U : Set (Message MessageId G₁ G₂))
    (groups : ByMessageHash MessageId G₁ G₂) (valid : Bool) : Prop where
  of_true : NoCancellation p U → valid = true → ∀ g ∈ groups, ∀ m ∈ g.2, m.deviation p = 0
  of_false : valid = false → ∃ m ∈ U, m.deviation p ≠ 0

lemma verifyBatchInsecure_verdict (hgroups : Grouped U groups) :
    ∃ valid, verifyBatchInsecure p.toScheme groups = some valid ∧ Verdict p U groups valid := by
  obtain ⟨l, a, hrun, ha, hl, hcover⟩ :=
    aggregateInsecure_eq (p := p) hU groups hgroups [] .empty .empty
  rw [nil_append] at ha hcover
  obtain ⟨pairs, -, hhashes, hempty, -⟩ := ha.pairs
  have hverify : verifyBatchInsecure p.toScheme groups =
      some (decide ((l.map (Message.deviation p)).sum = 0)) := by
    unfold verifyBatchInsecure
    simp only [hrun, bind_eq_bind, bind_some]
    by_cases hne : l = []
    · simp [hhashes, hempty.mpr hne, hne]
    · have hpairs : a.msgHashes.isEmpty = false := by simpa [hhashes, hempty] using hne
      simp [hpairs, ha.verify hne]
  refine ⟨_, hverify, fun hno hvalid g hg m hm => ?_, fun hinvalid => ?_⟩
  · exact hno.deviation_eq_zero hl ha.nodup (of_decide_eq_true hvalid) (hgroups.mem g hg m hm).2
      (hcover g hg m hm)
  · exact exists_deviation_ne_zero hl (of_decide_eq_false hinvalid)

def groupsSize (groups : ByMessageHash MessageId G₁ G₂) : Nat :=
  (groups.map fun g => g.2.length).sum

lemma addLast_eq (ha : Collects p a l) {msg : Message MessageId G₁ G₂} (hmsg : msg ∈ U) :
    ∃ new a', addLast p.toScheme a msg.msgHash msg = some a' ∧ Collects p a' (l ++ new) ∧
      (∀ m ∈ new, m = msg) ∧ msg.msgId ∈ (l ++ new).map Message.msgId := by
  by_cases hdup : msg.msgId ∈ a.dups
  · exact ⟨[], a, if_pos hdup, by simpa using ha, by simp, by simpa using (ha.dups _).mp hdup⟩
  · have hhash : ∀ m ∈ [msg], m.msgHash = msg.msgHash := by simp
    have hadd := ha.addGroup (ha.toSums.add hdup) (cons_ne_nil msg []) hhash rfl rfl
    refine ⟨[msg], _, ?_, hadd, by simp, by simp⟩
    rw [addLast, if_neg hdup, ha.aggSig, hU.sig_eq hmsg, addSig_total, hU.pubKey_eq hmsg]
    simp

lemma aggregateSecure_eq (groups) (hgroups : Grouped U groups) (l) (a) (ha : Collects p a l) :
    ∃ more a' left, aggregateSecure p.toScheme a groups = some (a', left) ∧
      Collects p a' (l ++ more) ∧ (∀ m ∈ more, m ∈ U) ∧ Grouped U left ∧
      (∀ g ∈ groups, ∀ m ∈ g.2, m.msgId ∈ (l ++ more).map Message.msgId ∨ ∃ g' ∈ left, m ∈ g'.2) ∧
      groupsSize left + groups.length = groupsSize groups ∧ (groups = [] ∨ l ++ more ≠ []) := by
  induction groups generalizing l a with
  | nil => exact ⟨[], a, [], rfl, by simpa using ha, by simp, hgroups, by simp, rfl, .inl rfl⟩
  | cons g groups ih =>
    have hrest : Grouped U groups :=
      ⟨fun g' hg' => hgroups.ne_nil g' (.tail _ hg'), fun g' hg' => hgroups.mem g' (.tail _ hg')⟩
    have hg := hgroups.mem g (.head _)
    have hne := hgroups.ne_nil g (.head _)
    obtain ⟨init, msg, hsplit⟩ : ∃ init msg, g.2 = init ++ [msg] :=
      ⟨_, _, (dropLast_append_getLast hne).symm⟩
    have hmsg := hg msg (by simp [hsplit])
    obtain ⟨new, a₁, hturn, ha₁, hnew, hid⟩ := addLast_eq hU ha hmsg.2
    obtain ⟨more, a', left, hrun, ha', hmore, hleft, hcover, hsize, -⟩ := ih hrest (l ++ new) a₁ ha₁
    rw [append_assoc] at ha' hcover
    have hid' : msg.msgId ∈ (l ++ (new ++ more)).map Message.msgId := by
      rw [← append_assoc, map_append]
      exact mem_append_left _ hid
    rw [hmsg.1] at hturn
    refine ⟨new ++ more, a', if init.isEmpty then left else (g.1, init) :: left, ?_, ha', ?_, ?_,
      ?_, ?_, .inr ?_⟩
    · simp [aggregateSecure, hsplit, hturn, hrun]
    · intro m hm
      rcases mem_append.mp hm with hm | hm
      · exact hnew m hm ▸ hmsg.2
      · exact hmore m hm
    · split
      · exact hleft
      case isFalse hinit =>
        refine ⟨forall_mem_cons.mpr ⟨by simpa using hinit, hleft.ne_nil⟩,
          forall_mem_cons.mpr ⟨fun m hm => hg m (by simp [hsplit, hm]), hleft.mem⟩⟩
    · refine forall_mem_cons.mpr ⟨fun m hm => ?_, fun g' hg' m hm => ?_⟩
      · rcases mem_append.mp (hsplit ▸ hm) with hm | hm
        · refine .inr ⟨(g.1, init), ?_, hm⟩
          rw [if_neg (by simpa using ne_nil_of_mem hm)]
          exact .head _
        · exact .inl (mem_singleton.mp hm ▸ hid')
      · refine (hcover g' hg' m hm).imp_right fun ⟨g'', hg'', hm''⟩ => ⟨g'', ?_, hm''⟩
        split
        · exact hg''
        · exact .tail _ hg''
    · have hlen : g.2.length = init.length + 1 := by simp [hsplit]
      simp only [groupsSize, map_cons, sum_cons, length_cons] at hsize ⊢
      split
      case isTrue hinit =>
        rw [List.isEmpty_iff] at hinit
        rw [hlen, hinit, length_nil]
        omega
      case isFalse =>
        simp only [map_cons, sum_cons, hlen]
        omega
    · intro hnil
      rw [hnil] at hid'
      cases hid'

lemma verifyBatchSecure_verdict (hgroups : Grouped U groups) {passes : Nat}
    (hpasses : groupsSize groups ≤ passes) :
    ∃ valid, verifyBatchSecure p.toScheme passes groups = some valid ∧
      Verdict p U groups valid := by
  induction passes generalizing groups with
  | zero =>
    cases groups with
    | nil => exact ⟨true, rfl, by simp, by simp⟩
    | cons g groups =>
      have := length_pos_iff.mpr (hgroups.ne_nil g (.head _))
      simp only [groupsSize, map_cons, sum_cons] at hpasses
      omega
  | succ passes ih =>
    cases groups with
    | nil => exact ⟨true, rfl, by simp, by simp⟩
    | cons g groups =>
      obtain ⟨l, a, left, hrun, ha, hl, hleft, hcover, hsize, hne⟩ :=
        aggregateSecure_eq (p := p) hU (g :: groups) hgroups [] .empty .empty
      rw [nil_append] at ha hcover hne
      have hne : l ≠ [] := hne.resolve_left (cons_ne_nil _ _)
      obtain ⟨pairs, -, hhashes, hempty, -⟩ := ha.pairs
      have hpairs : a.msgHashes.isEmpty = false := by simpa [hhashes, hempty] using hne
      rw [length_cons] at hsize
      obtain ⟨valid, hvalid, hverdict⟩ := ih hleft (by omega)
      simp only [verifyBatchSecure, hrun, hpairs, ha.verify hne, Bool.false_eq_true, ↓reduceIte,
        bind_eq_bind, bind_some, decide_eq_true_eq]
      split
      case isTrue hsum =>
        refine ⟨valid, hvalid, fun hno htrue g' hg' m hm => ?_, hverdict.of_false⟩
        rcases hcover g' hg' m hm with hid | ⟨g'', hg'', hm''⟩
        · exact hno.deviation_eq_zero hl ha.nodup hsum (hgroups.mem g' hg' m hm).2 hid
        · exact hverdict.of_true hno htrue g'' hg'' m hm''
      case isFalse hsum =>
        exact ⟨false, rfl, fun _ h => absurd h Bool.false_ne_true,
          fun _ => exists_deviation_ne_zero hl hsum⟩

lemma verifyBatch_verdict (v : CBLSBatchVerifier SourceId MessageId G₁ G₂)
    (hmessages : ∀ m ∈ messages, m ∈ U) :
    ∃ valid, v.verifyBatch p.toScheme (groupByHash messages) = some valid ∧
      (NoCancellation p U → valid = true → ∀ m ∈ messages, m.deviation p = 0) ∧
      (valid = false → ∃ m ∈ messages, m.deviation p ≠ 0) := by
  have hdecoded : Decoded {m | m ∈ messages} := fun m hm => hU m (hmessages m hm)
  have hgroups : Grouped {m | m ∈ messages} (groupByHash messages) :=
    grouped_groupByHash fun _ hm => hm
  have hbatch : ∃ valid, v.verifyBatch p.toScheme (groupByHash messages) = some valid ∧
      Verdict p {m | m ∈ messages} (groupByHash messages) valid := by
    unfold CBLSBatchVerifier.verifyBatch
    split
    · exact verifyBatchSecure_verdict hdecoded hgroups le_rfl
    · exact verifyBatchInsecure_verdict hdecoded hgroups
  obtain ⟨valid, hvalid, hverdict⟩ := hbatch
  refine ⟨valid, hvalid, fun hno htrue m hm => ?_, hverdict.of_false⟩
  obtain ⟨g, hg, hmg⟩ := exists_mem_groupByHash hm
  exact hverdict.of_true (hno.mono hmessages) htrue g hg m hmg

end

namespace CBLSBatchVerifier

/-- Two verifiers with the same messages and the same modes, of which the second names more
sources and messages. -/
structure Extends (v v' : CBLSBatchVerifier SourceId MessageId G₁ G₂) : Prop where
  messages : v'.messages = v.messages
  messagesBySource : v'.messagesBySource = v.messagesBySource
  badSources : v.badSources ⊆ v'.badSources
  badMessages : v.badMessages ⊆ v'.badMessages

section

omit [AddCommGroup G₁] [AddCommGroup G₂]

lemma Extends.refl (v : CBLSBatchVerifier SourceId MessageId G₁ G₂) : v.Extends v :=
  ⟨rfl, rfl, subset_rfl, subset_rfl⟩

lemma Extends.trans {v v' v'' : CBLSBatchVerifier SourceId MessageId G₁ G₂}
    (h : v.Extends v') (h' : v'.Extends v'') : v.Extends v'' :=
  ⟨h'.messages.trans h.messages, h'.messagesBySource.trans h.messagesBySource,
    h.badSources.trans h'.badSources, h.badMessages.trans h'.badMessages⟩

lemma mem_foldl_verifyMessage {scheme} {badMessages}
    {id} : id ∈ messages.foldl (verifyMessage scheme) badMessages ↔
      id ∈ badMessages ∨ ∃ m ∈ messages, m.msgId = id ∧
        verifyInsecure scheme m.sig m.pubKey m.msgHash = false := by
  induction messages generalizing badMessages with
  | nil => simp
  | cons msg messages ih =>
    simp only [foldl_cons, ih, mem_cons, exists_eq_or_imp, ← or_assoc]
    refine or_congr_left ?_
    unfold verifyMessage
    grind

lemma mem_verifyMessages {scheme} {badMessages}
    {id} : id ∈ verifyMessages scheme badMessages messages ↔
      id ∈ badMessages ∨ ∃ m ∈ messages, m.msgId = id ∧ (messages = [m] ∨
        verifyInsecure scheme m.sig m.pubKey m.msgHash = false) := by
  unfold verifyMessages
  split
  · rw [Finset.mem_insert, or_comm]
    simp [@eq_comm _ id]
  case h_2 hlist =>
    rw [mem_foldl_verifyMessage]
    refine or_congr_right (exists_congr fun m => and_congr_right fun _ =>
      and_congr_right fun _ => ?_)
    exact (or_iff_right (hlist m)).symm

end

/-- Every entry is from a source, the sources sent what is kept for them, and what is named
has failed. -/
structure Fair (p : Pairing G₁ G₂ G) (all : List (SourceId × Message MessageId G₁ G₂))
    (v : CBLSBatchVerifier SourceId MessageId G₁ G₂) : Prop where
  entries : ∀ (id : MessageId) m, v.messages[id]? = some m →
    ∃ (source : SourceId) (messages : List (Message MessageId G₁ G₂)),
      v.messagesBySource[source]? = some messages ∧ m ∈ messages
  sources : ∀ (source : SourceId) messages, v.messagesBySource[source]? = some messages →
    ∀ m ∈ messages, (source, m) ∈ all
  badSources : ∀ source ∈ v.badSources, ∃ m, (source, m) ∈ all ∧ m.deviation p ≠ 0
  badMessages : ∀ id ∈ v.badMessages, ∃ push ∈ all, push.2.msgId = id ∧ push.2.deviation p ≠ 0

section

variable {U : Set (Message MessageId G₁ G₂)} {all : List (SourceId × Message MessageId G₁ G₂)}
  {v : CBLSBatchVerifier SourceId MessageId G₁ G₂}

lemma Fair.blameSource (hv : Fair p all v) {source} (hdecoded : Decoded {m | m ∈ messages})
    (hall : ∀ m ∈ messages, (source, m) ∈ all) (hbad : ∃ m ∈ messages, m.deviation p ≠ 0) :
    Fair p all (v.blameSource p.toScheme source messages) where
  entries := hv.entries
  sources := hv.sources
  badSources := by
    obtain ⟨m, hm, hdev⟩ := hbad
    exact Finset.forall_mem_insert _ _ _ |>.mpr ⟨⟨m, hall m hm, hdev⟩, hv.badSources⟩
  badMessages id hid := by
    simp only [CBLSBatchVerifier.blameSource] at hid
    split at hid
    · rcases mem_verifyMessages.mp hid with hid | ⟨m, hm, rfl, hfail⟩
      · exact hv.badMessages id hid
      refine ⟨(source, m), hall m hm, rfl, ?_⟩
      rcases hfail with rfl | hfail
      · simpa using hbad
      · rw [verifyInsecure_eq (hdecoded m hm).1 (hdecoded m hm).2] at hfail
        exact of_decide_eq_false hfail
    · exact hv.badMessages id hid

variable (p all) (hU : Identified U)
include hU

lemma verifySource_verdict (v)
    {source : SourceId × List (Message MessageId G₁ G₂)} (hmem : ∀ m ∈ source.2, m ∈ U) :
    ∃ v', verifySource p.toScheme v source = some v' ∧ v.Extends v' ∧
      (NoCancellation p U → source.1 ∈ v'.badSources ∨ ∀ m ∈ source.2, m.deviation p = 0) ∧
      (Fair p all v → (∀ m ∈ source.2, (source.1, m) ∈ all) →
        (v.messagesBySource.size = 1 → ∃ m ∈ source.2, m.deviation p ≠ 0) → Fair p all v') := by
  have hsource : ∃ valid, v.sourceValid p.toScheme source.2 = some valid ∧
      (NoCancellation p U → valid = true → ∀ m ∈ source.2, m.deviation p = 0) ∧
      (valid = false → v.messagesBySource.size ≠ 1 → ∃ m ∈ source.2, m.deviation p ≠ 0) := by
    unfold sourceValid
    split
    · obtain ⟨valid, hvalid, htrue, hfalse⟩ := verifyBatch_verdict (p := p) hU.valid v hmem
      exact ⟨valid, hvalid, htrue, fun h _ => hfalse h⟩
    case isFalse hone =>
      exact ⟨false, rfl, fun _ h => absurd h Bool.false_ne_true, fun _ h => absurd h hone⟩
  obtain ⟨valid, hvalid, htrue, hfalse⟩ := hsource
  cases valid with
  | true =>
    exact ⟨v, by simp [verifySource, hvalid], .refl v, fun hno => .inr (htrue hno rfl),
      fun hv _ _ => hv⟩
  | false =>
    refine ⟨v.blameSource p.toScheme source.1 source.2, by simp [verifySource, hvalid],
      ⟨rfl, rfl, Finset.subset_insert _ _, fun id hid => ?_⟩,
      fun _ => .inl (Finset.mem_insert_self _ _), fun hv hall hone => ?_⟩
    · simp only [CBLSBatchVerifier.blameSource]
      split
      · exact mem_verifyMessages.mpr (.inl hid)
      · exact hid
    · refine hv.blameSource (fun m hm => hU.valid m (hmem m hm)) hall ?_
      by_cases hsize : v.messagesBySource.size = 1
      · exact hone hsize
      · exact hfalse rfl hsize

lemma foldlM_verifySource_verdict (sources : List (SourceId × List (Message MessageId G₁ G₂)))
    (hmem : ∀ source ∈ sources, ∀ m ∈ source.2, m ∈ U) (v) :
    ∃ v', sources.foldlM (verifySource p.toScheme) v = some v' ∧ v.Extends v' ∧
      (NoCancellation p U → ∀ source ∈ sources,
        source.1 ∈ v'.badSources ∨ ∀ m ∈ source.2, m.deviation p = 0) ∧
      (Fair p all v → (∀ source ∈ sources, (∀ m ∈ source.2, (source.1, m) ∈ all) ∧
        (v.messagesBySource.size = 1 → ∃ m ∈ source.2, m.deviation p ≠ 0)) → Fair p all v') := by
  induction sources generalizing v with
  | nil => exact ⟨v, rfl, .refl v, by simp, fun hv _ => hv⟩
  | cons source sources ih =>
    rw [forall_mem_cons] at hmem
    obtain ⟨v₁, hturn, hext₁, hsource, hfair₁⟩ := verifySource_verdict p all hU v hmem.1
    obtain ⟨v', hrun, hext, hsources, hfair⟩ := ih hmem.2 v₁
    refine ⟨v', by simp [hturn, hrun], hext₁.trans hext,
      fun hno => forall_mem_cons.mpr ⟨?_, hsources hno⟩, fun hv hall => ?_⟩
    · exact (hsource hno).imp_left fun h => hext.badSources h
    · rw [forall_mem_cons] at hall
      rw [hext₁.messagesBySource] at hfair
      exact hfair (hfair₁ hv hall.1.1 hall.1.2) hall.2

def Pending (v : CBLSBatchVerifier SourceId MessageId G₁ G₂)
    (push : SourceId × Message MessageId G₁ G₂) : Prop :=
  v.messages[push.2.msgId]? = some push.2 ∧
    ∃ messages, v.messagesBySource[push.1]? = some messages ∧ push.2 ∈ messages

def Settled (p : Pairing G₁ G₂ G) (v : CBLSBatchVerifier SourceId MessageId G₁ G₂)
    (push : SourceId × Message MessageId G₁ G₂) : Prop :=
  push.2.msgId ∉ v.badMessages → push.1 ∉ v.badSources → push.2.deviation p = 0

variable {push : SourceId × Message MessageId G₁ G₂}
  {v : CBLSBatchVerifier SourceId MessageId G₁ G₂} {msg : Message MessageId G₁ G₂}

omit [DecidableEq G] hU in
lemma Extends.settled {v v' : CBLSBatchVerifier SourceId MessageId G₁ G₂} (h : v.Extends v')
    (hs : Settled p v push) : Settled p v' push :=
  fun hmsg hsource => hs (fun hm => hmsg (h.badMessages hm)) fun hm => hsource (h.badSources hm)

structure Stores (U : Set (Message MessageId G₁ G₂))
    (v : CBLSBatchVerifier SourceId MessageId G₁ G₂) : Prop where
  messages : ∀ (id : MessageId) m, v.messages[id]? = some m → m ∈ U ∧ m.msgId = id
  sources : ∀ (source : SourceId) messages, v.messagesBySource[source]? = some messages →
    ∀ m ∈ messages, m ∈ U

lemma verify_verdict (hv : Stores U v) : ∃ v', verify p.toScheme v = some v' ∧ v.Extends v' ∧
      (NoCancellation p U → ∀ push, Pending v push → Settled p v' push) ∧
      (Fair p all v → Fair p all v') := by
  have hmessages : ∀ m ∈ v.messages.toList.map Prod.snd, m ∈ U := by
    refine forall_mem_map.mpr fun entry hentry => ?_
    exact (hv.messages entry.1 entry.2 (Std.ExtTreeMap.mem_toList_iff_getElem?_eq_some.mp hentry)).1
  obtain ⟨valid, hvalid, htrue, hfalse⟩ := verifyBatch_verdict (p := p) hU.valid v hmessages
  cases valid with
  | true =>
    refine ⟨v, by simp [verify, hvalid], .refl v,
      fun hno push hpush _ _ => htrue hno rfl _ ?_, fun h => h⟩
    exact mem_map.mpr
      ⟨(push.2.msgId, push.2), Std.ExtTreeMap.mem_toList_iff_getElem?_eq_some.mpr hpush.1, rfl⟩
  | false =>
    obtain ⟨v', hrun, hext, hsources, hfair⟩ := foldlM_verifySource_verdict p all hU
      v.messagesBySource.toList (fun source hsource => hv.sources source.1 source.2
        (Std.ExtTreeMap.mem_toList_iff_getElem?_eq_some.mp hsource)) v
    refine ⟨v', by simp [verify, hvalid, hrun], hext, fun hno push hpush _ hgood => ?_,
      fun h => hfair h fun source hsource => ⟨h.sources source.1 source.2
        (Std.ExtTreeMap.mem_toList_iff_getElem?_eq_some.mp hsource), fun hone => ?_⟩⟩
    · obtain ⟨messages, hmessages, hmem⟩ := hpush.2
      have hsource := hsources hno (push.1, messages)
        (Std.ExtTreeMap.mem_toList_iff_getElem?_eq_some.mpr hmessages)
      exact hsource.resolve_left hgood push.2 hmem
    · -- the failing message of the batch is from the only source
      obtain ⟨m, hm, hdev⟩ := hfalse rfl
      obtain ⟨entry, hentry, rfl⟩ := mem_map.mp hm
      obtain ⟨source', messages, hsource', hmem⟩ := h.entries entry.1 entry.2
        (Std.ExtTreeMap.mem_toList_iff_getElem?_eq_some.mp hentry)
      have hlist : v.messagesBySource.toList = [source] := by
        rw [← Std.ExtTreeMap.length_toList] at hone
        obtain ⟨only, honly⟩ := length_eq_one_iff.mp hone
        rw [honly] at hsource ⊢
        rw [mem_singleton.mp hsource]
      have heq := Std.ExtTreeMap.mem_toList_iff_getElem?_eq_some.mpr hsource'
      rw [hlist, mem_singleton] at heq
      exact ⟨entry.2, heq ▸ hmem, hdev⟩

section

omit [AddCommGroup G₁] [AddCommGroup G₂]

lemma Stores.entry_eq (hv : Stores U v) (hmsg : msg ∈ U) :
    (v.messages[msg.msgId]?).getD msg = msg := by
  cases hentry : v.messages[msg.msgId]? with
  | none => rfl
  | some m =>
    have hm := hv.messages msg.msgId m hentry
    exact hU.eq_of_msgId m hm.1 msg hmsg hm.2

lemma Stores.mem_of_emplace (hv : Stores U v) {source source'} (hmsg : msg ∈ U)
    (h : (v.emplaceMessage source msg).messagesBySource[source']? = some messages)
    {m} (hm : m ∈ messages) :
    (∃ old, v.messagesBySource[source']? = some old ∧ m ∈ old) ∨ source = source' ∧ m = msg := by
  simp only [emplaceMessage, hv.entry_eq hU hmsg, getElem?_insert_eq] at h
  split at h
  case isTrue heq =>
    cases h
    rcases mem_append.mp hm with hm | hm
    · cases hold : v.messagesBySource[source]? with
      | none => simp [hold] at hm
      | some old => exact .inl ⟨old, heq ▸ hold, by simpa [hold] using hm⟩
    · exact .inr ⟨heq, mem_singleton.mp hm⟩
  case isFalse => exact .inl ⟨messages, h, hm⟩

lemma Stores.emplace (hv : Stores U v) (source) (hmsg : msg ∈ U) :
    Stores U (v.emplaceMessage source msg) where
  messages id m hm := by
    simp only [emplaceMessage, hv.entry_eq hU hmsg, getElem?_insert_eq] at hm
    split at hm
    case isTrue heq =>
      cases hm
      exact ⟨hmsg, heq⟩
    case isFalse => exact hv.messages id m hm
  sources source' messages hmessages m hm := by
    rcases hv.mem_of_emplace hU hmsg hmessages hm with ⟨old, hold, hm⟩ | ⟨-, rfl⟩
    · exact hv.sources source' old hold m hm
    · exact hmsg

lemma Stores.pending_self (hv : Stores U v) (source) (hmsg : msg ∈ U) :
    Pending (v.emplaceMessage source msg) (source, msg) := by
  simp [Pending, emplaceMessage, hv.entry_eq hU hmsg]

lemma Stores.pending (hv : Stores U v) (source) (hmsg : msg ∈ U) (h : Pending v push) :
    Pending (v.emplaceMessage source msg) push := by
  obtain ⟨hentry, messages, hmessages, hmem⟩ := h
  have hpush := (hv.messages _ _ hentry).1
  simp only [Pending, emplaceMessage, hv.entry_eq hU hmsg, getElem?_insert_eq]
  constructor
  · split
    case isTrue heq => rw [hU.eq_of_msgId msg hmsg push.2 hpush heq]
    case isFalse => exact hentry
  · split
    case isTrue heq => exact ⟨_, rfl, by simp [heq, hmessages, hmem]⟩
    case isFalse => exact ⟨messages, hmessages, hmem⟩

end

omit [DecidableEq G] in
lemma Fair.emplace (hfair : Fair p all v) (hv : Stores U v) {source} {msg}
    (hmsg : msg ∈ U) (hpush : (source, msg) ∈ all) : Fair p all (v.emplaceMessage source msg) where
  entries id m hm := by
    simp only [emplaceMessage, hv.entry_eq hU hmsg, getElem?_insert_eq] at hm ⊢
    split at hm
    case isTrue =>
      cases hm
      exact ⟨source, _, if_pos rfl, by simp⟩
    case isFalse =>
      obtain ⟨source', messages, hmessages, hmem⟩ := hfair.entries id m hm
      by_cases heq : source = source'
      · exact ⟨source, _, if_pos rfl, by simp [heq, hmessages, hmem]⟩
      · exact ⟨source', messages, (if_neg heq).trans hmessages, hmem⟩
  sources source' messages hmessages m hm := by
    rcases hv.mem_of_emplace hU hmsg hmessages hm with ⟨old, hold, hm⟩ | ⟨rfl, rfl⟩
    · exact hfair.sources source' old hold m hm
    · exact hpush
  badSources := hfair.badSources
  badMessages := hfair.badMessages

/-- What is known of the pushes so far, with the verifier that they lead to. -/
structure Served (p : Pairing G₁ G₂ G) (U : Set (Message MessageId G₁ G₂))
    (all pushes : List (SourceId × Message MessageId G₁ G₂))
    (v : CBLSBatchVerifier SourceId MessageId G₁ G₂) : Prop where
  stores : Stores U v
  settled : NoCancellation p U → ∀ push ∈ pushes, Settled p v push ∨ Pending v push
  fair : Fair p all v

lemma pushMessage_served {pushes} (hv : Served p U all pushes v) (source) {msg} (hmsg : msg ∈ U)
    (hall : (source, msg) ∈ all) : ∃ v', pushMessage p.toScheme v source msg = some v' ∧
      Served p U all (pushes ++ [(source, msg)]) v' := by
  have hstores := hv.stores.emplace hU source hmsg
  have hfair := hv.fair.emplace p all hU hv.stores hmsg hall
  have hwait (hno : NoCancellation p U) : ∀ push ∈ pushes ++ [(source, msg)],
      Settled p v push ∨ Pending (v.emplaceMessage source msg) push := by
    intro push hpush
    rcases mem_append.mp hpush with hpush | hpush
    · exact (hv.settled hno push hpush).imp_right (hv.stores.pending hU source hmsg)
    · exact .inr (mem_singleton.mp hpush ▸ hv.stores.pending_self hU source hmsg)
  have hvalid := hU.valid msg hmsg
  simp only [pushMessage, hvalid.1, hvalid.2, Bool.and_self, Bool.not_true, Bool.false_eq_true,
    ↓reduceIte]
  split
  · obtain ⟨v', hverify, hext, hsettled, hfair'⟩ := verify_verdict p all hU hstores
    refine ⟨v'.clearMessages, by rw [hverify]; rfl, ⟨by simp [clearMessages],
      by simp [clearMessages]⟩, fun hno push hpush => .inl ?_, by simp [clearMessages],
      by simp [clearMessages], (hfair' hfair).badSources, (hfair' hfair).badMessages⟩
    rcases hwait hno push hpush with hs | hp
    · exact hext.settled p hs
    · exact hsettled hno push hp
  · exact ⟨_, rfl, hstores, hwait, hfair⟩

lemma foldlM_pushMessage_served (pushes) (hmem : ∀ push ∈ pushes, push.2 ∈ U ∧ push ∈ all) (v)
    (done) (hv : Served p U all done v) :
    ∃ v', pushes.foldlM (fun v push => pushMessage p.toScheme v push.1 push.2) v = some v' ∧
      Served p U all (done ++ pushes) v' := by
  induction pushes generalizing v done with
  | nil => exact ⟨v, rfl, by simpa using hv⟩
  | cons push pushes ih =>
    rw [forall_mem_cons] at hmem
    obtain ⟨v₁, hpush, hv₁⟩ := pushMessage_served p all hU hv push.1 hmem.1.1 hmem.1.2
    obtain ⟨v', hrun, hv'⟩ := ih hmem.2 v₁ (done ++ [push]) hv₁
    rw [append_assoc] at hv'
    exact ⟨v', by simp [hpush, hrun], hv'⟩

end

lemma run_served (secureVerification perMessageFallback : Bool) (subBatchSize : Nat)
    (pushes : List (SourceId × Message MessageId G₁ G₂))
    (h : Identified {m | m ∈ pushes.map Prod.snd}) :
    ∃ v, run p.toScheme (create secureVerification perMessageFallback subBatchSize) pushes =
        some v ∧ Fair p pushes v ∧
      (NoCancellation p {m | m ∈ pushes.map Prod.snd} → ∀ push ∈ pushes, Settled p v push) := by
  obtain ⟨v, hrun, hv⟩ := foldlM_pushMessage_served p pushes h pushes
    (fun push hpush => ⟨mem_map_of_mem hpush, hpush⟩)
    (create secureVerification perMessageFallback subBatchSize) []
    ⟨⟨by simp [create], by simp [create]⟩, by simp, by simp [create], by simp [create],
      by simp [create], by simp [create]⟩
  obtain ⟨v', hverify, hext, hsettled, hfair⟩ := verify_verdict p pushes h hv.stores
  refine ⟨v', by rw [run, hrun]; exact hverify, hfair hv.fair, fun hno push hpush => ?_⟩
  rcases hv.settled hno push hpush with hs | hp
  · exact hext.settled p hs
  · exact hsettled hno push hp

/-- In any mode and with any size of sub-batches, a sequence of pushes and `Verify` run to
their end, and every message verifies on its own unless it or its source is named, provided
the ids tell the messages apart and no deviations cancel. -/
theorem run_verifies {secureVerification perMessageFallback : Bool} {subBatchSize : Nat}
    (pushes : List (SourceId × Message MessageId G₁ G₂))
    (h : NoCancellation p {m | m ∈ pushes.map Prod.snd}) :
    ∃ v, run p.toScheme (create secureVerification perMessageFallback subBatchSize) pushes =
        some v ∧
      ∀ push ∈ pushes, push.2.msgId ∉ v.badMessages → push.1 ∉ v.badSources →
        CBLSSignature.verifyInsecure p.toScheme push.2.sig push.2.pubKey push.2.msgHash = true := by
  obtain ⟨v, hrun, -, hsettled⟩ := run_served (p := p) secureVerification perMessageFallback
    subBatchSize pushes ⟨h.valid, h.eq_of_msgId⟩
  refine ⟨v, hrun, fun push hpush hmsg hsource => ?_⟩
  have hvalid := h.valid push.2 (mem_map_of_mem hpush)
  rw [verifyInsecure_eq hvalid.1 hvalid.2, decide_eq_true_eq]
  exact hsettled h push hpush hmsg hsource

/-- The integers with their product as pairing: the signature of hash `h` under the key `k`
is `k * h`. -/
def integerPairing : Pairing ℤ ℤ ℤ :=
  ⟨AddMonoidHom.mul, 1, fun hash => hash.toNat⟩

/-- A good message from source 1 and one that misses by 1 from source 2. -/
def oneForged : List (Nat × Message Nat ℤ ℤ) :=
  [(1, ⟨1, 5, some 10, some 2⟩), (2, ⟨2, 7, some 22, some 3⟩)]

theorem run_verifies_oneForged :
    ∃ v, run integerPairing.toScheme (create false true 0) oneForged = some v ∧
      ∀ push ∈ oneForged, push.2.msgId ∉ v.badMessages → push.1 ∉ v.badSources →
        CBLSSignature.verifyInsecure integerPairing.toScheme push.2.sig push.2.pubKey
          push.2.msgHash = true := by
  refine run_verifies oneForged ⟨by simp [oneForged], by simp [oneForged], ?_⟩
  intro l hl _ hsum m hm
  have hdev : ∀ m ∈ oneForged.map Prod.snd, 0 ≤ m.deviation integerPairing := by decide +kernel
  have hnonneg : ∀ x ∈ l.map (Message.deviation integerPairing), 0 ≤ x :=
    forall_mem_map.mpr fun m hm => hdev m (hl m hm)
  have hle := single_le_sum hnonneg (m.deviation integerPairing) (mem_map_of_mem hm)
  exact le_antisymm (hsum ▸ hle) (hdev m (hl m hm))

/-- The signatures of two sources, of which one is too large and one too small by 1. -/
def cancelling : List (Nat × Message Nat ℤ ℤ) :=
  [(1, ⟨1, 5, some 11, some 2⟩), (2, ⟨2, 7, some 20, some 3⟩)]

lemma cancelling_run (secureVerification : Bool) :
    ∃ v, run integerPairing.toScheme (create secureVerification true 0) cancelling = some v ∧
      v.badMessages = ∅ ∧ v.badSources = ∅ := by
  have hrun : ((run integerPairing.toScheme (create secureVerification true 0) cancelling).any
      fun v => decide (v.badMessages = ∅ ∧ v.badSources = ∅)) = true := by
    cases secureVerification <;> decide +kernel
  obtain ⟨v, hv, hbad⟩ := (Option.any_eq_true _ _).mp hrun
  exact ⟨v, hv, of_decide_eq_true hbad⟩

/-- In both modes no message and no source is named, although both signatures are invalid. -/
theorem cancelling_accepted :
    (∃ v, run integerPairing.toScheme (create false true 0) cancelling = some v ∧
      v.badMessages = ∅ ∧ v.badSources = ∅) ∧
    (∃ v, run integerPairing.toScheme (create true true 0) cancelling = some v ∧
      v.badMessages = ∅ ∧ v.badSources = ∅) ∧
    ∀ push ∈ cancelling, CBLSSignature.verifyInsecure integerPairing.toScheme push.2.sig
      push.2.pubKey push.2.msgHash = false :=
  ⟨cancelling_run false, cancelling_run true, by decide +kernel⟩

/-- Where the ids tell the messages apart, the verifier runs to its end and names only sources
with a failing message and messages that fail. -/
theorem innocent_not_blamed (secureVerification perMessageFallback : Bool) (subBatchSize : Nat)
    (pushes : List (SourceId × Message MessageId G₁ G₂))
    (h : Identified {m | m ∈ pushes.map Prod.snd}) :
    ∃ v, run p.toScheme (create secureVerification perMessageFallback subBatchSize) pushes =
        some v ∧
      (∀ source, (∀ push ∈ pushes, push.1 = source →
        CBLSSignature.verifyInsecure p.toScheme push.2.sig push.2.pubKey push.2.msgHash = true) →
        source ∉ v.badSources) ∧
      ∀ push ∈ pushes, push.2.msgId ∈ v.badMessages →
        CBLSSignature.verifyInsecure p.toScheme push.2.sig push.2.pubKey
          push.2.msgHash = false := by
  obtain ⟨v, hrun, hfair, -⟩ := run_served (p := p) secureVerification perMessageFallback
    subBatchSize pushes h
  have hverify {push : SourceId × Message MessageId G₁ G₂} (hpush : push ∈ pushes) :=
    have hvalid := h.valid push.2 (mem_map_of_mem hpush)
    verifyInsecure_eq (p := p) hvalid.1 hvalid.2
  refine ⟨v, hrun, fun source hgood hbad => ?_, fun push hpush hbad => ?_⟩
  · obtain ⟨m, hm, hdev⟩ := hfair.badSources source hbad
    have := hgood (source, m) hm rfl
    rw [hverify hm] at this
    exact hdev (of_decide_eq_true this)
  · obtain ⟨push', hpush', hid, hdev⟩ := hfair.badMessages _ hbad
    have heq := h.eq_of_msgId push'.2 (mem_map_of_mem hpush') push.2 (mem_map_of_mem hpush) hid
    rw [hverify hpush, ← heq]
    exact decide_eq_false hdev

theorem innocent_not_blamed_oneForged :
    ∃ v, run integerPairing.toScheme (create true true 2) oneForged = some v ∧
      (∀ source, (∀ push ∈ oneForged, push.1 = source →
        CBLSSignature.verifyInsecure integerPairing.toScheme push.2.sig push.2.pubKey
          push.2.msgHash = true) → source ∉ v.badSources) ∧
      ∀ push ∈ oneForged, push.2.msgId ∈ v.badMessages →
        CBLSSignature.verifyInsecure integerPairing.toScheme push.2.sig push.2.pubKey
          push.2.msgHash = false :=
  innocent_not_blamed true true 2 oneForged ⟨by simp [Decoded, oneForged], by simp [oneForged]⟩

/-- A forged message from source 1 and, under the same id, the good one from source 2. -/
def sharedId : List (Nat × Message Nat ℤ ℤ) :=
  [(1, ⟨1, 5, some 11, some 2⟩), (2, ⟨1, 5, some 10, some 2⟩)]

/-- The entry of source 1 stands for the message of source 2, which is blamed for it. -/
theorem sharedId_blames_innocent :
    (∃ v, run integerPairing.toScheme (create false true 0) sharedId = some v ∧
      2 ∈ v.badSources ∧ 1 ∈ v.badMessages) ∧
    ∀ push ∈ sharedId, push.1 = 2 → CBLSSignature.verifyInsecure integerPairing.toScheme
      push.2.sig push.2.pubKey push.2.msgHash = true := by
  have hrun : ((run integerPairing.toScheme (create false true 0) sharedId).any
      fun v => decide (2 ∈ v.badSources ∧ 1 ∈ v.badMessages)) = true := by decide +kernel
  obtain ⟨v, hv, hbad⟩ := (Option.any_eq_true _ _).mp hrun
  exact ⟨⟨v, hv, of_decide_eq_true hbad⟩, by decide +kernel⟩

end CBLSBatchVerifier

end Firo.Bls
