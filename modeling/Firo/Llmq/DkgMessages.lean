import Firo.Bls.Scheme

/-! The four kinds of messages a quorum member sends during a session, the cheap checks of
`CDKGSession::PreVerifyMessage` (`llmq/quorums_dkgsession.cpp`) and the batches of
`llmq/quorums_dkgsessionhandler.cpp`, where the signatures are verified together. -/
namespace Firo.Llmq

open Firo.Spark Firo.Bls

abbrev NodeId := Int

variable {G₁ G₂ : Type}

structure DkgParams where
  size : Nat
  minSize : Nat
  threshold : Nat

/-- `CDKGMember`: the operator key of its masternode and the hashes of what it has sent. -/
structure CDKGMember (G₁ : Type) where
  pubKeyOperator : CBLSPublicKey G₁
  contributions : Finset Uint256
  complaints : Finset Uint256
  justifications : Finset Uint256
  prematureCommitments : Finset Uint256

structure CDKGSession (G₁ : Type) where
  params : DkgParams
  quorumHash : Uint256
  members : List (CDKGMember G₁)
  membersMap : Uint256 → Option Nat

variable (session : CDKGSession G₁)

def CDKGSession.getMember (proTxHash : Uint256) : Option (CDKGMember G₁) :=
  (session.membersMap proTxHash).bind fun i => session.members[i]?

structure CDKGContribution (G₁ G₂ : Type) where
  quorumHash : Uint256
  proTxHash : Uint256
  vvec : List (CBLSPublicKey G₁)
  blobs : List (List UInt8)
  sig : CBLSSignature G₂

structure CDKGComplaint (G₂ : Type) where
  quorumHash : Uint256
  proTxHash : Uint256
  badMembers : List Bool
  complainForMembers : List Bool
  sig : CBLSSignature G₂

/-- A justification carries the secret key shares that were complained about; a share that
does not decode is `none`. -/
structure CDKGJustification (G₂ : Type) where
  quorumHash : Uint256
  proTxHash : Uint256
  contributions : List (Nat × Option Nat)
  sig : CBLSSignature G₂

structure CDKGPrematureCommitment (G₁ G₂ : Type) where
  quorumHash : Uint256
  proTxHash : Uint256
  validMembers : List Bool
  quorumPublicKey : CBLSPublicKey G₁
  quorumVvecHash : Uint256
  quorumSig : CBLSSignature G₂
  sig : CBLSSignature G₂

/-- The verdict of `PreVerifyMessage`: accepted, dropped, or dropped with a ban. -/
inductive PreVerdict
  | accept
  | drop
  | ban
deriving DecidableEq, Repr

def banIf (failed : Bool) (rest : PreVerdict) : PreVerdict :=
  if failed then .ban else rest

lemma banIf_eq_accept {failed : Bool} {rest : PreVerdict} :
    banIf failed rest = .accept ↔ failed = false ∧ rest = .accept := by
  cases failed <;> simp [banIf]

def preVerifySender (quorumHash proTxHash : Uint256)
    (rest : CDKGMember G₁ → PreVerdict) : PreVerdict :=
  if quorumHash ≠ session.quorumHash then .drop
  else
    match session.getMember proTxHash with
    | none => .ban
    | some member => rest member

/-- The check that all four kinds end with: a member gets two messages of a kind. -/
def preVerifyCount (sent : Finset Uint256) : PreVerdict :=
  if 2 ≤ sent.card then .drop else .accept

/-- `VerifyVerificationVector`: every entry decodes and no two have the same hash. -/
def verifyVerificationVector (keyHash : G₁ → Uint256) (vvec : List (CBLSPublicKey G₁)) : Bool :=
  match vvec.mapM id with
  | none => false
  | some keys => decide ((keys.map keyHash).Nodup)

def CDKGContribution.preVerifyMessage (keyHash : G₁ → Uint256) (session : CDKGSession G₁)
    (qc : CDKGContribution G₁ G₂) : PreVerdict :=
  preVerifySender session qc.quorumHash qc.proTxHash fun member =>
    banIf (qc.blobs.length != session.members.length) <|
    banIf (qc.vvec.length != session.params.threshold) <|
    banIf (!verifyVerificationVector keyHash qc.vvec) <|
    banIf (!qc.sig.isSome) <|
    preVerifyCount member.contributions

def CDKGComplaint.preVerifyMessage (qc : CDKGComplaint G₂) : PreVerdict :=
  preVerifySender session qc.quorumHash qc.proTxHash fun member =>
    banIf (qc.badMembers.length != session.params.size) <|
    banIf (qc.complainForMembers.length != session.params.size) <|
    banIf (!qc.sig.isSome) <|
    preVerifyCount member.complaints

/-- The loop over the shares of a justification, with the indexes met so far. -/
def verifyShares (members : Nat) : List (Nat × Option Nat) → Finset Nat → Bool
  | [], _ => true
  | (i, skShare) :: rest, contributionsSet =>
    if members ≤ i then false
    else if i ∈ contributionsSet then false
    else if !skShare.isSome then false
    else verifyShares members rest (insert i contributionsSet)

def CDKGJustification.preVerifyMessage (qj : CDKGJustification G₂) : PreVerdict :=
  preVerifySender session qj.quorumHash qj.proTxHash fun member =>
    banIf qj.contributions.isEmpty <|
    banIf (!verifyShares session.members.length qj.contributions ∅) <|
    banIf (!qj.sig.isSome) <|
    preVerifyCount member.justifications

def CDKGPrematureCommitment.preVerifyMessage (qc : CDKGPrematureCommitment G₁ G₂) : PreVerdict :=
  preVerifySender session qc.quorumHash qc.proTxHash fun member =>
    banIf (qc.validMembers.length != session.params.size) <|
    banIf (decide (qc.validMembers.count true < session.params.minSize)) <|
    banIf (!qc.sig.isSome) <|
    banIf (!qc.quorumSig.isSome) <|
    banIf ((qc.validMembers.drop session.members.length).any id) <|
    preVerifyCount member.prematureCommitments

/-- What the batch code asks of a kind of message. Only accepted messages reach the
signature check; `ReceiveMessage` never asks for a ban. -/
structure MessageKind (G₁ G₂ Message : Type) where
  proTxHash : Message → Uint256
  sig : Message → CBLSSignature G₂
  getSignHash : Message → Uint256
  serializeHash : Message → Uint256
  unserialize : List UInt8 → Option Message
  preVerifyMessage : CDKGSession G₁ → Message → PreVerdict
  receiveMessage : CDKGSession G₁ → Uint256 → Message → CDKGSession G₁ × Bool
  member_of_accept : ∀ session msg, preVerifyMessage session msg = .accept →
    (session.getMember (proTxHash msg)).isSome = true
  sig_of_accept : ∀ session msg, preVerifyMessage session msg = .accept → (sig msg).isSome = true
  receive_ban : ∀ session hash msg, (receiveMessage session hash msg).2 = false

lemma preVerifySender_eq_accept {session : CDKGSession G₁} {quorumHash proTxHash : Uint256}
    {rest : CDKGMember G₁ → PreVerdict}
    (h : preVerifySender session quorumHash proTxHash rest = .accept) :
    ∃ member, session.getMember proTxHash = some member ∧ rest member = .accept := by
  unfold preVerifySender at h
  split at h
  · cases h
  · split at h
    · cases h
    case h_2 member hmember => exact ⟨member, hmember, h⟩

/-- The kinds of messages, with the hashes, the encodings and the effect of `ReceiveMessage`
as parameters. -/
def CDKGContribution.kind (keyHash : G₁ → Uint256)
    (getSignHash serializeHash : CDKGContribution G₁ G₂ → Uint256)
    (unserialize : List UInt8 → Option (CDKGContribution G₁ G₂))
    (receive : CDKGSession G₁ → Uint256 → CDKGContribution G₁ G₂ → CDKGSession G₁) :
    MessageKind G₁ G₂ (CDKGContribution G₁ G₂) where
  proTxHash := CDKGContribution.proTxHash
  sig := CDKGContribution.sig
  getSignHash
  serializeHash
  unserialize
  preVerifyMessage := CDKGContribution.preVerifyMessage keyHash
  receiveMessage session hash qc := (receive session hash qc, false)
  member_of_accept _ _ h :=
    have ⟨_, hmember, _⟩ := preVerifySender_eq_accept h
    Option.isSome_of_mem hmember
  sig_of_accept _ _ h := by
    have ⟨_, _, h⟩ := preVerifySender_eq_accept h
    simpa using (banIf_eq_accept.mp (banIf_eq_accept.mp (banIf_eq_accept.mp
      (banIf_eq_accept.mp h).2).2).2).1
  receive_ban _ _ _ := rfl

def CDKGComplaint.kind (getSignHash serializeHash : CDKGComplaint G₂ → Uint256)
    (unserialize : List UInt8 → Option (CDKGComplaint G₂))
    (receive : CDKGSession G₁ → Uint256 → CDKGComplaint G₂ → CDKGSession G₁) :
    MessageKind G₁ G₂ (CDKGComplaint G₂) where
  proTxHash := CDKGComplaint.proTxHash
  sig := CDKGComplaint.sig
  getSignHash
  serializeHash
  unserialize
  preVerifyMessage := CDKGComplaint.preVerifyMessage
  receiveMessage session hash qc := (receive session hash qc, false)
  member_of_accept _ _ h :=
    have ⟨_, hmember, _⟩ := preVerifySender_eq_accept h
    Option.isSome_of_mem hmember
  sig_of_accept _ _ h := by
    have ⟨_, _, h⟩ := preVerifySender_eq_accept h
    simpa using (banIf_eq_accept.mp (banIf_eq_accept.mp (banIf_eq_accept.mp h).2).2).1
  receive_ban _ _ _ := rfl

def CDKGJustification.kind (getSignHash serializeHash : CDKGJustification G₂ → Uint256)
    (unserialize : List UInt8 → Option (CDKGJustification G₂))
    (receive : CDKGSession G₁ → Uint256 → CDKGJustification G₂ → CDKGSession G₁) :
    MessageKind G₁ G₂ (CDKGJustification G₂) where
  proTxHash := CDKGJustification.proTxHash
  sig := CDKGJustification.sig
  getSignHash
  serializeHash
  unserialize
  preVerifyMessage := CDKGJustification.preVerifyMessage
  receiveMessage session hash qj := (receive session hash qj, false)
  member_of_accept _ _ h :=
    have ⟨_, hmember, _⟩ := preVerifySender_eq_accept h
    Option.isSome_of_mem hmember
  sig_of_accept _ _ h := by
    have ⟨_, _, h⟩ := preVerifySender_eq_accept h
    simpa using (banIf_eq_accept.mp (banIf_eq_accept.mp (banIf_eq_accept.mp h).2).2).1
  receive_ban _ _ _ := rfl

/-- The sign hash of a premature commitment leaves out who sends it. -/
def CDKGPrematureCommitment.kind
    (buildCommitmentHash : Uint256 → List Bool → CBLSPublicKey G₁ → Uint256 → Uint256)
    (serializeHash : CDKGPrematureCommitment G₁ G₂ → Uint256)
    (unserialize : List UInt8 → Option (CDKGPrematureCommitment G₁ G₂))
    (receive : CDKGSession G₁ → Uint256 → CDKGPrematureCommitment G₁ G₂ → CDKGSession G₁) :
    MessageKind G₁ G₂ (CDKGPrematureCommitment G₁ G₂) where
  proTxHash := CDKGPrematureCommitment.proTxHash
  sig := CDKGPrematureCommitment.sig
  getSignHash qc :=
    buildCommitmentHash qc.quorumHash qc.validMembers qc.quorumPublicKey qc.quorumVvecHash
  serializeHash
  unserialize
  preVerifyMessage := CDKGPrematureCommitment.preVerifyMessage
  receiveMessage session hash qc := (receive session hash qc, false)
  member_of_accept _ _ h :=
    have ⟨_, hmember, _⟩ := preVerifySender_eq_accept h
    Option.isSome_of_mem hmember
  sig_of_accept _ _ h := by
    have ⟨_, _, h⟩ := preVerifySender_eq_accept h
    simpa using (banIf_eq_accept.mp (banIf_eq_accept.mp (banIf_eq_accept.mp h).2).2).1
  receive_ban _ _ _ := rfl

end Firo.Llmq
