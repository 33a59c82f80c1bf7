import Firo.Bls.Scheme
import Firo.Lib.Check

/-! The final commitment that a block mines for a key generation session, and the checks of
`llmq/quorums_commitment.cpp`. -/
namespace Firo.Llmq

open Firo.Lib Firo.Spark Firo.Bls

/-- The entries of `Consensus::LLMQParams` that mining commitments reads. The mining window
starts after the base block of a session. -/
structure LLMQParams where
  type : UInt8
  size : Nat
  minSize : Nat
  dkgInterval : Nat
  dkgMiningWindowStart : Nat
  dkgMiningWindowEnd : Nat
  dkgInterval_pos : 0 < dkgInterval
  windowStart_pos : 0 < dkgMiningWindowStart

namespace LLMQParams

def llmq5_60 : LLMQParams := ⟨100, 5, 3, 24, 10, 18, by decide, by decide⟩
def llmq10_70 : LLMQParams := ⟨4, 10, 8, 24, 10, 18, by decide, by decide⟩
def llmq50_60 : LLMQParams := ⟨1, 50, 40, 18, 10, 16, by decide, by decide⟩
def llmq400_60 : LLMQParams := ⟨2, 400, 300, 12 * 12, 20, 28, by decide, by decide⟩
def llmq400_85 : LLMQParams := ⟨3, 400, 350, 12 * 24, 20, 48, by decide, by decide⟩

end LLMQParams

/-- The part of `Consensus::Params` that mining commitments reads; `llmqs` is a map by type. -/
structure LlmqConsensus where
  DIP0003Height : Nat
  llmqs : List LLMQParams
  types_nodup : (llmqs.map LLMQParams.type).Nodup

namespace LlmqConsensus

def find (cons : LlmqConsensus) (type : UInt8) : Option LLMQParams :=
  cons.llmqs.find? fun params => params.type == type

lemma find_eq_some {cons : LlmqConsensus} {type : UInt8} {params : LLMQParams} :
    cons.find type = some params ↔ params ∈ cons.llmqs ∧ params.type = type := by
  constructor
  · intro h
    exact ⟨List.mem_of_find?_eq_some h, by simpa using List.find?_some h⟩
  · rintro ⟨hmem, rfl⟩
    have hsome : (cons.find params.type).isSome := by
      rw [find, List.find?_isSome]
      exact ⟨params, hmem, by simp⟩
    obtain ⟨params', h'⟩ := Option.isSome_iff_exists.mp hsome
    have htype : params'.type = params.type := by simpa using List.find?_some h'
    rw [h', List.inj_on_of_nodup_map cons.types_nodup (List.mem_of_find?_eq_some h') hmem htype]

end LlmqConsensus

structure CFinalCommitment (G₁ G₂ : Type) where
  nVersion : Nat := 1
  llmqType : UInt8
  quorumHash : Uint256
  signers : List Bool
  validMembers : List Bool
  quorumPublicKey : CBLSPublicKey G₁ := none
  quorumVvecHash : Uint256 := 0
  quorumSig : CBLSSignature G₂ := none
  membersSig : CBLSSignature G₂ := none
deriving DecidableEq

structure CFinalCommitmentTxPayload (G₁ G₂ : Type) where
  nVersion : Nat := 1
  nHeight : Nat
  commitment : CFinalCommitment G₁ G₂

variable {G₁ G₂ : Type}

/-- The code outside the model: the signature scheme, the hashes, the form of a payload and
the operator keys of the members of a quorum. -/
structure CommitmentEnv (G₁ G₂ : Type) where
  scheme : Scheme G₁ G₂
  verifySecureAggregated : CBLSSignature G₂ → List (CBLSPublicKey G₁) → Uint256 → Bool
  buildCommitmentHash : UInt8 → Uint256 → List Bool → CBLSPublicKey G₁ → Uint256 → Uint256
  serializeHash : CFinalCommitment G₁ G₂ → Uint256
  getTxPayload : List UInt8 → Option (CFinalCommitmentTxPayload G₁ G₂)
  getAllQuorumMembers : UInt8 → Uint256 → List (CBLSPublicKey G₁)

namespace CFinalCommitment

variable (qc : CFinalCommitment G₁ G₂)

def countSigners : Nat := qc.signers.count true
def countValidMembers : Nat := qc.validMembers.count true

def isNull : Bool :=
  qc.countSigners == 0 && qc.countValidMembers == 0 && qc.quorumPublicKey.isNone &&
    qc.quorumVvecHash == 0 && qc.membersSig.isNone && qc.quorumSig.isNone

def verifySizes (params : LLMQParams) : Bool :=
  qc.signers.length == params.size && qc.validMembers.length == params.size

def verifyNull (cons : LlmqConsensus) (qc : CFinalCommitment G₁ G₂) : Bool :=
  match cons.find qc.llmqType with
  | none => false
  | some params => qc.isNull && qc.verifySizes params

/-- The signatures of a commitment, which are checked when its block is processed. -/
def verifySigs (env : CommitmentEnv G₁ G₂) (params : LLMQParams) (qc : CFinalCommitment G₁ G₂)
    (members : List (CBLSPublicKey G₁)) : Bool :=
  let commitmentHash := env.buildCommitmentHash params.type qc.quorumHash qc.validMembers
    qc.quorumPublicKey qc.quorumVvecHash
  let memberPubKeys := ((members.zip qc.signers).filter Prod.snd).map Prod.fst
  env.verifySecureAggregated qc.membersSig memberPubKeys commitmentHash &&
    CBLSSignature.verifyInsecure env.scheme qc.quorumSig qc.quorumPublicKey commitmentHash

def verify (env : CommitmentEnv G₁ G₂) (cons : LlmqConsensus) (qc : CFinalCommitment G₁ G₂)
    (members : List (CBLSPublicKey G₁)) (checkSigs : Bool) : Bool :=
  if qc.nVersion == 0 || decide (1 < qc.nVersion) then false
  else match cons.find qc.llmqType with
  | none => false
  | some params =>
    qc.verifySizes params && decide (params.minSize ≤ qc.countValidMembers) &&
      decide (params.minSize ≤ qc.countSigners) && qc.quorumPublicKey.isSome &&
      qc.quorumVvecHash != 0 && qc.membersSig.isSome && qc.quorumSig.isSome &&
      (qc.validMembers.drop members.length).all (!·) &&
      (qc.signers.drop members.length).all (!·) &&
      (!checkSigs || qc.verifySigs env params members)

end CFinalCommitment

end Firo.Llmq
