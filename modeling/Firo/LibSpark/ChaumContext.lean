import Firo.LibSpark.Chaum
import Firo.LibSpark.TranscriptBytes

/-! `GetChaumV2Context` of `spend_transaction.cpp` serialises the cover-set references and the
outputs of a spend into the context of its Chaum proof. The bytes that are hashed for the challenge
determine every part of the statement, the commitments and the context. -/
namespace Firo.LibSpark

open Firo.Lib Firo.Serialize List

variable {K P Coin : Type}

def coverSetReferences (coverSetIds : List UInt64)
    (blockHashes : Std.ExtTreeMap UInt64 (BitVec 256)) : List UInt8 :=
  writeCompactSize coverSetIds.length ++ (coverSetIds.flatMap writeUint64 ++
    (writeCompactSize blockHashes.size ++
      blockHashes.toList.flatMap fun entry => writeUint64 entry.1 ++ uint256Data entry.2))

def getChaumV2Context (serializeCoin : Coin → List UInt8) (outCoins : List Coin)
    (fee transparentValue : UInt64) (extensionCommitment : BitVec 256) (coverSetIds : List UInt64)
    (blockHashes : Std.ExtTreeMap UInt64 (BitVec 256)) : ChaumV2Context where
  fee := fee
  transparentValue := transparentValue
  serializedOutputs := outCoins.map serializeCoin
  extensionCommitment := extensionCommitment
  serializedCoverSetReferences := coverSetReferences coverSetIds blockHashes

def readUint256 : Reader (BitVec 256) := do
  let v ← Reader.le 32
  pure (BitVec.ofNat 256 v)

def readEntry : Reader (UInt64 × BitVec 256) := do
  let id ← readUint64
  let hash ← readUint256
  pure (id, hash)

def readReferences : Reader (List UInt64 × List (UInt64 × BitVec 256)) := do
  let n ← readCompactSize false
  let ids ← Reader.times readUint64 n
  let m ← readCompactSize false
  let entries ← Reader.times readEntry m
  pure (ids, entries)

lemma reads_uint256 (hash) : Reads readUint256 (uint256Data hash) hash := by
  have hlt : hash.toNat < 256 ^ 32 := hash.isLt.trans_eq (by norm_num)
  have hread := (Reads.le hlt).map (BitVec.ofNat 256)
  rwa [BitVec.ofNat_toNat, BitVec.setWidth_eq] at hread

lemma reads_entry (entry : UInt64 × BitVec 256) :
    Reads readEntry (writeUint64 entry.1 ++ uint256Data entry.2) entry :=
  (reads_uint64 entry.1).bind ((reads_uint256 entry.2).map fun hash => (entry.1, hash))

lemma reads_references {coverSetIds} {blockHashes}
    (h : (coverSetReferences coverSetIds blockHashes).length < 2 ^ 64) :
    Reads readReferences (coverSetReferences coverSetIds blockHashes)
      (coverSetIds, blockHashes.toList) := by
  have hids : coverSetIds.length ≤ (coverSetIds.flatMap writeUint64).length := by
    simp only [length_flatMap, writeUint64, length_leBytes, map_const', sum_replicate, smul_eq_mul]
    omega
  have hentries : blockHashes.size ≤ (blockHashes.toList.flatMap fun entry =>
      writeUint64 entry.1 ++ uint256Data entry.2).length := by
    simp only [length_flatMap, length_append, writeUint64, uint256Data, length_leBytes,
      map_const', sum_replicate, smul_eq_mul, Std.ExtTreeMap.length_toList]
    omega
  simp only [coverSetReferences, length_append] at h
  have hcount : Reads (readCompactSize false) (writeCompactSize coverSetIds.length)
      coverSetIds.length := reads_compactSize (by omega) (by simp)
  have hsize : Reads (readCompactSize false) (writeCompactSize blockHashes.size)
      blockHashes.size := reads_compactSize (by omega) (by simp)
  rw [← Std.ExtTreeMap.length_toList] at hsize
  rw [coverSetReferences, ← Std.ExtTreeMap.length_toList]
  have htimesIds := Reads.times fun id (_ : id ∈ coverSetIds) => reads_uint64 id
  have htimesEntries := Reads.times fun entry (_ : entry ∈ blockHashes.toList) => reads_entry entry
  exact hcount.bind (htimesIds.bind (hsize.bind
    (htimesEntries.map fun entries => (coverSetIds, entries))))

lemma coverSetReferences_inj {coverSetIds coverSetIds'}
    {blockHashes blockHashes'}
    (h : (coverSetReferences coverSetIds blockHashes).length < 2 ^ 64)
    (heq : coverSetReferences coverSetIds blockHashes =
      coverSetReferences coverSetIds' blockHashes') :
    coverSetIds = coverSetIds' ∧ blockHashes = blockHashes' := by
  have h' := reads_references (heq ▸ h)
  have hstream : coverSetReferences coverSetIds blockHashes ++ [] =
      coverSetReferences coverSetIds' blockHashes' ++ [] := by rw [heq]
  obtain ⟨hpair, -⟩ := (reads_references h).inj h' hstream
  rw [Prod.mk.injEq, Std.ExtTreeMap.toList_inj] at hpair
  exact hpair

structure ChallengeV2 (K P Coin : Type) where
  ch : Chaum P
  mu : K
  S : List P
  T : List P
  A1 : List P
  A2 : List P
  outCoins : List Coin
  fee : UInt64
  transparentValue : UInt64
  extensionCommitment : BitVec 256
  coverSetIds : List UInt64
  blockHashes : Std.ExtTreeMap UInt64 (BitVec 256)

namespace ChallengeV2

variable (serializeScalar : K → List UInt8) (serializePoint : P → List UInt8)
variable (serializeCoin : Coin → List UInt8)

/-- The transcript of `challenge_v2`, with the request for the challenge. -/
def transcript (q : ChallengeV2 K P Coin) : Transcript K P :=
  (q.ch.transcriptV2 q.mu (getChaumV2Context serializeCoin q.outCoins q.fee q.transparentValue
    q.extensionCommitment q.coverSetIds q.blockHashes) q.S q.T q.A1 q.A2).add "c" .challenge

def stream (counter : UInt8) (q : ChallengeV2 K P Coin) : List UInt8 :=
  (q.transcript serializeCoin).stream serializeScalar serializePoint fun _ => counter

def Sized (counter : UInt8) (q : ChallengeV2 K P Coin) : Prop :=
  ∀ op ∈ Transcript.ops serializeScalar serializePoint (fun _ => counter)
    (q.transcript serializeCoin).items, op.Sized

structure Agree (q q' : ChallengeV2 K P Coin) : Prop where
  S_eq : q.S.map serializePoint = q'.S.map serializePoint
  T_eq : q.T.map serializePoint = q'.T.map serializePoint
  A1_eq : q.A1.map serializePoint = q'.A1.map serializePoint
  A2_eq : q.A2.map serializePoint = q'.A2.map serializePoint
  outputs_eq : q.outCoins.map serializeCoin = q'.outCoins.map serializeCoin
  fee_eq : q.fee = q'.fee
  transparentValue_eq : q.transparentValue = q'.transparentValue
  extensionCommitment_eq : q.extensionCommitment = q'.extensionCommitment
  coverSetIds_eq : q.coverSetIds = q'.coverSetIds
  blockHashes_eq : q.blockHashes = q'.blockHashes

lemma encodeUint64LE_inj {v v' : UInt64} (h : encodeUint64LE v = encodeUint64LE v') : v = v' :=
  UInt64.toNat_inj.mp (leBytes_inj v.toNat_lt v'.toNat_lt h)

lemma uint256Data_inj {v v'} (h : uint256Data v = uint256Data v') : v = v' := by
  have hpow : 2 ^ 256 = 256 ^ 32 := by norm_num
  exact BitVec.eq_of_toNat_eq (leBytes_inj (v.isLt.trans_eq hpow) (v'.isLt.trans_eq hpow) h)

lemma agree_of_stream_eq {counter counter' : UInt8} {q q' : ChallengeV2 K P Coin}
    (hq : q.Sized serializeScalar serializePoint serializeCoin counter)
    (hq' : q'.Sized serializeScalar serializePoint serializeCoin counter')
    (h : q.stream serializeScalar serializePoint serializeCoin counter =
      q'.stream serializeScalar serializePoint serializeCoin counter') :
    Agree serializePoint serializeCoin q q' := by
  have hlabel : (F4Grumble.bytes "CHAUM_V2").length < 2 ^ 64 := by simp [F4Grumble.bytes]
  have hops := (TranscriptOp.stream_inj hlabel hlabel hq hq' h).2
  simp only [Sized, transcript, Chaum.transcriptV2, Transcript.add, nil_append,
    cons_append, Transcript.ops, mapIdx_cons, mapIdx_nil, TranscriptItem.op,
    getChaumV2Context, List.cons.injEq, TranscriptOp.data.injEq, TranscriptOp.vector.injEq,
    true_and, and_true, forall_mem_cons] at hops hq
  obtain ⟨-, -, -, -, -, -, hS, hT, hA1, hA2, hreferences, houtputs, hfee, hvalue, hextension, -⟩ :=
    hops
  obtain ⟨-, -, -, -, -, -, -, -, -, -, -, hsized, -⟩ := hq
  obtain ⟨hids, hhashes⟩ := coverSetReferences_inj hsized.2 hreferences
  exact ⟨hS, hT, hA1, hA2, houtputs, encodeUint64LE_inj hfee, encodeUint64LE_inj hvalue,
    uint256Data_inj hextension, hids, hhashes⟩

/-- The stream of a transcript determines its operations; and two challenges of the second
version that differ in the statement, the commitments or the context hash different bytes. -/
theorem stream_determines_challenge : (∀ (label label' : List UInt8) (ops ops' : List TranscriptOp),
      label.length < 2 ^ 64 → label'.length < 2 ^ 64 →
      (∀ op ∈ ops, op.Sized) → (∀ op ∈ ops', op.Sized) →
      TranscriptOp.stream label ops = TranscriptOp.stream label' ops' →
      label = label' ∧ ops = ops') ∧
    ∀ (counter counter' : UInt8) (q q' : ChallengeV2 K P Coin),
      q.Sized serializeScalar serializePoint serializeCoin counter →
      q'.Sized serializeScalar serializePoint serializeCoin counter' →
      ¬Agree serializePoint serializeCoin q q' →
      q.stream serializeScalar serializePoint serializeCoin counter ≠
        q'.stream serializeScalar serializePoint serializeCoin counter' := by
  constructor
  · intro label label' ops ops' hlabel hlabel' hops hops' h
    exact TranscriptOp.stream_inj hlabel hlabel' hops hops' h
  · intro counter counter' q q' hq hq' hne h
    exact hne (agree_of_stream_eq serializeScalar serializePoint serializeCoin hq hq' h)

/-- A challenge with two inputs and the fee `fee`; scalars, points and coins are bytes. -/
def smallChallenge (fee : UInt64) : ChallengeV2 UInt8 UInt8 UInt8 :=
  ⟨⟨1, 2, 3, 4⟩, 5, [6, 7], [8, 9], [10, 11], [12, 13], [14], fee, 0, 0, [1], ∅⟩

theorem stream_determines_challenge_fee :
    (smallChallenge 1).stream (fun s => [s]) (fun g => [g]) (fun c => [c]) 0 ≠
      (smallChallenge 2).stream (fun s => [s]) (fun g => [g]) (fun c => [c]) 0 := by
  have hsized : ∀ fee, (smallChallenge fee).Sized (fun s => [s]) (fun g => [g])
      (fun c => [c]) 0 := by
    intro fee
    simp [Sized, smallChallenge, transcript, Chaum.transcriptV2, Transcript.add, Transcript.ops,
      TranscriptItem.op, TranscriptOp.Sized, F4Grumble.bytes, getChaumV2Context,
      coverSetReferences, writeCompactSize, writeUint64, encodeUint64LE, uint256Data]
  apply (stream_determines_challenge (fun s => [s]) (fun g => [g]) fun c => [c]).2
  · exact hsized 1
  · exact hsized 2
  · intro hagree
    exact absurd hagree.fee_eq (by simp [smallChallenge])

end ChallengeV2

end Firo.LibSpark
