import Firo.Lib.Bytes
import Firo.LibSpark.Primitives

/-! The proofs of `chaum.cpp` that serial numbers open to tags: for each input `i` the prover knows
`x`, `y`, `z` with `S = F x + G y + H z` and `U = T x + G y`. The first version adds all inputs into
one proof, weighted by the powers of the challenge; the second keeps a commitment and a response for
each input. Random scalars are arguments. -/
namespace Firo.LibSpark

open Firo.Lib

variable {K P : Type}

structure Chaum (P : Type) where
  F : P
  G : P
  H : P
  U : P

def maxChaumV2Inputs : ℕ := 100

structure ChaumProofV1 (K P : Type) where
  A1 : P
  A2 : List P
  t1 : List K
  t2 : K
  t3 : K

structure ChaumProofV2 (K P : Type) where
  A1 : List P
  A2 : List P
  t1 : List K
  t2 : List K
  t3 : List K

structure ChaumV2Context where
  fee : UInt64 := 0
  transparentValue : UInt64 := 0
  serializedOutputs : List (List UInt8) := []
  extensionCommitment : BitVec 256 := 0
  serializedCoverSetReferences : List UInt8 := []

def encodeUint64LE (value : UInt64) : List UInt8 :=
  leBytes 8 value.toNat

def uint256Data (value : BitVec 256) : List UInt8 :=
  leBytes 32 value.toNat

namespace Chaum

variable (ch : Chaum P) (hash : Transcript K P → K)

def transcriptV1 (mu : K) (S T : List P) (A1 : P) (A2 : List P) : Transcript K P :=
  ({ domain := "CHAUM_V1" } : Transcript K P)
    |>.add "F" (.point ch.F)
    |>.add "G" (.point ch.G)
    |>.add "H" (.point ch.H)
    |>.add "U" (.point ch.U)
    |>.add "mu" (.scalar mu)
    |>.add "S" (.points S)
    |>.add "T" (.points T)
    |>.add "A1" (.point A1)
    |>.add "A2" (.points A2)

def challengeV1 (mu : K) (S T : List P) (A1 : P) (A2 : List P) : K :=
  ((ch.transcriptV1 mu S T A1 A2).challenge hash "c").1

variable (mu : K) (context : ChaumV2Context)

def transcriptV2 (S T A1 A2 : List P) : Transcript K P :=
  ({ domain := "CHAUM_V2" } : Transcript K P)
    |>.add "version" (.data [2])
    |>.add "input_count" (.data (encodeUint64LE (UInt64.ofNat S.length)))
    |>.add "F" (.point ch.F)
    |>.add "G" (.point ch.G)
    |>.add "H" (.point ch.H)
    |>.add "U" (.point ch.U)
    |>.add "mu" (.scalar mu)
    |>.add "S" (.points S)
    |>.add "T" (.points T)
    |>.add "A1" (.points A1)
    |>.add "A2" (.points A2)
    |>.add "cover_set_references" (.data context.serializedCoverSetReferences)
    |>.add "outputs" (.datas context.serializedOutputs)
    |>.add "fee" (.data (encodeUint64LE context.fee))
    |>.add "transparent_value" (.data (encodeUint64LE context.transparentValue))
    |>.add "extension_commitment" (.data (uint256Data context.extensionCommitment))

def challengeV2 (S T A1 A2 : List P) : K :=
  ((ch.transcriptV2 mu context S T A1 A2).challenge hash "c").1

variable [Field K] [DecidableEq K] [AddCommGroup P] [DecidableEq P] [Module K P]

def Opens (x y z : K) (S T : P) : Prop :=
  x • ch.F + y • ch.G + z • ch.H = S ∧ x • T + y • ch.G = ch.U

instance (x y z : K) (S T : P) : Decidable (ch.Opens x y z S T) :=
  inferInstanceAs (Decidable (_ ∧ _))

structure RandomV1 (K : Type) where
  r : ℕ → K
  s : ℕ → K
  t : K

/-- `proof` is the object that the caller passes in: its `t2` is added to, the other members
are written. -/
def proveV1 (rand : RandomV1 K) (mu : K) (x y z : List K) (S T : List P)
    (proof : ChaumProofV1 K P) : Except String (ChaumProofV1 K P) :=
  let n := x.length
  if ¬(y.length = n ∧ z.length = n ∧ S.length = n ∧ T.length = n) then
    .error "Bad Chaum statement!"
  else if ¬∀ i < n, ch.Opens (x.getD i 0) (y.getD i 0) (z.getD i 0) (S.getD i 0) (T.getD i 0) then
    .error "Bad Chaum statement!"
  else
    let A1 := rand.t • ch.H + ((List.range n).map fun i => rand.r i • ch.F + rand.s i • ch.G).sum
    let A2 := (List.range n).map fun i => rand.r i • T.getD i 0 + rand.s i • ch.G
    let c := ch.challengeV1 hash mu S T A1 A2
    if 0 ∈ challengePowers c n then .error "Unexpected challenge!"
    else .ok
      { A1 := A1
        A2 := A2
        t1 := (List.range n).map fun i => rand.r i + c ^ (i + 1) * x.getD i 0
        t2 := proof.t2 + ((List.range n).map fun i => rand.s i + c ^ (i + 1) * y.getD i 0).sum
        t3 := rand.t + ((List.range n).map fun i => c ^ (i + 1) * z.getD i 0).sum }

/-- The multi-exponentiation that merges the two equations with the weight `w`. -/
def weightedElement (w c : K) (S T : List P) (proof : ChaumProofV1 K P) : P :=
  let cPowers := challengePowers c S.length
  let scalars := [-proof.t1.sum, -proof.t2 - w * proof.t2, -proof.t3, cPowers.sum * w, 1, w] ++
    (cPowers ++ proof.t1.map fun t => -w * t)
  let points := [ch.F, ch.G, ch.H, ch.U, proof.A1, proof.A2.sum] ++ (S ++ T)
  multiExponent points scalars

/-- The verification of historical blocks; the weight `w` is drawn until it is not zero. -/
def verifyV1 (w mu : K) (S T : List P) (proof : ChaumProofV1 K P) : Except String Bool :=
  let n := S.length
  if n = 0 ∨ ¬(T.length = n ∧ proof.A2.length = n ∧ proof.t1.length = n) then
    .error "Bad Chaum semantics!"
  else if 0 ∈ S ∨ 0 ∈ T then .error "Bad Chaum input!"
  else
    let c := ch.challengeV1 hash mu S T proof.A1 proof.A2
    if 0 ∈ challengePowers c n then .error "Unexpected challenge!"
    else .ok (decide (ch.weightedElement w c S T proof = 0))

def verifySingleInput (mu : K) (S T : List P) (proof : ChaumProofV1 K P) : Except String Bool :=
  if S.length ≠ 1 ∨ T.length ≠ 1 then .ok false
  else if proof.A2.length ≠ 1 ∨ proof.t1.length ≠ 1 ∨ S.getD 0 0 = 0 ∨ T.getD 0 0 = 0 then
    .error "Bad Chaum single-input semantics!"
  else
    let c := ch.challengeV1 hash mu S T proof.A1 proof.A2
    if c = 0 then .error "Unexpected challenge!"
    else if proof.A1 + c • S.getD 0 0 ≠
        proof.t1.getD 0 0 • ch.F + proof.t2 • ch.G + proof.t3 • ch.H then .ok false
    else .ok (decide (proof.A2.getD 0 0 + c • ch.U =
      proof.t1.getD 0 0 • T.getD 0 0 + proof.t2 • ch.G))

structure RandomV2 (K : Type) where
  r : ℕ → K
  s : ℕ → K
  t : ℕ → K

def commitV2 (rand : RandomV2 K) (n : ℕ) (T : List P) : List P × List P :=
  ((List.range n).map fun i => rand.r i • ch.F + rand.s i • ch.G + rand.t i • ch.H,
    (List.range n).map fun i => rand.r i • T.getD i 0 + rand.s i • ch.G)

def proveV2 (rand : RandomV2 K) (mu : K) (context : ChaumV2Context) (x y z : List K)
    (S T : List P) : Except String (ChaumProofV2 K P) :=
  let n := x.length
  if n = 0 ∨ maxChaumV2Inputs < n ∨ y.length ≠ n ∨ z.length ≠ n ∨ S.length ≠ n ∨
      T.length ≠ n then
    .error "Bad Chaum V2 statement"
  else if ¬∀ i < n, S.getD i 0 ≠ 0 ∧ T.getD i 0 ≠ 0 ∧
      ch.Opens (x.getD i 0) (y.getD i 0) (z.getD i 0) (S.getD i 0) (T.getD i 0) then
    .error "Bad Chaum V2 statement"
  else
    let A := ch.commitV2 rand n T
    let c := ch.challengeV2 hash mu context S T A.1 A.2
    if c = 0 then .error "Unexpected Chaum V2 challenge"
    else .ok
      { A1 := A.1
        A2 := A.2
        t1 := (List.range n).map fun i => rand.r i + c * x.getD i 0
        t2 := (List.range n).map fun i => rand.s i + c * y.getD i 0
        t3 := (List.range n).map fun i => rand.t i + c * z.getD i 0 }

def EquationsV2 (c : K) (S T A1 A2 : P) (t1 t2 t3 : K) : Prop :=
  A1 + c • S = t1 • ch.F + t2 • ch.G + t3 • ch.H ∧ A2 + c • ch.U = t1 • T + t2 • ch.G

instance (c : K) (S T A1 A2 : P) (t1 t2 t3 : K) : Decidable (ch.EquationsV2 c S T A1 A2 t1 t2 t3) :=
  inferInstanceAs (Decidable (_ ∧ _))

def verifyV2 (S T : List P) (proof : ChaumProofV2 K P) : Bool :=
  let n := S.length
  if n = 0 ∨ maxChaumV2Inputs < n ∨ T.length ≠ n ∨ proof.A1.length ≠ n ∨
      proof.A2.length ≠ n ∨ proof.t1.length ≠ n ∨ proof.t2.length ≠ n ∨ proof.t3.length ≠ n then
    false
  else if 0 ∈ S ∨ 0 ∈ T ∨ 0 ∈ proof.A1 ∨ 0 ∈ proof.A2 then false
  else
    let c := ch.challengeV2 hash mu context S T proof.A1 proof.A2
    if c = 0 then false
    else decide (∀ i < n, ch.EquationsV2 c (S.getD i 0) (T.getD i 0) (proof.A1.getD i 0)
      (proof.A2.getD i 0) (proof.t1.getD i 0) (proof.t2.getD i 0) (proof.t3.getD i 0))

end Chaum

end Firo.LibSpark
