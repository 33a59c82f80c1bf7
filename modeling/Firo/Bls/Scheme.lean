import Firo.Spark.Basic

/-! The wrappers of `bls/bls.cpp` around the elements of the two curve groups. An element that does
not decode is an invalid wrapper, here `none`. The scheme of the `bls` library below the wrappers is
a parameter. -/
namespace Firo.Bls

open Firo.Spark

/-- What the `bls` library computes on decoded keys in `G₁` and signatures in `G₂`. -/
structure Scheme (G₁ G₂ : Type) where
  addKeys : G₁ → G₁ → G₁
  aggregate : G₂ → G₂ → G₂
  verify : G₁ → Uint256 → G₂ → Bool
  aggregateVerify : List G₁ → List Uint256 → G₂ → Bool

abbrev CBLSPublicKey (G₁ : Type) := Option G₁
abbrev CBLSSignature (G₂ : Type) := Option G₂

variable {G₁ G₂ : Type} (scheme : Scheme G₁ G₂)

namespace CBLSPublicKey

/-- `CBLSPublicKey::AggregateInsecure` asserts that both keys are valid. -/
def aggregateInsecure (pk o : CBLSPublicKey G₁) : Option (CBLSPublicKey G₁) :=
  match pk, o with
  | some pk, some o => some (some (scheme.addKeys pk o))
  | _, _ => none

end CBLSPublicKey

namespace CBLSSignature

def aggregateInsecure (sig o : CBLSSignature G₂) : Option (CBLSSignature G₂) :=
  match sig, o with
  | some sig, some o => some (some (scheme.aggregate sig o))
  | _, _ => none

def verifyInsecure (sig : CBLSSignature G₂) (pubKey : CBLSPublicKey G₁) (hash : Uint256) : Bool :=
  match sig, pubKey with
  | some sig, some pubKey => scheme.verify pubKey hash sig
  | _, _ => false

/-- The call asserts that there is at least one key and one hash for each key. -/
def verifyInsecureAggregated (sig : CBLSSignature G₂) (pubKeys : List (CBLSPublicKey G₁))
    (hashes : List Uint256) : Option Bool :=
  match sig with
  | none => some false
  | some sig =>
    if pubKeys.isEmpty || hashes.isEmpty || pubKeys.length != hashes.length then none
    else if !pubKeys.all Option.isSome then some false
    else some (scheme.aggregateVerify pubKeys.reduceOption hashes sig)

end CBLSSignature

structure Signed (G₁ G₂ : Type) where
  pubKey : CBLSPublicKey G₁
  hash : Uint256
  sig : G₂

namespace Signed

def verifies (m : Signed G₁ G₂) : Bool :=
  CBLSSignature.verifyInsecure scheme (some m.sig) m.pubKey m.hash

def aggregate (m : Signed G₁ G₂) (ms : List (Signed G₁ G₂)) : G₂ :=
  ms.foldl (fun sig m => scheme.aggregate sig m.sig) m.sig

lemma aggregate_append (m) (ms) (m') :
    aggregate scheme m (ms ++ [m']) = scheme.aggregate (aggregate scheme m ms) m'.sig := by
  simp [aggregate]

end Signed

/-- Over different hashes an aggregate is accepted exactly if every signature in it is. -/
def Scheme.AggregatesExactly : Prop :=
  ∀ (m : Signed G₁ G₂) (ms : List (Signed G₁ G₂)), ((m :: ms).map Signed.hash).Nodup →
    CBLSSignature.verifyInsecureAggregated scheme (some (Signed.aggregate scheme m ms))
      ((m :: ms).map Signed.pubKey) ((m :: ms).map Signed.hash) =
        some ((m :: ms).all (Signed.verifies scheme))

/-- A bilinear pairing with a generator of the key group and a hash into the signature
group. -/
structure Pairing (G₁ G₂ G : Type) [AddCommGroup G₁] [AddCommGroup G₂] [AddCommGroup G] where
  e : G₁ →+ G₂ →+ G
  generator : G₁
  hashToGroup : Uint256 → G₂

def Pairing.toScheme {G₁ G₂ G : Type} [AddCommGroup G₁] [AddCommGroup G₂] [AddCommGroup G]
    [DecidableEq G] (p : Pairing G₁ G₂ G) : Scheme G₁ G₂ where
  addKeys pk pk' := pk + pk'
  aggregate sig sig' := sig + sig'
  verify pk hash sig := decide (p.e p.generator sig = p.e pk (p.hashToGroup hash))
  aggregateVerify pks hashes sig :=
    decide (p.e p.generator sig =
      (List.zipWith (fun pk hash => p.e pk (p.hashToGroup hash)) pks hashes).sum)

/-- A scheme in which a signature counts its defects: it meets the assumption. -/
def defectScheme : Scheme Unit Nat where
  addKeys _ _ := ()
  aggregate sig sig' := sig + sig'
  verify _ _ sig := sig == 0
  aggregateVerify _ _ sig := sig == 0

lemma defectScheme_aggregate_eq_zero (m : Signed Unit Nat) (ms) :
    m.aggregate defectScheme ms = 0 ↔ ∀ s ∈ m :: ms, s.sig = 0 := by
  induction ms using List.reverseRecOn with
  | nil => simp [Signed.aggregate]
  | append_singleton ms s ih =>
    rw [Signed.aggregate_append]
    show Signed.aggregate defectScheme m ms + s.sig = 0 ↔ _
    rw [Nat.add_eq_zero_iff, ih]
    simp [or_imp, forall_and, and_assoc]

lemma defectScheme_aggregatesExactly : defectScheme.AggregatesExactly := by
  intro m ms _
  have hverifies : ∀ s : Signed Unit Nat,
      s.verifies defectScheme = (s.pubKey.isSome && s.sig == 0) := by
    rintro ⟨_ | _, hash, sig⟩ <;> rfl
  have hall : ((m :: ms).all (Signed.verifies defectScheme)) =
      (((m :: ms).map Signed.pubKey).all Option.isSome && (m.aggregate defectScheme ms == 0)) := by
    rw [Bool.eq_iff_iff]
    simp only [List.all_eq_true, hverifies, Bool.and_eq_true, beq_iff_eq,
      defectScheme_aggregate_eq_zero, List.forall_mem_map, forall_and]
  rw [hall]
  unfold CBLSSignature.verifyInsecureAggregated
  cases ((m :: ms).map Signed.pubKey).all Option.isSome
  · simp
  · simp [defectScheme]

end Firo.Bls
