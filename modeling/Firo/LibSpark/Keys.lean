import Firo.LibSpark.Address
import Firo.LibSpark.Primitives
import Firo.Serialize

/-! The keys and addresses of `keys.cpp`, and the diversifier of `util.cpp`. A spend key gives a
full view key, that an incoming view key, and that an address for each diversifier index. The owner
of an address shows with `prove_own` that they know the scalars of both of its keys. -/
namespace Firo.LibSpark

open Firo.Lib Firo.Serialize

variable {K P : Type}

def AES256_KEYSIZE : ℕ := 32

/-- AES-256 (CBC) with padding and a zero IV, as functions of the key. -/
structure Aes256Cbc where
  encrypt : List UInt8 → List UInt8 → List UInt8
  decrypt : List UInt8 → List UInt8 → List UInt8
  length_encrypt : ∀ key plaintext,
    (encrypt key plaintext).length = (plaintext.length / AES_BLOCKSIZE + 1) * AES_BLOCKSIZE
  decrypt_encrypt : ∀ key plaintext, decrypt key (encrypt key plaintext) = plaintext

/-- ChaCha20-Poly1305 with a zero nonce, as functions of the key and the additional data. -/
structure Chacha20Poly1305 where
  encrypt : List UInt8 → List UInt8 → List UInt8 → List UInt8 × List UInt8
  decrypt : List UInt8 → List UInt8 → List UInt8 → List UInt8 → Option (List UInt8)
  decrypt_encrypt : ∀ key additional data,
    decrypt key additional (encrypt key additional data).1 (encrypt key additional data).2 =
      some data

/-- The hash functions and key derivations of `SparkUtils`, and the ciphers. -/
structure SparkUtils (K P : Type) where
  hashDiv : List UInt8 → P
  hashQ2 : K → K → K
  hashK : K → K
  hashSer : K → List UInt8 → K
  hashVal : K → K
  kdfDiversifier : K → List UInt8
  kdfAead : P → List UInt8
  commitAead : P → List UInt8
  aes : Aes256Cbc
  chacha : Chacha20Poly1305
  length_kdfDiversifier : ∀ s1, (kdfDiversifier s1).length = AES256_KEYSIZE

/-- The generators and the size of a memo, whose length is written in one byte. -/
structure Params (P : Type) where
  F : P
  G : P
  H : P
  U : P
  memoBytes : ℕ
  memoBytes_lt : memoBytes < 256

namespace SparkUtils

variable (utils : SparkUtils K P)

def diversifierEncrypt (key : List UInt8) (i : UInt64) : Except String (List UInt8) :=
  if key.length ≠ AES256_KEYSIZE then .error "Bad diversifier encryption key size"
  else .ok (utils.aes.encrypt key (writeUint64 i))

def diversifierDecrypt (key d : List UInt8) : Except String UInt64 :=
  if key.length ≠ AES256_KEYSIZE then .error "Bad diversifier decryption key size"
  else if d.length ≠ AES_BLOCKSIZE then .error "Bad diversifier ciphertext size"
  else
    let plaintext := utils.aes.decrypt key d
    if plaintext.length ≠ 8 then .error "Invalid diversifier length"
    else .ok (UInt64.ofNat (ofLeBytes plaintext))

lemma length_encrypt_uint64 (key) (i) :
    (utils.aes.encrypt key (writeUint64 i)).length = AES_BLOCKSIZE := by
  rw [utils.aes.length_encrypt, writeUint64, length_leBytes]
  rfl

lemma diversifierDecrypt_encrypt {key : List UInt8} (hkey : key.length = AES256_KEYSIZE) (i) :
    utils.diversifierDecrypt key (utils.aes.encrypt key (writeUint64 i)) = .ok i := by
  have hplain : ofLeBytes (writeUint64 i) = i.toNat := ofLeBytes_leBytes i.toNat_lt
  have hlength : (writeUint64 i).length = 8 := length_leBytes 8 _
  simp only [diversifierDecrypt, utils.aes.decrypt_encrypt, length_encrypt_uint64, hkey, hplain,
    hlength, ne_eq, not_true_eq_false, if_false, UInt64.ofNat_toNat]

end SparkUtils

structure SpendKey (K : Type) where
  s1 : K
  s2 : K
  r : K

structure FullViewKey (K P : Type) where
  s1 : K
  s2 : K
  D : P
  P2 : P

structure IncomingViewKey (K P : Type) where
  s1 : K
  P2 : P

namespace IncomingViewKey

def getDiversifier (utils : SparkUtils K P) (key : IncomingViewKey K P) (d : List UInt8) :
    Except String UInt64 :=
  if d.length ≠ AES_BLOCKSIZE then .error "Bad encrypted diversifier"
  else utils.diversifierDecrypt (utils.kdfDiversifier key.s1) d

end IncomingViewKey

def FullViewKey.toIncoming (key : FullViewKey K P) : IncomingViewKey K P :=
  ⟨key.s1, key.P2⟩

structure OwnershipProof (K P : Type) where
  A : P
  t1 : K
  t2 : K
  t3 : K

variable [Field K] [AddCommGroup P] [Module K P]

def SpendKey.toFull (params : Params P) (key : SpendKey K) : FullViewKey K P :=
  let D := key.r • params.G
  ⟨key.s1, key.s2, D, key.s2 • params.F + D⟩

namespace Address

variable (utils : SparkUtils K P) (params : Params P) (hash : Transcript K P → K)

/-- The address of an incoming view key for the diversifier index `i`. -/
def ofKey (key : IncomingViewKey K P) (i : UInt64) : Except String (Address P) := do
  let d ← utils.diversifierEncrypt (utils.kdfDiversifier key.s1) i
  .ok ⟨d, key.s1 • utils.hashDiv d, utils.hashQ2 key.s1 (i.toNat : K) • params.F + key.P2⟩

lemma ofKey_eq_ok (key) (i) : ∃ d, ofKey utils params key i = .ok ⟨d, key.s1 • utils.hashDiv d,
        utils.hashQ2 key.s1 (i.toNat : K) • params.F + key.P2⟩ ∧
      key.getDiversifier utils d = .ok i ∧ d.length = AES_BLOCKSIZE := by
  have hkey := utils.length_kdfDiversifier key.s1
  have hsize := utils.length_encrypt_uint64 (utils.kdfDiversifier key.s1) i
  refine ⟨_, ?_, ?_, hsize⟩
  · rw [ofKey, SparkUtils.diversifierEncrypt, if_neg (not_not.mpr hkey)]
    rfl
  · rw [IncomingViewKey.getDiversifier, if_neg (not_not.mpr hsize)]
    exact utils.diversifierDecrypt_encrypt hkey i

def challenge (address : Address P) (m : K) (A H : P) : K :=
  (({ domain := "OWNERSHIP_V1" } : Transcript K P)
    |>.add "G" (.point params.G)
    |>.add "F" (.point params.F)
    |>.add "H" (.point H)
    |>.add "A" (.point A)
    |>.add "m" (.scalar m)
    |>.add "d" (.data address.d)
    |>.add "Q1" (.point address.Q1)
    |>.add "Q2" (.point address.Q2)
    |>.challenge hash "c").1

variable [DecidableEq K] [DecidableEq P]

/-- `a`, `b` and `c` are the random scalars. -/
def proveOwn (address : Address P) (a b c m : K) (spendKey : SpendKey K)
    (incomingViewKey : IncomingViewKey K P) : Except String (OwnershipProof K P) :=
  let H := utils.hashDiv address.d
  let A := a • H + b • params.G + c • params.F
  if A = 0 then .error "Bad Proof construction!"
  else
    let x := challenge params hash address m A H
    if x = 0 then .error "Unexpected challenge!"
    else do
      let i ← incomingViewKey.getDiversifier utils address.d
      .ok
        { A := A
          t1 := a + x * spendKey.s1
          t2 := b + x ^ 2 * spendKey.r
          t3 := c + x ^ 2 * (utils.hashQ2 spendKey.s1 (i.toNat : K) + spendKey.s2) }

def verifyOwn (address : Address P) (m : K) (proof : OwnershipProof K P) : Except String Bool :=
  if proof.A = 0 then .error "Bad Ownership Proof!"
  else
    let H := utils.hashDiv address.d
    let x := challenge params hash address m proof.A H
    if x = 0 then .error "Unexpected challenge!"
    else .ok (decide (proof.A + x • address.Q1 + x ^ 2 • address.Q2 =
      proof.t1 • H + proof.t2 • params.G + proof.t3 • params.F))

end Address

end Firo.LibSpark
