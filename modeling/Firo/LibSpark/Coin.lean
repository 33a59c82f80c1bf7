import Firo.LibSpark.Keys

/-! The coins of `coin.cpp`: the sender commits to a serial number and a value and encrypts what the
recipient needs, with the key commitment of `aead.cpp`; the holder of the incoming view key
identifies the coin, and the holder of the full view key recovers its serial number and tag. Scalars
are the integers modulo the group order `q`, as they are serialised in 32 bytes. -/
namespace Firo.LibSpark

open Firo.Lib Firo.Serialize

variable {q : ℕ} {P : Type}

def serializeScalar (s : ZMod q) : List UInt8 :=
  (leBytes 32 s.val).reverse

/-- `deserialize` refuses a value that is not below the order. -/
def deserializeScalar (buffer : List UInt8) : Reader (ZMod q) :=
  let value := ofLeBytes buffer.reverse
  if value < q then pure (value : ZMod q) else failure

def readScalar : Reader (ZMod q) := do
  let buffer ← Reader.bytes 32
  deserializeScalar buffer

lemma ofLeBytes_serializeScalar [NeZero q] (hq : q ≤ 2 ^ 256) (s : ZMod q) :
    ofLeBytes (serializeScalar s).reverse = s.val := by
  have hpow : 2 ^ 256 = 256 ^ 32 := by norm_num
  rw [serializeScalar, List.reverse_reverse]
  exact ofLeBytes_leBytes ((ZMod.val_lt s).trans_le (hpow ▸ hq))

lemma reads_scalar [NeZero q] (hq : q ≤ 2 ^ 256) (s : ZMod q) :
    Reads readScalar (serializeScalar s) s := by
  have hlast : Reads (deserializeScalar (serializeScalar s)) [] s := by
    rw [deserializeScalar, ofLeBytes_serializeScalar hq, if_pos (ZMod.val_lt s),
      ZMod.natCast_zmod_val]
    exact Reads.pure s
  have hlength : (serializeScalar s).length = 32 := by simp [serializeScalar]
  have hread := (Reads.bytes hlength).bind hlast
  rwa [List.append_nil] at hread

structure MintCoinRecipientData (q : ℕ) where
  d : List UInt8
  k : ZMod q
  paddedMemo : List UInt8

structure SpendCoinRecipientData (q : ℕ) where
  v : UInt64
  d : List UInt8
  k : ZMod q
  paddedMemo : List UInt8

def MintCoinRecipientData.write (r : MintCoinRecipientData q) : List UInt8 :=
  writeBytes r.d ++ (serializeScalar r.k ++ writeBytes r.paddedMemo)

def MintCoinRecipientData.read : Reader (MintCoinRecipientData q) := do
  let d ← readBytes
  let k ← readScalar
  let paddedMemo ← readBytes
  pure ⟨d, k, paddedMemo⟩

def SpendCoinRecipientData.write (r : SpendCoinRecipientData q) : List UInt8 :=
  writeUint64 r.v ++ (writeBytes r.d ++ (serializeScalar r.k ++ writeBytes r.paddedMemo))

def SpendCoinRecipientData.read : Reader (SpendCoinRecipientData q) := do
  let v ← readUint64
  let d ← readBytes
  let k ← readScalar
  let paddedMemo ← readBytes
  pure ⟨v, d, k, paddedMemo⟩

lemma MintCoinRecipientData.reads [NeZero q] (hq : q ≤ 2 ^ 256) {r : MintCoinRecipientData q}
    (hd : r.d.length ≤ MAX_SIZE) (hmemo : r.paddedMemo.length ≤ MAX_SIZE) : Reads read r.write r :=
  (reads_bytes hd).bind ((reads_scalar hq r.k).bind ((reads_bytes hmemo).map
    fun paddedMemo => (⟨r.d, r.k, paddedMemo⟩ : MintCoinRecipientData q)))

lemma SpendCoinRecipientData.reads [NeZero q] (hq : q ≤ 2 ^ 256) {r : SpendCoinRecipientData q}
    (hd : r.d.length ≤ MAX_SIZE) (hmemo : r.paddedMemo.length ≤ MAX_SIZE) : Reads read r.write r :=
  (reads_uint64 r.v).bind ((reads_bytes hd).bind ((reads_scalar hq r.k).bind
    ((reads_bytes hmemo).map
      fun paddedMemo => (⟨r.v, r.d, r.k, paddedMemo⟩ : SpendCoinRecipientData q))))

structure AEADEncryptedData where
  ciphertext : List UInt8
  tag : List UInt8
  keyCommitment : List UInt8

namespace AEAD

variable {K : Type} (utils : SparkUtils K P)

def encrypt (prekey : P) (additionalData : String) (data : List UInt8) : AEADEncryptedData :=
  let key := utils.kdfAead prekey
  let result := utils.chacha.encrypt key (F4Grumble.bytes additionalData) data
  ⟨result.1, result.2, utils.commitAead prekey⟩

def decryptAndVerify (prekey : P) (additionalData : String) (data : AEADEncryptedData) :
    Except String (List UInt8) :=
  if utils.commitAead prekey ≠ data.keyCommitment then .error "Bad AEAD key commitment"
  else
    match utils.chacha.decrypt (utils.kdfAead prekey) (F4Grumble.bytes additionalData)
        data.ciphertext data.tag with
    | none => .error "Bad AEAD authentication"
    | some result => .ok result

lemma decryptAndVerify_encrypt (prekey : P) (additionalData) (data) :
    decryptAndVerify utils prekey additionalData (encrypt utils prekey additionalData data) =
      .ok data := by
  simp [decryptAndVerify, encrypt, utils.chacha.decrypt_encrypt]

end AEAD

def COIN_TYPE_MINT : UInt8 := 0
def COIN_TYPE_SPEND : UInt8 := 1

structure Coin (P : Type) where
  type : UInt8
  S : P
  K : P
  C : P
  r_ : AEADEncryptedData
  v : UInt64 := 0
  serialContext : List UInt8

structure IdentifiedCoinData (q : ℕ) where
  i : UInt64
  d : List UInt8
  v : UInt64
  k : ZMod q
  memo : List UInt8

structure RecoveredCoinData (q : ℕ) (P : Type) where
  s : ZMod q
  T : P

def padMemo (memoBytes : ℕ) (memo : List UInt8) : List UInt8 :=
  UInt8.ofNat memo.length :: (memo ++ List.replicate (memoBytes - memo.length) 0)

def decodeMemoOrThrow (memoBytes : ℕ) (paddedMemo : List UInt8) : Except String (List UInt8) :=
  if paddedMemo.length ≠ memoBytes + 1 then .error "Unable to identify coin"
  else
    let memoLength := (paddedMemo.headD 0).toNat
    if memoBytes < memoLength then .error "Unable to identify coin"
    else .ok (paddedMemo.tail.take memoLength)

namespace Coin

variable [Fact q.Prime] [AddCommGroup P] [Module (ZMod q) P] (utils : SparkUtils (ZMod q) P)
variable (params : Params P)

def create (type : UInt8) (k : ZMod q) (address : Address P) (v : UInt64) (memo : List UInt8)
    (serialContext : List UInt8) : Except String (Coin P) :=
  if type ≠ COIN_TYPE_MINT ∧ type ≠ COIN_TYPE_SPEND then .error "Bad coin type"
  else
    let K := utils.hashK k • utils.hashDiv address.d
    let S := utils.hashSer k serialContext • params.F + address.Q2
    let C := (v.toNat : ZMod q) • params.G + utils.hashVal k • params.H
    if params.memoBytes < memo.length then .error "Memo is too large"
    else
      let paddedMemo := padMemo params.memoBytes memo
      let prekey := utils.hashK k • address.Q1
      if type = COIN_TYPE_MINT then
        let r : MintCoinRecipientData q := ⟨address.d, k, paddedMemo⟩
        .ok ⟨type, S, K, C, AEAD.encrypt utils prekey "Mint coin data" r.write, v, serialContext⟩
      else
        let r : SpendCoinRecipientData q := ⟨v, address.d, k, paddedMemo⟩
        .ok ⟨type, S, K, C, AEAD.encrypt utils prekey "Spend coin data" r.write, 0, serialContext⟩

variable (coin : Coin P) (key : IncomingViewKey (ZMod q) P)

def decryptRecipientData : Except String (IdentifiedCoinData q) :=
  let prekey := key.s1 • coin.K
  if coin.type = COIN_TYPE_MINT then
    match (AEAD.decryptAndVerify utils prekey "Mint coin data" coin.r_).toOption.bind
        MintCoinRecipientData.read with
    | none => .error "Unable to identify coin"
    | some (r, _) => do
      let memo ← decodeMemoOrThrow params.memoBytes r.paddedMemo
      .ok ⟨0, r.d, coin.v, r.k, memo⟩
  else
    match (AEAD.decryptAndVerify utils prekey "Spend coin data" coin.r_).toOption.bind
        SpendCoinRecipientData.read with
    | none => .error "Unable to identify coin"
    | some (r, _) => do
      let memo ← decodeMemoOrThrow params.memoBytes r.paddedMemo
      .ok ⟨0, r.d, r.v, r.k, memo⟩

variable [DecidableEq P]

def validate (data : IdentifiedCoinData q) : Except String (Bool × IdentifiedCoinData q) :=
  if utils.hashK data.k • utils.hashDiv data.d ≠ coin.K then .ok (false, data)
  else if (data.v.toNat : ZMod q) • params.G + utils.hashVal data.k • params.H ≠ coin.C then
    .ok (false, data)
  else do
    let i ← key.getDiversifier utils data.d
    .ok (decide ((utils.hashSer data.k coin.serialContext +
      utils.hashQ2 key.s1 (i.toNat : ZMod q)) •
      params.F + key.P2 = coin.S), { data with i })

def identify :
    Except String (IdentifiedCoinData q) := do
  let data ← coin.decryptRecipientData utils params key
  let (valid, data) ← coin.validate utils params key data
  if valid then .ok data else .error "Malformed coin"

omit [DecidableEq P] in
def recover (coin : Coin P) (key : FullViewKey (ZMod q) P) (data : IdentifiedCoinData q) :
    RecoveredCoinData q P :=
  let s := utils.hashSer data.k coin.serialContext + utils.hashQ2 key.s1 (data.i.toNat : ZMod q) +
    key.s2
  ⟨s, s⁻¹ • (params.U + -key.D)⟩

end Coin

end Firo.LibSpark
