import Mathlib

/-! `bech32.cpp`, `f4grumble.cpp` and the encoding of `Address` in `keys.cpp`. A `std::string` is
its list of characters; the decoder refuses every byte outside the printable ASCII range, so
multi-byte characters play no role. SHA-512 and the encoding of group elements are functions of
`AddressEnv`. -/
namespace Firo.LibSpark

namespace Bech32

inductive Encoding where
  | INVALID
  | BECH32
  | BECH32M
deriving DecidableEq, Repr

def CHARSET : List Char := "qpzry9x8gf2tvdw0s3jn54khce6mua7l".toList

def CHARSET_REV : List Int := [-1, -1, -1, -1, -1, -1, -1, -1, -1, -1, -1, -1, -1, -1, -1, -1,
  -1, -1, -1, -1, -1, -1, -1, -1, -1, -1, -1, -1, -1, -1, -1, -1,
  -1, -1, -1, -1, -1, -1, -1, -1, -1, -1, -1, -1, -1, -1, -1, -1,
  15, -1, 10, 17, 21, 20, 26, 30,  7,  5, -1, -1, -1, -1, -1, -1,
  -1, 29, -1, 24, 13, 25,  9,  8, 23, -1, 18, 22, 31, 27, 19, -1,
   1,  0,  3, 16, 11, 28, 12, 14,  6,  4,  2, -1, -1, -1, -1, -1,
  -1, 29, -1, 24, 13, 25,  9,  8, 23, -1, 18, 22, 31, 27, 19, -1,
   1,  0,  3, 16, 11, 28, 12, 14,  6,  4,  2, -1, -1, -1, -1, -1]

def encodingConstant : Encoding → UInt32
  | .BECH32 => 1
  | _ => 0x2bc830a3

def polymodStep (c : UInt32) (v : UInt8) : UInt32 :=
  let c0 := c >>> 25
  let c := ((c &&& 0x1ffffff) <<< 5) ^^^ v.toUInt32
  let c := if c0 &&& 1 != 0 then c ^^^ 0x3b6a57b2 else c
  let c := if c0 &&& 2 != 0 then c ^^^ 0x26508e6d else c
  let c := if c0 &&& 4 != 0 then c ^^^ 0x1ea119fa else c
  let c := if c0 &&& 8 != 0 then c ^^^ 0x3d4233dd else c
  if c0 &&& 16 != 0 then c ^^^ 0x2a1462b3 else c

def polymod (values : List UInt8) : UInt32 := values.foldl polymodStep 1

def isLower (c : Char) : Bool := 'a' ≤ c && c ≤ 'z'
def isUpper (c : Char) : Bool := 'A' ≤ c && c ≤ 'Z'

def lc (c : Char) : Char := if isUpper c then Char.ofNat (c.toNat + 32) else c

def expandHrp (hrp : List Char) : List UInt8 :=
  hrp.map (fun c => UInt8.ofNat (c.toNat >>> 5)) ++
    0 :: hrp.map (fun c => UInt8.ofNat (c.toNat &&& 0x1f))

variable (hrp : List Char) (values : List UInt8)

def verifyChecksum : Encoding :=
  let check := polymod (expandHrp hrp ++ values)
  if check = encodingConstant .BECH32 then .BECH32
  else if check = encodingConstant .BECH32M then .BECH32M
  else .INVALID

def createChecksum (encoding : Encoding) : List UInt8 :=
  let mod := polymod (expandHrp hrp ++ values ++ List.replicate 6 0) ^^^ encodingConstant encoding
  (List.range 6).map fun i => ((mod >>> UInt32.ofNat (5 * (5 - i))) &&& 31).toUInt8

def encode (encoding : Encoding) : List Char :=
  hrp ++ '1' :: (values ++ createChecksum hrp values encoding).map fun v =>
    CHARSET.getD v.toNat 'q'

structure DecodeResult where
  encoding : Encoding := .INVALID
  hrp : List Char := []
  data : List UInt8 := []
deriving DecidableEq, Repr

def charsetRev (c : Char) : Option UInt8 :=
  match CHARSET_REV.getD c.toNat (-1) with
  | .ofNat v => some (UInt8.ofNat v)
  | .negSucc _ => none

def isPrintable (str : List Char) : Bool :=
  str.all (fun c => isLower c || isUpper c || (33 ≤ c.toNat && c.toNat ≤ 126)) &&
    !(str.any isLower && str.any isUpper)

def decode (str : List Char) : DecodeResult :=
  if !isPrintable str then {}
  else
    match str.reverse.idxOf? '1' with
    | none => {}
    | some i =>
      let pos := str.length - 1 - i
      if pos = 0 ∨ str.length < pos + 7 then {}
      else
        match (str.drop (pos + 1)).mapM charsetRev with
        | none => {}
        | some values =>
          let hrp := (str.take pos).map lc
          match verifyChecksum hrp values with
          | .INVALID => {}
          | encoding => ⟨encoding, hrp, values.take (values.length - 6)⟩

/-- The inner loop of `convertbits`; `fuel` bounds its rounds. -/
def pushBits (tobits acc : Nat) : Nat → Nat → List UInt8 → Nat × List UInt8
  | 0, bits, out => (bits, out)
  | fuel + 1, bits, out =>
    if tobits ≤ bits then
      pushBits tobits acc fuel (bits - tobits)
        (out ++ [UInt8.ofNat ((acc >>> (bits - tobits)) &&& (2 ^ tobits - 1))])
    else (bits, out)

/-- `convertbits`: the output, and whether the input had no stray bits. -/
def convertbits (input : List UInt8) (frombits tobits : Nat) (pad : Bool) : List UInt8 × Bool :=
  let maxv := 2 ^ tobits - 1
  let maxAcc := 2 ^ (frombits + tobits - 1) - 1
  let (acc, bits, out) := input.foldl (fun (acc, bits, out) value =>
      let acc := ((acc <<< frombits) ||| value.toNat) &&& maxAcc
      let (bits, out) := pushBits tobits acc (bits + frombits) (bits + frombits) out
      (acc, bits, out))
    (0, 0, [])
  if pad then
    (if bits ≠ 0 then out ++ [UInt8.ofNat ((acc <<< (tobits - bits)) &&& maxv)] else out, true)
  else (out, !(decide (frombits ≤ bits) || ((acc <<< (tobits - bits)) &&& maxv) != 0))

end Bech32

structure AddressEnv (GroupElement : Type) where
  sha512 : List UInt8 → List UInt8
  serialize : GroupElement → List UInt8
  deserialize : List UInt8 → Option GroupElement

def SERIALIZE_SIZE : Nat := 34
def AES_BLOCKSIZE : Nat := 16

variable {GroupElement : Type}

namespace F4Grumble

def bytes (label : String) : List UInt8 := label.toList.map fun c => UInt8.ofNat c.toNat

def vecXor (x y : List UInt8) : Option (List UInt8) :=
  if x.length = y.length then some (x.zipWith (· ^^^ ·) y) else none

variable (env : AddressEnv GroupElement) (network : UInt8) (size : Nat)

def round (label : String) (length : Nat) (i : UInt8) (u : List UInt8) : List UInt8 :=
  (env.sha512 (bytes label ++ network :: i :: u)).take length

def G : UInt8 → List UInt8 → List UInt8 :=
  round env network "SPARK_F4GRUMBLE_G" (size - size / 2)

def H : UInt8 → List UInt8 → List UInt8 :=
  round env network "SPARK_F4GRUMBLE_H" (size / 2)

def encode (input : List UInt8) : Option (List UInt8) := do
  let a := input.take (size / 2)
  let b := input.drop (size / 2)
  let x ← vecXor b (G env network size 0 a)
  let y ← vecXor a (H env network size 0 x)
  let d ← vecXor x (G env network size 1 y)
  let c ← vecXor y (H env network size 1 d)
  some (c ++ d)

def decode (input : List UInt8) : Option (List UInt8) := do
  let c := input.take (size / 2)
  let d := input.drop (size / 2)
  let y ← vecXor c (H env network size 1 d)
  let x ← vecXor d (G env network size 1 y)
  let a ← vecXor y (H env network size 0 x)
  let b ← vecXor x (G env network size 0 a)
  some (a ++ b)

end F4Grumble

def ADDRESS_ENCODING_PREFIX : Char := 's'

structure Address (GroupElement : Type) where
  d : List UInt8
  Q1 : GroupElement
  Q2 : GroupElement
deriving DecidableEq, Repr

namespace Address

variable (env : AddressEnv GroupElement)

def encode (network : Char) (address : Address GroupElement) : Option (List Char) := do
  let raw := address.d ++ env.serialize address.Q1 ++ env.serialize address.Q2
  let scrambled ← F4Grumble.encode env (UInt8.ofNat network.toNat) raw.length raw
  some (Bech32.encode [ADDRESS_ENCODING_PREFIX, network]
    (Bech32.convertbits scrambled 8 5 true).1 .BECH32M)

/-- `decode`: the network identifier and the address, if the string is one. The verdict
of `convertbits` is not looked at. -/
def decode (str : List Char) : Option (Char × Address GroupElement) := do
  let decoded := Bech32.decode str
  if decoded.encoding ≠ .BECH32M then none
  else
    match decoded.hrp with
    | first :: network :: _ =>
      if first ≠ ADDRESS_ENCODING_PREFIX then none
      else
        let scrambled := (Bech32.convertbits decoded.data 5 8 false).1
        if scrambled.length ≠ 2 * SERIALIZE_SIZE + AES_BLOCKSIZE then none
        else
          let raw ← F4Grumble.decode env (UInt8.ofNat network.toNat) scrambled.length scrambled
          let Q1 ← env.deserialize ((raw.drop AES_BLOCKSIZE).take SERIALIZE_SIZE)
          let Q2 ← env.deserialize (raw.drop (AES_BLOCKSIZE + SERIALIZE_SIZE))
          some (network, ⟨raw.take AES_BLOCKSIZE, Q1, Q2⟩)
    | _ => none

end Address

end Firo.LibSpark
