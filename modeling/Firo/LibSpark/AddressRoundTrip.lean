import Firo.LibSpark.Bech32Bits
import Firo.LibSpark.Bech32RoundTrip

/-! An address is scrambled by the four Feistel rounds of `F4Grumble`, regrouped into values of five
bits and written as bech32m with a prefix of two characters. Decoding undoes all of it. In the other
direction two steps of the decoder forget something: prefixes may be longer than two characters, and
the padding of the last value is not checked. -/
namespace Firo.LibSpark

open Firo.Lib List Option Bech32

variable {GroupElement : Type}

namespace F4Grumble

variable {x y z : List UInt8}

lemma vecXor_eq_some_iff :
    vecXor x y = some z ↔ x.length = y.length ∧ x.zipWith (· ^^^ ·) y = z := by
  unfold vecXor
  split
  · rename_i h
    simp [h]
  · rename_i h
    simp [h]

lemma length_of_vecXor (h : vecXor x y = some z) : z.length = x.length := by
  obtain ⟨hlength, rfl⟩ := vecXor_eq_some_iff.mp h
  rw [length_zipWith, hlength, Nat.min_self]

lemma vecXor_cancel (h : vecXor x y = some z) : vecXor z y = some x := by
  have hz := length_of_vecXor h
  obtain ⟨hlength, rfl⟩ := vecXor_eq_some_iff.mp h
  refine vecXor_eq_some_iff.mpr ⟨hz.trans hlength, ext_getElem ?_ ?_⟩
  · rw [length_zipWith, hz, hlength, Nat.min_self]
  · intro i _ _
    rw [getElem_zipWith, getElem_zipWith, UInt8.xor_assoc, UInt8.xor_self, UInt8.xor_zero]

variable {env : AddressEnv GroupElement} {network : UInt8} {size : Nat} {input output : List UInt8}

lemma encode_eq_some_iff : encode env network size input = some output ↔
    ∃ x y d c, vecXor (input.drop (size / 2)) (G env network size 0 (input.take (size / 2))) =
        some x ∧
      vecXor (input.take (size / 2)) (H env network size 0 x) = some y ∧
      vecXor x (G env network size 1 y) = some d ∧ vecXor y (H env network size 1 d) = some c ∧
      c ++ d = output := by
  simp only [encode, bind_eq_bind, bind_eq_some_iff, Option.some.injEq]
  constructor
  · rintro ⟨x, hx, y, hy, d, hd, c, hc, heq⟩
    exact ⟨x, y, d, c, hx, hy, hd, hc, heq⟩
  · rintro ⟨x, y, d, c, hx, hy, hd, hc, heq⟩
    exact ⟨x, hx, y, hy, d, hd, c, hc, heq⟩

lemma decode_eq_some_iff : decode env network size input = some output ↔
    ∃ y x a b, vecXor (input.take (size / 2)) (H env network size 1 (input.drop (size / 2))) =
        some y ∧
      vecXor (input.drop (size / 2)) (G env network size 1 y) = some x ∧
      vecXor y (H env network size 0 x) = some a ∧ vecXor x (G env network size 0 a) = some b ∧
      a ++ b = output := by
  simp only [decode, bind_eq_bind, bind_eq_some_iff, Option.some.injEq]
  constructor
  · rintro ⟨y, hy, x, hx, a, ha, b, hb, heq⟩
    exact ⟨y, x, a, b, hy, hx, ha, hb, heq⟩
  · rintro ⟨y, x, a, b, hy, hx, ha, hb, heq⟩
    exact ⟨y, hy, x, hx, a, ha, b, hb, heq⟩

lemma take_drop_append {c d : List UInt8} {n : Nat} (h : c.length = n) :
    (c ++ d).take n = c ∧ (c ++ d).drop n = d := by
  subst h
  exact ⟨take_left, drop_left⟩

lemma decode_of_encode (hsize : size / 2 ≤ input.length)
    (h : encode env network size input = some output) :
    decode env network size output = some input := by
  obtain ⟨x, y, d, c, hx, hy, hd, hc, rfl⟩ := encode_eq_some_iff.mp h
  have hlength : c.length = size / 2 := by
    rw [length_of_vecXor hc, length_of_vecXor hy, length_take, Nat.min_eq_left hsize]
  obtain ⟨htake, hdrop⟩ := take_drop_append (d := d) hlength
  rw [decode_eq_some_iff, htake, hdrop]
  exact ⟨y, x, _, _, vecXor_cancel hc, vecXor_cancel hd, vecXor_cancel hy, vecXor_cancel hx,
    take_append_drop _ _⟩

lemma encode_of_decode (hsize : size / 2 ≤ input.length)
    (h : decode env network size input = some output) :
    encode env network size output = some input := by
  obtain ⟨y, x, a, b, hy, hx, ha, hb, rfl⟩ := decode_eq_some_iff.mp h
  have hlength : a.length = size / 2 := by
    rw [length_of_vecXor ha, length_of_vecXor hy, length_take, Nat.min_eq_left hsize]
  obtain ⟨htake, hdrop⟩ := take_drop_append (d := b) hlength
  rw [encode_eq_some_iff, htake, hdrop]
  exact ⟨x, y, _, _, vecXor_cancel hb, vecXor_cancel ha, vecXor_cancel hx, vecXor_cancel hy,
    take_append_drop _ _⟩

lemma length_of_encode (h : encode env network size input = some output) :
    output.length = input.length := by
  obtain ⟨x, y, d, c, hx, hy, hd, hc, rfl⟩ := encode_eq_some_iff.mp h
  rw [length_append, length_of_vecXor hc, length_of_vecXor hy, length_of_vecXor hd,
    length_of_vecXor hx, ← length_append, take_append_drop]

lemma length_of_decode (h : decode env network size input = some output) :
    output.length = input.length := by
  obtain ⟨y, x, a, b, hy, hx, ha, hb, rfl⟩ := decode_eq_some_iff.mp h
  rw [length_append, length_of_vecXor ha, length_of_vecXor hy, length_of_vecXor hb,
    length_of_vecXor hx, ← length_append, take_append_drop]

lemma exists_encode (hhash : ∀ message, (env.sha512 message).length = 64) (hsize : size ≤ 128)
    (hinput : input.length = size) : ∃ output, encode env network size input = some output := by
  have hG : ∀ i u, (G env network size i u).length = size - size / 2 := by
    intro i u
    rw [G, round, length_take, hhash]
    omega
  have hH : ∀ i u, (H env network size i u).length = size / 2 := by
    intro i u
    rw [H, round, length_take, hhash]
    omega
  have hexists : ∀ x y : List UInt8, x.length = y.length → ∃ z, vecXor x y = some z :=
    fun x y h => ⟨_, vecXor_eq_some_iff.mpr ⟨h, rfl⟩⟩
  obtain ⟨x, hx⟩ := hexists (input.drop (size / 2)) (G env network size 0 (input.take (size / 2)))
    (by rw [hG, length_drop, hinput])
  obtain ⟨y, hy⟩ := hexists (input.take (size / 2)) (H env network size 0 x)
    (by rw [hH, length_take]; omega)
  obtain ⟨d, hd⟩ := hexists x (G env network size 1 y)
    (by rw [hG, length_of_vecXor hx, length_drop, hinput])
  obtain ⟨c, hc⟩ := hexists y (H env network size 1 d)
    (by rw [hH, length_of_vecXor hy, length_take]; omega)
  exact ⟨c ++ d, encode_eq_some_iff.mpr ⟨x, y, d, c, hx, hy, hd, hc, rfl⟩⟩

end F4Grumble

namespace Address

variable {env : AddressEnv GroupElement} {network n : Char} {scrambled : List UInt8}
  {address : Address GroupElement} {str : List Char}

def raw (env : AddressEnv GroupElement) (address : Address GroupElement) : List UInt8 :=
  address.d ++ env.serialize address.Q1 ++ env.serialize address.Q2

def decodeScrambled (env : AddressEnv GroupElement) (network : Char) (scrambled : List UInt8) :
    Option (Char × Address GroupElement) := do
  if scrambled.length ≠ 2 * SERIALIZE_SIZE + AES_BLOCKSIZE then none
  else
    let raw ← F4Grumble.decode env (UInt8.ofNat network.toNat) scrambled.length scrambled
    let Q1 ← env.deserialize ((raw.drop AES_BLOCKSIZE).take SERIALIZE_SIZE)
    let Q2 ← env.deserialize (raw.drop (AES_BLOCKSIZE + SERIALIZE_SIZE))
    some (network, ⟨raw.take AES_BLOCKSIZE, Q1, Q2⟩)

lemma decode_eq_some_iff {p} : decode env str = some p ↔
    ∃ network rest data,
      Bech32.decode str = ⟨.BECH32M, ADDRESS_ENCODING_PREFIX :: network :: rest, data⟩ ∧
      decodeScrambled env network (convertbits data 5 8 false).1 = some p := by
  unfold decode
  generalize Bech32.decode str = decoded
  obtain ⟨encoding, hrp, data⟩ := decoded
  dsimp only
  constructor
  · intro h
    split at h
    · cases h
    rename_i hencoding
    split at h
    · rename_i first network rest
      split at h
      · cases h
      · rename_i hfirst
        simp only [not_not] at hencoding hfirst
        subst hencoding hfirst
        exact ⟨network, rest, data, rfl, h⟩
    · cases h
  · rintro ⟨network, rest, data', heq, h⟩
    cases heq
    rw [if_neg (not_not.mpr rfl)]
    dsimp only
    rw [if_neg (not_not.mpr rfl)]
    exact h

lemma decodeScrambled_eq_some_iff : decodeScrambled env network scrambled = some (n, address) ↔
    network = n ∧ scrambled.length = 2 * SERIALIZE_SIZE + AES_BLOCKSIZE ∧
      ∃ raw, F4Grumble.decode env (UInt8.ofNat network.toNat) scrambled.length scrambled =
          some raw ∧
        raw.take AES_BLOCKSIZE = address.d ∧
        env.deserialize ((raw.drop AES_BLOCKSIZE).take SERIALIZE_SIZE) = some address.Q1 ∧
        env.deserialize (raw.drop (AES_BLOCKSIZE + SERIALIZE_SIZE)) = some address.Q2 := by
  unfold decodeScrambled
  obtain ⟨d, Q1, Q2⟩ := address
  split
  · rename_i hlength
    simp [hlength]
  · rename_i hlength
    simp only [not_not] at hlength
    simp only [bind_eq_bind, bind_eq_some_iff, Option.some.injEq, Prod.mk.injEq, Address.mk.injEq]
    constructor
    · rintro ⟨raw, hraw, Q1', hQ1, Q2', hQ2, rfl, rfl, rfl, rfl⟩
      exact ⟨rfl, hlength, raw, hraw, rfl, hQ1, hQ2⟩
    · rintro ⟨rfl, -, raw, hraw, rfl, hQ1, hQ2⟩
      exact ⟨raw, hraw, Q1, hQ1, Q2, hQ2, rfl, rfl, rfl, rfl⟩

lemma decodeScrambled_of_encode (hd : address.d.length = AES_BLOCKSIZE)
    (hlength : ∀ g, (env.serialize g).length = SERIALIZE_SIZE)
    (hQ1 : env.deserialize (env.serialize address.Q1) = some address.Q1)
    (hQ2 : env.deserialize (env.serialize address.Q2) = some address.Q2)
    (h : F4Grumble.encode env (UInt8.ofNat network.toNat) (raw env address).length
      (raw env address) = some scrambled) :
    decodeScrambled env network scrambled = some (network, address) := by
  have hsize := F4Grumble.length_of_encode h
  have hraw : (raw env address).length = 2 * SERIALIZE_SIZE + AES_BLOCKSIZE := by
    rw [raw, length_append, length_append, hd, hlength, hlength]
    rfl
  have hsplit := F4Grumble.take_drop_append (d := env.serialize address.Q1 ++
    env.serialize address.Q2) hd
  rw [← append_assoc] at hsplit
  obtain ⟨htake, hdrop⟩ := hsplit
  obtain ⟨htakeQ, hdropQ⟩ := F4Grumble.take_drop_append
    (d := env.serialize address.Q2) (hlength address.Q1)
  rw [decodeScrambled_eq_some_iff]
  refine ⟨rfl, hsize.trans hraw, raw env address, ?_, htake, ?_, ?_⟩
  · rw [hsize]
    exact F4Grumble.decode_of_encode (Nat.div_le_self _ _) h
  · rw [raw, hdrop, htakeQ, hQ1]
  · rw [← drop_drop, raw, hdrop, hdropQ, hQ2]

structure CanonicalPoints (env : AddressEnv GroupElement) (address : Address GroupElement) :
    Prop where
  Q1 : ∀ bytes, bytes.length = SERIALIZE_SIZE → env.deserialize bytes = some address.Q1 →
    env.serialize address.Q1 = bytes
  Q2 : ∀ bytes, bytes.length = SERIALIZE_SIZE → env.deserialize bytes = some address.Q2 →
    env.serialize address.Q2 = bytes

lemma encode_of_decodeScrambled (hpoints : CanonicalPoints env address)
    (h : decodeScrambled env network scrambled = some (n, address)) :
    network = n ∧ scrambled.length = 2 * SERIALIZE_SIZE + AES_BLOCKSIZE ∧
      encode env n address = some (Bech32.encode [ADDRESS_ENCODING_PREFIX, n]
        (convertbits scrambled 8 5 true).1 .BECH32M) := by
  obtain ⟨rfl, hlength, bytes, hbytes, hd, hQ1, hQ2⟩ := decodeScrambled_eq_some_iff.mp h
  have hsize := F4Grumble.length_of_decode hbytes
  have hraw : raw env address = bytes := by
    have hfirst := hpoints.Q1 _ (by
      rw [length_take, length_drop, hsize, hlength]
      decide) hQ1
    have hsecond := hpoints.Q2 _ (by
      rw [length_drop, hsize, hlength]
      decide) hQ2
    rw [raw, ← hd, hfirst, hsecond, append_assoc, ← drop_drop, take_append_drop, take_append_drop]
  have hscramble := F4Grumble.encode_of_decode (Nat.div_le_self _ _) hbytes
  refine ⟨rfl, hlength, ?_⟩
  rw [← hraw, ← hsize, ← hraw] at hscramble
  change (F4Grumble.encode env (UInt8.ofNat network.toNat) (raw env address).length
    (raw env address)).bind _ = _
  rw [hscramble]
  rfl

def ADDRESS_NETWORK_MAINNET : Char := 'm'
def ADDRESS_NETWORK_TESTNET : Char := 't'
def ADDRESS_NETWORK_REGTEST : Char := 'r'
def ADDRESS_NETWORK_DEVNET : Char := 'd'

inductive ChainType where
  | chainMain
  | chainTestnet
  | chainDevnet
  | chainRegtest
deriving DecidableEq, Repr

def getNetworkType : ChainType → Char
  | .chainMain => ADDRESS_NETWORK_MAINNET
  | .chainTestnet => ADDRESS_NETWORK_TESTNET
  | .chainDevnet => ADDRESS_NETWORK_DEVNET
  | .chainRegtest => ADDRESS_NETWORK_REGTEST

lemma exists_encode_decode (hhash : ∀ message, (env.sha512 message).length = 64)
    (hlength : ∀ g, (env.serialize g).length = SERIALIZE_SIZE)
    (hpoint : ∀ g, env.deserialize (env.serialize g) = some g)
    (hnetwork : LowerPrintable [ADDRESS_ENCODING_PREFIX, network])
    (hd : address.d.length = AES_BLOCKSIZE) : ∃ str, encode env network address = some str ∧
      decode env str = some (network, address) := by
  have hraw : (raw env address).length = 84 := by
    rw [raw, length_append, length_append, hd, hlength, hlength]
    rfl
  obtain ⟨scrambled, hscrambled⟩ : ∃ scrambled, F4Grumble.encode env
      (UInt8.ofNat network.toNat) (raw env address).length (raw env address) = some scrambled :=
    F4Grumble.exists_encode hhash (by omega) rfl
  refine ⟨Bech32.encode [ADDRESS_ENCODING_PREFIX, network]
    (convertbits scrambled 8 5 true).1 .BECH32M, ?_, ?_⟩
  · change (F4Grumble.encode env (UInt8.ofNat network.toNat) (raw env address).length
      (raw env address)).bind _ = _
    rw [hscrambled]
    rfl
  · obtain ⟨hfits, -⟩ := convertbits_pad (show 0 < 5 by decide) (by decide)
      (fitsBits_eight scrambled)
    rw [decode_eq_some_iff]
    refine ⟨network, [], _, decode_encode (by decide) (cons_ne_nil _ _) hnetwork hfits, ?_⟩
    rw [convertbits_of_convertbits_pad]
    exact decodeScrambled_of_encode hd hlength (hpoint _) (hpoint _) hscrambled

/-- The round trip of addresses on the networks of the program, and that of bech32m strings
with a prefix that is not empty. -/
theorem address_and_bech32_round_trip (env : AddressEnv GroupElement)
    (hhash : ∀ message, (env.sha512 message).length = 64)
    (hlength : ∀ g, (env.serialize g).length = SERIALIZE_SIZE)
    (hpoint : ∀ g, env.deserialize (env.serialize g) = some g) :
    (∀ (chain : ChainType) (address : Address GroupElement), address.d.length = AES_BLOCKSIZE →
      ∃ str, encode env (getNetworkType chain) address = some str ∧
        decode env str = some (getNetworkType chain, address)) ∧
    ∀ (hrp : List Char) (values : List UInt8), hrp ≠ [] → Bech32.LowerPrintable hrp →
      FitsBits 5 values →
      Bech32.decode (Bech32.encode hrp values .BECH32M) = ⟨.BECH32M, hrp, values⟩ := by
  constructor
  · intro chain address hd
    exact exists_encode_decode hhash hlength hpoint (by cases chain <;> decide) hd
  · intro hrp values hne hhrp hvalues
    exact decode_encode (by decide) hne hhrp hvalues

/-- A string with an empty prefix is encoded, and refused by the decoder. -/
theorem decode_empty_hrp : Bech32.LowerPrintable [] ∧ FitsBits 5 [] ∧
    Bech32.decode (Bech32.encode [] [] .BECH32M) = {} ∧
    Bech32.decode (Bech32.encode [] [] .BECH32M) ≠ ⟨.BECH32M, [], []⟩ := by
  have hfits : FitsBits 5 [] := fun v hv => absurd hv not_mem_nil
  have hempty := decode_encode_nil .BECH32M hfits
  refine ⟨by decide, hfits, hempty, ?_⟩
  rw [hempty]
  decide

/-- The prefix has no more than the two characters that the encoder writes, and the bits
that fill the last value are zero. -/
def Tight (str : List Char) : Prop :=
  (Bech32.decode str).hrp.length = 2 ∧
    (Bech32.convertbits (Bech32.decode str).data 5 8 false).2 = true

instance (str : List Char) : Decidable (Tight str) :=
  inferInstanceAs (Decidable (_ ∧ _))

lemma toChar_map_inj {values values'} (h : FitsBits 5 values) (h' : FitsBits 5 values')
    (heq : values.map toChar = values'.map toChar) : values = values' := by
  have hread := mapM_charsetRev_toChar h
  rw [heq, mapM_charsetRev_toChar h'] at hread
  exact (Option.some.inj hread).symm

lemma encode_eq_iff_tight (hpoints : CanonicalPoints env address)
    (h : decode env str = some (n, address)) :
    encode env n address = some (str.map lc) ↔ Tight str := by
  obtain ⟨network, rest, data, hdecode, hscrambled⟩ := decode_eq_some_iff.mp h
  obtain ⟨rfl, hsize, hencode⟩ := encode_of_decodeScrambled hpoints hscrambled
  obtain ⟨hfits, hstr⟩ := Bech32.encode_of_decode (by decide) hdecode
  rw [hencode, hstr, Tight, hdecode, Option.some.injEq]
  constructor
  · intro heq
    -- Both data parts have 135 values, so the prefixes are equal as well.
    obtain ⟨hfits', p, hp, hlength', -⟩ := convertbits_pad (show 0 < 5 by decide)
      (by decide) (fitsBits_eight (convertbits data 5 8 false).1)
    obtain ⟨-, r, hr, hlength, -⟩ := convertbits_no_pad (show 0 < 8 by decide) le_rfl hfits
    rw [hsize] at hlength hlength'
    have hcount : (convertbits (convertbits data 5 8 false).1 8 5 true).1.length =
        data.length := by
      change (2 * 34 + 16) * 8 + r = _ at hlength
      change _ = (2 * 34 + 16) * 8 + p at hlength'
      omega
    rw [encode_eq, encode_eq] at heq
    obtain ⟨hhrp, hright⟩ := append_inj' heq (by
      rw [length_cons, length_cons, length_map, length_map,
        length_append, length_append, length_createChecksum,
        length_createChecksum, hcount])
    have hvalues := toChar_map_inj (fitsBits_append_checksum _ _ hfits')
      (fitsBits_append_checksum _ _ hfits) (List.cons.inj hright).2
    have hdata := (append_inj hvalues hcount).1
    refine ⟨by rw [← hhrp]; rfl, ?_⟩
    rw [← hdata, convertbits_of_convertbits_pad]
  · rintro ⟨hhrp, hverdict⟩
    obtain rfl : rest = [] := by simpa using hhrp
    rw [convertbits_of_convertbits_no_pad hfits hverdict]

/-- The hash is constant and the points are bytes with a canonical encoding. -/
def byteAddresses : AddressEnv UInt8 where
  sha512 _ := List.replicate 64 0
  serialize g := g :: List.replicate 33 0
  deserialize bytes := bytes.head?.filter fun g => bytes = g :: List.replicate 33 0

theorem address_and_bech32_round_trip_bytes : (∀ (chain : ChainType) (address : Address UInt8),
      address.d.length = AES_BLOCKSIZE →
      ∃ str, encode byteAddresses (getNetworkType chain) address = some str ∧
        decode byteAddresses str = some (getNetworkType chain, address)) ∧
    ∀ (hrp : List Char) (values : List UInt8), hrp ≠ [] → Bech32.LowerPrintable hrp →
      FitsBits 5 values →
      Bech32.decode (Bech32.encode hrp values .BECH32M) = ⟨.BECH32M, hrp, values⟩ :=
  address_and_bech32_round_trip byteAddresses (fun _ => rfl) (fun _ => rfl)
    (fun g => by simp [byteAddresses])

lemma canonicalPoints_byteAddresses (address) : CanonicalPoints byteAddresses address := by
  have hpoint : ∀ g bytes, byteAddresses.deserialize bytes = some g →
      byteAddresses.serialize g = bytes := by
    intro g bytes h
    exact (of_decide_eq_true (filter_eq_some_iff.mp h).2).symm
  exact ⟨fun bytes _ h => hpoint _ bytes h, fun bytes _ h => hpoint _ bytes h⟩

/-- The strings with a tight prefix and padding are the canonical ones: an accepted string is
tight if and only if encoding its address gives its lower-case spelling, so tight strings of
one address and network differ in case only. -/
theorem encode_of_decode_iff_tight (env : AddressEnv GroupElement)
    (address : Address GroupElement) (hpoints : CanonicalPoints env address) (str : List Char)
    (n : Char) (h : decode env str = some (n, address)) :
    (encode env n address = some (str.map Bech32.lc) ↔ Tight str) ∧
      ∀ str', decode env str' = some (n, address) → Tight str → Tight str' →
        str.map Bech32.lc = str'.map Bech32.lc := by
  refine ⟨encode_eq_iff_tight hpoints h, ?_⟩
  intro str' h' htight htight'
  have hencode := (encode_eq_iff_tight hpoints h).mpr htight
  have hencode' := (encode_eq_iff_tight hpoints h').mpr htight'
  exact Option.some.inj (hencode.symm.trans hencode')

/-- Each value of the data part of `zeroString` is zero, up to `last`. -/
def zeroString (hrp : List Char) (last : UInt8) : List Char :=
  Bech32.encode hrp (List.replicate 134 0 ++ [last]) .BECH32M

def zeroAddress : Address UInt8 := ⟨List.replicate 16 0, 0, 0⟩

lemma convertbits_zeros {last : UInt8} (hlast : last.toNat < 2 ^ 3) :
    convertbits (replicate 134 0 ++ [last]) 5 8 false =
      (replicate 84 0, decide (last = 0)) := by
  have htable : ∀ k : Fin 8, convertbits (replicate 134 0 ++ [UInt8.ofNat k.val]) 5 8 false =
        (replicate 84 0, decide (UInt8.ofNat k.val = 0)) := by
    decide +kernel
  have hentry := htable ⟨last.toNat, hlast⟩
  rwa [UInt8.ofNat_toNat] at hentry

lemma decode_zeroString {rest} {last : UInt8}
    (hrest : LowerPrintable rest) (hlast : last.toNat < 2 ^ 3) :
    decode byteAddresses (zeroString ('s' :: 'm' :: rest) last) = some ('m', zeroAddress) ∧
      (Tight (zeroString ('s' :: 'm' :: rest) last) ↔ rest = [] ∧ last = 0) := by
  have hfits : FitsBits 5 (replicate 134 0 ++ [last]) := by
    refine FitsBits.concat (fun v hv => ?_) (by omega)
    rw [eq_of_mem_replicate hv]
    decide
  have hhrp : LowerPrintable ('s' :: 'm' :: rest) :=
    forall_mem_cons.mpr ⟨by decide, forall_mem_cons.mpr ⟨by decide, hrest⟩⟩
  have hdecode := decode_encode (show Encoding.BECH32M ≠ .INVALID by decide)
    (cons_ne_nil _ _) hhrp hfits
  have hscrambled : decodeScrambled byteAddresses 'm' (replicate 84 0) =
      some ('m', zeroAddress) := by
    decide +kernel
  constructor
  · rw [decode_eq_some_iff]
    refine ⟨'m', rest, _, hdecode, ?_⟩
    rwa [convertbits_zeros hlast]
  · rw [Tight, zeroString, hdecode, convertbits_zeros hlast]
    simp

/-- The defect: one string with a nonzero padding bit and one with a third character in the
prefix are accepted, and neither is what the encoder writes for the address. -/
theorem address_has_three_strings : CanonicalPoints byteAddresses zeroAddress ∧
      decode byteAddresses (zeroString ['s', 'm'] 0) = some ('m', zeroAddress) ∧
      decode byteAddresses (zeroString ['s', 'm'] 1) = some ('m', zeroAddress) ∧
      decode byteAddresses (zeroString ['s', 'm', 'x'] 0) = some ('m', zeroAddress) ∧
      encode byteAddresses 'm' zeroAddress = some ((zeroString ['s', 'm'] 0).map Bech32.lc) ∧
      encode byteAddresses 'm' zeroAddress ≠ some ((zeroString ['s', 'm'] 1).map Bech32.lc) ∧
      encode byteAddresses 'm' zeroAddress ≠
        some ((zeroString ['s', 'm', 'x'] 0).map Bech32.lc) := by
  have hpoints := canonicalPoints_byteAddresses zeroAddress
  obtain ⟨htight, htightIff⟩ := decode_zeroString (show LowerPrintable [] by decide)
    (show (0 : UInt8).toNat < 2 ^ 3 by decide)
  obtain ⟨hpadded, hpaddedIff⟩ := decode_zeroString (show LowerPrintable [] by decide)
    (show (1 : UInt8).toNat < 2 ^ 3 by decide)
  obtain ⟨hlonger, hlongerIff⟩ := decode_zeroString (show LowerPrintable ['x'] by decide)
    (show (0 : UInt8).toNat < 2 ^ 3 by decide)
  refine ⟨hpoints, htight, hpadded, hlonger, ?_, ?_, ?_⟩
  · rw [encode_eq_iff_tight hpoints htight, htightIff]
    decide
  · rw [ne_eq, encode_eq_iff_tight hpoints hpadded, hpaddedIff]
    decide
  · rw [ne_eq, encode_eq_iff_tight hpoints hlonger, hlongerIff]
    decide

theorem encode_of_decode_iff_tight_zero :
    (encode byteAddresses 'm' zeroAddress = some ((zeroString ['s', 'm'] 0).map Bech32.lc) ↔
        Tight (zeroString ['s', 'm'] 0)) ∧
      ∀ str', decode byteAddresses str' = some ('m', zeroAddress) →
        Tight (zeroString ['s', 'm'] 0) → Tight str' →
        (zeroString ['s', 'm'] 0).map Bech32.lc = str'.map Bech32.lc :=
  encode_of_decode_iff_tight byteAddresses zeroAddress (canonicalPoints_byteAddresses _)
    (zeroString ['s', 'm'] 0) 'm'
    (decode_zeroString (show LowerPrintable [] by decide) (by decide)).1

end Address

end Firo.LibSpark
