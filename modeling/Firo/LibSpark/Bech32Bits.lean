import Firo.Lib.BitGroups
import Firo.LibSpark.Address

/-! What `convertbits` computes: the input, read as one number, is cut into groups of `tobits` bits
from its most significant end. With padding the number is shifted to fill the last group; without
it, the bits of an incomplete last group are dropped and the verdict says whether fewer than
`frombits` zero bits were dropped. -/
namespace Firo.LibSpark.Bech32

open Firo.Lib

variable {frombits tobits : Nat}

lemma toNat_and_mask {n k : Nat} (hk : k ≤ 8) :
    (UInt8.ofNat (n &&& (2 ^ k - 1))).toNat = n % 2 ^ k := by
  have hlt : n % 2 ^ k < 2 ^ 8 :=
    (Nat.mod_lt _ (Nat.two_pow_pos k)).trans_le (Nat.pow_le_pow_right (by norm_num) hk)
  rw [Nat.and_two_pow_sub_one_eq_mod, UInt8.toNat_ofNat', Nat.mod_eq_of_lt hlt]

/-- The state of the loops after `total` bits that spell `number`: the groups written, and
`bits` pending bits, the lowest of `acc`. -/
structure Spread (tobits acc total number bits : Nat) (out : List UInt8) : Prop where
  fits : FitsBits tobits out
  total_eq : out.length * tobits + bits = total
  number_eq : ofBitGroups tobits out * 2 ^ bits + acc % 2 ^ bits = number

lemma Spread.push {acc total number bits : Nat} {out} (hto : tobits ≤ 8)
    (h : Spread tobits acc total number bits out) (hbits : tobits ≤ bits) :
    Spread tobits acc total number (bits - tobits)
      (out ++ [UInt8.ofNat ((acc >>> (bits - tobits)) &&& (2 ^ tobits - 1))]) := by
  obtain ⟨rest, rfl⟩ := Nat.exists_eq_add_of_le hbits
  rw [Nat.add_sub_cancel_left, Nat.shiftRight_eq_div_pow]
  have hdigit := toNat_and_mask (n := acc / 2 ^ rest) hto
  refine ⟨h.fits.concat ?_, ?_, ?_⟩
  · rw [hdigit]
    exact Nat.mod_lt _ (Nat.two_pow_pos tobits)
  · have htotal := h.total_eq
    rw [List.length_append, List.length_singleton, Nat.add_mul, Nat.one_mul]
    omega
  · have hsplit : acc % 2 ^ (tobits + rest) =
        acc % 2 ^ rest + 2 ^ rest * (acc / 2 ^ rest % 2 ^ tobits) := by
      rw [Nat.add_comm, Nat.pow_add, Nat.mod_mul]
    rw [← h.number_eq, hsplit, ofBitGroups_concat, hdigit, Nat.pow_add]
    ring

lemma Spread.pushBits {acc total number : Nat} (hpos : 0 < tobits) (hto : tobits ≤ 8)
    (fuel bits : Nat) (out) (hfuel : bits ≤ fuel)
    (h : Spread tobits acc total number bits out) : (pushBits tobits acc fuel bits out).1 < tobits ∧
      Spread tobits acc total number (pushBits tobits acc fuel bits out).1
        (pushBits tobits acc fuel bits out).2 := by
  induction fuel generalizing bits out with
  | zero =>
    obtain rfl := Nat.le_zero.mp hfuel
    exact ⟨hpos, h⟩
  | succ fuel ih =>
    rw [Bech32.pushBits]
    split
    · rename_i hbits
      exact ih _ _ (by omega) (h.push hto hbits)
    · exact ⟨by omega, h⟩

def convertStep (frombits tobits : Nat) (state : Nat × Nat × List UInt8) (value : UInt8) :
    Nat × Nat × List UInt8 :=
  let acc := ((state.1 <<< frombits) ||| value.toNat) &&& (2 ^ (frombits + tobits - 1) - 1)
  (acc, pushBits tobits acc (state.2.1 + frombits) (state.2.1 + frombits) state.2.2)

/-- The state after the outer loop of `convertbits`: the accumulator, the number of pending
bits and the groups written. -/
def convertLoop (frombits tobits : Nat) (input : List UInt8) : Nat × Nat × List UInt8 :=
  input.foldl (convertStep frombits tobits) (0, 0, [])

lemma convertbits_eq (input) (pad : Bool) : convertbits input frombits tobits pad =
      (fun (acc, bits, out) =>
        if pad then
          (if bits ≠ 0 then
            out ++ [UInt8.ofNat ((acc <<< (tobits - bits)) &&& (2 ^ tobits - 1))] else out, true)
        else (out, !(decide (frombits ≤ bits) ||
          ((acc <<< (tobits - bits)) &&& (2 ^ tobits - 1)) != 0)))
      (convertLoop frombits tobits input) := rfl

lemma accumulate_mod {acc bits value : Nat} (hbits : bits < tobits)
    (hvalue : value < 2 ^ frombits) :
    (((acc <<< frombits) ||| value) &&& (2 ^ (frombits + tobits - 1) - 1)) %
        2 ^ (bits + frombits) = acc % 2 ^ bits * 2 ^ frombits + value := by
  have hkept : 2 ^ (bits + frombits) ∣ 2 ^ (frombits + tobits - 1) := Nat.pow_dvd_pow 2 (by omega)
  rw [Nat.and_two_pow_sub_one_eq_mod, Nat.mod_mod_of_dvd _ hkept,
    ← Nat.shiftLeft_add_eq_or_of_lt hvalue, Nat.shiftLeft_eq, Nat.add_comm bits, Nat.pow_add,
    Nat.mod_mul, Nat.mul_comm acc, Nat.mul_add_mod, Nat.mod_eq_of_lt hvalue,
    Nat.mul_add_div (Nat.two_pow_pos _), Nat.div_eq_of_lt hvalue]
  ring_nf

variable {input : List UInt8}

lemma convertLoop_spec (hpos : 0 < tobits) (hto : tobits ≤ 8) (hinput : FitsBits frombits input) :
    (convertLoop frombits tobits input).2.1 < tobits ∧
      Spread tobits (convertLoop frombits tobits input).1 (input.length * frombits)
        (ofBitGroups frombits input) (convertLoop frombits tobits input).2.1
        (convertLoop frombits tobits input).2.2 := by
  induction input using List.reverseRecOn with
  | nil => exact ⟨hpos, ⟨fun v hv => absurd hv List.not_mem_nil, by simp [convertLoop],
      by simp [convertLoop]⟩⟩
  | append_singleton input value ih =>
    have hvalue : value.toNat < 2 ^ frombits := hinput value (by simp)
    obtain ⟨hbits, hspread⟩ := ih fun v hv => hinput v (List.mem_append_left _ hv)
    have hstep : convertLoop frombits tobits (input ++ [value]) =
        convertStep frombits tobits (convertLoop frombits tobits input) value := by
      rw [convertLoop, List.foldl_append]
      rfl
    rw [hstep]
    generalize convertLoop frombits tobits input = state at hbits hspread
    -- Before the inner loop the new value stands below the pending bits.
    refine Spread.pushBits hpos hto _ _ _ le_rfl ⟨hspread.fits, ?_, ?_⟩
    · rw [List.length_append, List.length_singleton, Nat.add_mul, Nat.one_mul,
        ← hspread.total_eq, Nat.add_assoc]
    · rw [accumulate_mod hbits hvalue, ofBitGroups_concat, ← hspread.number_eq, Nat.pow_add]
      ring

lemma shift_and_mask {acc bits : Nat} (hbits : bits ≤ tobits) :
    (acc <<< (tobits - bits)) &&& (2 ^ tobits - 1) = acc % 2 ^ bits * 2 ^ (tobits - bits) := by
  have hpow : 2 ^ tobits = 2 ^ bits * 2 ^ (tobits - bits) := by
    rw [← Nat.pow_add, Nat.add_sub_of_le hbits]
  rw [Nat.and_two_pow_sub_one_eq_mod, Nat.shiftLeft_eq, hpow, Nat.mul_mod_mul_right]

/-- With padding, the number is shifted by fewer than `tobits` bits to fill the last group. -/
lemma convertbits_pad (hpos : 0 < tobits) (hto : tobits ≤ 8) (hinput : FitsBits frombits input) :
    FitsBits tobits (convertbits input frombits tobits true).1 ∧
      ∃ p < tobits, (convertbits input frombits tobits true).1.length * tobits =
          input.length * frombits + p ∧
        ofBitGroups tobits (convertbits input frombits tobits true).1 =
          ofBitGroups frombits input * 2 ^ p := by
  obtain ⟨hbits, hfits, htotal, hnumber⟩ := convertLoop_spec hpos hto hinput
  rw [convertbits_eq]
  generalize convertLoop frombits tobits input = state at hbits hfits htotal hnumber
  obtain ⟨acc, bits, out⟩ := state
  simp only at hbits hfits htotal hnumber
  simp only [if_true]
  split
  · rename_i hne
    have hdigit : (UInt8.ofNat ((acc <<< (tobits - bits)) &&& (2 ^ tobits - 1))).toNat =
        acc % 2 ^ bits * 2 ^ (tobits - bits) := by
      rw [toNat_and_mask hto, ← Nat.and_two_pow_sub_one_eq_mod, shift_and_mask hbits.le]
    have hpow : 2 ^ tobits = 2 ^ bits * 2 ^ (tobits - bits) := by
      rw [← Nat.pow_add, Nat.add_sub_of_le hbits.le]
    refine ⟨hfits.concat ?_, tobits - bits, by omega, ?_, ?_⟩
    · rw [hdigit, hpow]
      exact Nat.mul_lt_mul_of_pos_right (Nat.mod_lt _ (Nat.two_pow_pos _)) (Nat.two_pow_pos _)
    · rw [List.length_append, List.length_singleton, Nat.add_mul, Nat.one_mul]
      omega
    · rw [ofBitGroups_concat, hdigit, ← hnumber, hpow]
      ring
  · rename_i hzero
    obtain rfl : bits = 0 := not_not.mp hzero
    refine ⟨hfits, 0, hpos, by omega, ?_⟩
    rw [← hnumber]
    simp [Nat.mod_one]

/-- Without padding, fewer than `tobits` bits at the end are dropped; the verdict is that
they are fewer than `frombits` and all zero. -/
lemma convertbits_no_pad (hpos : 0 < tobits) (hto : tobits ≤ 8) (hinput : FitsBits frombits input) :
    FitsBits tobits (convertbits input frombits tobits false).1 ∧
      ∃ r < tobits, (convertbits input frombits tobits false).1.length * tobits + r =
          input.length * frombits ∧
        ofBitGroups tobits (convertbits input frombits tobits false).1 =
          ofBitGroups frombits input / 2 ^ r ∧
        ((convertbits input frombits tobits false).2 = true ↔
          r < frombits ∧ 2 ^ r ∣ ofBitGroups frombits input) := by
  obtain ⟨hbits, hfits, htotal, hnumber⟩ := convertLoop_spec hpos hto hinput
  rw [convertbits_eq]
  generalize convertLoop frombits tobits input = state at hbits hfits htotal hnumber
  obtain ⟨acc, bits, out⟩ := state
  simp only at hbits hfits htotal hnumber
  have hlow : acc % 2 ^ bits < 2 ^ bits := Nat.mod_lt _ (Nat.two_pow_pos bits)
  refine ⟨hfits, bits, hbits, htotal, ?_, ?_⟩
  · rw [← hnumber, Nat.mul_comm, Nat.mul_add_div (Nat.two_pow_pos bits), Nat.div_eq_of_lt hlow,
      Nat.add_zero]
    rfl
  · have hdvd : 2 ^ bits ∣ ofBitGroups frombits input ↔ acc % 2 ^ bits = 0 := by
      rw [← hnumber, Nat.dvd_add_right (Nat.dvd_mul_left _ _), Nat.dvd_mod_iff dvd_rfl,
        Nat.dvd_iff_mod_eq_zero]
    simp [shift_and_mask hbits.le, hdvd]

lemma convertbits_of_convertbits_pad (bytes) :
    convertbits (convertbits bytes 8 5 true).1 5 8 false = (bytes, true) := by
  obtain ⟨hfits, p, hp, hlength, hnumber⟩ :=
    convertbits_pad (show 0 < 5 by decide) (by decide) (fitsBits_eight bytes)
  obtain ⟨hfits', r, hr, hlength', hnumber', hverdict⟩ :=
    convertbits_no_pad (show 0 < 8 by decide) le_rfl hfits
  obtain rfl : r = p := by omega
  apply Prod.ext
  · apply ofBitGroups_inj (by decide) hfits' (fitsBits_eight bytes)
    · omega
    · rw [hnumber', hnumber, Nat.mul_div_cancel _ (Nat.two_pow_pos _)]
  · exact hverdict.mpr ⟨hp, hnumber ▸ Nat.dvd_mul_left _ _⟩

lemma convertbits_of_convertbits_no_pad {data} (hdata : FitsBits 5 data)
    (h : (convertbits data 5 8 false).2 = true) :
    (convertbits (convertbits data 5 8 false).1 8 5 true).1 = data := by
  obtain ⟨hfits, r, hr, hlength, hnumber, hverdict⟩ :=
    convertbits_no_pad (show 0 < 8 by decide) le_rfl hdata
  obtain ⟨hr', hdvd⟩ := hverdict.mp h
  obtain ⟨hfits', p, hp, hlength', hnumber'⟩ :=
    convertbits_pad (show 0 < 5 by decide) (by decide) hfits
  obtain rfl : p = r := by omega
  apply ofBitGroups_inj (by decide) hfits' hdata
  · omega
  · rw [hnumber', hnumber, Nat.div_mul_cancel hdvd]

end Firo.LibSpark.Bech32
