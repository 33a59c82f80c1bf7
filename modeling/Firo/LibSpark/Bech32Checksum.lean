import Firo.Lib.BitGroups
import Firo.LibSpark.Address

/-! A round of `polymod` is linear over exclusive or, and a value of five bits that enters a small
remainder is appended to it. So the six values of a checksum are exclusive-ored as one number onto
the remainder of six zeros: `createChecksum` gives the only checksum that `verifyChecksum` takes for
an encoding. -/
namespace Firo.LibSpark.Bech32

open Firo.Lib List

/-- What a coefficient of the generator contributes to a round, by one bit of the quotient. -/
def feedbackTerm (mask coefficient c : UInt32) : UInt32 :=
  if (c >>> 25) &&& mask != 0 then coefficient else 0

def feedback (c : UInt32) : UInt32 :=
  feedbackTerm 1 0x3b6a57b2 c ^^^ feedbackTerm 2 0x26508e6d c ^^^ feedbackTerm 4 0x1ea119fa c ^^^
    feedbackTerm 8 0x3d4233dd c ^^^ feedbackTerm 16 0x2a1462b3 c

lemma ite_xor_eq (p : Prop) [Decidable p] (c coefficient : UInt32) :
    (if p then c ^^^ coefficient else c) = c ^^^ (if p then coefficient else 0) := by
  split
  · rfl
  · rw [UInt32.xor_zero]

lemma polymodStep_eq (c : UInt32) (v : UInt8) :
    polymodStep c v = ((c &&& 0x1ffffff) <<< 5) ^^^ v.toUInt32 ^^^ feedback c := by
  unfold polymodStep feedback feedbackTerm
  simp only [ite_xor_eq]
  ac_rfl

variable {mask : UInt32} {k : Nat} {c : UInt32} {values checksum : List UInt8}

lemma and_mask_eq (hmask : mask.toNat = 2 ^ k) (x) : x &&& mask = 0 ∨ x &&& mask = mask := by
  have hnat : (x &&& mask).toNat = (x.toNat.testBit k).toNat * 2 ^ k := by
    rw [UInt32.toNat_and, hmask, Nat.and_two_pow]
  cases hbit : x.toNat.testBit k with
  | false =>
    left
    apply UInt32.toNat_inj.mp
    rw [hnat, hbit]
    simp
  | true =>
    right
    apply UInt32.toNat_inj.mp
    rw [hnat, hbit, hmask]
    simp

lemma xor_and_mask (a b mask : UInt32) : (a ^^^ b) &&& mask = (a &&& mask) ^^^ (b &&& mask) := by
  apply UInt32.toBitVec_inj.mp
  apply BitVec.eq_of_getLsbD_eq
  intro i _
  simp [Bool.and_xor_distrib_right]

lemma feedbackTerm_xor (hmask : mask.toNat = 2 ^ k) (coefficient a b : UInt32) :
    feedbackTerm mask coefficient (a ^^^ b) =
      feedbackTerm mask coefficient a ^^^ feedbackTerm mask coefficient b := by
  unfold feedbackTerm
  rw [UInt32.shiftRight_xor, xor_and_mask]
  rcases and_mask_eq hmask (a >>> 25) with ha | ha <;>
    rcases and_mask_eq hmask (b >>> 25) with hb | hb <;>
    by_cases hzero : mask = 0 <;> simp [ha, hb, hzero]

lemma feedback_xor (a b) : feedback (a ^^^ b) = feedback a ^^^ feedback b := by
  unfold feedback
  rw [feedbackTerm_xor (k := 0) rfl, feedbackTerm_xor (k := 1) rfl, feedbackTerm_xor (k := 2) rfl,
    feedbackTerm_xor (k := 3) rfl, feedbackTerm_xor (k := 4) rfl]
  ac_rfl

lemma polymodStep_xor (a b : UInt32) (u v : UInt8) :
    polymodStep (a ^^^ b) (u ^^^ v) = polymodStep a u ^^^ polymodStep b v := by
  rw [polymodStep_eq, polymodStep_eq, polymodStep_eq, xor_and_mask, UInt32.shiftLeft_xor,
    feedback_xor, UInt8.toUInt32_xor]
  ac_rfl

lemma foldl_polymodStep_xor (a b) {us vs : List UInt8} (h : us.length = vs.length) :
    (us.zipWith (· ^^^ ·) vs).foldl polymodStep (a ^^^ b) =
      us.foldl polymodStep a ^^^ vs.foldl polymodStep b := by
  induction us generalizing a b vs with
  | nil =>
    obtain rfl := length_eq_zero_iff.mp h.symm
    rfl
  | cons u us ih =>
    cases vs with
    | nil => simp at h
    | cons v vs =>
      simp only [zipWith_cons_cons, foldl_cons, polymodStep_xor]
      exact ih _ _ (by simpa using h)

lemma feedback_of_lt (hc : c.toNat < 2 ^ 25) : feedback c = 0 := by
  have hzero : c >>> 25 = 0 := by
    apply UInt32.toNat_inj.mp
    rw [UInt32.toNat_shiftRight]
    exact Nat.shiftRight_eq_zero _ _ hc
  simp [feedback, feedbackTerm, hzero]

lemma toNat_polymodStep_of_lt {v : UInt8} (hc : c.toNat < 2 ^ 25)
    (hv : v.toNat < 2 ^ 5) : (polymodStep c v).toNat = c.toNat * 2 ^ 5 + v.toNat := by
  have hmask : c &&& 0x1ffffff = c := by
    apply UInt32.toNat_inj.mp
    rw [UInt32.toNat_and]
    exact Nat.and_two_pow_sub_one_of_lt_two_pow hc
  have hshift : (c <<< 5).toNat = c.toNat * 2 ^ 5 := by
    rw [UInt32.toNat_shiftLeft]
    change c.toNat <<< 5 % 2 ^ 32 = _
    rw [Nat.shiftLeft_eq]
    omega
  rw [polymodStep_eq, feedback_of_lt hc, UInt32.xor_zero, hmask, UInt32.toNat_xor, hshift,
    UInt8.toNat_toUInt32]
  -- The two numbers share no bit: compare quotient and remainder by `2 ^ 5`.
  have hdiv : (c.toNat * 2 ^ 5 ^^^ v.toNat) / 2 ^ 5 = c.toNat := by
    rw [Nat.xor_div_two_pow, Nat.mul_div_cancel _ (Nat.two_pow_pos 5), Nat.div_eq_of_lt hv,
      Nat.xor_zero]
  have hmod : (c.toNat * 2 ^ 5 ^^^ v.toNat) % 2 ^ 5 = v.toNat := by
    rw [Nat.xor_mod_two_pow, Nat.mul_mod_left, Nat.mod_eq_of_lt hv, Nat.zero_xor]
  omega

lemma toNat_foldl_polymodStep (hfits : FitsBits 5 values) (hlength : values.length ≤ 6) :
    (values.foldl polymodStep 0).toNat = ofBitGroups 5 values := by
  induction values using reverseRecOn with
  | nil => rfl
  | append_singleton values v ih =>
    rw [length_append, length_singleton] at hlength
    have hfits' : FitsBits 5 values := fun u hu => hfits u (mem_append_left _ hu)
    have hinit := ih hfits' (by omega)
    have hsmall : ofBitGroups 5 values < 2 ^ 25 :=
      (ofBitGroups_lt (by decide) hfits').trans_le (Nat.pow_le_pow_right (by decide) (by omega))
    rw [foldl_append, foldl_cons, List.foldl_nil, ofBitGroups_concat, ← hinit]
    exact toNat_polymodStep_of_lt (by rwa [hinit]) (hfits v (by simp))

lemma toNat_feedbackTerm_lt (mask c) {coefficient : UInt32}
    (h : coefficient.toNat < 2 ^ 30) : (feedbackTerm mask coefficient c).toNat < 2 ^ 30 := by
  unfold feedbackTerm
  split
  · exact h
  · decide

lemma toNat_polymodStep_lt (c) (v) : (polymodStep c v).toNat < 2 ^ 30 := by
  have hshift : ((c &&& 0x1ffffff) <<< 5).toNat < 2 ^ 30 := by
    have hmask : (c &&& 0x1ffffff).toNat < 2 ^ 25 := by
      rw [UInt32.toNat_and]
      exact Nat.and_lt_two_pow _ (by decide)
    rw [UInt32.toNat_shiftLeft]
    change (c &&& 0x1ffffff).toNat <<< 5 % 2 ^ 32 < _
    rw [Nat.shiftLeft_eq]
    omega
  have hv : v.toUInt32.toNat < 2 ^ 30 := by
    rw [UInt8.toNat_toUInt32]
    exact v.toNat_lt.trans (by decide)
  rw [polymodStep_eq, feedback]
  simp only [UInt32.toNat_xor]
  refine Nat.xor_lt_two_pow (Nat.xor_lt_two_pow hshift hv) ?_
  refine Nat.xor_lt_two_pow (Nat.xor_lt_two_pow (Nat.xor_lt_two_pow (Nat.xor_lt_two_pow ?_ ?_) ?_)
    ?_) ?_ <;> exact toNat_feedbackTerm_lt _ _ (by decide)

lemma polymod_append_eq (x) (h : checksum.length = 6) : polymod (x ++ checksum) =
      polymod (x ++ replicate 6 0) ^^^ checksum.foldl polymodStep 0 := by
  have hzeros : (replicate 6 (0 : UInt8)).zipWith (· ^^^ ·) checksum = checksum := by
    apply ext_getElem
    · rw [length_zipWith, length_replicate, h, Nat.min_self]
    · intro i _ _
      rw [getElem_zipWith, getElem_replicate, UInt8.zero_xor]
  have hrun := foldl_polymodStep_xor (x.foldl polymodStep 1) 0
    (show (replicate 6 0).length = checksum.length by rw [length_replicate, h])
  rw [hzeros, UInt32.xor_zero] at hrun
  rw [polymod, polymod, foldl_append, foldl_append]
  exact hrun

lemma toNat_polymod_replicate_lt (x) : (polymod (x ++ replicate 6 0)).toNat < 2 ^ 30 := by
  rw [polymod, replicate_succ', ← append_assoc, foldl_append]
  exact toNat_polymodStep_lt _ _

lemma toNat_encodingConstant_lt (encoding) : (encodingConstant encoding).toNat < 2 ^ 30 := by
  cases encoding <;> decide

lemma toNat_checksum_value (mod) (hk : k < 32) :
    (((mod >>> UInt32.ofNat k) &&& 31).toUInt8).toNat = mod.toNat / 2 ^ k % 2 ^ 5 := by
  have hshift : (mod >>> UInt32.ofNat k).toNat = mod.toNat / 2 ^ k := by
    rw [UInt32.toNat_shiftRight, UInt32.toNat_ofNat', Nat.mod_eq_of_lt (by omega : k < 2 ^ 32),
      Nat.mod_eq_of_lt hk, Nat.shiftRight_eq_div_pow]
  have hlow : ((mod >>> UInt32.ofNat k) &&& 31).toNat = mod.toNat / 2 ^ k % 2 ^ 5 := by
    rw [UInt32.toNat_and, hshift]
    exact Nat.and_two_pow_sub_one_eq_mod _ 5
  rw [UInt32.toNat_toUInt8, hlow]
  omega

section

variable (hrp : List Char) (values : List UInt8) (encoding : Encoding)
include hrp

lemma length_createChecksum : (createChecksum hrp values encoding).length = 6 := by
  rw [createChecksum, length_map, length_range]

lemma fitsBits_createChecksum : FitsBits 5 (createChecksum hrp values encoding) := by
  intro v hv
  obtain ⟨i, -, rfl⟩ := mem_map.mp hv
  rw [toNat_checksum_value _ (by omega)]
  exact Nat.mod_lt _ (Nat.two_pow_pos 5)

lemma ofBitGroups_createChecksum : ofBitGroups 5 (createChecksum hrp values encoding) =
      (polymod (expandHrp hrp ++ values ++ replicate 6 0) ^^^
        encodingConstant encoding).toNat := by
  have hlt : (polymod (expandHrp hrp ++ values ++ replicate 6 0) ^^^
      encodingConstant encoding).toNat < 2 ^ 30 := by
    rw [UInt32.toNat_xor]
    exact Nat.xor_lt_two_pow (toNat_polymod_replicate_lt _) (toNat_encodingConstant_lt _)
  rw [createChecksum]
  generalize polymod (expandHrp hrp ++ values ++ replicate 6 0) ^^^
    encodingConstant encoding = mod at hlt
  rw [ofBitGroups_map_range (n := mod.toNat)]
  · exact Nat.mod_eq_of_lt hlt
  · intro i hi
    exact toNat_checksum_value mod (by omega)

end

/-- A list of six values of five bits is accepted as the checksum of an encoding if and only
if it is the one that is created for it. -/
lemma polymod_eq_encodingConstant_iff {hrp}
    (encoding) (hfits : FitsBits 5 checksum) (hlength : checksum.length = 6) :
    polymod (expandHrp hrp ++ (values ++ checksum)) = encodingConstant encoding ↔
      checksum = createChecksum hrp values encoding := by
  have hmove : ∀ a b c : UInt32, a ^^^ b = c ↔ b = a ^^^ c := by
    intro a b c
    constructor <;> rintro rfl <;> rw [← UInt32.xor_assoc, UInt32.xor_self, UInt32.zero_xor]
  rw [← append_assoc, polymod_append_eq _ hlength, hmove, ← UInt32.toNat_inj,
    toNat_foldl_polymodStep hfits hlength.le, ← ofBitGroups_createChecksum]
  constructor
  · intro h
    exact ofBitGroups_inj (by decide) hfits (fitsBits_createChecksum _ _ _)
      (hlength.trans (length_createChecksum _ _ _).symm) h
  · rintro rfl
    rfl

end Firo.LibSpark.Bech32
