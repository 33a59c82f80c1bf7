import Firo.LibSpark.Bech32Checksum

/-! `decode` reads a string as a prefix, the last `1` of the string and the characters of the data
part. On a string it accepts, the lower-case spelling of the string is the one that `encode` gives
for the decoded prefix and data, and it accepts every string of `encode` whose prefix is not empty.
-/
namespace Firo.LibSpark.Bech32

open Firo.Lib List

def toChar (v : UInt8) : Char := CHARSET.getD v.toNat 'q'

lemma CHARSET_eq : CHARSET =
    ['q', 'p', 'z', 'r', 'y', '9', 'x', '8', 'g', 'f', '2', 't', 'v', 'd', 'w', '0',
      's', '3', 'j', 'n', '5', '4', 'k', 'h', 'c', 'e', '6', 'm', 'u', 'a', '7', 'l'] :=
  String.toList_ofList

/-- Characters that `decode` takes and that have no upper case. -/
def LowerPrintable (str : List Char) : Prop :=
  ∀ c ∈ str, 33 ≤ c.toNat ∧ c.toNat ≤ 126 ∧ isUpper c = false

instance (str : List Char) : Decidable (LowerPrintable str) :=
  List.decidableBAll (fun c : Char => 33 ≤ c.toNat ∧ c.toNat ≤ 126 ∧ isUpper c = false) str

variable {v : UInt8} {c : Char} {right left str hrp : List Char} {data : List UInt8}

lemma charsetRev_toChar (h : v.toNat < 2 ^ 5) : charsetRev (toChar v) = some v := by
  have htable : ∀ n : Fin 32, charsetRev (CHARSET.getD n.val 'q') = some (UInt8.ofNat n.val) := by
    rw [CHARSET_eq]
    decide
  have hentry := htable ⟨v.toNat, h⟩
  rwa [UInt8.ofNat_toNat] at hentry

lemma toChar_printable (h : v.toNat < 2 ^ 5) :
    33 ≤ (toChar v).toNat ∧ (toChar v).toNat ≤ 126 ∧ isUpper (toChar v) = false := by
  have htable : ∀ n : Fin 32, 33 ≤ (CHARSET.getD n.val 'q').toNat ∧
      (CHARSET.getD n.val 'q').toNat ≤ 126 ∧ isUpper (CHARSET.getD n.val 'q') = false := by
    rw [CHARSET_eq]
    decide
  exact htable ⟨v.toNat, h⟩

lemma toChar_of_charsetRev (h : charsetRev c = some v) : v.toNat < 2 ^ 5 ∧ toChar v = lc c := by
  have htable : ∀ n : Fin 128, (charsetRev (Char.ofNat n.val)).all
      (fun v => v.toNat < 2 ^ 5 ∧ CHARSET.getD v.toNat 'q' = lc (Char.ofNat n.val)) = true := by
    rw [CHARSET_eq]
    decide +kernel
  -- The table has 128 entries; the characters beyond it have no value.
  by_cases hc : c.toNat < 128
  · have hentry := htable ⟨c.toNat, hc⟩
    rw [Char.ofNat_toNat, h] at hentry
    exact of_decide_eq_true hentry
  · have hnone : charsetRev c = none := by
      unfold charsetRev
      rw [getD_eq_default _ _ (Nat.le_of_not_lt hc)]
      rfl
    rw [hnone] at h
    cases h

lemma charsetRev_one : charsetRev '1' = none := by decide

variable {values : List UInt8} {encoding : Encoding}

lemma mapM_charsetRev_toChar (h : FitsBits 5 values) :
    (values.map toChar).mapM charsetRev = some values := by
  induction values with
  | nil => rfl
  | cons v values ih =>
    rw [map_cons, mapM_cons, charsetRev_toChar (h v (by simp)),
      ih fun u hu => h u (mem_cons_of_mem _ hu)]
    rfl

lemma of_mapM_charsetRev (h : right.mapM charsetRev = some values) :
    FitsBits 5 values ∧ values.map toChar = right.map lc := by
  induction right generalizing values with
  | nil =>
    obtain rfl : [] = values := by simpa using h
    exact ⟨fun v hv => absurd hv not_mem_nil, rfl⟩
  | cons c right ih =>
    rw [mapM_cons] at h
    obtain ⟨v, hv, h⟩ := Option.bind_eq_some_iff.mp h
    obtain ⟨rest, hrest, h⟩ := Option.bind_eq_some_iff.mp h
    obtain rfl : v :: rest = values := by simpa using h
    obtain ⟨hlt, hchar⟩ := toChar_of_charsetRev hv
    obtain ⟨hfits, hmap⟩ := ih hrest
    exact ⟨forall_mem_cons.mpr ⟨hlt, hfits⟩, by rw [map_cons, map_cons, hchar, hmap]⟩

lemma one_notMem_of_mapM (h : right.mapM charsetRev = some values) : '1' ∉ right := by
  induction right generalizing values with
  | nil => exact not_mem_nil
  | cons c right ih =>
    rw [mapM_cons] at h
    obtain ⟨v, hv, h⟩ := Option.bind_eq_some_iff.mp h
    obtain ⟨rest, hrest, -⟩ := Option.bind_eq_some_iff.mp h
    rw [mem_cons, not_or]
    refine ⟨?_, ih hrest⟩
    rintro rfl
    rw [charsetRev_one] at hv
    cases hv

lemma idxOf_one_reverse (h : '1' ∉ right) :
    (left ++ '1' :: right).reverse.idxOf? '1' = some right.length := by
  have hrest : ∀ l : List Char, '1' ∉ l →
      (l ++ '1' :: left.reverse).idxOf? '1' = some l.length := by
    intro l hl
    induction l with
    | nil => rfl
    | cons c l ih =>
      obtain ⟨hc, hl⟩ := not_or.mp (mem_cons.not.mp hl)
      rw [cons_append, idxOf?_cons, if_neg (by simpa using Ne.symm hc), ih hl]
      rfl
  rw [reverse_append, reverse_cons, append_assoc, singleton_append,
    hrest _ fun hmem => h (mem_reverse.mp hmem), length_reverse]

lemma exists_split (h : '1' ∈ str) : ∃ left right, str = left ++ '1' :: right ∧ '1' ∉ right := by
  obtain ⟨after, before, hreverse, hafter⟩ := eq_append_cons_of_mem (mem_reverse.mpr h)
  refine ⟨before.reverse, after.reverse, ?_, fun hmem => hafter (mem_reverse.mp hmem)⟩
  rw [← reverse_reverse str, hreverse]
  simp

lemma decode_split (h : '1' ∉ right) : decode (left ++ '1' :: right) =
      if !isPrintable (left ++ '1' :: right) then {}
      else if left = [] ∨ right.length < 6 then {}
      else
        match right.mapM charsetRev with
        | none => {}
        | some values =>
          match verifyChecksum (left.map lc) values with
          | .INVALID => {}
          | encoding => ⟨encoding, left.map lc, values.take (values.length - 6)⟩ := by
  have hpos : (left ++ '1' :: right).length - 1 - right.length = left.length := by
    rw [length_append, length_cons]
    omega
  have hguard : (left.length = 0 ∨ (left ++ '1' :: right).length < left.length + 7) ↔
      (left = [] ∨ right.length < 6) := by
    rw [length_eq_zero_iff, length_append, length_cons]
    apply or_congr Iff.rfl
    omega
  have htake : (left ++ '1' :: right).take left.length = left := take_left
  have hdrop : (left ++ '1' :: right).drop (left.length + 1) = right := by
    simp
  have hdecode := decode.eq_def (left ++ '1' :: right)
  simp only [idxOf_one_reverse h, hpos, hguard, htake, hdrop] at hdecode
  exact hdecode

/-- `decode` accepts the strings that split into a prefix, a `1` and characters of the
data part with a right checksum. -/
lemma decode_eq_iff (hencoding : encoding ≠ .INVALID) :
    decode str = ⟨encoding, hrp, data⟩ ↔ isPrintable str = true ∧
      ∃ left right values, str = left ++ '1' :: right ∧ left ≠ [] ∧ 6 ≤ right.length ∧
        right.mapM charsetRev = some values ∧ verifyChecksum hrp values = encoding ∧
        hrp = left.map lc ∧ data = values.take (values.length - 6) := by
  constructor
  · intro h
    have hempty : ({} : DecodeResult) ≠ ⟨encoding, hrp, data⟩ :=
      fun heq => hencoding (congrArg DecodeResult.encoding heq).symm
    have hone : '1' ∈ str := by
      by_contra hone
      rw [decode, idxOf?_eq_none_iff.mpr fun hmem => hone (mem_reverse.mp hmem)] at h
      exact hempty ((ite_self _).symm.trans h)
    obtain ⟨left, right, rfl, hright⟩ := exists_split hone
    rw [decode_split hright] at h
    split at h
    · exact absurd h hempty
    rename_i hprintable
    split at h
    · exact absurd h hempty
    rename_i hlong
    obtain ⟨hleft, hlength⟩ := not_or.mp hlong
    split at h
    · exact absurd h hempty
    rename_i values hvalues
    split at h
    · exact absurd h hempty
    · injection h with hcheck hhrp hdata
      rw [hhrp] at hcheck
      exact ⟨by simpa using hprintable, left, right, values, rfl, hleft, Nat.le_of_not_lt hlength,
        hvalues, hcheck, hhrp.symm, hdata.symm⟩
  · rintro ⟨hprintable, left, right, values, rfl, hleft, hlength, hvalues, hcheck, rfl, rfl⟩
    rw [decode_split (one_notMem_of_mapM hvalues), hprintable, hvalues, if_neg (by simp),
      if_neg (by simp [hleft, hlength])]
    cases encoding with
    | INVALID => exact absurd rfl hencoding
    | BECH32 => simp only [hcheck]
    | BECH32M => simp only [hcheck]

lemma verifyChecksum_eq_iff (h : encoding ≠ .INVALID) : verifyChecksum hrp values = encoding ↔
      polymod (expandHrp hrp ++ values) = encodingConstant encoding := by
  have hdistinct : encodingConstant .BECH32 ≠ encodingConstant .BECH32M := by decide
  unfold verifyChecksum
  generalize polymod (expandHrp hrp ++ values) = check
  cases encoding with
  | INVALID => exact absurd rfl h
  | BECH32 =>
    by_cases hcheck : check = encodingConstant .BECH32
    · simp [hcheck]
    · by_cases hcheck' : check = encodingConstant .BECH32M <;> simp [hcheck, hcheck']
  | BECH32M =>
    by_cases hcheck : check = encodingConstant .BECH32
    · simp [hcheck, hdistinct]
    · by_cases hcheck' : check = encodingConstant .BECH32M <;>
        simp [hcheck, hcheck', hdistinct.symm]

lemma lc_of_not_upper (h : isUpper c = false) : lc c = c := by
  rw [lc, h, if_neg Bool.false_ne_true]

lemma LowerPrintable.map_lc (h : LowerPrintable str) : str.map lc = str := by
  rw [map_congr_left fun c hc => lc_of_not_upper (h c hc).2.2, map_id']

lemma LowerPrintable.isPrintable (h : LowerPrintable str) : isPrintable str = true := by
  have hupper : str.any isUpper = false := by
    rw [any_eq_false]
    intro c hc
    simp [(h c hc).2.2]
  have hall : str.all
      (fun c => isLower c || isUpper c || (33 ≤ c.toNat && c.toNat ≤ 126)) = true := by
    rw [all_eq_true]
    intro c hc
    simp [(h c hc).1, (h c hc).2.1]
  rw [Bech32.isPrintable, hall, hupper, Bool.and_false]
  rfl

lemma encode_eq (hrp) (values) (encoding) : encode hrp values encoding =
      hrp ++ '1' :: (values ++ createChecksum hrp values encoding).map toChar := rfl

lemma fitsBits_append_checksum (hrp) (encoding) (h : FitsBits 5 values) :
    FitsBits 5 (values ++ createChecksum hrp values encoding) := by
  intro v hv
  rcases mem_append.mp hv with hv | hv
  · exact h v hv
  · exact fitsBits_createChecksum _ _ _ v hv

lemma decode_encode (hencoding : encoding ≠ .INVALID) (hne : hrp ≠ [])
    (hhrp : LowerPrintable hrp) (hvalues : FitsBits 5 values) :
    decode (encode hrp values encoding) = ⟨encoding, hrp, values⟩ := by
  have hfits := fitsBits_append_checksum hrp encoding hvalues
  have hlower : LowerPrintable (encode hrp values encoding) := by
    intro c hc
    rw [encode_eq, mem_append, mem_cons] at hc
    rcases hc with hc | rfl | hc
    · exact hhrp c hc
    · decide
    · obtain ⟨v, hv, rfl⟩ := mem_map.mp hc
      exact toChar_printable (hfits v hv)
  rw [decode_eq_iff hencoding]
  refine ⟨hlower.isPrintable, hrp, _, _, encode_eq _ _ _, hne, ?_, mapM_charsetRev_toChar hfits,
    ?_, hhrp.map_lc.symm, ?_⟩
  · rw [length_map, length_append, length_createChecksum]
    omega
  · rw [verifyChecksum_eq_iff hencoding,
      polymod_eq_encodingConstant_iff encoding (fitsBits_createChecksum _ _ _)
        (length_createChecksum _ _ _)]
  · rw [length_append, length_createChecksum, Nat.add_sub_cancel, take_left]

lemma decode_encode_nil (encoding) (hvalues : FitsBits 5 values) :
    decode (encode [] values encoding) = {} := by
  have hfits := fitsBits_append_checksum [] encoding hvalues
  rw [encode_eq, decode_split (one_notMem_of_mapM (mapM_charsetRev_toChar hfits)),
    if_pos (Or.inl rfl), ite_self]

lemma encode_of_decode (hencoding : encoding ≠ .INVALID) (h : decode str = ⟨encoding, hrp, data⟩) :
    FitsBits 5 data ∧ str.map lc = encode hrp data encoding := by
  obtain ⟨-, left, right, values, rfl, -, hlength, hvalues, hcheck, rfl, rfl⟩ :=
    (decode_eq_iff hencoding).mp h
  obtain ⟨hfits, hmap⟩ := of_mapM_charsetRev hvalues
  have hsix : 6 ≤ values.length := by
    rwa [← length_map (f := toChar), hmap, length_map]
  have hchecksum : values.drop (values.length - 6) =
      createChecksum (left.map lc) (values.take (values.length - 6)) encoding := by
    rw [← polymod_eq_encodingConstant_iff encoding
        (fun v hv => hfits v (mem_of_mem_drop hv)) (by rw [length_drop]; omega),
      take_append_drop, ← verifyChecksum_eq_iff hencoding]
    exact hcheck
  refine ⟨fun v hv => hfits v (mem_of_mem_take hv), ?_⟩
  rw [encode_eq, ← hchecksum, take_append_drop, hmap, map_append, map_cons]
  rfl

end Firo.LibSpark.Bech32
