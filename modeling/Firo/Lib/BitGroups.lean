import Mathlib

/-! A list of bytes is read as a number whose digits have `w` bits each, the first digit the most
significant one. A list of given length is determined by its number. -/
namespace Firo.Lib

/-- The number that `l` spells in digits of `w` bits. -/
def ofBitGroups (w : Nat) (l : List UInt8) : Nat :=
  Nat.ofDigits (2 ^ w) (l.reverse.map UInt8.toNat)

def FitsBits (w : Nat) (l : List UInt8) : Prop := ∀ v ∈ l, v.toNat < 2 ^ w

variable {w : Nat} {l l' : List UInt8}

@[simp]
lemma ofBitGroups_nil : ofBitGroups w [] = 0 := rfl

lemma ofBitGroups_concat (v) : ofBitGroups w (l ++ [v]) = ofBitGroups w l * 2 ^ w + v.toNat := by
  simp only [ofBitGroups, List.reverse_append, List.reverse_singleton, List.singleton_append,
    List.map_cons, Nat.ofDigits_cons]
  ring

lemma ofBitGroups_map_range {k n : Nat} {f}
    (h : ∀ i < k, (f i).toNat = n / 2 ^ (w * (k - 1 - i)) % 2 ^ w) :
    ofBitGroups w ((List.range k).map f) = n % 2 ^ (w * k) := by
  induction k generalizing n with
  | zero => simp [Nat.mod_one]
  | succ k ih =>
    have hinit := ih (n := n / 2 ^ w) fun i hi => by
      have hshift : w * (k + 1 - 1 - i) = w + w * (k - 1 - i) := by
        rw [show k + 1 - 1 - i = (k - 1 - i) + 1 by omega, Nat.mul_succ, Nat.add_comm]
      rw [h i (by omega), hshift, Nat.pow_add, Nat.div_div_eq_div_mul]
    have hlast := h k (Nat.lt_succ_self k)
    rw [Nat.add_sub_cancel, Nat.sub_self, Nat.mul_zero, Nat.pow_zero, Nat.div_one] at hlast
    rw [List.range_succ, List.map_append, List.map_singleton, ofBitGroups_concat, hinit, hlast,
      Nat.mul_succ, Nat.add_comm (w * k), Nat.pow_add, Nat.mod_mul]
    ring

lemma FitsBits.concat {v : UInt8} (h : FitsBits w l) (hv : v.toNat < 2 ^ w) :
    FitsBits w (l ++ [v]) := by
  intro u hu
  rcases List.mem_append.mp hu with hu | hu
  · exact h u hu
  · rwa [List.mem_singleton.mp hu]

lemma fitsBits_eight (l) : FitsBits 8 l := fun v _ => v.toNat_lt

lemma FitsBits.digits_lt (h : FitsBits w l) : ∀ d ∈ l.reverse.map UInt8.toNat, d < 2 ^ w := by
  intro d hd
  obtain ⟨v, hv, rfl⟩ := List.mem_map.mp hd
  exact h v (List.mem_reverse.mp hv)

lemma ofBitGroups_lt (hw : 0 < w) (h : FitsBits w l) : ofBitGroups w l < 2 ^ (w * l.length) := by
  have hlt := Nat.ofDigits_lt_base_pow_length (Nat.one_lt_two_pow hw.ne') h.digits_lt
  rwa [List.length_map, List.length_reverse, ← Nat.pow_mul] at hlt

lemma ofBitGroups_inj (hw : 0 < w) (hl : FitsBits w l) (hl' : FitsBits w l')
    (hlength : l.length = l'.length) (h : ofBitGroups w l = ofBitGroups w l') : l = l' := by
  have hdigits : l.reverse.map UInt8.toNat = l'.reverse.map UInt8.toNat :=
    Nat.ofDigits_inj_of_len_eq (Nat.one_lt_two_pow hw.ne') (by simpa using hlength)
      hl.digits_lt hl'.digits_lt h
  have hreverse := List.map_injective_iff.mpr (fun _ _ => UInt8.toNat_inj.mp) hdigits
  exact List.reverse_injective hreverse

end Firo.Lib
