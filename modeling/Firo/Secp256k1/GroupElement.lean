import Firo.Lib.Bytes

/-! `serialize`, `deserialize` and `operator==` of `GroupElement.cpp`, over the field operations of
`secp256k1` modulo a prime `p` that is three modulo four. An element is kept in Jacobian coordinates
with an infinity flag. The encoding has the `x` coordinate, the oddness of `y` and the flag; the
flag is any nonzero byte, and the coordinates are kept beside it. -/
namespace Firo.Secp256k1

open Firo.Lib

variable {p : ℕ}

def fieldModulus : ℕ := 2 ^ 256 - 2 ^ 32 - 977

def CURVE_B : ℕ := 7

structure Ge (p : ℕ) where
  x : ZMod p
  y : ZMod p
  infinity : ℕ
deriving DecidableEq

structure Gej (p : ℕ) where
  x : ZMod p
  y : ZMod p
  z : ZMod p
  infinity : ℕ
deriving DecidableEq

def feSetB32 (a : List UInt8) : ZMod p := (ofLeBytes a.reverse : ℕ)

def feGetB32 (a : ZMod p) : List UInt8 := (leBytes 32 a.val).reverse

def feIsOdd (a : ZMod p) : ℕ := a.val % 2

def feSqrt (a : ZMod p) : ZMod p × Bool :=
  let r := a ^ ((p + 1) / 4)
  (r, decide (r ^ 2 = a))

def geSetXquad (x : ZMod p) : Ge p × Bool :=
  let r := feSqrt (x ^ 3 + (CURVE_B : ZMod p))
  (⟨x, r.1, 0⟩, r.2)

def geSetXoVar (x : ZMod p) (odd : ℕ) : Ge p :=
  let r := geSetXquad x
  if r.2 then
    if feIsOdd r.1.y ≠ odd then { r.1 with y := -r.1.y } else r.1
  else r.1

def geIsValidVar (a : Ge p) : Bool :=
  if a.infinity ≠ 0 then false else decide (a.y ^ 2 = a.x ^ 3 + (CURVE_B : ZMod p))

def gejSetGe (a : Ge p) : Gej p := ⟨a.x, a.y, 1, a.infinity⟩

def gejToGe (a : Gej p) : Ge p :=
  let zi := a.z ^ (p - 2)
  ⟨a.x * zi ^ 2, a.y * zi ^ 3, a.infinity⟩

namespace Gej

def equals (g other : Gej p) : Bool :=
  if g.infinity ≠ 0 ∧ other.infinity ≠ 0 then true
  else if g.infinity ≠ other.infinity then false
  else
    let a := gejToGe g
    let b := gejToGe other
    decide (a.x = b.x) && decide (a.y = b.y)

def serialize (g : Gej p) : List UInt8 :=
  let value := gejToGe g
  feGetB32 value.x ++ [UInt8.ofNat (feIsOdd value.y), UInt8.ofNat value.infinity]

def decodeGe (buffer : List UInt8) : Ge p :=
  let result := geSetXoVar (feSetB32 (buffer.take 32)) (buffer.getD 32 0).toNat
  ⟨result.x, result.y, (buffer.getD 33 0).toNat⟩

def deserialize (buffer : List UInt8) : Except String (Gej p) :=
  let result := decodeGe buffer
  if ¬geIsValidVar result ∧ result.infinity = 0 then .error "GroupElement: deserialize failed"
  else .ok (gejSetGe result)

lemma gejToGe_gejSetGe (a : Ge p) : gejToGe (gejSetGe a) = a := by
  simp [gejToGe, gejSetGe]

lemma serialize_gejSetGe (a : Ge p) : serialize (gejSetGe a) =
    feGetB32 a.x ++ [UInt8.ofNat (feIsOdd a.y), UInt8.ofNat a.infinity] := by
  simp only [serialize, gejToGe_gejSetGe]

lemma equals_gejSetGe (a b : Ge p) : equals (gejSetGe a) (gejSetGe b) = true ↔
    (a.infinity ≠ 0 ∧ b.infinity ≠ 0) ∨ (a.infinity = b.infinity ∧ a.x = b.x ∧ a.y = b.y) := by
  simp only [equals, gejToGe_gejSetGe]
  change (if a.infinity ≠ 0 ∧ b.infinity ≠ 0 then true else if a.infinity ≠ b.infinity then false
    else _) = true ↔ _
  split_ifs with hboth hne
  · simp [hboth]
  · simp only [false_iff]
    tauto
  · simp only [Bool.and_eq_true, decide_eq_true_eq]
    tauto

lemma deserialize_eq_ok {buffer : List UInt8} {g : Gej p} :
    deserialize buffer = .ok g ↔ g = gejSetGe (decodeGe buffer) ∧
      ((decodeGe buffer : Ge p).infinity = 0 →
        (decodeGe buffer : Ge p).y ^ 2 = (decodeGe buffer).x ^ 3 + (CURVE_B : ZMod p)) := by
  simp only [deserialize]
  generalize decodeGe buffer = a
  have hvalid : (¬geIsValidVar a = true ∧ a.infinity = 0) ↔
      ¬(a.infinity = 0 → a.y ^ 2 = a.x ^ 3 + (CURVE_B : ZMod p)) := by
    by_cases hzero : a.infinity = 0 <;> simp [geIsValidVar, hzero]
  split_ifs with h
  · have hcurve := hvalid.mp h
    simp [hcurve]
  · have hcurve := not_not.mp (mt hvalid.mpr h)
    rw [Except.ok.injEq, eq_comm (b := g), and_iff_left hcurve]

lemma feSetB32_feGetB32 [NeZero p] (hp : p ≤ 2 ^ 256) (a : ZMod p) : feSetB32 (feGetB32 a) = a := by
  have hpow : 2 ^ 256 = 256 ^ 32 := by norm_num
  rw [feSetB32, feGetB32, List.reverse_reverse,
    ofLeBytes_leBytes ((ZMod.val_lt a).trans_le (hpow ▸ hp)), ZMod.natCast_zmod_val]

lemma length_feGetB32 (a : ZMod p) : (feGetB32 a).length = 32 := by
  simp [feGetB32]

lemma feIsOdd_neg [NeZero p] (hodd : p % 2 = 1) {y : ZMod p} (hy : y ≠ 0) :
    feIsOdd (-y) ≠ feIsOdd y := by
  have hne : NeZero y := ⟨hy⟩
  have hlt := ZMod.val_lt y
  rw [feIsOdd, feIsOdd, ZMod.val_neg_of_ne_zero]
  omega

lemma feIsOdd_lt (y : ZMod p) : feIsOdd y < 2 := Nat.mod_lt _ (by omega)

lemma take_serialize (a : Ge p) : (serialize (gejSetGe a)).take 32 = feGetB32 a.x := by
  rw [serialize_gejSetGe, List.take_left' (length_feGetB32 a.x)]

lemma getD_serialize (a : Ge p) : (serialize (gejSetGe a)).getD 32 0 = UInt8.ofNat (feIsOdd a.y) ∧
      (serialize (gejSetGe a)).getD 33 0 = UInt8.ofNat a.infinity := by
  rw [serialize_gejSetGe, List.getD_append_right _ _ _ _ (by simp [length_feGetB32]),
    List.getD_append_right _ _ _ _ (by simp [length_feGetB32]), length_feGetB32]
  exact ⟨rfl, rfl⟩

variable [Fact p.Prime]

lemma feSqrt_sq (hp : p % 4 = 3) (y : ZMod p) :
    (feSqrt (y ^ 2)).2 = true ∧ ((feSqrt (y ^ 2)).1 = y ∨ (feSqrt (y ^ 2)).1 = -y) := by
  have hroot : (y ^ 2) ^ ((p + 1) / 4) = y ∨ (y ^ 2) ^ ((p + 1) / 4) = -y := by
    have hexp : 2 * ((p + 1) / 4) = p / 2 + 1 := by omega
    rw [← pow_mul, hexp, pow_succ]
    by_cases hy : y = 0
    · simp [hy]
    · rcases ZMod.pow_div_two_eq_neg_one_or_one p hy with hone | hneg
      · left
        rw [hone, one_mul]
      · right
        rw [hneg, neg_one_mul]
  refine ⟨?_, hroot⟩
  rw [feSqrt, decide_eq_true_eq]
  rcases hroot with hy | hy
  · rw [hy]
  · rw [hy, neg_sq]

lemma geSetXoVar_feIsOdd (hp : p % 4 = 3) {x y : ZMod p}
    (hcurve : y ^ 2 = x ^ 3 + (CURVE_B : ZMod p)) : geSetXoVar x (feIsOdd y) = ⟨x, y, 0⟩ := by
  obtain ⟨hsquare, hroot⟩ := feSqrt_sq hp y
  simp only [geSetXoVar, geSetXquad, ← hcurve, hsquare, if_true]
  rcases hroot with hy | hy
  · simp [hy]
  · rw [hy]
    by_cases hzero : y = 0
    · simp [hzero]
    · rw [if_pos (feIsOdd_neg (by omega) hzero), neg_neg]

omit [Fact p.Prime] in
lemma decodeGe_infinity (buffer) :
    (decodeGe buffer : Ge p).infinity = (buffer.getD 33 0).toNat := rfl

omit [Fact p.Prime] in
lemma decodeGe_x (buffer) : (decodeGe buffer : Ge p).x = feSetB32 (buffer.take 32) := by
  unfold decodeGe geSetXoVar geSetXquad
  dsimp only
  split_ifs <;> rfl

lemma deserialize_serialize (hp4 : p % 4 = 3) (hp : p ≤ 2 ^ 256) {buffer : List UInt8}
    {g : Gej p} (h : deserialize buffer = .ok g) :
    ∃ g' : Gej p, deserialize g.serialize = .ok g' ∧ g'.equals g = true := by
  obtain ⟨rfl, hcurve⟩ := deserialize_eq_ok.mp h
  have hflag : (decodeGe buffer : Ge p).infinity < 256 := UInt8.toNat_lt _
  generalize (decodeGe buffer : Ge p) = a at hcurve hflag
  obtain ⟨hodd, hinf⟩ := getD_serialize a
  have hagain : (decodeGe (serialize (gejSetGe a)) : Ge p) =
      ⟨(geSetXoVar a.x (feIsOdd a.y)).x, (geSetXoVar a.x (feIsOdd a.y)).y, a.infinity⟩ := by
    have hlt := feIsOdd_lt a.y
    simp only [decodeGe, take_serialize, feSetB32_feGetB32 hp, hodd, hinf, UInt8.toNat_ofNat']
    rw [Nat.mod_eq_of_lt (by omega), Nat.mod_eq_of_lt (by omega)]
  by_cases hzero : a.infinity = 0
  · -- on the curve, the coordinates come back
    have hsame : (decodeGe (serialize (gejSetGe a)) : Ge p) = a := by
      rw [hagain, geSetXoVar_feIsOdd hp4 (hcurve hzero)]
    refine ⟨gejSetGe a, deserialize_eq_ok.mpr ⟨by rw [hsame], ?_⟩, ?_⟩
    · rw [hsame]
      exact hcurve
    · exact (equals_gejSetGe a a).mpr (Or.inr ⟨rfl, rfl, rfl⟩)
  · refine ⟨_, deserialize_eq_ok.mpr ⟨rfl, fun h => absurd h ?_⟩, ?_⟩
    · rwa [hagain]
    · rw [equals_gejSetGe, hagain]
      exact Or.inl ⟨hzero, hzero⟩

omit [Fact p.Prime] in
lemma serialize_eq_iff [NeZero p] (hp : p ≤ 2 ^ 256) {a b : Ge p} (ha : a.infinity < 256)
    (hb : b.infinity < 256) : serialize (gejSetGe a) = serialize (gejSetGe b) ↔
      a.x = b.x ∧ feIsOdd a.y = feIsOdd b.y ∧ a.infinity = b.infinity := by
  have hbyte : ∀ {m n : ℕ}, m < 256 → n < 256 → UInt8.ofNat m = UInt8.ofNat n → m = n := by
    intro m n hm hn heq
    have hnat := congrArg UInt8.toNat heq
    rwa [UInt8.toNat_ofNat', UInt8.toNat_ofNat', Nat.mod_eq_of_lt hm, Nat.mod_eq_of_lt hn] at hnat
  constructor
  · intro h
    have hx := congrArg (List.take 32) h
    have hodd := congrArg (fun l => l.getD 32 0) h
    have hinf := congrArg (fun l => l.getD 33 0) h
    simp only [take_serialize, (getD_serialize _).1, (getD_serialize _).2] at hx hodd hinf
    have hlt := feIsOdd_lt a.y
    have hlt' := feIsOdd_lt b.y
    refine ⟨?_, hbyte (by omega) (by omega) hodd, hbyte ha hb hinf⟩
    rw [← feSetB32_feGetB32 hp a.x, hx, feSetB32_feGetB32 hp]
  · rintro ⟨hx, hodd, hinf⟩
    rw [serialize_gejSetGe, serialize_gejSetGe, hx, hodd, hinf]

/-- The oddness bytes pick the same root of `x³ + 7`: there is none or one root, or both bytes are
the oddness of the root that the field gives, or both are not. -/
def SameRoot (p x : ℕ) (oddness oddness' : UInt8) : Prop :=
  let square : ZMod p := (x : ZMod p) ^ 3 + (CURVE_B : ZMod p)
  IsSquare square → square ≠ 0 →
    (oddness.toNat = (square ^ ((p + 1) / 4)).val % 2 ↔
      oddness'.toNat = (square ^ ((p + 1) / 4)).val % 2)

lemma isSquare_iff_feSqrt (hp : p % 4 = 3) (a : ZMod p) : IsSquare a ↔ (feSqrt a).2 = true := by
  constructor
  · rintro ⟨y, rfl⟩
    rw [← pow_two]
    exact (feSqrt_sq hp y).1
  · intro h
    exact ⟨(feSqrt a).1, (of_decide_eq_true h).symm.trans (pow_two _)⟩

lemma geSetXoVar_y (x : ZMod p) (odd : ℕ) : (geSetXoVar x odd).y =
    let r := feSqrt (x ^ 3 + (CURVE_B : ZMod p))
    if r.2 = true ∧ feIsOdd r.1 ≠ odd then -r.1 else r.1 := by
  unfold geSetXoVar geSetXquad
  dsimp only
  split_ifs <;> simp_all

lemma feIsOdd_geSetXoVar_iff (hp : p % 4 = 3) (x : ℕ) (oddness oddness' : UInt8) :
    feIsOdd (geSetXoVar (x : ZMod p) oddness.toNat).y =
        feIsOdd (geSetXoVar (x : ZMod p) oddness'.toNat).y ↔ SameRoot p x oddness oddness' := by
  rw [SameRoot, geSetXoVar_y, geSetXoVar_y]
  simp only [isSquare_iff_feSqrt hp]
  generalize (x : ZMod p) ^ 3 + (CURVE_B : ZMod p) = a
  cases hsquare : (feSqrt a).2 with
  | false => simp
  | true =>
    have hroot : a = (feSqrt a).1 ^ 2 := (of_decide_eq_true hsquare).symm
    change _ ↔ true = true → a ≠ 0 → (oddness.toNat = feIsOdd (feSqrt a).1 ↔
      oddness'.toNat = feIsOdd (feSqrt a).1)
    generalize (feSqrt a).1 = r at hroot
    by_cases hr : r = 0
    · simp [hr, hroot]
    · have hneg := feIsOdd_neg (by omega) hr
      have hne : a ≠ 0 := hroot ▸ pow_ne_zero 2 hr
      simp only [true_and, true_implies, ne_eq, hne, not_false_eq_true, eq_comm (b := feIsOdd r)]
      split_ifs with ho ho' ho'
      · exact iff_of_true rfl (iff_of_true ho ho')
      · exact iff_of_false hneg.symm fun h => ho' (h.mp ho)
      · exact iff_of_false hneg fun h => ho (h.mpr ho')
      · exact iff_of_true rfl (iff_of_false ho ho')

/-- Two accepted buffers of equal elements are encoded alike exactly if they are not at infinity, or
have the same flag, the same value modulo `p` and oddness bytes that pick the same root; an accepted
element survives the round trip. -/
theorem serialize_of_equals_iff (hp4 : p % 4 = 3) (hp : p ≤ 2 ^ 256) {buffer buffer' : List UInt8}
    {g g' : Gej p} (h : deserialize buffer = .ok g) (h' : deserialize buffer' = .ok g')
    (heq : g.equals g' = true) :
    (g.serialize = g'.serialize ↔ buffer.getD 33 0 = 0 ∨
      (buffer.getD 33 0 = buffer'.getD 33 0 ∧
        ofLeBytes (buffer.take 32).reverse ≡ ofLeBytes (buffer'.take 32).reverse [MOD p] ∧
        SameRoot p (ofLeBytes (buffer.take 32).reverse) (buffer.getD 32 0)
          (buffer'.getD 32 0))) ∧
    ∃ again : Gej p, deserialize g.serialize = .ok again ∧ again.equals g = true := by
  refine ⟨?_, deserialize_serialize hp4 hp h⟩
  obtain ⟨rfl, -⟩ := deserialize_eq_ok.mp h
  obtain ⟨rfl, -⟩ := deserialize_eq_ok.mp h'
  have hx : (decodeGe buffer : Ge p).x = (decodeGe buffer').x ↔
      ofLeBytes (buffer.take 32).reverse ≡ ofLeBytes (buffer'.take 32).reverse [MOD p] := by
    rw [decodeGe_x, decodeGe_x, feSetB32, feSetB32, ZMod.natCast_eq_natCast_iff]
  have hencoded : serialize (gejSetGe (decodeGe buffer : Ge p)) =
      serialize (gejSetGe (decodeGe buffer')) ↔ _ :=
    serialize_eq_iff hp (UInt8.toNat_lt _) (UInt8.toNat_lt _)
  have hodd : (decodeGe buffer : Ge p).x = (decodeGe buffer').x →
      (feIsOdd (decodeGe buffer : Ge p).y = feIsOdd (decodeGe buffer' : Ge p).y ↔
        SameRoot p (ofLeBytes (buffer.take 32).reverse) (buffer.getD 32 0)
          (buffer'.getD 32 0)) := by
    intro hxs
    rw [← feIsOdd_geSetXoVar_iff hp4]
    rw [decodeGe_x, decodeGe_x] at hxs
    unfold decodeGe
    dsimp only
    rw [← hxs]
    rfl
  rw [hencoded]
  simp only [decodeGe_infinity, UInt8.toNat_inj]
  constructor
  · rintro ⟨hxs, hys, hflag⟩
    exact .inr ⟨hflag, hx.mp hxs, (hodd hxs).mp hys⟩
  · rintro (hfinite | ⟨hflag, hxs, hroots⟩)
    · -- off infinity the elements are equal in their coordinates
      rw [equals_gejSetGe] at heq
      simp only [decodeGe_infinity, hfinite, UInt8.toNat_zero] at heq
      obtain ⟨hinf, -⟩ | ⟨hinf, hxs, hys⟩ := heq
      · exact absurd rfl hinf
      · refine ⟨hxs, by rw [hys], ?_⟩
        rw [hfinite, ← UInt8.toNat_inj, UInt8.toNat_zero, hinf]
    · exact ⟨hx.mpr hxs, (hodd (hx.mpr hxs)).mpr hroots, hflag⟩

/-- The buffer of the value `x`, an oddness byte and an infinity byte. -/
def smallBuffer (x oddness infinity : UInt8) : List UInt8 :=
  List.replicate 31 0 ++ [x, oddness, infinity]

local instance : Fact (Nat.Prime 11) := ⟨by norm_num⟩

/-- Modulo 11, the point `(2, 9)` also from the unreduced value 13, and two buffers at infinity with
the values 2 and 13 and the oddness bytes 0 and 2, which both pick the root 2. -/
theorem serialize_of_equals_iff_unreduced : ∃ g g' i i' again : Gej 11,
    deserialize (smallBuffer 2 1 0) = .ok g ∧ deserialize (smallBuffer 13 1 0) = .ok g' ∧
    g.serialize = g'.serialize ∧ deserialize g.serialize = .ok again ∧
    deserialize (smallBuffer 2 0 3) = .ok i ∧ deserialize (smallBuffer 13 2 3) = .ok i' ∧
    i.serialize = i'.serialize := by
  have h : deserialize (smallBuffer 2 1 0) = .ok (⟨2, 9, 1, 0⟩ : Gej 11) := by decide +kernel
  have h' : deserialize (smallBuffer 13 1 0) = .ok (⟨2, 9, 1, 0⟩ : Gej 11) := by decide +kernel
  have hi : deserialize (smallBuffer 2 0 3) = .ok (⟨2, 2, 1, 3⟩ : Gej 11) := by decide +kernel
  have hi' : deserialize (smallBuffer 13 2 3) = .ok (⟨2, 2, 1, 3⟩ : Gej 11) := by decide +kernel
  obtain ⟨hiff, again, hagain, -⟩ := serialize_of_equals_iff (by decide) (by norm_num) h h' rfl
  have hiff' := (serialize_of_equals_iff (by decide) (by norm_num) hi hi' rfl).1
  refine ⟨_, _, _, _, again, h, h', hiff.mpr (Or.inl rfl), hagain, hi, hi', ?_⟩
  refine hiff'.mpr (Or.inr ⟨rfl, by decide +kernel, fun _ _ => ?_⟩)
  decide +kernel

/-- Two buffers at infinity, with different flags, are equal elements with different
encodings. -/
theorem infinity_has_two_encodings : ∃ g g' : Gej fieldModulus,
    deserialize (smallBuffer 0 0 1) = .ok g ∧ deserialize (smallBuffer 0 0 2) = .ok g' ∧
    g.equals g' = true ∧ g.serialize ≠ g'.serialize := by
  have hone : (decodeGe (smallBuffer 0 0 1) : Ge fieldModulus).infinity = 1 := rfl
  have htwo : (decodeGe (smallBuffer 0 0 2) : Ge fieldModulus).infinity = 2 := rfl
  refine ⟨gejSetGe (decodeGe (smallBuffer 0 0 1)), gejSetGe (decodeGe (smallBuffer 0 0 2)),
    deserialize_eq_ok.mpr ⟨rfl, ?_⟩, deserialize_eq_ok.mpr ⟨rfl, ?_⟩, ?_, ?_⟩
  · rw [hone]
    exact fun h => absurd h (by decide)
  · rw [htwo]
    exact fun h => absurd h (by decide)
  · rw [equals_gejSetGe, hone, htwo]
    exact Or.inl ⟨by decide, by decide⟩
  · intro h
    have hflag := congrArg (fun l => l.getD 33 0) h
    simp only [(getD_serialize _).2, hone, htwo] at hflag
    exact absurd hflag (by decide)

end Gej

end Firo.Secp256k1
