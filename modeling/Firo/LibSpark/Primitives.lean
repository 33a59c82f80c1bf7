import Mathlib

/-! What the proof systems of `libspark` share: the Fiat-Shamir transcript of `transcript.cpp`, the
multi-exponentiation of `secp_primitives`, and vectors of scalars that hold a matrix row by row.
Scalars are a field and group elements a vector space over it. A vector read outside its bounds
gives zero; the checks of the callers exclude such reads. -/
namespace Firo.LibSpark

open List

variable {F G : Type}

inductive TranscriptItem (F G : Type) where
  | scalar (s : F)
  | scalars (ss : List F)
  | point (g : G)
  | points (gs : List G)
  | data (bytes : List UInt8)
  | datas (vectors : List (List UInt8))
  | challenge

/-- The state of a transcript is what it has included, under its labels. -/
structure Transcript (F G : Type) where
  domain : String
  items : List (String × TranscriptItem F G) := []

namespace Transcript

def add (t : Transcript F G) (label : String) (item : TranscriptItem F G) : Transcript F G :=
  { t with items := t.items ++ [(label, item)] }

/-- Produce a challenge, which becomes part of the transcript; `hash` is SHA-512 with the
counter that finds a valid scalar. -/
def challenge (hash : Transcript F G → F) (t : Transcript F G) (label : String) :
    F × Transcript F G :=
  let t := t.add label .challenge
  (hash t, t)

end Transcript

section

variable [Field F] [AddCommGroup G] [Module F G]

def TWO : F := 1 + 1

omit [AddCommGroup G] [Module F G] in
lemma TWO_eq : (TWO : F) = 2 :=
  one_add_one_eq_two

def multiExponent : List G → List F → G
  | g :: points, s :: scalars => s • g + multiExponent points scalars
  | _, _ => 0

@[simp] lemma multiExponent_nil (scalars : List F) : multiExponent ([] : List G) scalars = 0 := rfl

@[simp] lemma multiExponent_cons (g : G) (points : List G) (s : F) (scalars : List F) :
    multiExponent (g :: points) (s :: scalars) = s • g + multiExponent points scalars := rfl

lemma multiExponent_append {points points' : List G} {scalars scalars' : List F}
    (h : points.length = scalars.length) : multiExponent (points ++ points') (scalars ++ scalars') =
      multiExponent points scalars + multiExponent points' scalars' := by
  induction points generalizing scalars with
  | nil =>
    obtain rfl := length_eq_zero_iff.mp h.symm
    simp
  | cons g points ih =>
    obtain ⟨s, scalars, rfl⟩ := exists_cons_of_length_eq_add_one h.symm
    simp [ih (Nat.succ.inj h), add_assoc]

lemma multiExponent_eq_sum {k : ℕ} (points : List G) (scalars : List F)
    (h : points.length ≤ k) : multiExponent points scalars =
      ∑ i ∈ Finset.range k, scalars.getD i 0 • points.getD i 0 := by
  induction points generalizing scalars k with
  | nil => simp
  | cons g points ih =>
    obtain ⟨k, rfl⟩ : ∃ k', k = k' + 1 := ⟨k - 1, by simp at h; omega⟩
    rw [Finset.sum_range_succ']
    cases scalars with
    | nil => simp [multiExponent]
    | cons s scalars =>
      rw [multiExponent_cons, ih scalars (Nat.le_of_succ_le_succ h), add_comm]
      rfl

lemma multiExponent_replicate_zero (points : List G) (k : ℕ) :
    multiExponent points (replicate k (0 : F)) = 0 := by
  induction points generalizing k with
  | nil => rfl
  | cons g points ih =>
    cases k with
    | zero => rfl
    | succ k => rw [replicate_succ, multiExponent_cons, ih, zero_smul, zero_add]

lemma multiExponent_interleave (u v : ℕ → G) (a b : ℕ → F) (k : ℕ) :
    multiExponent ((List.range k).flatMap fun i => [u i, v i])
      ((List.range k).flatMap fun i => [a i, b i]) =
        ∑ i ∈ Finset.range k, a i • u i + ∑ i ∈ Finset.range k, b i • v i := by
  induction k with
  | zero => simp
  | succ k ih =>
    simp only [range_succ, flatMap_append]
    rw [multiExponent_append (by simp), ih, Finset.sum_range_succ, Finset.sum_range_succ]
    simp only [flatMap_singleton, multiExponent_cons, multiExponent_nil]
    abel

lemma multiExponent_map_range (u : ℕ → G) (a : ℕ → F) (k : ℕ) :
    multiExponent ((List.range k).map u) ((List.range k).map a) =
      ∑ i ∈ Finset.range k, a i • u i := by
  rw [multiExponent_eq_sum _ _ (show ((List.range k).map u).length ≤ k by simp)]
  apply Finset.sum_congr rfl
  intro i hi
  simp [Finset.mem_range.mp hi]

lemma multiExponent_modify_add (points : List G) (scalars : List F) (p : ℕ) (c : F)
    (hp : p < scalars.length) : multiExponent points (scalars.modify p (· + c)) =
      multiExponent points scalars + c • points.getD p 0 := by
  induction points generalizing scalars p with
  | nil => simp
  | cons g points ih =>
    obtain ⟨s, scalars, rfl⟩ := exists_cons_of_length_pos (by omega : 0 < scalars.length)
    cases p with
    | zero =>
      rw [modify_zero_cons, multiExponent_cons, multiExponent_cons, getD_cons_zero]
      module
    | succ p =>
      rw [modify_succ_cons, multiExponent_cons, multiExponent_cons, getD_cons_succ,
        ih scalars p (Nat.lt_of_succ_lt_succ hp), add_assoc]

end

lemma getD_modify_add {F : Type} [AddMonoid F] (l : List F) (p : ℕ) (c : F) {i : ℕ}
    (hi : i < l.length) : (l.modify p (· + c)).getD i 0 = l.getD i 0 + if p = i then c else 0 := by
  simp only [getD_eq_getElem?_getD, getElem?_modify, getElem?_eq_getElem hi]
  split <;> simp

section

variable [Field F]

/-- The powers `c`, `c ^ 2`, … that weight the statements of a proof. -/
def challengePowers (c : F) (n : ℕ) : List F :=
  (List.range n).map fun i => c ^ (i + 1)

@[simp] lemma length_challengePowers (c : F) (n : ℕ) : (challengePowers c n).length = n := by
  simp [challengePowers]

lemma zero_notMem_challengePowers {c : F} {n : ℕ} (hc : c ≠ 0) : 0 ∉ challengePowers c n := by
  simp only [challengePowers, mem_map, mem_range, not_exists, not_and]
  intro i _ hzero
  exact hc (eq_zero_of_pow_eq_zero hzero)

lemma zero_mem_challengePowers {c : F} {n : ℕ} (hn : 0 < n) : 0 ∈ challengePowers c n ↔ c = 0 := by
  constructor
  · intro hzero
    by_contra hc
    exact zero_notMem_challengePowers hc hzero
  · rintro rfl
    exact mem_map.mpr ⟨0, mem_range.mpr hn, by simp⟩

end

section

variable {α : Type*}

variable (m n : ℕ) (entry : ℕ → ℕ → α)

def rows : List α :=
  (List.range m).flatMap fun j => (List.range n).map (entry j)

@[simp] lemma length_rows : (rows m n entry).length = m * n := by
  simp [rows]

lemma rows_succ : rows (m + 1) n entry = rows m n entry ++ (List.range n).map (entry m) := by
  simp [rows, range_succ]

lemma getD_rows {m n j i : ℕ} (entry) (d : α) (hj : j < m) (hi : i < n) :
    (rows m n entry).getD (j * n + i) d = entry j i := by
  induction m with
  | zero => omega
  | succ m ih =>
    rw [rows_succ]
    by_cases hlt : j < m
    · have hindex : j * n + i < (rows m n entry).length := by
        have hmul : (j + 1) * n ≤ m * n := Nat.mul_le_mul_right n hlt
        rw [length_rows]
        rw [Nat.succ_mul] at hmul
        omega
      rw [getD_append _ _ _ _ hindex, ih hlt]
    · obtain rfl : j = m := by omega
      rw [getD_append_right _ _ _ _ (by simp), length_rows, Nat.add_sub_cancel_left]
      simp [hi]

end

end Firo.LibSpark
