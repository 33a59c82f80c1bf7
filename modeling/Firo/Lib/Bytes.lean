import Mathlib

/-! Little-endian numbers, and readers that take a value off the front of a byte string. A reader
`Reads` an encoding if it returns the value and leaves the rest, whatever the rest is; such
statements compose along `bind`, and equal streams then hold equal values. -/
namespace Firo.Lib

open List

/-- The `k` low bytes of `v`, the least significant first. -/
def leBytes : ℕ → ℕ → List UInt8
  | 0, _ => []
  | k + 1, v => UInt8.ofNat v :: leBytes k (v / 256)

def ofLeBytes : List UInt8 → ℕ
  | [] => 0
  | b :: bytes => b.toNat + 256 * ofLeBytes bytes

@[simp] lemma length_leBytes (k v : ℕ) : (leBytes k v).length = k := by
  induction k generalizing v with
  | zero => rfl
  | succ k ih => rw [leBytes, length_cons, ih]

lemma ofLeBytes_leBytes {k v : ℕ} (hv : v < 256 ^ k) : ofLeBytes (leBytes k v) = v := by
  induction k generalizing v with
  | zero =>
    rw [pow_zero] at hv
    exact (Nat.lt_one_iff.mp hv).symm
  | succ k ih =>
    have hhigh : v / 256 < 256 ^ k := by
      rw [pow_succ] at hv
      omega
    rw [leBytes, ofLeBytes, ih hhigh, UInt8.toNat_ofNat']
    omega

lemma leBytes_inj {k v v' : ℕ} (hv : v < 256 ^ k) (hv' : v' < 256 ^ k)
    (h : leBytes k v = leBytes k v') : v = v' := by
  rw [← ofLeBytes_leBytes hv, h, ofLeBytes_leBytes hv']

abbrev Reader (α : Type) := StateT (List UInt8) Option α

namespace Reader

variable {α : Type}

def bytes (k : ℕ) : Reader (List UInt8) := fun s =>
  if k ≤ s.length then some (s.take k, s.drop k) else none

def le (k : ℕ) : Reader ℕ := do
  let b ← bytes k
  pure (ofLeBytes b)

def times (p : Reader α) : ℕ → Reader (List α)
  | 0 => pure []
  | n + 1 => do
    let a ← p
    let l ← times p n
    pure (a :: l)

end Reader

/-- `p` reads `a` off `enc`, and nothing else. -/
def Reads {α : Type} (p : Reader α) (enc : List UInt8) (a : α) : Prop :=
  ∀ rest, p (enc ++ rest) = some (a, rest)

namespace Reads

variable {α β : Type} {p : Reader α}

lemma pure (a : α) : Reads (Pure.pure a) [] a := fun _ => rfl

lemma bind {enc enc'} {a : α} {f} {b : β}
    (h : Reads p enc a) (h' : Reads (f a) enc' b) : Reads (p >>= f) (enc ++ enc') b := by
  intro rest
  rw [append_assoc]
  change (p (enc ++ (enc' ++ rest))).bind (fun r => f r.1 r.2) = _
  rw [h, Option.bind_some]
  exact h' rest

lemma map {enc : List UInt8} {a : α} (h : Reads p enc a) (f : α → β) :
    Reads (p >>= fun a => Pure.pure (f a)) enc (f a) := by
  have hbind := h.bind (f := fun a => Pure.pure (f a)) (pure (f a))
  rwa [append_nil] at hbind

lemma bytes {enc : List UInt8} {k : ℕ} (h : enc.length = k) : Reads (Reader.bytes k) enc enc := by
  intro rest
  subst h
  simp [Reader.bytes]

lemma le {k v : ℕ} (h : v < 256 ^ k) : Reads (Reader.le k) (leBytes k v) v := by
  have hread := (bytes (length_leBytes k v)).map ofLeBytes
  rwa [ofLeBytes_leBytes h] at hread

lemma times {enc : α → List UInt8} {l : List α} (h : ∀ a ∈ l, Reads p (enc a) a) :
    Reads (Reader.times p l.length) (l.flatMap enc) l := by
  induction l with
  | nil => exact pure []
  | cons a l ih =>
    rw [forall_mem_cons] at h
    rw [flatMap_cons]
    exact h.1.bind ((ih h.2).map (a :: ·))

lemma inj {enc enc' rest rest'} {a a' : α} (h : Reads p enc a)
    (h' : Reads p enc' a') (heq : enc ++ rest = enc' ++ rest') : a = a' ∧ rest = rest' := by
  have hread := h rest
  rw [heq, h' rest'] at hread
  simp only [Option.some.injEq, Prod.mk.injEq] at hread
  exact ⟨hread.1.symm, hread.2.symm⟩

lemma flatMap_inj {enc : α → List UInt8} {l l' : List α}
    (h : ∀ a ∈ l, Reads p (enc a) a ∧ enc a ≠ []) (h' : ∀ a ∈ l', Reads p (enc a) a ∧ enc a ≠ [])
    (heq : l.flatMap enc = l'.flatMap enc) : l = l' := by
  induction l generalizing l' with
  | nil =>
    cases l' with
    | nil => rfl
    | cons a' l' =>
      rw [flatMap_nil, flatMap_cons, eq_comm, append_eq_nil_iff] at heq
      exact absurd heq.1 (h' a' mem_cons_self).2
  | cons a l ih =>
    rw [forall_mem_cons] at h
    cases l' with
    | nil =>
      rw [flatMap_nil, flatMap_cons, append_eq_nil_iff] at heq
      exact absurd heq.1 h.1.2
    | cons a' l' =>
      rw [forall_mem_cons] at h'
      rw [flatMap_cons, flatMap_cons] at heq
      obtain ⟨rfl, hrest⟩ := h.1.1.inj h'.1.1 heq
      rw [ih h.2 h'.2 hrest]

end Reads

end Firo.Lib
