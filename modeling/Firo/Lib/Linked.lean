import Mathlib

/-! A chain of records, newest first, in which a pointer is the key of a record and the back pointer
of a record is the next element of the list. -/
namespace Firo.Lib

variable {β κ : Type*} [DecidableEq κ] (key : β → κ)

/-- The records reached from the pointer `p` by following back pointers, the
record `p` points to first. -/
def below (p : κ) (l : List β) : List β :=
  l.dropWhile fun b => key b ≠ p

/-- The records visited from the head of the list down to the pointer `p`, both
ends included; `none` when the chain ends before `p`. -/
def upTo (p : κ) : List β → Option (List β)
  | [] => none
  | b :: l => if key b = p then some [b] else (upTo p l).map (b :: ·)

variable {key}

lemma below_append_cons {post rest} {b : β} (h : ∀ c ∈ post, key c ≠ key b) :
    below key (key b) (post ++ b :: rest) = b :: rest := by
  induction post with
  | nil => simp [below]
  | cons c post ih =>
    have hc : key c ≠ key b := h c List.mem_cons_self
    have ih := ih fun d hd => h d (List.mem_cons_of_mem _ hd)
    simpa [below, hc] using ih

lemma upTo_append_cons {seg rest} {b : β} (h : ∀ c ∈ seg, key c ≠ key b) :
    upTo key (key b) (seg ++ b :: rest) = some (seg ++ [b]) := by
  induction seg with
  | nil => simp [upTo]
  | cons c seg ih =>
    have hc : key c ≠ key b := h c List.mem_cons_self
    have ih := ih fun d hd => h d (List.mem_cons_of_mem _ hd)
    simp [upTo, hc, ih]

omit [DecidableEq κ] in
lemma key_ne_of_nodup {post rest} {b : β}
    (h : ((post ++ b :: rest).map key).Nodup) : ∀ c ∈ post, key c ≠ key b := by
  intro c hc he
  rw [List.map_append, List.map_cons, List.nodup_append] at h
  exact h.2.2 (key c) (List.mem_map_of_mem hc) (key b) List.mem_cons_self he

omit [DecidableEq κ] in
lemma split_unique {post post' rest rest'} {b : β} (hnodup : ((post ++ b :: rest).map key).Nodup)
    (h : post ++ b :: rest = post' ++ b :: rest') : post = post' ∧ rest = rest' := by
  have hb : b ∉ post := fun hmem => key_ne_of_nodup hnodup b hmem rfl
  have hb' : b ∉ post' := by
    rw [h] at hnodup
    exact fun hmem => key_ne_of_nodup hnodup b hmem rfl
  rcases List.append_eq_append_iff.mp h with ⟨l, hl, hr⟩ | ⟨l, hl, hr⟩
  · cases l with
    | nil => exact ⟨by simpa using hl.symm, by simpa using hr⟩
    | cons c l =>
      obtain ⟨rfl, -⟩ := List.cons.inj hr
      exact absurd (by rw [hl]; simp) hb'
  · cases l with
    | nil => exact ⟨by simpa using hl, by simpa using hr.symm⟩
    | cons c l =>
      obtain ⟨rfl, -⟩ := List.cons.inj hr
      exact absurd (by rw [hl]; simp) hb

end Firo.Lib
