import Firo.Lib.Run

/-! A loop whose body goes on, leaves the loop, or fails. The rule for it takes an invariant and a
measure: the loop then leaves by itself when it has as many rounds as the measure allows. -/
namespace Firo.Lib

variable {σ α : Type*}

inductive Round (σ : Type*) where
  | more (s : σ)
  | stop (s : σ)
  | abort

def loop (body : σ → Round σ) : Nat → σ → Option σ
  | 0, _ => none
  | fuel + 1, s =>
    match body s with
    | .more s' => loop body fuel s'
    | .stop s' => some s'
    | .abort => none

/-- What every round of a loop does for an invariant, a measure and a condition on the end. -/
def Round.Meets (I : σ → Prop) (μ : σ → Nat) (J : σ → Prop) (bound : Nat) : Round σ → Prop
  | .more s => I s ∧ μ s < bound
  | .stop s => J s
  | .abort => False

lemma loop_spec {body} {I J} {μ} (hbody : ∀ s, I s → (body s).Meets I μ J (μ s)) {s : σ} (hs : I s)
    {fuel : Nat} (hfuel : μ s < fuel) : ∃ s', loop body fuel s = some s' ∧ J s' := by
  induction fuel generalizing s with
  | zero => exact absurd hfuel (Nat.not_lt_zero _)
  | succ fuel ih =>
    have hround := hbody s hs
    rw [loop]
    cases hb : body s with
    | more s' =>
      rw [hb] at hround
      exact ih hround.1 (by have := hround.2; omega)
    | stop s' =>
      rw [hb] at hround
      exact ⟨s', rfl, hround⟩
    | abort =>
      rw [hb] at hround
      exact hround.elim

/-- A loop never leaves an invariant under which every round goes on. -/
lemma loop_eq_none {body : σ → Round σ} {I : σ → Prop}
    (hbody : ∀ s, I s → ∃ s', body s = .more s' ∧ I s') {s : σ} (hs : I s) (fuel : Nat) :
    loop body fuel s = none := by
  induction fuel generalizing s with
  | zero => rfl
  | succ fuel ih =>
    obtain ⟨s', hb, hs'⟩ := hbody s hs
    rw [loop, hb]
    exact ih hs'

def Round.next : Round σ → Option σ
  | .more s => some s
  | .stop s => some s
  | .abort => none

abbrev Rounds (body : σ → Round σ) (ok : σ → Prop) (init : σ) : σ → Prop :=
  Reach (fun s (_ : Unit) => (body s).next) (fun s _ => ok s) init

lemma Rounds.of_loop {body} {ok} {init s s' : σ} (hok : ∀ s, ok s) (hs : Rounds body ok init s)
    {fuel : Nat} (h : loop body fuel s = some s') : Rounds body ok init s' := by
  induction fuel generalizing s with
  | zero => cases h
  | succ fuel ih =>
    rw [loop] at h
    cases hb : body s with
    | more s₁ =>
      rw [hb] at h
      exact ih (.step () hs (hok s) (by rw [hb]; rfl)) h
    | stop s₁ =>
      rw [hb] at h
      exact .step () hs (hok s) (by rw [hb]; exact h)
    | abort =>
      rw [hb] at h
      cases h

/-- An element that no other one is better than, for a strict order of the elements. -/
def bestBy (better : α → α → Bool) : List α → Option α
  | [] => none
  | a :: l =>
    match bestBy better l with
    | none => some a
    | some b => if better b a then some b else some a

lemma bestBy_mem {better} {l} {a : α} (h : bestBy better l = some a) : a ∈ l := by
  induction l generalizing a with
  | nil => cases h
  | cons x l ih =>
    rw [bestBy] at h
    cases hbest : bestBy better l with
    | none =>
      rw [hbest] at h
      exact Option.some.inj h ▸ List.mem_cons_self
    | some b =>
      rw [hbest] at h
      dsimp only at h
      split at h
      · exact Option.some.inj h ▸ List.mem_cons_of_mem _ (ih hbest)
      · exact Option.some.inj h ▸ List.mem_cons_self

end Firo.Lib
