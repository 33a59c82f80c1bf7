import Mathlib

/-! A validation routine is a sequence of checks, the first failed one of which decides the verdict.
`Except` is such a routine without effects; `EStateM` one whose effects stay when a later check
fails. -/
namespace Firo.Lib

section

variable {ε α β : Type}

/-- Fail with `e` when the condition holds. -/
def rejectIf (c : Bool) (e : ε) : Except ε Unit :=
  if c then .error e else .ok ()

@[simp] lemma rejectIf_false {e : ε} : rejectIf false e = .ok () :=
  rfl

@[simp] lemma rejectIf_eq_ok {c : Bool} {e : ε} {u} : rejectIf c e = .ok u ↔ c = false := by
  cases c <;> simp [rejectIf]

lemma except_bind_eq_ok {x : Except ε α} {f} {b : β} :
    (x >>= f) = .ok b ↔ ∃ a, x = .ok a ∧ f a = .ok b := by
  cases x with
  | error e => simp [bind, Except.bind]
  | ok a => simp [bind, Except.bind]

@[simp] lemma except_ok_bind {a : α} {f : α → Except ε β} : (.ok a >>= f) = f a :=
  rfl

def orReject (x : Option α) (e : ε) : Except ε α :=
  match x with
  | some a => .ok a
  | none => .error e

@[simp] lemma orReject_eq_ok {x} {e : ε} {a : α} : orReject x e = .ok a ↔ x = some a := by
  cases x <;> simp [orReject]

@[simp] lemma orReject_some {a : α} {e : ε} : orReject (some a) e = .ok a :=
  rfl

lemma orReject_eq_error {x : Option α} {e e' : ε} :
    orReject x e = .error e' ↔ x = none ∧ e' = e := by
  cases x <;> simp [orReject, eq_comm]

lemma except_toOption_eq_some {ε α} {x : Except ε α} {a : α} : x.toOption = some a ↔ x = .ok a := by
  cases x with
  | error e => exact ⟨nofun, nofun⟩
  | ok b => simp [Except.toOption]

lemma except_forM_eq_ok {l : List α} {f : α → Except ε Unit} {u : Unit} :
    l.forM f = .ok u ↔ ∀ a ∈ l, f a = .ok () := by
  induction l with
  | nil => simp [List.forM, pure, Except.pure]
  | cons a l ih =>
    change (f a >>= fun _ => l.forM f) = .ok u ↔ _
    simp only [except_bind_eq_ok, ih, List.forall_mem_cons]
    exact ⟨fun ⟨_, ha, hl⟩ => ⟨ha, hl⟩, fun ⟨ha, hl⟩ => ⟨(), ha, hl⟩⟩

end

section

variable {ε σ α β : Type}

def liftCheck (x : Except ε α) : EStateM ε σ α := fun s =>
  match x with
  | .ok a => .ok a s
  | .error e => .error e s

variable {x : Except ε α} {s s' : σ} {f : α → EStateM ε σ β}

lemma liftCheck_eq_ok {a : α} : liftCheck x s = .ok a s' ↔ x = .ok a ∧ s' = s := by
  cases x with
  | error e => simp [liftCheck]
  | ok b => simp [liftCheck, eq_comm]

lemma estate_bind_eq_ok {x} {b : β} :
    (x >>= f) s = .ok b s' ↔ ∃ a s₁, x s = .ok a s₁ ∧ f a s₁ = .ok b s' := by
  simp only [bind, EStateM.bind]
  cases x s with
  | error e s₁ => simp
  | ok a s₁ => simp

lemma estate_bind_eq_error {x} {e : ε} : (x >>= f) s = .error e s' ↔
      x s = .error e s' ∨ ∃ a s₁, x s = .ok a s₁ ∧ f a s₁ = .error e s' := by
  simp only [bind, EStateM.bind]
  cases x s with
  | error e s₁ => simp
  | ok a s₁ => simp

lemma liftCheck_eq_error {e : ε} : liftCheck x s = .error e s' ↔ x = .error e ∧ s' = s := by
  cases x with
  | error e => simp [liftCheck, eq_comm]
  | ok b => simp [liftCheck]

lemma estate_pure_eq_ok {a b : α} : (pure a : EStateM ε σ α) s = .ok b s' ↔ b = a ∧ s' = s := by
  simp [pure, EStateM.pure, eq_comm]

lemma estate_get_eq_ok {s s' s'' : σ} :
    (get : EStateM ε σ σ) s = .ok s' s'' ↔ s' = s ∧ s'' = s := by
  simp [get, getThe, MonadStateOf.get, EStateM.get, eq_comm]

lemma estate_set_eq_ok {s s' t : σ} {u} : (set t : EStateM ε σ PUnit) s = .ok u s' ↔ s' = t := by
  simp [set, MonadStateOf.set, EStateM.set, eq_comm]

lemma estate_modify_eq_ok {f} {u} : (modify f : EStateM ε σ PUnit) s = .ok u s' ↔ s' = f s := by
  simp [modify, modifyGet, MonadStateOf.modifyGet, EStateM.modifyGet, eq_comm]

lemma liftCheck_bind_eq_ok {b : β} :
    (liftCheck x >>= f) s = .ok b s' ↔ ∃ a, x = .ok a ∧ f a s = .ok b s' := by
  cases x with
  | error e => simp [bind, EStateM.bind, liftCheck]
  | ok a => simp [bind, EStateM.bind, liftCheck]

lemma liftCheck_bind_eq_error {e : ε} : (liftCheck x >>= f) s = .error e s' ↔
      (x = .error e ∧ s' = s) ∨ ∃ a, x = .ok a ∧ f a s = .error e s' := by
  cases x with
  | error e => simp [bind, EStateM.bind, liftCheck, eq_comm]
  | ok a => simp [bind, EStateM.bind, liftCheck]

lemma estate_bind_of_ok {x} {s s₁ : σ} {a : α} (h : x s = .ok a s₁) : (x >>= f) s = f a s₁ := by
  simp only [bind, EStateM.bind, h]

lemma get_bind_apply {f : σ → EStateM ε σ β} {s : σ} : (get >>= f) s = f s s := rfl

lemma set_bind_apply {f : PUnit → EStateM ε σ β} {s t : σ} : (set t >>= f) s = f ⟨⟩ t := rfl

lemma modify_bind_apply {g : σ → σ} {f : PUnit → EStateM ε σ β} {s : σ} :
    (modify g >>= f) s = f ⟨⟩ (g s) := rfl

/-- Whether it succeeds or fails, the routine leaves a state in `I` in `I`. -/
def Keeps (I : σ → Prop) (x : EStateM ε σ α) : Prop :=
  ∀ s, I s → (∀ a s', x s = .ok a s' → I s') ∧ ∀ e s', x s = .error e s' → I s'

/-- A routine that leaves the states in `I` only when it succeeds, and then for `J`. -/
def KeepsUntil (I J : σ → Prop) (x : EStateM ε σ α) : Prop :=
  ∀ s, I s → (∀ a s', x s = .ok a s' → J s') ∧ ∀ e s', x s = .error e s' → I s'

variable {I J : σ → Prop} {x y : EStateM ε σ α}

namespace KeepsUntil

lemma mono {J'} (hJ : ∀ s, J s → J' s) (hx : KeepsUntil I J x) : KeepsUntil I J' x := by
  intro s hs
  exact ⟨fun a s' h => hJ s' ((hx s hs).1 a s' h), (hx s hs).2⟩

lemma bind (hx : Keeps I x) (hf : ∀ a, KeepsUntil I J (f a)) : KeepsUntil I J (x >>= f) := by
  intro s hs
  constructor
  · intro b s' h
    obtain ⟨a, s₁, hxs, hfs⟩ := estate_bind_eq_ok.mp h
    exact (hf a s₁ ((hx s hs).1 a s₁ hxs)).1 b s' hfs
  · intro e s' h
    rcases estate_bind_eq_error.mp h with hxs | ⟨a, s₁, hxs, hfs⟩
    · exact (hx s hs).2 e s' hxs
    · exact (hf a s₁ ((hx s hs).1 a s₁ hxs)).2 e s' hfs

lemma liftCheck {y : Except ε α} (hy : ∀ a, y = .ok a → ∀ s, I s → J s) :
    KeepsUntil I J (liftCheck y) := by
  intro s hs
  refine ⟨fun a s' h => ?_, fun e s' h => ?_⟩
  · obtain ⟨ha, rfl⟩ := liftCheck_eq_ok.mp h
    exact hy a ha s' hs
  · exact (liftCheck_eq_error.mp h).2 ▸ hs

lemma liftCheck_bind {y} (hf : ∀ a, y = .ok a → KeepsUntil I J (f a)) :
    KeepsUntil I J (Lib.liftCheck y >>= f) := by
  cases y with
  | ok a => exact hf a rfl
  | error e =>
    intro s hs
    exact ⟨fun a s' h => (by cases h), fun e s' h => (EStateM.Result.error.inj h).2 ▸ hs⟩

lemma bind_of_ok {a : α} (hx : ∀ s, I s → ∃ s', x s = .ok a s' ∧ I s')
    (hf : KeepsUntil I J (f a)) : KeepsUntil I J (x >>= f) := by
  intro s hs
  obtain ⟨s', hrun, hs'⟩ := hx s hs
  rw [estate_bind_of_ok hrun]
  exact hf s' hs'

lemma modify {g} (hg : ∀ s, I s → J (g s)) : KeepsUntil I J (modify g : EStateM ε σ PUnit) := by
  intro s hs
  refine ⟨fun a s' h => ?_, fun e s' h => by cases h⟩
  exact estate_modify_eq_ok.mp h ▸ hg s hs

lemma ite {c} [Decidable c] (hx : KeepsUntil I J x) (hy : KeepsUntil I J y) :
    KeepsUntil I J (if c then x else y) := by
  split
  case isTrue => exact hx
  case isFalse => exact hy

end KeepsUntil

namespace Keeps

lemma bind (hx : Keeps I x) (hf : ∀ a, Keeps I (f a)) : Keeps I (x >>= f) :=
  KeepsUntil.bind hx hf

lemma liftCheck (y : Except ε α) : Keeps I (liftCheck y) :=
  KeepsUntil.liftCheck fun _ _ _ hs => hs

lemma liftCheck_bind {y} (hf : ∀ a, Keeps I (f a)) : Keeps I (Lib.liftCheck y >>= f) :=
  KeepsUntil.liftCheck_bind fun a _ => hf a

lemma modify {g} (hg : ∀ s, I s → I (g s)) : Keeps I (modify g : EStateM ε σ PUnit) :=
  KeepsUntil.modify hg

lemma pure (a : α) : Keeps I (pure a : EStateM ε σ α) := by
  intro s hs
  refine ⟨fun b s' h => ?_, fun e s' h => by cases h⟩
  exact (estate_pure_eq_ok.mp h).2 ▸ hs

lemma get : Keeps I (get : EStateM ε σ σ) := by
  intro s hs
  refine ⟨fun b s' h => ?_, fun e s' h => by cases h⟩
  exact (estate_get_eq_ok.mp h).2 ▸ hs

lemma ite {c} [Decidable c] (hx : Keeps I x) (hy : Keeps I y) : Keeps I (if c then x else y) :=
  KeepsUntil.ite hx hy

lemma set {t : σ} (ht : I t) : Keeps I (set t : EStateM ε σ PUnit) := by
  intro s _
  refine ⟨fun a s' h => ?_, fun e s' h => by cases h⟩
  exact estate_set_eq_ok.mp h ▸ ht

lemma get_bind {f : σ → EStateM ε σ β} (hf : ∀ s, I s → Keeps I (f s)) :
    Keeps I (MonadState.get >>= f) := by
  intro s hs
  exact hf s hs s hs

end Keeps

end

end Firo.Lib
