/-
# Programs with a state, errors and undefined behaviour

A program reads and writes a state, and ends with a result, with an error, or with
neither: `none` is behaviour that the language leaves undefined, and a loop that has
run out of the rounds that it was given.

Two readings of a program are kept apart.  `Returns p s a s'` says that from `s` it ends
with the result `a` in the state `s'`, and is taken apart along the program
(`returns_bind`); what a program accepts is stated with it.  `Safely p s Q` says that
from `s` it is defined and that `Q` holds of every result, errors being allowed; its
rules (`safely_bind`, `Safely.mono`) are those of a weakest precondition.
-/

import Mathlib.Tactic.Common

namespace Basis

/-- A program; an error drops the state. -/
abbrev Program (σ ε α : Type) := StateT σ (ExceptT ε Option) α

namespace Program

variable {σ ε α β : Type}

/-- Undefined behaviour. -/
def undefined : Program σ ε α := fun _ => (none : Option (Except ε (α × σ)))

/-- The program returns. -/
def Returns (p : Program σ ε α) (s : σ) (a : α) (s' : σ) : Prop :=
  p s = (some (.ok (a, s')) : Option (Except ε (α × σ)))

/-- The program is defined, and what it returns meets `Q`. -/
def Safely (p : Program σ ε α) (s : σ) (Q : α → σ → Prop) : Prop :=
  ∃ r : Except ε (α × σ), p s = (some r : Option (Except ε (α × σ))) ∧
    ∀ a s', r = .ok (a, s') → Q a s'

variable {p : Program σ ε α} {f : α → Program σ ε β} {s s' : σ}

/-- What a sequence does, by what its first part does. -/
theorem bind_apply (p : Program σ ε α) (f : α → Program σ ε β) (s : σ) :
    (p >>= f) s = (match (p s : Option (Except ε (α × σ))) with
      | none => none
      | some (.error e) => some (.error e)
      | some (.ok (a, s')) => f a s' : Option (Except ε (β × σ))) := by
  show (ExceptT.bind (p s) _ : Option (Except ε (β × σ))) = _
  rw [ExceptT.bind, ExceptT.mk]
  cases h : (p s : Option (Except ε (α × σ))) with
  | none => rfl
  | some r => cases r <;> rfl

@[simp] theorem returns_pure {a b : α} :
    Returns (pure a : Program σ ε α) s b s' ↔ b = a ∧ s' = s := by
  constructor
  · intro h
    obtain ⟨rfl, rfl⟩ := Prod.mk.inj (Except.ok.inj (Option.some.inj h))
    exact ⟨rfl, rfl⟩
  · rintro ⟨rfl, rfl⟩
    rfl

@[simp] theorem returns_throw {e : ε} {a : α} :
    Returns (throw e : Program σ ε α) s a s' ↔ False :=
  ⟨fun h => (by cases Option.some.inj h), False.elim⟩

@[simp] theorem returns_undefined {a : α} :
    Returns (undefined : Program σ ε α) s a s' ↔ False :=
  ⟨fun h => (by cases h), False.elim⟩

/-- **A sequence returns** when its parts do. -/
theorem returns_bind {b : β} :
    Returns (p >>= f) s b s' ↔ ∃ a t, Returns p s a t ∧ Returns (f a) t b s' := by
  rw [Returns, bind_apply]
  constructor
  · intro h
    cases hp : (p s : Option (Except ε (α × σ))) with
    | none =>
        rw [hp] at h
        cases h
    | some r =>
        cases r with
        | error e =>
            rw [hp] at h
            cases Option.some.inj h
        | ok r =>
            rw [hp] at h
            exact ⟨r.1, r.2, hp, h⟩
  · rintro ⟨a, t, hp, hf⟩
    rw [Returns] at hp
    rw [hp]
    exact hf

theorem Returns.bind {a : α} {t : σ} {b : β} (hp : Returns p s a t) (hf : Returns (f a) t b s') :
    Returns (p >>= f) s b s' := returns_bind.2 ⟨a, t, hp, hf⟩

/-- A program that looks at its state first. -/
theorem returns_apply {g : σ → Program σ ε α} {a : α} :
    Returns (fun t => g t t) s a s' ↔ Returns (g s) s a s' := Iff.rfl

theorem safely_pure {a : α} {Q : α → σ → Prop} (h : Q a s) :
    Safely (pure a : Program σ ε α) s Q := by
  refine ⟨.ok (a, s), rfl, fun b t heq => ?_⟩
  obtain ⟨rfl, rfl⟩ := Prod.mk.inj (Except.ok.inj heq)
  exact h

theorem safely_throw (e : ε) (Q : α → σ → Prop) : Safely (throw e : Program σ ε α) s Q :=
  ⟨.error e, rfl, fun _ _ h => (by cases h)⟩

/-- **A sequence is safe** when its parts are, each from where the one before leads to. -/
theorem safely_bind {Q : β → σ → Prop} (h : Safely p s fun a t => Safely (f a) t Q) :
    Safely (p >>= f) s Q := by
  obtain ⟨r, hp, hsafe⟩ := h
  rw [Safely, bind_apply, hp]
  cases r with
  | error e => exact ⟨.error e, rfl, fun _ _ h => (by cases h)⟩
  | ok r => exact hsafe r.1 r.2 rfl

theorem safely_apply {g : σ → Program σ ε α} {Q : α → σ → Prop} (h : Safely (g s) s Q) :
    Safely (fun t => g t t) s Q := h

theorem Safely.mono {Q Q' : α → σ → Prop} (h : Safely p s Q) (hQ : ∀ a t, Q a t → Q' a t) :
    Safely p s Q' := by
  obtain ⟨r, hp, hsafe⟩ := h
  exact ⟨r, hp, fun a t heq => hQ a t (hsafe a t heq)⟩

/-- What a safe program returns. -/
theorem Safely.of_returns {Q : α → σ → Prop} (h : Safely p s Q) {a : α} (hp : Returns p s a s') :
    Q a s' := by
  obtain ⟨r, hr, hsafe⟩ := h
  rw [Returns] at hp
  rw [hp] at hr
  exact hsafe a s' (Option.some.inj hr).symm

end Program
end Basis
