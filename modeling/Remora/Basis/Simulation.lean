/-
# Simulation with silent steps

A machine may take several steps for one of another machine, which says what it is for.
An event of the first then shows as an event of the second, or as none (`shows`).  When
the states stay related (`Simulates`), the events that a run shows are a run of the
second machine with a related end (`Simulates.run`), and what every event of the run
keeps to, every event that it shows keeps to (`Simulates.along`).

`countAlong` counts the events of a kind.  A run with more than `n` of them can be cut
at the next one after the first `n` (`exists_split_of_lt_countAlong`).
-/

import Remora.Basis.Run

namespace Basis

variable {σ ε τ δ : Type*}

section Simulates

variable (step : σ → ε → σ) (step' : τ → δ → τ) (shows : σ → ε → Option δ) (R : σ → τ → Prop)

/-- The events that a run shows. -/
def trace : σ → List ε → List δ
  | _, [] => []
  | s, e :: es => (shows s e).toList ++ trace (step s e) es

/-- A step keeps the states related. -/
def Simulates : Prop := ∀ s t e, R s t → R (step s e) (run step' t (shows s e).toList)

variable {step step' shows R} {s : σ} {t : τ}

/-- **A run is simulated** by what it shows. -/
theorem Simulates.run (h : Simulates step step' shows R) (hR : R s t) (es : List ε) :
    R (Basis.run step s es) (Basis.run step' t (trace step shows s es)) := by
  induction es generalizing s t with
  | nil => exact hR
  | cons e es ih =>
      rw [trace, run_append, run_cons]
      exact ih (h s t e hR)

/-- What a run keeps to is kept to by what it shows. -/
theorem Simulates.along {P : σ → ε → Prop} {Q : τ → δ → Prop}
    (h : Simulates step step' shows R)
    (hPQ : ∀ s t e d, R s t → shows s e = some d → P s e → Q t d) (hR : R s t) {es : List ε}
    (hP : Along step P s es) : Along step' Q t (trace step shows s es) := by
  induction es generalizing s t with
  | nil => trivial
  | cons e es ih =>
      refine along_append.2 ⟨?_, ih (h s t e hR) hP.2⟩
      cases hd : shows s e with
      | none => trivial
      | some d => exact ⟨hPQ s t e d hR hd hP.1, trivial⟩

end Simulates

/-- The events of a run for which `p` holds in the state that they meet. -/
def countAlong (step : σ → ε → σ) (p : σ → ε → Bool) : σ → List ε → ℕ
  | _, [] => 0
  | s, e :: es => (p s e).toNat + countAlong step p (step s e) es

variable {step : σ → ε → σ} {p : σ → ε → Bool} {s : σ}

theorem countAlong_append (es fs : List ε) : countAlong step p s (es ++ fs) =
    countAlong step p s es + countAlong step p (run step s es) fs := by
  induction es generalizing s with
  | nil => exact (Nat.zero_add _).symm
  | cons e es ih => rw [List.cons_append, countAlong, countAlong, ih, Nat.add_assoc, run_cons]

/-- **The next event of the kind** after the first `n`. -/
theorem exists_split_of_lt_countAlong {n : ℕ} {es : List ε} (h : n < countAlong step p s es) :
    ∃ pre e post, es = pre ++ e :: post ∧ p (run step s pre) e = true ∧
      countAlong step p s pre = n := by
  induction es generalizing s n with
  | nil => exact absurd h (Nat.not_lt_zero n)
  | cons e es ih =>
      rw [countAlong] at h
      cases hp : p s e with
      | false =>
          rw [hp, Bool.toNat_false, Nat.zero_add] at h
          obtain ⟨pre, e', post, rfl, he', hn⟩ := ih h
          exact ⟨e :: pre, e', post, rfl, he', by rw [countAlong, hp, hn]; exact Nat.zero_add n⟩
      | true =>
          cases n with
          | zero => exact ⟨[], e, es, rfl, hp, rfl⟩
          | succ n =>
              rw [hp, Bool.toNat_true] at h
              obtain ⟨pre, e', post, rfl, he', hn⟩ := ih (s := step s e) (n := n) (by omega)
              exact ⟨e :: pre, e', post, rfl, he', by
                rw [countAlong, hp, hn]; exact Nat.add_comm 1 n⟩

end Basis
