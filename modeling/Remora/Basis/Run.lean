/-
# Runs of a deterministic machine

A machine is a step function `σ → ε → σ`: a state, an event, the next state.
A run feeds it a list of events.  `Along step P s es` says that `P` holds of
every event of the run, in the state the event meets, so it is a statement
about all prefixes of `es` at once (`along_iff_forall_split`).

The rule the rest of the development uses most is `along_iff_along`: two
step properties that agree wherever an invariant holds agree along whole
runs, and the invariant only has to survive the steps that keep the first
property.  A run can be watched by bookkeeping that the machine does not
have (`watch`); watching changes nothing that the machine sees (`along_watch`).
-/

import Mathlib.Data.List.Basic

namespace Basis

variable {σ ε γ : Type*}

/-- The state after the events `es`. -/
def run (step : σ → ε → σ) (s : σ) (es : List ε) : σ := es.foldl step s

@[simp] theorem run_nil (step : σ → ε → σ) (s : σ) : run step s [] = s := rfl

@[simp] theorem run_cons (step : σ → ε → σ) (s : σ) (e : ε) (es : List ε) :
    run step s (e :: es) = run step (step s e) es := rfl

theorem run_append (step : σ → ε → σ) (s : σ) (es fs : List ε) :
    run step s (es ++ fs) = run step (run step s es) fs := List.foldl_append

/-- `P` holds of every event of the run, in the state that the event meets. -/
def Along (step : σ → ε → σ) (P : σ → ε → Prop) : σ → List ε → Prop
  | _, [] => True
  | s, e :: es => P s e ∧ Along step P (step s e) es

instance Along.decidable (step : σ → ε → σ) (P : σ → ε → Prop) [∀ s e, Decidable (P s e)] :
    ∀ s es, Decidable (Along step P s es)
  | _, [] => isTrue trivial
  | s, e :: es => @instDecidableAnd _ _ _ (Along.decidable step P (step s e) es)

theorem along_append {step : σ → ε → σ} {P : σ → ε → Prop} {s : σ} {es fs : List ε} :
    Along step P s (es ++ fs) ↔ Along step P s es ∧ Along step P (run step s es) fs := by
  induction es generalizing s with
  | nil => simp [Along]
  | cons e es ih => simp [Along, ih, and_assoc]

/-- **Along a run is at every prefix.** -/
theorem along_iff_forall_split {step : σ → ε → σ} {P : σ → ε → Prop} {s : σ} {es : List ε} :
    Along step P s es ↔ ∀ pre e post, es = pre ++ e :: post → P (run step s pre) e := by
  constructor
  · rintro h pre e post rfl
    exact (along_append.1 h).2.1
  · induction es generalizing s with
    | nil => exact fun _ => trivial
    | cons e es ih =>
        intro h
        refine ⟨h [] e es rfl, ih fun pre f post hes => ?_⟩
        exact h (e :: pre) f post (by rw [hes, List.cons_append])

/-- An invariant of every step is an invariant of every run. -/
theorem run_invariant {step : σ → ε → σ} {I : σ → Prop} (hI : ∀ s e, I s → I (step s e))
    {s : σ} (hs : I s) (es : List ε) : I (run step s es) := by
  induction es generalizing s with
  | nil => exact hs
  | cons e es ih => exact ih (hI s e hs)

/-- An invariant of every allowed step is an invariant of every run of allowed steps. -/
theorem run_invariant_of_along {step : σ → ε → σ} {I : σ → Prop} {A : σ → ε → Prop}
    (hI : ∀ s e, I s → A s e → I (step s e)) {s : σ} (hs : I s) {es : List ε}
    (hA : Along step A s es) : I (run step s es) := by
  induction es generalizing s with
  | nil => exact hs
  | cons e es ih => exact ih (hI s e hs hA.1) hA.2

/-- An invariant of a partial machine: what every step that succeeds keeps holds
when the run succeeds. -/
theorem foldlM_invariant {step : σ → ε → Option σ} {I : σ → Prop}
    (hI : ∀ s e s', I s → step s e = some s' → I s') {s s' : σ} (hs : I s) {es : List ε}
    (h : es.foldlM step s = some s') : I s' := by
  induction es generalizing s with
  | nil => exact Option.some.inj h ▸ hs
  | cons e es ih =>
      rw [List.foldlM_cons] at h
      obtain ⟨t, ht, h⟩ := Option.bind_eq_some_iff.1 h
      exact ih (hI s e t hs ht) h

/-- A partial machine runs to the end when every event finds a next state wherever
the invariant holds. -/
theorem exists_foldlM_of_forall {step : σ → ε → Option σ} {I : σ → Prop} {es : List ε}
    (hI : ∀ e ∈ es, ∀ s, I s → ∃ s', step s e = some s' ∧ I s') {s : σ} (hs : I s) :
    ∃ s', es.foldlM step s = some s' ∧ I s' := by
  induction es generalizing s with
  | nil => exact ⟨s, rfl, hs⟩
  | cons e es ih =>
      obtain ⟨t, ht, hIt⟩ := hI e (List.mem_cons_self ..) s hs
      obtain ⟨s', hs', hIs'⟩ := ih (fun e he => hI e (List.mem_cons_of_mem _ he)) hIt
      exact ⟨s', by rw [List.foldlM_cons, ht]; exact hs', hIs'⟩

/-- What holds of every allowed event in every state an invariant allows holds
along every run of allowed events. -/
theorem along_of_invariant {step : σ → ε → σ} {I : σ → Prop} {A P : σ → ε → Prop}
    (hI : ∀ s e, I s → A s e → I (step s e)) (hP : ∀ s e, I s → A s e → P s e) {s : σ} (hs : I s)
    {es : List ε} (hA : Along step A s es) : Along step P s es := by
  induction es generalizing s with
  | nil => trivial
  | cons e es ih => exact ⟨hP s e hs hA.1, ih (hI s e hs hA.1) hA.2⟩

/-- What holds of each event alone holds along the run. -/
theorem along_of_forall {step : σ → ε → σ} {A : ε → Prop} {s : σ} {es : List ε}
    (h : ∀ e ∈ es, A e) : Along step (fun _ e => A e) s es :=
  along_iff_forall_split.2 fun _ e _ hes => h e (by simp [hes])

/-- **Agreement along runs.**  Where an invariant holds, `P` and `Q` say the
same of the next event, and a step that keeps `P` keeps the invariant.  Then a
run keeps `P` throughout exactly when it keeps `Q` throughout: before the first
violation of either the invariant has not been lost. -/
theorem along_iff_along {step : σ → ε → σ} {I : σ → Prop} {P Q : σ → ε → Prop}
    (hPQ : ∀ s e, I s → (P s e ↔ Q s e)) (hI : ∀ s e, I s → P s e → I (step s e))
    {s : σ} (hs : I s) (es : List ε) : Along step P s es ↔ Along step Q s es := by
  induction es generalizing s with
  | nil => exact Iff.rfl
  | cons e es ih =>
      constructor
      · rintro ⟨hP, hes⟩
        exact ⟨(hPQ s e hs).1 hP, (ih (hI s e hs hP)).1 hes⟩
      · rintro ⟨hQ, hes⟩
        have hP := (hPQ s e hs).2 hQ
        exact ⟨hP, (ih (hI s e hs hP)).2 hes⟩

/-- The machine together with bookkeeping `g`, which sees the state before the
step and the event. -/
def watch (step : σ → ε → σ) (g : σ → ε → γ → γ) (s : σ × γ) (e : ε) : σ × γ :=
  (step s.1 e, g s.1 e s.2)

@[simp] theorem watch_fst (step : σ → ε → σ) (g : σ → ε → γ → γ) (s : σ × γ) (e : ε) :
    (watch step g s e).1 = step s.1 e := rfl

@[simp] theorem watch_snd (step : σ → ε → σ) (g : σ → ε → γ → γ) (s : σ × γ) (e : ε) :
    (watch step g s e).2 = g s.1 e s.2 := rfl

theorem run_watch_fst (step : σ → ε → σ) (g : σ → ε → γ → γ) (s : σ × γ) (es : List ε) :
    (run (watch step g) s es).1 = run step s.1 es := by
  induction es generalizing s with
  | nil => rfl
  | cons e es ih => exact ih (watch step g s e)

/-- A property of the machine alone holds along the watched run when it holds
along the run. -/
theorem along_watch (step : σ → ε → σ) (g : σ → ε → γ → γ) (P : σ → ε → Prop) (s : σ × γ)
    (es : List ε) : Along (watch step g) (fun s e => P s.1 e) s es ↔ Along step P s.1 es := by
  induction es generalizing s with
  | nil => exact Iff.rfl
  | cons e es ih => exact and_congr_right fun _ => ih (watch step g s e)

/-- A property of bookkeeping that runs on its own holds along the watched run when
it holds along the run of the bookkeeping. -/
theorem along_watch_snd (step : σ → ε → σ) (f : γ → ε → γ) (P : γ → ε → Prop) (s : σ × γ)
    (es : List ε) :
    Along (watch step fun _ e g => f g e) (fun s e => P s.2 e) s es ↔ Along f P s.2 es := by
  induction es generalizing s with
  | nil => exact Iff.rfl
  | cons e es ih => exact and_congr_right fun _ => ih (watch step (fun _ e g => f g e) s e)

end Basis
