/-
# Waiting on a stopped core

`IAP_tftp_process_write` resets core 1 wherever it stands.  A run of the base
thread holds `baseThread->semaphore` from before its first module to after its
last, and nobody but the run clears it then: a reset that lands in between leaves
the flag set, with no core to clear it, and the next read or write that core 0
receives waits for ever (`callback_of_stuck`).  The rest of the upload is lost with
it, since core 0 is also the TFTP server.
-/

import Remora.Motion.Cores

namespace Remora

open Basis

namespace Cores

/-- With core 1 stopped and core 0 not between its own set and clear, the flag is
free, and the wait of a callback ends at once. -/
def Freed (s : Cores) : Prop :=
  s.run = .stopped → s.callback.place ≠ .inside →
    s.semaphore = false ∧ ∀ r, s.callback = .wait r → (s.step .core0).callback = .set r

/-- A write request does not find core 1 inside a run with the flag set. -/
def StopsOutside (s : Cores) (e : CoreEvent) : Prop :=
  e = .writeRequest → s.callback = .out → s.run.place = .inside → s.semaphore = false

theorem held_start (n : ℕ) : (start n).lock.Held := fun h => absurd h (by simp [start])

/-- A flag with a party inside is free once core 1 has stopped and core 0 is outside. -/
theorem freed_of_held {s : Cores} (h : s.lock.Held) : s.Freed := by
  intro hrun hcallback
  have hfree : s.semaphore = false := by
    by_contra hset
    obtain ⟨c, hc⟩ := h (by simpa using hset)
    cases c with
    | core0 => exact hcallback hc
    | core1 =>
        rw [place_lock_core1, hrun] at hc
        cases hc
  refine ⟨hfree, fun r hr => ?_⟩
  simp [step, callbackStep, hr, hfree]

/-- Only a request that lands inside a run takes the holder of the flag away. -/
theorem held_step {s : Cores} (h : s.lock.Held) {e : CoreEvent} (he : s.StopsOutside e) :
    (s.step e).lock.Held := by
  rw [lock_step]
  cases hm : s.lockMove e with
  | none => exact h
  | some m =>
      refine h.move fun c hc hinside => ?_
      subst hc
      cases e with
      | datagram r => simp [lockMove] at hm
      | writeRequest =>
          simp only [lockMove, Option.ite_none_right_eq_some, Option.some.injEq,
            TestThenSet.Move.stop.injEq] at hm
          obtain ⟨hout, rfl⟩ := hm
          exact he rfl hout hinside
      | tick => simp [lockMove] at hm
      | core0 => rw [lockMove] at hm; split at hm <;> simp at hm
      | core1 => rw [lockMove] at hm; split at hm <;> simp at hm

/-- An event leaves the flag free for core 0 exactly when it is no request that
lands inside a run. -/
theorem freed_step_iff {s : Cores} (h : s.lock.Held) (e : CoreEvent) :
    (s.step e).Freed ↔ s.StopsOutside e := by
  constructor
  · rintro hfreed rfl hout -
    have hstep : s.step .writeRequest = { s with run := .stopped } := if_pos hout
    rw [hstep] at hfreed
    exact (hfreed rfl (by simp [hout, CallbackAt.place])).1
  · exact fun he => freed_of_held (held_step h he)

/-- **Core 0 is never left waiting on a stopped core** exactly when no write
request finds core 1 inside a run with the flag set. -/
theorem freed_along_iff (n : ℕ) (es : List CoreEvent) :
    Along step (fun s e => (s.step e).Freed) (start n) es ↔
      Along step StopsOutside (start n) es :=
  along_iff_along (I := fun s => s.lock.Held) (fun _ e h => freed_step_iff h e)
    (fun _ e h he => held_step h ((freed_step_iff h e).1 he)) (held_start n) es

/-- A callback that waits for a flag that a stopped core holds. -/
def Stuck (s : Cores) : Prop :=
  s.run = .stopped ∧ s.semaphore = true ∧ ∃ r, s.callback = .wait r

theorem Stuck.step {s : Cores} (h : s.Stuck) (e : CoreEvent) : (s.step e).Stuck := by
  obtain ⟨hrun, hset, r, hr⟩ := h
  have hstep : s.step e = s := by
    cases e <;> simp [Cores.step, callbackStep, runStep, hrun, hset, hr]
  rw [hstep]
  exact ⟨hrun, hset, r, hr⟩

/-- **It waits for ever**, whatever happens next. -/
theorem callback_of_stuck {s : Cores} (h : s.Stuck) (es : List CoreEvent) :
    ∃ r, (Basis.run step s es).callback = .wait r :=
  (run_invariant (I := Stuck) (fun _ e hs => Stuck.step hs e) h es).2.2

/-- A run of one generator, stopped before its walk, and a read after that. -/
theorem not_freed_along :
    ¬Along step (fun s e => (s.step e).Freed) (start 1)
      [.tick, .core1, .core1, .core1, .writeRequest, .datagram .PRU_READ, .core0, .core0] := by
  rintro ⟨-, -, -, -, h, -⟩
  exact absurd (h rfl (by decide)).1 (by decide)

end Cores
end Remora
