/-
# Start-up

`udpServerInit` arms `udp_data_callback` before `main` launches core 1, and core 1
creates `baseThread` and `comms` in the course of its `ST_SETUP`, behind the flash
read and the parsing of the configuration.  Nothing makes core 0 wait for that: a
read or a write from a host that is already running goes through pointers that are
still null.  It is enough that the host keeps quiet until core 1 is past its sixth
statement (`farEnough_along_of_late`).

Core 1 is a list of statements here, with the number of those it has executed;
core 0 is in its loop or at a statement of the callback that goes through a pointer.
A pointer is an `Option`, and a step through `none` has no outcome.  What the
statements do besides creating objects is left out, as is what core 0 copies.
-/

import Remora.Basis.Run
import Remora.Motion.Cores
import Remora.Motion.RemoraComms

namespace Remora

open Basis

/-- `class pruThread`, as the callback sees it. -/
structure PruThread where
  semaphore : Bool

/-- A statement of `ST_SETUP` or `ST_START`. -/
inductive SetupStatement where
  | jsonFromFlash
  | deserialiseJSON
  | configThreads
  | newBaseThread
  | newServoThread
  | newComms
  | registerComms
  | loadModule
  | startBaseThread
  | startServoThread
  deriving DecidableEq

/-- `core1_entry` up to `ST_IDLE`, with `modules` entries that create a module. -/
def setupStatements (modules : ℕ) : List SetupStatement :=
  [.jsonFromFlash, .deserialiseJSON, .configThreads, .newBaseThread, .newServoThread, .newComms,
    .registerComms] ++ (List.replicate modules .loadModule ++ [.startBaseThread, .startServoThread])

/-- The next statement of the callback that goes through a pointer, `out` when core
0 is in its loop. -/
inductive HandlerAt where
  | out
  /-- `while (baseThread->semaphore)` -/
  | wait
  /-- `baseThread->semaphore = true` -/
  | set
  /-- `baseThread->semaphore = false` -/
  | clear
  /-- `comms->dataReceived()` -/
  | dataReceived
  deriving DecidableEq

/-- The two cores during start-up.  `heap` is what the memory holds that `comms` is
given: its constructor sets no field. -/
structure Boot where
  setup : List SetupStatement
  executed : ℕ
  baseThread : Option PruThread
  servoThread : Option PruThread
  comms : Option RemoraComms
  heap : RemoraComms
  handler : HandlerAt

/-- What happens next. -/
inductive BootEvent where
  /-- Core 0, back in its loop, receives a read or a write. -/
  | datagram (r : Request)
  | core0
  | core1
  /-- A run of the base thread sets or clears the flag. -/
  | run (semaphore : Bool)
  deriving DecidableEq

namespace Boot

/-- Both cores after `multicore_launch_core1`. -/
def launch (modules : ℕ) (heap : RemoraComms) : Boot where
  setup := setupStatements modules
  executed := 0
  baseThread := none
  servoThread := none
  comms := none
  heap := heap
  handler := .out

/-- What a statement of core 1 does, `none` through a null pointer. -/
def execute (s : Boot) : SetupStatement → Option Boot
  | .newBaseThread => some { s with baseThread := some ⟨false⟩ }
  | .newServoThread => some { s with servoThread := some ⟨false⟩ }
  | .newComms => some { s with comms := some s.heap }
  | .registerComms | .startServoThread => s.servoThread.map fun _ => s
  | .loadModule => s.baseThread.bind fun _ => s.servoThread.map fun _ => s
  | .startBaseThread => s.baseThread.map fun _ => s
  | .jsonFromFlash | .deserialiseJSON | .configThreads => some s

/-- The next statement of core 1. -/
def core1Next (s : Boot) : Option Boot :=
  match s.setup[s.executed]? with
  | some st => (s.execute st).map fun s => { s with executed := s.executed + 1 }
  | none => some s

/-- The next statement of core 0, `none` through a null pointer. -/
def core0Next (s : Boot) : Option Boot :=
  match s.handler with
  | .out => some s
  | .wait => s.baseThread.map fun t => if t.semaphore then s else { s with handler := .set }
  | .set => s.baseThread.map fun _ => { s with baseThread := some ⟨true⟩, handler := .clear }
  | .clear =>
      s.baseThread.map fun _ => { s with baseThread := some ⟨false⟩, handler := .dataReceived }
  | .dataReceived =>
      s.comms.map fun c => { s with comms := some c.dataReceived, handler := .out }

/-- The state after an event, `none` when it goes through a null pointer. -/
def next (s : Boot) : BootEvent → Option Boot
  | .datagram _ => some (if s.handler = .out then { s with handler := .wait } else s)
  | .core0 => s.core0Next
  | .core1 => s.core1Next
  | .run semaphore =>
      if .startBaseThread ∈ s.setup.take s.executed then
        s.baseThread.map fun _ => { s with baseThread := some ⟨semaphore⟩ }
      else some s

/-- The state after an event; where there is none the machine stays. -/
def step (s : Boot) (e : BootEvent) : Boot := (s.next e).getD s

/-- The callback does not go through a null pointer. -/
def UsesCreated (s : Boot) (e : BootEvent) : Prop := e = .core0 → s.next e ≠ none

/-- Core 1 is far enough: past its fourth statement when core 0 is at the flag, past
its sixth when core 0 is at `comms`. -/
def FarEnough (s : Boot) (e : BootEvent) : Prop :=
  e = .core0 →
    match s.handler with
    | .out => True
    | .wait | .set | .clear => 4 ≤ s.executed
    | .dataReceived => 6 ≤ s.executed

/-- What has been created, by the number of statements executed. -/
structure Created (modules : ℕ) (s : Boot) : Prop where
  setup : s.setup = setupStatements modules
  baseThread : s.baseThread ≠ none ↔ 4 ≤ s.executed
  servoThread : s.servoThread ≠ none ↔ 5 ≤ s.executed
  comms : s.comms ≠ none ↔ 6 ≤ s.executed

theorem created_launch (modules : ℕ) (heap : RemoraComms) :
    Created modules (launch modules heap) where
  setup := rfl
  baseThread := by simp [launch]
  servoThread := by simp [launch]
  comms := by simp [launch]

/-- **The callback goes through no null pointer** exactly when core 1 is far enough. -/
theorem usesCreated_iff {modules : ℕ} {s : Boot} (h : Created modules s) (e : BootEvent) :
    s.UsesCreated e ↔ s.FarEnough e := by
  refine imp_congr_right fun he => ?_
  rw [he, next, core0Next]
  cases s.handler <;> simp [← h.baseThread, ← h.comms]

/-- The statements that create what the callback uses are the fourth, the fifth and
the sixth. -/
theorem statement_cases {modules k : ℕ} {st : SetupStatement}
    (hst : (setupStatements modules)[k]? = some st) :
    k = 3 ∧ st = .newBaseThread ∨ k = 4 ∧ st = .newServoThread ∨ k = 5 ∧ st = .newComms ∨
      (k ≠ 3 ∧ k ≠ 4 ∧ k ≠ 5) ∧ st ≠ .newBaseThread ∧ st ≠ .newServoThread ∧ st ≠ .newComms := by
  by_cases hk : k < 7
  · have hhead : k = 0 ∨ k = 1 ∨ k = 2 ∨ k = 3 ∨ k = 4 ∨ k = 5 ∨ k = 6 := by omega
    rcases hhead with rfl | rfl | rfl | rfl | rfl | rfl | rfl <;>
      · obtain rfl := Option.some.inj hst
        decide
  · have hlen : ([.jsonFromFlash, .deserialiseJSON, .configThreads, .newBaseThread,
        .newServoThread, .newComms, .registerComms] : List SetupStatement).length ≤ k := by
      simpa using hk
    rw [setupStatements, List.getElem?_append_right hlen] at hst
    have hmem := List.mem_of_getElem? hst
    simp only [List.mem_append, List.mem_replicate, List.mem_cons, List.not_mem_nil,
      or_false] at hmem
    refine Or.inr (Or.inr (Or.inr ⟨by omega, ?_⟩))
    rcases hmem with ⟨-, rfl⟩ | rfl | rfl <;> decide

/-- A statement that creates none of the three leaves the pointers as they are. -/
theorem execute_of_ne {s t : Boot} {st : SetupStatement} (h : s.execute st = some t)
    (hb : st ≠ .newBaseThread) (hs : st ≠ .newServoThread) (hc : st ≠ .newComms) : t = s := by
  cases st with
  | newBaseThread => exact absurd rfl hb
  | newServoThread => exact absurd rfl hs
  | newComms => exact absurd rfl hc
  | loadModule =>
      obtain ⟨-, -, h⟩ := Option.bind_eq_some_iff.1 h
      obtain ⟨-, -, h⟩ := Option.map_eq_some_iff.1 h
      exact h.symm
  | registerComms | startServoThread | startBaseThread =>
      obtain ⟨-, -, h⟩ := Option.map_eq_some_iff.1 h
      exact h.symm
  | jsonFromFlash | deserialiseJSON | configThreads => exact (Option.some.inj h).symm

/-- **A statement of core 1** creates what its number says. -/
theorem created_core1 {modules : ℕ} {s : Boot} (h : Created modules s) :
    Created modules (s.step .core1) := by
  rw [step, next, core1Next]
  cases hst : s.setup[s.executed]? with
  | none => exact h
  | some st =>
      cases ht : s.execute st with
      | none => simpa [ht] using h
      | some t =>
          rw [h.setup] at hst
          simp only [ht, Option.map_some, Option.getD_some]
          rcases statement_cases hst with ⟨hk, rfl⟩ | ⟨hk, rfl⟩ | ⟨hk, rfl⟩ | ⟨hk, hb, hs, hc⟩
          · obtain rfl := Option.some.inj ht
            exact ⟨h.setup, by simp [hk], by simp [h.servoThread, hk], by simp [h.comms, hk]⟩
          · obtain rfl := Option.some.inj ht
            exact ⟨h.setup, by simp [h.baseThread, hk], by simp [hk], by simp [h.comms, hk]⟩
          · obtain rfl := Option.some.inj ht
            exact ⟨h.setup, by simp [h.baseThread, hk], by simp [h.servoThread, hk], by simp [hk]⟩
          · rw [execute_of_ne ht hb hs hc]
            exact ⟨h.setup, by simp [h.baseThread]; omega, by simp [h.servoThread]; omega,
              by simp [h.comms]; omega⟩

/-- What core 0 does to an object, it does to one that is there. -/
theorem created_core0 {modules : ℕ} {s : Boot} (h : Created modules s) :
    Created modules (s.step .core0) := by
  rw [step, next, core0Next]
  cases hh : s.handler with
  | out => exact h
  | wait =>
      cases hb : s.baseThread with
      | none => exact h
      | some t =>
          simp only [Option.map_some, Option.getD_some]
          split_ifs
          · exact h
          · exact ⟨h.setup, by simp [← h.baseThread, hb], h.servoThread, h.comms⟩
  | set | clear =>
      cases hb : s.baseThread with
      | none => exact h
      | some t => exact ⟨h.setup, by simp [← h.baseThread, hb], h.servoThread, h.comms⟩
  | dataReceived =>
      cases hc : s.comms with
      | none => exact h
      | some c => exact ⟨h.setup, h.baseThread, h.servoThread, by simp [← h.comms, hc]⟩

theorem created_step {modules : ℕ} {s : Boot} (h : Created modules s) (e : BootEvent) :
    Created modules (s.step e) := by
  cases e with
  | datagram r =>
      rw [step, next, Option.getD_some]
      split_ifs
      · exact ⟨h.setup, h.baseThread, h.servoThread, h.comms⟩
      · exact h
  | core0 => exact created_core0 h
  | core1 => exact created_core1 h
  | run semaphore =>
      rw [step, next]
      split_ifs
      · cases hb : s.baseThread with
        | none => exact h
        | some t => exact ⟨h.setup, by simp [← h.baseThread, hb], h.servoThread, h.comms⟩
      · exact h

/-- Core 1 itself goes through no null pointer: the threads are there before the
first statement that registers a module. -/
theorem core1_ne_none {modules : ℕ} {s : Boot} (h : Created modules s) : s.next .core1 ≠ none := by
  rw [next, core1Next]
  cases hst : s.setup[s.executed]? with
  | none => simp
  | some st =>
      simp only [ne_eq, Option.map_eq_none_iff]
      by_cases hk : 5 ≤ s.executed
      · obtain ⟨b, hb⟩ := Option.ne_none_iff_exists'.1 (h.baseThread.2 (by omega))
        obtain ⟨v, hv⟩ := Option.ne_none_iff_exists'.1 (h.servoThread.2 hk)
        cases st <;> simp [execute, hb, hv]
      · rw [h.setup] at hst
        have hhead : s.executed = 0 ∨ s.executed = 1 ∨ s.executed = 2 ∨ s.executed = 3 ∨
            s.executed = 4 := by omega
        rcases hhead with hk | hk | hk | hk | hk <;>
          · rw [hk] at hst
            obtain rfl := Option.some.inj hst
            simp [execute]

/-- **The callback uses no object before core 1 has created it** exactly when core 1
is past its fourth statement whenever core 0 is at the flag, and past its sixth
whenever core 0 is at `comms`. -/
theorem usesCreated_along_iff (modules : ℕ) (heap : RemoraComms) (es : List BootEvent) :
    Along step UsesCreated (launch modules heap) es ↔
      Along step FarEnough (launch modules heap) es :=
  along_iff_along (I := Created modules) (fun _ e h => usesCreated_iff h e)
    (fun _ e h _ => created_step h e) (created_launch modules heap) es

/-- No read or write comes before core 1 is past its sixth statement. -/
def Late (s : Boot) (e : BootEvent) : Prop := ∀ r, e = .datagram r → 6 ≤ s.executed

/-- A statement of core 1 moves core 0 as little as the number of its own. -/
theorem execute_fixed {s t : Boot} {st : SetupStatement} (h : s.execute st = some t) :
    t.executed = s.executed ∧ t.handler = s.handler := by
  by_cases hcreates : st = .newBaseThread ∨ st = .newServoThread ∨ st = .newComms
  · rcases hcreates with rfl | rfl | rfl <;>
      · obtain rfl := Option.some.inj h
        exact ⟨rfl, rfl⟩
  · obtain ⟨hb, hs, hc⟩ : st ≠ .newBaseThread ∧ st ≠ .newServoThread ∧ st ≠ .newComms := by
      simpa using hcreates
    obtain rfl := execute_of_ne h hb hs hc
    exact ⟨rfl, rfl⟩

/-- Nothing sets core 1 back. -/
theorem executed_step (s : Boot) (e : BootEvent) : s.executed ≤ (s.step e).executed := by
  cases e with
  | datagram r =>
      rw [step, next, Option.getD_some]
      split_ifs <;> exact Nat.le_refl _
  | core0 =>
      rw [step, next, core0Next]
      cases s.handler with
      | out => exact Nat.le_refl _
      | wait =>
          cases s.baseThread with
          | none => exact Nat.le_refl _
          | some t =>
              rw [Option.map_some, Option.getD_some]
              split_ifs <;> exact Nat.le_refl _
      | set | clear => cases s.baseThread <;> exact Nat.le_refl _
      | dataReceived => cases s.comms <;> exact Nat.le_refl _
  | core1 =>
      rw [step, next, core1Next]
      cases s.setup[s.executed]? with
      | none => exact Nat.le_refl _
      | some st =>
          cases hst : s.execute st with
          | none => simp [hst]
          | some t => simp [hst, (execute_fixed hst).1]
  | run semaphore =>
      rw [step, next]
      split_ifs
      · cases s.baseThread <;> exact Nat.le_refl _
      · exact Nat.le_refl _

/-- Only a read or a write takes core 0 out of its loop. -/
theorem handler_step {s : Boot} {e : BootEvent} (hout : s.handler = .out)
    (he : ∀ r, e ≠ .datagram r) : (s.step e).handler = .out := by
  cases e with
  | datagram r => exact absurd rfl (he r)
  | core0 =>
      rw [step, next, core0Next, hout]
      exact hout
  | core1 =>
      rw [step, next, core1Next]
      cases s.setup[s.executed]? with
      | none => exact hout
      | some st =>
          cases hst : s.execute st with
          | none => simpa [hst] using hout
          | some t => simpa [hst] using (execute_fixed hst).2.trans hout
  | run semaphore =>
      rw [step, next]
      split_ifs
      · cases s.baseThread <;> exact hout
      · exact hout

/-- **It is enough that the host keeps quiet** until core 1 is past its sixth statement. -/
theorem farEnough_along_of_late (modules : ℕ) (heap : RemoraComms) {es : List BootEvent}
    (h : Along step Late (launch modules heap) es) :
    Along step FarEnough (launch modules heap) es := by
  refine along_of_invariant (I := fun s => s.handler ≠ .out → 6 ≤ s.executed) ?_ ?_
    (fun hne => absurd rfl hne) h
  · intro s e hs he hne
    refine Nat.le_trans ?_ (s.executed_step e)
    by_cases hout : s.handler = .out
    · by_contra hlt
      exact hne (handler_step hout fun r hr => hlt (he r hr))
    · exact hs hout
  · rintro s e hs - rfl
    cases hh : s.handler with
    | out => trivial
    | wait | set | clear => exact Nat.le_trans (by decide) (hs (by simp [hh]))
    | dataReceived => exact hs (by simp [hh])

/-- A read that is there when core 0 enters its loop. -/
theorem not_usesCreated_along :
    ¬Along step UsesCreated (launch 6 ⟨false, false, 0⟩)
      [.core1, .core1, .datagram .PRU_READ, .core0] := by
  rintro ⟨-, -, -, h, -⟩
  exact h rfl rfl

end Boot
end Remora
