/-
# The status is a sliding window

`RemoraComms` from the outside: any sequence of `update` and `dataReceived`
calls, from arbitrary fields.  What the updates found of `data` is a list of
booleans, the latest first, and the place of its first `true` says everything:
the count is that place modulo `DATA_ERR_MAX + 1`, because a time-out restarts
it, and the status says whether the place is below `DATA_ERR_MAX + 1`
(`Timed`).  So the status looks exactly that far back (`exactStatus`), also after
any number of time-outs.

The controller makes such calls and no others (`comms_run`).
-/

import Remora.Motion.Watchdog
import Mathlib.Data.List.TakeDrop

namespace Remora

open Basis

variable {fl : FloatUnit}

/-- A call of the watchdog by one of the two cores. -/
inductive CommsCall where
  | update
  | dataReceived
  deriving DecidableEq

namespace RemoraComms

/-- The watchdog after a call. -/
def call (c : RemoraComms) : CommsCall → RemoraComms
  | .update => c.update
  | .dataReceived => c.dataReceived

/-- Every update writes down what it found in `data`, the latest first. -/
def record (c : RemoraComms) : CommsCall → List Bool → List Bool
  | .update, found => c.data :: found
  | .dataReceived, found => found

/-- What the updates among the calls found in `data`, the latest first. -/
def found (c : RemoraComms) (calls : List CommsCall) : List Bool :=
  (run (watch call record) (c, []) calls).2

/-- **The status is exact**, after `calls` from the fields of `c`. -/
structure ExactStatus (c : RemoraComms) (calls : List CommsCall) : Prop where
  status : true ∈ c.found calls →
    ((run call c calls).getStatus = true ↔
      true ∈ (c.found calls).take (DATA_ERR_MAX.toNat + 1))
  bounded : true ∈ c.found calls → (run call c calls).noDataCount ≤ DATA_ERR_MAX
  noWrap : true ∈ c.found calls →
    ((run call c calls).noDataCount + 1).toNat = (run call c calls).noDataCount.toNat + 1
  heard : ∀ pre mid, calls = pre ++ .update :: mid → .update ∉ mid →
    ((run call c calls).data = true ↔ .dataReceived ∈ mid)

/-- The count and the status, given the updates so far: both are read off the
place of the latest update that found data. -/
def Timed (s : RemoraComms × List Bool) : Prop :=
  true ∈ s.2 → s.1.noDataCount.toNat = s.2.idxOf true % 41 ∧
    (s.1.status = true ↔ s.2.idxOf true < 41)

/-- An update moves the place back by one, or to the front. -/
theorem Timed.update {c : RemoraComms} {found : List Bool} (h : Timed (c, found)) :
    Timed (c.update, c.data :: found) := by
  cases hdata : c.data with
  | true =>
      rw [update_of_data hdata]
      intro _
      simp
  | false =>
      intro hmem
      obtain ⟨hcount, hstatus⟩ := h (by simpa using hmem)
      have hplace : (false :: found).idxOf true = found.idxOf true + 1 := by
        simp
      dsimp only at hcount hstatus ⊢
      rw [update_of_no_data hdata, hplace]
      have hsum : (c.noDataCount + 1).toNat = (c.noDataCount.toNat + 1) % 256 := by
        rw [BitVec.toNat_add]
        rfl
      split_ifs with hn
      · -- the count goes on: the place has not reached the end of its window
        refine ⟨by rw [hsum]; omega, hstatus.trans ?_⟩
        omega
      · -- the count was `DATA_ERR_MAX`, so this update is the time-out
        refine ⟨show 0 = (found.idxOf true + 1) % 41 by omega, by simp; omega⟩

theorem timed_step (s : RemoraComms × List Bool) (call : CommsCall) (h : Timed s) :
    Timed (watch RemoraComms.call record s call) := by
  cases call with
  | update => exact h.update
  | dataReceived => exact h

theorem timed_run (c : RemoraComms) (calls : List CommsCall) :
    Timed (run (watch call record) (c, []) calls) :=
  run_invariant timed_step (fun h => absurd h List.not_mem_nil) calls

/-- Until the next update, data are there once a packet has come. -/
theorem data_run {c : RemoraComms} {calls : List CommsCall} (h : .update ∉ calls) :
    (run call c calls).data = true ↔ c.data = true ∨ .dataReceived ∈ calls := by
  induction calls generalizing c with
  | nil => simp
  | cons e calls ih =>
      obtain ⟨he, hcalls⟩ := not_or.1 (mt List.mem_cons.2 h)
      cases e with
      | update => exact absurd rfl he
      | dataReceived =>
          rw [run_cons, ih hcalls]
          simp [call, dataReceived]

/-- **The comms status is exact** for every sequence of calls, from arbitrary fields. -/
theorem exactStatus (c : RemoraComms) (calls : List CommsCall) : c.ExactStatus calls := by
  have htimed := timed_run c calls
  have hfst := run_watch_fst call record (c, ([] : List Bool)) calls
  have hbound : true ∈ c.found calls → (run call c calls).noDataCount.toNat ≤ 40 := by
    intro h
    obtain ⟨hcount, -⟩ := htimed h
    rw [hfst] at hcount
    dsimp only at hcount
    omega
  refine ⟨fun h => ?_, fun h => ?_, fun h => ?_, ?_⟩
  · obtain ⟨-, hstatus⟩ := htimed h
    rw [hfst] at hstatus
    exact hstatus.trans (List.mem_take_iff_idxOf_lt h).symm
  · exact BitVec.le_def.2 (hbound h)
  · have := hbound h
    rw [BitVec.toNat_add]
    exact Nat.mod_eq_of_lt (by simp; omega)
  · rintro pre mid rfl hmid
    rw [run_append, run_cons, data_run hmid]
    simp [call]

end RemoraComms

namespace Controller

/-- The calls of the watchdog that an event makes. -/
def commsCalls (s : Controller fl) : Event → List CommsCall
  | .udp d => if s.Reads d ∨ s.Writes d then [.dataReceived] else []
  | .pass gpio => if s.CompletesServoRun (.pass gpio) then [.update] else []
  | _ => []

/-- The calls that a run makes. -/
def allCommsCalls : Controller fl → List Event → List CommsCall
  | _, [] => []
  | s, e :: es => s.commsCalls e ++ allCommsCalls (s.step e) es

theorem comms_step_eq (s : Controller fl) (e : Event) :
    (s.step e).comms = run RemoraComms.call s.comms (s.commsCalls e) := by
  cases e with
  | udp d =>
      rcases s.udp_cases d with ⟨h, hcall⟩ | ⟨h, hcall⟩ | ⟨hr, hw, hcall⟩
      · simp [step, hcall, commsCalls, h, RemoraComms.call]
      · simp [step, hcall, commsCalls, h, RemoraComms.call]
      · simp [step, hcall, commsCalls, hr, hw]
  | baseTimer => rfl
  | servoTimer => rfl
  | pass gpio =>
      rw [comms_step (e := .pass gpio) trivial, commsCalls]
      split_ifs <;> rfl

/-- **The controller only calls the watchdog**: its state after a run is the
watchdog's after the calls the run makes. -/
theorem comms_run (s : Controller fl) (es : List Event) :
    (run step s es).comms = run RemoraComms.call s.comms (s.allCommsCalls es) := by
  induction es generalizing s with
  | nil => rfl
  | cons e es ih => rw [run_cons, ih, comms_step_eq, allCommsCalls, run_append]

end Controller
end Remora
