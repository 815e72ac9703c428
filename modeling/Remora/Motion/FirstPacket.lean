/-
# Running before the first packet

`loadModules` creates the watchdog on the heap, its constructor sets no field, and
`watchdog_reboot` leaves the RAM as it was.  Whether the machine then waits in
`ST_IDLE` for a first packet depends on what the memory held: `status` is read by
the first pass, `data` by the first servo run, and only the pair that is clear on
both keeps waiting (`waitsForHost_iff`).
-/

import Remora.Motion.CommsStatus

namespace Remora

open Basis

variable {fl : FloatUnit}

/-- **The machine waits for the host**: with the watchdog created on the fields
`comms`, no run in which no `PRU_READ` and no `PRU_WRITE` is processed enters
`ST_RUNNING`. -/
def WaitsForHost (gs : List (Stepgen fl)) (ms : List ServoModule) (comms : RemoraComms) : Prop :=
  ∀ es, Along Controller.step Controller.Unanswered (Controller.start gs ms comms) es →
    (run Controller.step (Controller.start gs ms comms) es).currentState ≠ .ST_RUNNING

namespace Controller

/-- Nothing has been heard and the machine knows it. -/
structure Unheard (s : Controller fl) : Prop where
  data : s.comms.data = false
  status : s.comms.status = false
  idle : s.currentState = .ST_IDLE

theorem Unheard.step {s : Controller fl} (h : s.Unheard) {e : Event} (he : s.Unanswered e) :
    (s.step e).Unheard := by
  have hcomms := comms_step he
  have hclear : s.comms.update.status = false :=
    RemoraComms.status_update_of_no_data h.data h.status
  have hstatus : (s.step e).comms.status = false := by
    rw [hcomms]
    split_ifs
    · exact hclear
    · exact h.status
  have hdata : (s.step e).comms.data = false := by
    rw [hcomms]
    split_ifs
    · exact RemoraComms.data_update _
    · exact h.data
  refine ⟨hdata, hstatus, ?_⟩
  cases e with
  | udp d =>
      rcases s.udp_cases d with ⟨hr, -⟩ | ⟨hw, -⟩ | ⟨-, -, hcall⟩
      · exact absurd hr he.1
      · exact absurd hw he.2
      · simpa [Controller.step, hcall] using h.idle
  | baseTimer => exact h.idle
  | servoTimer => exact h.idle
  | pass gpio =>
      rcases s.pass_cases gpio with ⟨-, hpass⟩ | ⟨hw, -⟩ | ⟨-, -, hpass⟩
      · simp [Controller.step, hpass]
      · exact absurd (h.idle.symm.trans hw) (by simp)
      · -- the test of `ST_IDLE` reads the status that the run has left
        have hread : (servoThreadRun s gpio).1.comms.status = false := by
          simpa [Controller.step, hpass] using hstatus
        simp [Controller.step, hpass, h.idle, hread, State.after]

theorem unheard_run {s : Controller fl} (h : s.Unheard) {es : List Event}
    (hes : Along Controller.step Unanswered s es) : (run Controller.step s es).Unheard := by
  induction es generalizing s with
  | nil => exact h
  | cons e es ih => exact ih (h.step hes.1) hes.2

/-- A pass without a servo run takes the status as it finds it. -/
theorem running_of_status (gs : List (Stepgen fl)) (ms : List ServoModule) {comms : RemoraComms}
    (h : comms.status = true) (gpio : ℕ → Bool) :
    (run step (start gs ms comms) [.pass gpio]).currentState = .ST_RUNNING := by
  simp [step, core1Pass, servoThreadRun, start, RemoraComms.getStatus, h]

/-- The first servo run takes `data` as it finds it, and sets the status. -/
theorem running_of_data (gs : List (Stepgen fl)) (ms : List ServoModule) {comms : RemoraComms}
    (h : comms.data = true) (gpio : ℕ → Bool) :
    (run step (start gs ms comms) [.servoTimer, .pass gpio]).currentState = .ST_RUNNING := by
  have hstatus : comms.update.status = true := by rw [RemoraComms.update_of_data h]
  simp [step, core1Pass, servoThreadRun, start, RemoraComms.getStatus, hstatus]

end Controller

/-- **The machine waits for the host** exactly when the memory of the watchdog held
`false` in both flags; the count may hold anything. -/
theorem waitsForHost_iff (gs : List (Stepgen fl)) (ms : List ServoModule) (comms : RemoraComms) :
    WaitsForHost gs ms comms ↔ comms.data = false ∧ comms.status = false := by
  constructor
  · intro h
    refine ⟨Bool.eq_false_iff.2 fun hdata => ?_, Bool.eq_false_iff.2 fun hstatus => ?_⟩
    · exact h [.servoTimer, .pass fun _ => false] ⟨trivial, trivial, trivial⟩
        (Controller.running_of_data gs ms hdata _)
    · exact h [.pass fun _ => false] ⟨trivial, trivial⟩
        (Controller.running_of_status gs ms hstatus _)
  · rintro ⟨hdata, hstatus⟩ es hes
    rw [(Controller.unheard_run ⟨hdata, hstatus, rfl⟩ hes).idle]
    simp

/-- The board reboots with the status of its last life still set. -/
theorem not_waitsForHost :
    ¬WaitsForHost (defaultThread (exactFloat fun _ => 0)) [] ⟨false, true, 0⟩ := by
  intro h
  exact h [.pass fun _ => false] ⟨trivial, trivial⟩ (Controller.running_of_status _ _ rfl _)

end Remora
