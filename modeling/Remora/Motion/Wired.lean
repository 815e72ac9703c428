/-
# The controller and its pins

The controller with what its output pins show, and with the servo run cut between
any two of its modules: a datagram may come there, and the base timer interrupts the
servo run and runs the base thread.  The events are those of the controller, but
`pass` is the next step of a pass only: the start of a servo run with
`RemoraComms::update`, the update of one module, the end of the run with the test of
`getStatus`, or a reset.  A pass that is not interrupted is a pass of the controller
(`run_pass`).

What the pins show is followed through `puts`, the writes of an event.  Pins are
wired apart (`WiredApart`) if no two modules write the same one, nor one of the
threads' own marks.
-/

import Remora.Motion.Controller

namespace Remora

open Basis

variable {fl : FloatUnit}

/-- Where core 1 stands in the servo run. -/
inductive ServoWalk where
  | out
  /-- Module `k` is the next to be updated. -/
  | next (k : ℕ)
  deriving DecidableEq

/-- The controller between two steps of core 1, and its output pins. -/
structure Wired (fl : FloatUnit) where
  shared : Controller fl
  walk : ServoWalk
  level : ℕ → Bool

/-- The test of `getStatus` after a servo run. -/
def Controller.settle (s : Controller fl) : Controller fl :=
  { s with currentState := State.after s.currentState s.comms.getStatus }

/-- The pins that the two threads write. -/
def wiredPins (gs : List (Stepgen fl)) (ms : List ServoModule) : List ℕ :=
  scopePins BASE_SLICE ++ (scopePins SERVO_SLICE ++
    (gs.flatMap (fun g => [g.stepPin, g.directionPin]) ++ ms.flatMap ServoModule.outputs))

/-- No two writers share a pin. -/
def WiredApart (gs : List (Stepgen fl)) (ms : List ServoModule) : Prop := (wiredPins gs ms).Nodup

instance (gs : List (Stepgen fl)) (ms : List ServoModule) : Decidable (WiredApart gs ms) :=
  inferInstanceAs (Decidable (List.Nodup _))

/-- The pins of a module stay what they are. -/
@[simp] theorem ServoModule.outputs_update (m : ServoModule) (rx : RxData) (gpio : ℕ → Bool)
    (tx : TxData) : (m.update rx gpio tx).1.outputs = m.outputs := by
  rw [(m.update_puts rx gpio tx).1, m.outputs_next]

theorem ServoModule.jointFeedback_update (m : ServoModule) (rx : RxData) (gpio : ℕ → Bool)
    (tx : TxData) {j : ℕ} (hj : j < JOINTS) :
    (m.update rx gpio tx).2.1.jointFeedback j = tx.jointFeedback j := by
  cases m with
  | blink b => rfl
  | digitalPin d => exact d.jointFeedback_update rx tx gpio hj

/-- A datagram leaves the modules of both threads alone. -/
theorem threads_udpDataCallback (s : Controller fl) (d : Datagram) :
    (udpDataCallback s d).1.baseThread = s.baseThread ∧
      (udpDataCallback s d).1.servoThread = s.servoThread := by
  rcases s.udp_cases d with ⟨-, hcall⟩ | ⟨-, hcall⟩ | ⟨-, -, hcall⟩ <;>
  · rw [hcall]
    exact ⟨rfl, rfl⟩

namespace Wired

/-- `gpio_init` has put every pin low. -/
def start (gs : List (Stepgen fl)) (ms : List ServoModule) (comms : RemoraComms) : Wired fl :=
  ⟨Controller.start gs ms comms, .out, fun _ => false⟩

/-- The next step of core 1, and the pins it writes. -/
def core1Step (s : Wired fl) (gpio : ℕ → Bool) : Controller fl × ServoWalk × List Put :=
  match s.walk with
  | .out =>
      match s.shared.currentState with
      | .ST_IDLE | .ST_RUNNING | .ST_STOP =>
          if s.shared.execute then
            ({ s.shared with comms := s.shared.comms.update }, .next 0,
              (scopePins SERVO_SLICE).map fun p => ⟨p, true⟩)
          else (s.shared.settle, .out, [])
      | .ST_RESET => ({ resetRxBuffer s.shared with currentState := .ST_IDLE }, .out, [])
      | .ST_WDRESET => (s.shared, .out, [])
  | .next k =>
      match s.shared.servoThread[k]? with
      | some m =>
          let r := m.update (getCurrentRxBuffer s.shared.rxPingPongBuffer) gpio
            (getCurrentTxBuffer s.shared.txPingPongBuffer)
          ({ s.shared with
              servoThread := s.shared.servoThread.set k r.1
              txPingPongBuffer := s.shared.txPingPongBuffer.setCurrent r.2.1 },
            .next (k + 1), r.2.2)
      | none =>
          ({ s.shared with execute := false }.settle, .out,
            (scopePins SERVO_SLICE).map fun p => ⟨p, false⟩)

/-- What an event does, and the pins it writes. -/
def act (s : Wired fl) : Event → Controller fl × ServoWalk × List Put
  | .udp d => ((udpDataCallback s.shared d).1, s.walk, [])
  | .baseTimer => ((baseTimerTick s.shared).1, s.walk, (baseTimerTick s.shared).2)
  | .servoTimer => ({ s.shared with execute := true }, s.walk, [])
  | .pass gpio => s.core1Step gpio

/-- The pins that an event writes. -/
def puts (s : Wired fl) (e : Event) : List Put := (s.act e).2.2

/-- The state after an event. -/
def step (s : Wired fl) (e : Event) : Wired fl :=
  ⟨(s.act e).1, (s.act e).2.1, levels s.level (s.puts e)⟩

/-- The reply to a datagram. -/
def reply (s : Wired fl) : Event → Option TxData
  | .udp d => (udpDataCallback s.shared d).2
  | _ => none

/-- **What a step of core 1 does**: it starts a servo run, updates one module, ends the
run, clears the command, or does no more than to move the state machine. -/
theorem core1Step_cases (s : Wired fl) (gpio : ℕ → Bool) :
    (s.walk = .out ∧ s.shared.execute = true ∧
      s.core1Step gpio = ({ s.shared with comms := s.shared.comms.update }, .next 0,
        [⟨27, true⟩])) ∨
    (∃ k m, s.walk = .next k ∧ s.shared.servoThread[k]? = some m ∧
      s.core1Step gpio = ({ s.shared with
          servoThread := s.shared.servoThread.set k
            (m.update s.shared.rxPingPongBuffer.current gpio s.shared.txPingPongBuffer.current).1
          txPingPongBuffer := s.shared.txPingPongBuffer.setCurrent
            (m.update s.shared.rxPingPongBuffer.current gpio
              s.shared.txPingPongBuffer.current).2.1 },
        .next (k + 1),
        (m.update s.shared.rxPingPongBuffer.current gpio
          s.shared.txPingPongBuffer.current).2.2)) ∨
    (∃ k, s.walk = .next k ∧ s.shared.servoThread.length ≤ k ∧
      s.core1Step gpio = ({ s.shared with execute := false }.settle, .out, [⟨27, false⟩])) ∨
    (s.walk = .out ∧ s.core1Step gpio =
      ({ resetRxBuffer s.shared with currentState := .ST_IDLE }, .out, [])) ∨
    (s.walk = .out ∧ ∃ state, s.core1Step gpio =
      ({ s.shared with currentState := state }, .out, [])) := by
  rw [core1Step]
  cases hwalk : s.walk with
  | next k =>
      dsimp only
      cases hm : s.shared.servoThread[k]? with
      | some m => exact Or.inr (Or.inl ⟨k, m, rfl, hm, rfl⟩)
      | none => exact Or.inr (Or.inr (Or.inl ⟨k, rfl, List.getElem?_eq_none_iff.1 hm, rfl⟩))
  | out =>
      dsimp only
      cases hstate : s.shared.currentState with
      | ST_RESET => exact Or.inr (Or.inr (Or.inr (Or.inl ⟨rfl, rfl⟩)))
      | ST_WDRESET =>
          refine Or.inr (Or.inr (Or.inr (Or.inr ⟨rfl, .ST_WDRESET, ?_⟩)))
          dsimp only
          rw [← hstate]
      | ST_IDLE | ST_RUNNING | ST_STOP =>
          dsimp only
          split_ifs with hexecute
          · exact Or.inl ⟨rfl, hexecute, rfl⟩
          · exact Or.inr (Or.inr (Or.inr (Or.inr ⟨rfl, _, rfl⟩)))

/-- Updating a module in its place leaves the pins of the thread as they are. -/
theorem flatMap_outputs_set {ms : List ServoModule} {k : ℕ} {m m' : ServoModule}
    (hm : ms[k]? = some m) (h : m'.outputs = m.outputs) :
    (ms.set k m').flatMap ServoModule.outputs = ms.flatMap ServoModule.outputs := by
  obtain ⟨hk, rfl⟩ := List.getElem?_eq_some_iff.1 hm
  rw [List.flatMap_def, List.flatMap_def, List.map_set, h]
  congr 1
  rw [← List.getElem_map ServoModule.outputs (h := by simpa using hk), List.set_getElem_self]

/-- A step of core 1 leaves the base thread alone, and writes the pin that marks the
servo run or those of a module. -/
theorem threads_core1Step (s : Wired fl) (gpio : ℕ → Bool) :
    (s.core1Step gpio).1.baseThread = s.shared.baseThread ∧
      (s.core1Step gpio).1.servoThread.flatMap ServoModule.outputs =
        s.shared.servoThread.flatMap ServoModule.outputs ∧
      ∀ p ∈ (s.core1Step gpio).2.2,
        p.line = 27 ∨ ∃ m ∈ s.shared.servoThread, p.line ∈ m.outputs := by
  rcases s.core1Step_cases gpio with ⟨-, -, hcore⟩ | ⟨k, m, -, hm, hcore⟩ |
    ⟨k, -, -, hcore⟩ | ⟨-, hcore⟩ | ⟨-, state, hcore⟩
  · rw [hcore]
    exact ⟨rfl, rfl, fun p hp => Or.inl (by rw [List.mem_singleton.1 hp])⟩
  · rw [hcore]
    exact ⟨rfl, flatMap_outputs_set hm (m.outputs_update _ _ _), fun p hp =>
      Or.inr ⟨m, List.mem_of_getElem? hm,
        ServoModule.line_mem_outputs ((m.update_puts _ _ _).2 ▸ hp)⟩⟩
  · rw [hcore]
    exact ⟨rfl, rfl, fun p hp => Or.inl (by rw [List.mem_singleton.1 hp])⟩
  · rw [hcore]
    exact ⟨rfl, rfl, fun p hp => by cases hp⟩
  · rw [hcore]
    exact ⟨rfl, rfl, fun p hp => by cases hp⟩

/-- What a step of core 1 leaves of the packets to the host: the feedback. -/
theorem tx_core1Step (s : Wired fl) (gpio : ℕ → Bool) :
    ∃ t, (s.core1Step gpio).1.txPingPongBuffer = s.shared.txPingPongBuffer.setCurrent t ∧
      ∀ j < JOINTS, t.jointFeedback j = s.shared.txPingPongBuffer.current.jointFeedback j := by
  rcases s.core1Step_cases gpio with ⟨-, -, hcore⟩ | ⟨k, m, -, -, hcore⟩ |
    ⟨k, -, -, hcore⟩ | ⟨-, hcore⟩ | ⟨-, state, hcore⟩
  · exact ⟨_, by rw [hcore, PingPong.setCurrent_current], fun j _ => rfl⟩
  · exact ⟨_, by rw [hcore], fun j hj => m.jointFeedback_update _ _ _ hj⟩
  · exact ⟨_, by rw [hcore, PingPong.setCurrent_current]; rfl, fun j _ => rfl⟩
  · exact ⟨_, by rw [hcore, PingPong.setCurrent_current]; rfl, fun j _ => rfl⟩
  · exact ⟨_, by rw [hcore, PingPong.setCurrent_current], fun j _ => rfl⟩

theorem baseThread_baseTimer (s : Wired fl) :
    (s.step .baseTimer).shared.baseThread = s.shared.baseThread.map fun g =>
      g.next (g.command s.shared.rxPingPongBuffer.current) := thread_baseRun _ _ _

/-- The wiring stays what it is. -/
theorem wiredPins_step (s : Wired fl) (e : Event) :
    wiredPins (s.step e).shared.baseThread (s.step e).shared.servoThread =
      wiredPins s.shared.baseThread s.shared.servoThread := by
  rw [wiredPins, wiredPins]
  cases e with
  | udp d =>
      obtain ⟨hbase, hservo⟩ := threads_udpDataCallback s.shared d
      rw [show (s.step (.udp d)).shared = (udpDataCallback s.shared d).1 from rfl, hbase, hservo]
  | baseTimer =>
      rw [baseThread_baseTimer, List.flatMap_map]
      rfl
  | servoTimer => rfl
  | pass gpio =>
      obtain ⟨hbase, hservo, -⟩ := s.threads_core1Step gpio
      rw [show (s.step (.pass gpio)).shared = (s.core1Step gpio).1 from rfl, hbase, hservo]

theorem wiredApart_step {s : Wired fl}
    (h : WiredApart s.shared.baseThread s.shared.servoThread) (e : Event) :
    WiredApart (s.step e).shared.baseThread (s.step e).shared.servoThread := by
  rw [WiredApart, wiredPins_step]
  exact h

/-- The walk over the rest of the modules. -/
theorem run_walk {c : Controller fl} (done : List ServoModule) {rest : List ServoModule}
    (h : c.servoThread = done ++ rest) (gpio : ℕ → Bool) (l : ℕ → Bool) :
    run step ⟨c, .next done.length, l⟩ (List.replicate rest.length (.pass gpio)) =
      ⟨{ c with
          servoThread := done ++ (runServoModules c.rxPingPongBuffer.current gpio rest
            c.txPingPongBuffer.current).1
          txPingPongBuffer := c.txPingPongBuffer.setCurrent (runServoModules
            c.rxPingPongBuffer.current gpio rest c.txPingPongBuffer.current).2.1 },
        .next (done.length + rest.length),
        levels l ((runServoModules c.rxPingPongBuffer.current gpio rest
          c.txPingPongBuffer.current).2.2)⟩ := by
  induction rest generalizing c done l with
  | nil =>
      simp [runServoModules, ← h]
  | cons m rest ih =>
      set r := m.update c.rxPingPongBuffer.current gpio c.txPingPongBuffer.current with hr
      have hget : c.servoThread[done.length]? = some m := by rw [h]; simp
      have hset : c.servoThread.set done.length r.1 = done ++ [r.1] ++ rest := by rw [h]; simp
      have hstep : step ⟨c, .next done.length, l⟩ (.pass gpio) =
          ⟨{ c with servoThread := done ++ [r.1] ++ rest,
                    txPingPongBuffer := c.txPingPongBuffer.setCurrent r.2.1 },
            .next (done ++ [r.1]).length, levels l r.2.2⟩ := by
        simp only [step, puts, act, core1Step, hget, getCurrentRxBuffer, getCurrentTxBuffer, ← hr,
          hset, List.length_append, List.length_singleton]
      rw [List.length_cons, List.replicate_succ, run_cons, hstep, ih _ rfl]
      simp only [runServoModules, ← hr, PingPong.current_setCurrent, levels_append,
        PingPong.setCurrent_setCurrent, List.append_assoc, List.singleton_append,
        List.length_append, List.length_singleton, Nat.add_assoc, Nat.add_comm 1]

/-- A pass runs the servo thread. -/
def Runs (c : Controller fl) : Prop :=
  c.currentState ≠ .ST_RESET ∧ c.currentState ≠ .ST_WDRESET ∧ c.execute = true

instance (c : Controller fl) : Decidable (Runs c) := inferInstanceAs (Decidable (_ ∧ _))

/-- The steps that a pass takes. -/
def passSteps (c : Controller fl) : ℕ := if Runs c then c.servoThread.length + 2 else 1

theorem core1Step_of_runs {c : Controller fl} (h : Runs c) (l gpio : ℕ → Bool) :
    core1Step ⟨c, .out, l⟩ gpio = ({ c with comms := c.comms.update }, .next 0, [⟨27, true⟩]) := by
  obtain ⟨hreset, hwd, hexecute⟩ := h
  rw [core1Step]
  dsimp only
  cases hstate : c.currentState with
  | ST_RESET => exact absurd hstate hreset
  | ST_WDRESET => exact absurd hstate hwd
  | ST_IDLE | ST_RUNNING | ST_STOP => exact if_pos hexecute

/-- **A pass that is not interrupted** is a pass of the controller. -/
theorem run_pass (c : Controller fl) (l gpio : ℕ → Bool) :
    run step ⟨c, .out, l⟩ (List.replicate (passSteps c) (.pass gpio)) =
      ⟨(core1Pass c gpio).1, .out, levels l (core1Pass c gpio).2⟩ := by
  by_cases hruns : Runs c
  · set r := runServoModules c.rxPingPongBuffer.current gpio c.servoThread
      c.txPingPongBuffer.current with hr
    have hservo : servoThreadRun c gpio = ({ c with
        comms := c.comms.update
        servoThread := r.1
        txPingPongBuffer := c.txPingPongBuffer.setCurrent r.2.1
        execute := false }, underScope SERVO_SLICE r.2.2) := by
      rw [servoThreadRun, if_pos hruns.2.2]
      rfl
    have hpass : core1Pass c gpio = ({ (servoThreadRun c gpio).1 with
        currentState := Controller.State.after c.currentState c.comms.update.status },
        underScope SERVO_SLICE r.2.2) := by
      rcases c.pass_cases gpio with ⟨hstate, -⟩ | ⟨hstate, -⟩ | ⟨-, -, hpass⟩
      · exact absurd hstate hruns.1
      · exact absurd hstate hruns.2.1
      · rw [hpass, hservo]
    have hlen : r.1[c.servoThread.length]? = none := by
      rw [List.getElem?_eq_none_iff, hr, modules_runServoModules, List.length_map]
    have hwalk := run_walk (c := { c with comms := c.comms.update }) [] rfl gpio
      (levels l [⟨27, true⟩])
    rw [passSteps, if_pos hruns, hpass, hservo, List.replicate_succ,
      run_cons, step, puts, act, core1Step_of_runs hruns, List.replicate_succ', run_append]
    dsimp only [List.length_nil, List.nil_append] at hwalk ⊢
    rw [hwalk]
    simp [step, puts, act, core1Step, Controller.settle, underScope, scopePins, SERVO_SLICE,
      levels_append, RemoraComms.getStatus, ← hr, hlen]
  · rcases c.pass_cases gpio with ⟨hstate, hpass⟩ | ⟨hstate, hpass⟩ | ⟨hreset, hwd, hpass⟩
    · rw [passSteps, if_neg hruns, hpass]
      simp [step, puts, act, core1Step, hstate]
    · rw [passSteps, if_neg hruns, hpass]
      simp [step, puts, act, core1Step, hstate]
    · have hexecute : c.execute = false :=
        Bool.eq_false_iff.2 fun h => hruns ⟨hreset, hwd, h⟩
      have hservo : servoThreadRun c gpio = (c, []) := by
        rw [servoThreadRun, hexecute, if_neg Bool.false_ne_true]
      rw [passSteps, if_neg hruns, hpass, hservo]
      cases hstate : c.currentState <;>
        simp_all [step, puts, act, core1Step, Controller.settle, RemoraComms.getStatus]

/-- One generator. -/
def smallThread : List (Stepgen (exactFloat fun _ => 0)) :=
  [Stepgen.new PRU_BASEFREQ 0 2 3 STEPBIT]

/-- One output, and one blinker that changes with every second run. -/
def smallServoThread : List ServoModule :=
  [.digitalPin ⟨1, 10, 0, false⟩, .blink ⟨false, 4, 0, 25⟩]

theorem wiredApart_small : WiredApart smallThread smallServoThread := by decide

end Wired
end Remora
