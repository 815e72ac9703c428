/-
# The controller: packets, threads and the state machine

`udp_data_callback` and `core1_entry` of `remora.cpp`, with the timer interrupts
of `thread/timer.cpp`.  The state is what the two cores share; an event is one of

* `udp d`: core 0 handles a datagram of at most `BUFFER_SIZE` bytes in one pbuf;
* `baseTimer`: core 1 takes the base timer interrupt and runs the base thread;
* `servoTimer`: core 1 takes the servo timer interrupt, which sets `execute`;
* `pass gpio`: core 1 makes one pass of its state machine, `gpio` being what the
  input pins show.

Each event is one atomic step, so the wait for `baseThread->semaphore` finds it
clear and the flag has no part in the state.  The machine starts in `ST_IDLE`,
with everything created: `ST_SETUP` and `ST_START` come before the first event.
-/

import Remora.Basis.Run
import Remora.Motion.Servo

namespace Remora

open Basis

variable {fl : FloatUnit}

/-- `enum State`, from `ST_IDLE` on. -/
inductive State where
  | ST_IDLE
  | ST_RUNNING
  | ST_STOP
  | ST_RESET
  | ST_WDRESET
  deriving DecidableEq

/-- The payload of a datagram that fits the receive buffer. -/
structure Datagram where
  payload : List Byte
  fits : payload.length ≤ BUFFER_SIZE

/-- Byte `i` of a payload, `0` past its end. -/
def Datagram.get (d : Datagram) (i : ℕ) : Byte := d.payload.getD i 0

/-- What the two cores share. -/
structure Controller (fl : FloatUnit) where
  rxPingPongBuffer : RxPingPongBuffer
  txPingPongBuffer : TxPingPongBuffer
  baseThread : List (Stepgen fl)
  servoThread : List ServoModule
  execute : Bool
  comms : RemoraComms
  currentState : State

/-- An event at one of the two cores. -/
inductive Event where
  | udp (d : Datagram)
  | baseTimer
  | servoTimer
  | pass (gpio : ℕ → Bool)

/-- `memcpy(&rxBuffer->rxBuffer, p->payload, p->len)` -/
def RxData.memcpy (r : RxData) (d : Datagram) : RxData :=
  ⟨fun i => if h : i.val < d.payload.length then d.payload[i.val] else r.rxBuffer i⟩

/-- `udp_data_callback`: the shared state, and the packet sent in reply.  The reply
is empty for a packet that is neither a read nor a write. -/
def udpDataCallback (s : Controller fl) (d : Datagram) : Controller fl × Option TxData :=
  -- received data goes into the inactive buffer
  let rxBuffer := (getAltRxBuffer s.rxPingPongBuffer).memcpy d
  let s := { s with rxPingPongBuffer := s.rxPingPongBuffer.setAlt rxBuffer }
  -- data sent comes from the buffer that is active now, also after the swap
  let txBuffer := getCurrentTxBuffer s.txPingPongBuffer
  if rxBuffer.header = PRU_READ then
    let txBuffer := txBuffer.setHeader PRU_DATA
    ({ s with
        txPingPongBuffer := (swapTxBuffers s.txPingPongBuffer).setAlt txBuffer
        comms := s.comms.dataReceived }, some txBuffer)
  else if rxBuffer.header = PRU_WRITE then
    let txBuffer := txBuffer.setHeader PRU_ACKNOWLEDGE
    ({ s with
        txPingPongBuffer := (swapTxBuffers s.txPingPongBuffer).setAlt txBuffer
        rxPingPongBuffer := swapRxBuffers s.rxPingPongBuffer
        comms := s.comms.dataReceived }, some txBuffer)
  else (s, none)

/-- `PWM_Wrap_Handler0`: one run of the base thread, and the pins it writes. -/
def baseTimerTick (s : Controller fl) : Controller fl × List Put :=
  let rxData := getCurrentRxBuffer s.rxPingPongBuffer
  let txData := getCurrentTxBuffer s.txPingPongBuffer
  let r := baseRun (fun g => g.command rxData) s.baseThread txData
  ({ s with baseThread := r.1, txPingPongBuffer := s.txPingPongBuffer.setCurrent r.2.1 }, r.2.2)

/-- `servoThread->run()`: the shared state, and the pins written. -/
def servoThreadRun (s : Controller fl) (gpio : ℕ → Bool) : Controller fl × List Put :=
  if s.execute then
    let rxData := getCurrentRxBuffer s.rxPingPongBuffer
    let txData := getCurrentTxBuffer s.txPingPongBuffer
    let r := runServoModules rxData gpio s.servoThread txData
    ({ s with
        comms := s.comms.update
        servoThread := r.1
        txPingPongBuffer := s.txPingPongBuffer.setCurrent r.2.1
        execute := false }, underScope SERVO_SLICE r.2.2)
  else (s, [])

/-- `ST_RESET`: every byte of the active buffer is cleared. -/
def resetRxBuffer (s : Controller fl) : Controller fl :=
  { s with rxPingPongBuffer := s.rxPingPongBuffer.setCurrent RxData.zero }

/-- One pass of `core1_entry`, and the pins that the servo run in it wrote. -/
def core1Pass (s : Controller fl) (gpio : ℕ → Bool) : Controller fl × List Put :=
  match s.currentState with
  | .ST_IDLE =>
      let r := servoThreadRun s gpio
      (if r.1.comms.getStatus then { r.1 with currentState := .ST_RUNNING } else r.1, r.2)
  | .ST_RUNNING =>
      let r := servoThreadRun s gpio
      (if r.1.comms.getStatus = false then { r.1 with currentState := .ST_RESET } else r.1, r.2)
  | .ST_STOP => servoThreadRun s gpio
  | .ST_RESET => ({ resetRxBuffer s with currentState := .ST_IDLE }, [])
  | .ST_WDRESET => (s, [])

namespace Controller

/-- Zeroed buffers and `ST_IDLE`, as `main` and `ST_START` leave them. -/
def start (baseThread : List (Stepgen fl)) (servoThread : List ServoModule) (comms : RemoraComms) :
    Controller fl where
  rxPingPongBuffer := .both RxData.zero
  txPingPongBuffer := .both TxData.zero
  baseThread := baseThread
  servoThread := servoThread
  execute := false
  comms := comms
  currentState := .ST_IDLE

/-- The state after an event. -/
def step (s : Controller fl) : Event → Controller fl
  | .udp d => (udpDataCallback s d).1
  | .baseTimer => (baseTimerTick s).1
  | .servoTimer => { s with execute := true }
  | .pass gpio => (core1Pass s gpio).1

/-- The packet in the inactive buffer once a datagram is copied into it. -/
def received (s : Controller fl) (d : Datagram) : RxData := s.rxPingPongBuffer.alt.memcpy d

/-- The datagram is handled as a read. -/
def Reads (s : Controller fl) (d : Datagram) : Prop := (s.received d).header = PRU_READ

/-- The datagram is handled as a write. -/
def Writes (s : Controller fl) (d : Datagram) : Prop := (s.received d).header = PRU_WRITE

instance (s : Controller fl) (d : Datagram) : Decidable (s.Reads d) :=
  inferInstanceAs (Decidable (_ = _))

instance (s : Controller fl) (d : Datagram) : Decidable (s.Writes d) :=
  inferInstanceAs (Decidable (_ = _))

theorem not_writes_of_reads {s : Controller fl} {d : Datagram} (h : s.Reads d) : ¬s.Writes d := by
  intro hw
  have : PRU_READ = PRU_WRITE := h.symm.trans hw
  exact absurd this (by decide)

/-- **What `udp_data_callback` does**: a read swaps the tx buffers, a write swaps
both, anything else leaves its bytes in the inactive buffer and no more. -/
theorem udp_cases (s : Controller fl) (d : Datagram) :
    (s.Reads d ∧ udpDataCallback s d =
      ({ s with
          rxPingPongBuffer := s.rxPingPongBuffer.setAlt (s.received d)
          txPingPongBuffer := s.txPingPongBuffer.swap.setAlt
            (s.txPingPongBuffer.current.setHeader PRU_DATA)
          comms := s.comms.dataReceived },
        some (s.txPingPongBuffer.current.setHeader PRU_DATA))) ∨
    (s.Writes d ∧ udpDataCallback s d =
      ({ s with
          rxPingPongBuffer := (s.rxPingPongBuffer.setAlt (s.received d)).swap
          txPingPongBuffer := s.txPingPongBuffer.swap.setAlt
            (s.txPingPongBuffer.current.setHeader PRU_ACKNOWLEDGE)
          comms := s.comms.dataReceived },
        some (s.txPingPongBuffer.current.setHeader PRU_ACKNOWLEDGE))) ∨
    (¬s.Reads d ∧ ¬s.Writes d ∧ udpDataCallback s d =
      ({ s with rxPingPongBuffer := s.rxPingPongBuffer.setAlt (s.received d) }, none)) := by
  by_cases hr : s.Reads d
  · exact Or.inl ⟨hr, if_pos hr⟩
  · by_cases hw : s.Writes d
    · exact Or.inr (Or.inl ⟨hw, (if_neg hr).trans (if_pos hw)⟩)
    · exact Or.inr (Or.inr ⟨hr, hw, (if_neg hr).trans (if_neg hw)⟩)

@[simp] theorem currentState_servoThreadRun (s : Controller fl) (gpio : ℕ → Bool) :
    (servoThreadRun s gpio).1.currentState = s.currentState := by
  unfold servoThreadRun
  split_ifs <;> rfl

/-- Where a servo run in `s` leaves the state machine, given the status after it. -/
def State.after : State → Bool → State
  | .ST_IDLE, status => if status then .ST_RUNNING else .ST_IDLE
  | .ST_RUNNING, status => if status then .ST_RUNNING else .ST_RESET
  | s, _ => s

/-- **What a pass does**: a servo run and a transition, or a reset, or nothing. -/
theorem pass_cases (s : Controller fl) (gpio : ℕ → Bool) :
    (s.currentState = .ST_RESET ∧
      core1Pass s gpio = ({ resetRxBuffer s with currentState := .ST_IDLE }, [])) ∨
    (s.currentState = .ST_WDRESET ∧ core1Pass s gpio = (s, [])) ∨
    (s.currentState ≠ .ST_RESET ∧ s.currentState ≠ .ST_WDRESET ∧
      core1Pass s gpio = ({ (servoThreadRun s gpio).1 with
        currentState := State.after s.currentState (servoThreadRun s gpio).1.comms.status },
        (servoThreadRun s gpio).2)) := by
  have hkeep := s.currentState_servoThreadRun gpio
  unfold core1Pass
  generalize servoThreadRun s gpio = r at hkeep
  obtain ⟨t, writes⟩ := r
  obtain ⟨rx, tx, bases, servos, execute, comms, st⟩ := t
  dsimp only at hkeep
  subst hkeep
  cases h : s.currentState with
  | ST_IDLE =>
      refine Or.inr (Or.inr ⟨by simp, by simp, ?_⟩)
      cases hs : comms.status <;> simp [RemoraComms.getStatus, State.after, hs]
  | ST_RUNNING =>
      refine Or.inr (Or.inr ⟨by simp, by simp, ?_⟩)
      cases hs : comms.status <;> simp [RemoraComms.getStatus, State.after, hs]
  | ST_STOP => exact Or.inr (Or.inr ⟨by simp, by simp, rfl⟩)
  | ST_RESET => exact Or.inl ⟨rfl, rfl⟩
  | ST_WDRESET => exact Or.inr (Or.inl ⟨rfl, rfl⟩)

/-- The status with which a pass leaves the watchdog. -/
theorem comms_servoThreadRun (s : Controller fl) (gpio : ℕ → Bool) :
    (servoThreadRun s gpio).1.comms = if s.execute then s.comms.update else s.comms := by
  unfold servoThreadRun
  split_ifs <;> rfl

@[simp] theorem rx_servoThreadRun (s : Controller fl) (gpio : ℕ → Bool) :
    (servoThreadRun s gpio).1.rxPingPongBuffer = s.rxPingPongBuffer := by
  unfold servoThreadRun
  split_ifs <;> rfl

@[simp] theorem baseThread_servoThreadRun (s : Controller fl) (gpio : ℕ → Bool) :
    (servoThreadRun s gpio).1.baseThread = s.baseThread := by
  unfold servoThreadRun
  split_ifs <;> rfl

end Controller
end Remora
