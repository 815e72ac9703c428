/-
# The packets and their ping-pong buffers

`remora.h` and the buffer functions of `remora.cpp`.  `rxData_t` and `txData_t`
are packed unions of `BUFFER_SIZE` bytes and a view with fields, so a packet is
its bytes here and the fields are read at their offsets:

| `rxData_t` | offset | `txData_t` | offset |
| --- | ---: | --- | ---: |
| `header` | 0 | `header` | 0 |
| `jointFreqCmd[6]` | 4 | `jointFeedback[6]` | 4 |
| `setPoint[4]` | 28 | `processVariable[4]` | 28 |
| `jointEnable` | 44 | `inputs` | 44 |
| `outputs` | 45 | `NVMPGinputs` | 48 |
| `spare0` | 49 | | |

The fields end at 50; the rest of the 68 bytes has no name.
-/

import Remora.Basis.PingPong
import Remora.Configuration

namespace Remora

open Basis

/-- `rxData_t`: a packet from the host. -/
structure RxData where
  rxBuffer : Octets BUFFER_SIZE

/-- `txData_t`: a packet to the host. -/
structure TxData where
  txBuffer : Octets BUFFER_SIZE

namespace RxData

/-- `header` -/
def header (r : RxData) : Word := leWord r.rxBuffer.get 0

/-- `jointFreqCmd[j]` -/
def jointFreqCmd (r : RxData) (j : ℕ) : Word := leWord r.rxBuffer.get (4 + 4 * j)

/-- `jointEnable` -/
def jointEnable (r : RxData) : Byte := r.rxBuffer.get 44

/-- `outputs` -/
def outputs (r : RxData) : Word := leWord r.rxBuffer.get 45

/-- Every byte zero: what `ST_RESET` leaves, and what the buffers start with. -/
def zero : RxData := ⟨fun _ => 0⟩

end RxData

namespace TxData

/-- `jointFeedback[j]` -/
def jointFeedback (t : TxData) (j : ℕ) : Word := leWord t.txBuffer.get (4 + 4 * j)

/-- `inputs` -/
def inputs (t : TxData) : Word := leWord t.txBuffer.get 44

/-- `header = w` -/
def setHeader (t : TxData) (w : Word) : TxData := ⟨t.txBuffer.setWord 0 w⟩

/-- `jointFeedback[j] = w` -/
def setJointFeedback (t : TxData) (j : ℕ) (w : Word) : TxData := ⟨t.txBuffer.setWord (4 + 4 * j) w⟩

/-- `inputs = w` -/
def setInputs (t : TxData) (w : Word) : TxData := ⟨t.txBuffer.setWord 44 w⟩

/-- Every byte zero. -/
def zero : TxData := ⟨fun _ => 0⟩

@[simp] theorem jointFeedback_setHeader (t : TxData) (w : Word) (j : ℕ) :
    (t.setHeader w).jointFeedback j = t.jointFeedback j :=
  Octets.leWord_setWord_of_disjoint _ _ (by omega)

/-- Inputs and feedback of the joints do not overlap. -/
theorem jointFeedback_setInputs (t : TxData) (w : Word) {j : ℕ} (hj : j < JOINTS) :
    (t.setInputs w).jointFeedback j = t.jointFeedback j :=
  Octets.leWord_setWord_of_disjoint _ _ (by simp only [JOINTS] at hj; omega)

theorem jointFeedback_setJointFeedback (t : TxData) (w : Word) {j : ℕ} (hj : j < JOINTS) :
    (t.setJointFeedback j w).jointFeedback j = w :=
  Octets.leWord_setWord _ _ (by simp only [JOINTS] at hj; simp only [BUFFER_SIZE]; omega)

theorem jointFeedback_setJointFeedback_of_ne (t : TxData) (w : Word) {i j : ℕ} (h : i ≠ j) :
    (t.setJointFeedback i w).jointFeedback j = t.jointFeedback j :=
  Octets.leWord_setWord_of_disjoint _ _ (by omega)

@[simp] theorem jointFeedback_zero (j : ℕ) : zero.jointFeedback j = 0 :=
  leWord_zero fun i _ => by unfold zero Octets.get; split <;> rfl

end TxData

@[simp] theorem RxData.jointEnable_zero : RxData.zero.jointEnable = 0 := rfl

@[simp] theorem RxData.outputs_zero : RxData.zero.outputs = 0 := rfl

/-- `RxPingPongBuffer` -/
abbrev RxPingPongBuffer := PingPong RxData

/-- `TxPingPongBuffer` -/
abbrev TxPingPongBuffer := PingPong TxData

/-- `swapRxBuffers` -/
def swapRxBuffers (b : RxPingPongBuffer) : RxPingPongBuffer := b.swap

/-- `swapTxBuffers` -/
def swapTxBuffers (b : TxPingPongBuffer) : TxPingPongBuffer := b.swap

/-- `getCurrentRxBuffer` -/
def getCurrentRxBuffer (b : RxPingPongBuffer) : RxData := b.current

/-- `getCurrentTxBuffer` -/
def getCurrentTxBuffer (b : TxPingPongBuffer) : TxData := b.current

/-- `getAltRxBuffer` -/
def getAltRxBuffer (b : RxPingPongBuffer) : RxData := b.alt

end Remora
