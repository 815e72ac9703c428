/-
# Two cores, statement by statement

`udp_data_callback` on core 0 and `pruThread::run` of the base thread on core 1,
cut at every read and write of `baseThread->semaphore`, `currentRxBuffer` and
`currentTxBuffer`.  An event says what happens next:

* `datagram r`: core 0, back in its loop, receives a read or a write;
* `writeRequest`: core 0, back in its loop, handles a TFTP write request, and
  `IAP_tftp_process_write` resets core 1, wherever it stands;
* `tick`: core 1 takes the base timer interrupt, when it is in no other run;
* `core0`, `core1`: that core takes its next step.

A run walks `modules` generators, and each takes its `rxData` and `txData` from the
two indices when its turn comes; `served` keeps what those of the run under way
have taken.  A swap is a read of the index and a write of `1 -` what was read.  A
packet's bytes have no part in the state, nor have the pins.

The flag is a `TestThenSet` of the two cores (`lock_step`).
-/

import Remora.Basis.Run
import Remora.Basis.TestThenSet
import Mathlib.Data.Int.Notation

namespace Remora

open Basis

/-- What a datagram asks for. -/
inductive Request where
  | PRU_READ
  | PRU_WRITE
  deriving DecidableEq

/-- The next step of `udp_data_callback`, `out` when core 0 is not in it. -/
inductive CallbackAt where
  | out
  | getAltRxBuffer (r : Request)
  | getCurrentTxBuffer (r : Request)
  | wait (r : Request)
  | set (r : Request)
  | readTx (r : Request)
  | writeTx (r : Request) (currentTxBuffer : ℤ)
  | readRx
  | writeRx (currentRxBuffer : ℤ)
  | clear
  deriving DecidableEq

/-- The next step of `pruThread::run`, `out` when core 1 is not in it, `stopped` once
core 1 has been reset. -/
inductive RunAt where
  | stopped
  | out
  | guard
  | wait
  | set
  | readRx (k : ℕ)
  | readTx (k : ℕ) (rxData : ℤ)
  | post (k : ℕ)
  | execute
  | clear
  deriving DecidableEq

/-- What the two cores share, and where each of them stands. -/
structure Cores where
  modules : ℕ
  semaphore : Bool
  execute : Bool
  currentRxBuffer : ℤ
  currentTxBuffer : ℤ
  served : List (ℤ × ℤ)
  callback : CallbackAt
  run : RunAt

/-- What happens next. -/
inductive CoreEvent where
  | datagram (r : Request)
  | writeRequest
  | tick
  | core0
  | core1
  deriving DecidableEq

namespace Cores

/-- `createThreads` and `main`: a free flag, and both indices `0`. -/
def start (modules : ℕ) : Cores where
  modules := modules
  semaphore := false
  execute := false
  currentRxBuffer := 0
  currentTxBuffer := 0
  served := []
  callback := .out
  run := .out

/-- `for (iter = vThreadPost.begin(); …)` from module `k` on. -/
def postFrom (n k : ℕ) : RunAt := if k < n then .post k else .execute

/-- `for (iter = vThread.begin(); …)` from module `k` on. -/
def walkFrom (n k : ℕ) : RunAt := if k < n then .readRx k else postFrom n 0

/-- The next step of core 0. -/
def callbackStep (s : Cores) : Cores :=
  match s.callback with
  | .out => s
  | .getAltRxBuffer r => { s with callback := .getCurrentTxBuffer r }
  | .getCurrentTxBuffer r => { s with callback := .wait r }
  | .wait r => if s.semaphore then s else { s with callback := .set r }
  | .set r => { s with semaphore := true, callback := .readTx r }
  | .readTx r => { s with callback := .writeTx r s.currentTxBuffer }
  | .writeTx r i =>
      { s with currentTxBuffer := 1 - i, callback := if r = .PRU_WRITE then .readRx else .clear }
  | .readRx => { s with callback := .writeRx s.currentRxBuffer }
  | .writeRx i => { s with currentRxBuffer := 1 - i, callback := .clear }
  | .clear => { s with semaphore := false, callback := .out }

/-- The next step of core 1. -/
def runStep (s : Cores) : Cores :=
  match s.run with
  | .stopped => s
  | .out => s
  | .guard => { s with run := if s.execute then .wait else .out }
  | .wait => if s.semaphore then s else { s with run := .set }
  | .set => { s with semaphore := true, served := [], run := walkFrom s.modules 0 }
  | .readRx k => { s with run := .readTx k s.currentRxBuffer }
  | .readTx k rxData =>
      { s with served := s.served ++ [(rxData, s.currentTxBuffer)],
               run := walkFrom s.modules (k + 1) }
  | .post k => { s with run := postFrom s.modules (k + 1) }
  | .execute => { s with execute := false, run := .clear }
  | .clear => { s with semaphore := false, run := .out }

/-- The state after an event. -/
def step (s : Cores) : CoreEvent → Cores
  | .datagram r => if s.callback = .out then { s with callback := .getAltRxBuffer r } else s
  | .writeRequest => if s.callback = .out then { s with run := .stopped } else s
  | .tick => if s.run = .out then { s with execute := true, run := .guard } else s
  | .core0 => s.callbackStep
  | .core1 => s.runStep

end Cores

/-- The two parties to the flag. -/
inductive Core where
  | core0
  | core1
  deriving DecidableEq

/-- Where a callback stands with the flag. -/
def CallbackAt.place : CallbackAt → Place
  | .set _ => .tested
  | .readTx _ | .writeTx _ _ | .readRx | .writeRx _ | .clear => .inside
  | _ => .out

/-- Where a run stands with the flag. -/
def RunAt.place : RunAt → Place
  | .set => .tested
  | .readRx _ | .readTx _ _ | .post _ | .execute | .clear => .inside
  | _ => .out

namespace Cores

/-- `baseThread->semaphore` and the two cores, as a lock. -/
def lock (s : Cores) : TestThenSet Core where
  flag := s.semaphore
  place
    | .core0 => s.callback.place
    | .core1 => s.run.place

/-- What an event is to the lock. -/
def lockMove (s : Cores) : CoreEvent → Option (TestThenSet.Move Core)
  | .datagram _ => none
  | .tick => none
  | .writeRequest => if s.callback = .out then some (.stop .core1) else none
  | .core0 =>
      match s.callback with
      | .wait _ => some (.test .core0)
      | .set _ => some (.set .core0)
      | .clear => some (.clear .core0)
      | _ => none
  | .core1 =>
      match s.run with
      | .wait => some (.test .core1)
      | .set => some (.set .core1)
      | .clear => some (.clear .core1)
      | _ => none

@[simp] theorem flag_lock (s : Cores) : s.lock.flag = s.semaphore := rfl

@[simp] theorem place_lock_core0 (s : Cores) : s.lock.place .core0 = s.callback.place := rfl

@[simp] theorem place_lock_core1 (s : Cores) : s.lock.place .core1 = s.run.place := rfl

theorem lock_eq_iff (s : Cores) (l : TestThenSet Core) :
    s.lock = l ↔ s.semaphore = l.flag ∧ s.callback.place = l.place .core0 ∧
      s.run.place = l.place .core1 := by
  constructor
  · rintro rfl
    exact ⟨rfl, rfl, rfl⟩
  · rintro ⟨hflag, h₀, h₁⟩
    obtain ⟨flag, place⟩ := l
    refine TestThenSet.mk.injEq _ _ _ _ ▸ ⟨hflag, funext fun c => ?_⟩
    cases c with
    | core0 => exact h₀
    | core1 => exact h₁

/-- The walk is inside the flag from its first module to its last. -/
@[simp] theorem place_walkFrom (n k : ℕ) : (walkFrom n k).place = .inside := by
  unfold walkFrom postFrom
  split_ifs <;> rfl

@[simp] theorem place_postFrom (n k : ℕ) : (postFrom n k).place = .inside := by
  unfold postFrom
  split_ifs <;> rfl

/-- What a step of core 0 is to the lock. -/
theorem lock_callbackStep (s : Cores) :
    s.callbackStep.lock = ((s.lockMove .core0).map s.lock.move).getD s.lock := by
  rw [lock_eq_iff]
  cases h : s.callback with
  | wait r =>
      cases hs : s.semaphore <;>
        simp [callbackStep, lockMove, h, hs, TestThenSet.move, CallbackAt.place,
          TestThenSet.put]
  | writeTx r i => cases r <;> simp [callbackStep, lockMove, h, CallbackAt.place]
  | _ =>
      simp [callbackStep, lockMove, h, TestThenSet.move, CallbackAt.place, TestThenSet.put]

/-- What a step of core 1 is to the lock. -/
theorem lock_runStep (s : Cores) :
    s.runStep.lock = ((s.lockMove .core1).map s.lock.move).getD s.lock := by
  rw [lock_eq_iff]
  cases h : s.run with
  | wait =>
      cases hs : s.semaphore <;>
        simp [runStep, lockMove, h, hs, TestThenSet.move, RunAt.place,
          TestThenSet.put]
  | guard => cases hs : s.execute <;> simp [runStep, lockMove, h, hs, RunAt.place]
  | set =>
      have hplace : RunAt.set.place = .tested := rfl
      simp [runStep, lockMove, h, hplace, TestThenSet.move, TestThenSet.put]
  | readTx k rxData =>
      have hplace : (RunAt.readTx k rxData).place = .inside := rfl
      simp [runStep, lockMove, h, hplace]
  | post k =>
      have hplace : (RunAt.post k).place = .inside := rfl
      simp [runStep, lockMove, h, hplace]
  | _ =>
      simp [runStep, lockMove, h, TestThenSet.move, RunAt.place, TestThenSet.put]

/-- **The flag is a lock tested, then set**: an event moves it, or leaves it alone. -/
theorem lock_step (s : Cores) (e : CoreEvent) :
    (s.step e).lock = ((s.lockMove e).map s.lock.move).getD s.lock := by
  cases e with
  | datagram r =>
      rw [lock_eq_iff]
      by_cases h : s.callback = .out <;> simp [step, lockMove, h, CallbackAt.place]
  | writeRequest =>
      rw [lock_eq_iff]
      by_cases h : s.callback = .out <;>
        simp [step, lockMove, h, TestThenSet.move, TestThenSet.put, RunAt.place]
  | tick =>
      rw [lock_eq_iff]
      by_cases h : s.run = .out <;> simp [step, lockMove, h, RunAt.place]
  | core0 => exact s.lock_callbackStep
  | core1 => exact s.lock_runStep

end Cores
end Remora
