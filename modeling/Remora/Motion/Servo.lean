/-
# The servo thread

`modules/digitalPin/digitalPin.cpp`, `modules/blink/blink.cpp` and
`pruThread::run` as the servo thread uses it.  The timer only sets `execute`; the
run itself is called from the state machine of core 1, and returns at once when
`execute` is clear.  `RemoraComms` is registered first (`loadModules`,
`loadStaticConfig`), the pins and blinkers follow in the order of the
configuration.  No module is registered to run after them.

What a walk does to the modules and to the pins is said once each
(`modules_runServoModules`, `puts_runServoModules`): neither depends on the pins read
nor on the packet to the host.  A blinker changes its pin again and again, so sooner or
later it leaves it at either level (`Blink.exists_put`).

`Module::runModule` counts up to `updateCount`, which is `1` here, and calls an
empty `slowUpdate`, so it is `update` and nothing else.
-/

import Remora.Motion.PruThread
import Remora.Motion.RemoraComms

namespace Remora

open Basis

/-- `class DigitalPin`: an input when `mode` is `0`, an output otherwise. -/
structure DigitalPin where
  mode : ℕ
  pin : ℕ
  bitNumber : ℕ
  invert : Bool

/-- `class Blink` -/
structure Blink where
  bState : Bool
  periodCount : Word
  blinkCount : Word
  blinkPin : ℕ

namespace DigitalPin

/-- `mask = 1 << bitNumber` -/
def mask (d : DigitalPin) : Word := 1#32 <<< d.bitNumber

/-- `if (invert) pinState = !pinState` -/
def inverted (d : DigitalPin) (pinState : Bool) : Bool := if d.invert then !pinState else pinState

/-- `DigitalPin::update`: the packet to the host and the pin written.  `gpio` is what
`gpio_get` shows of each pin. -/
def update (d : DigitalPin) (rx : RxData) (tx : TxData) (gpio : ℕ → Bool) : TxData × List Put :=
  if d.mode = 0 then
    if d.inverted (gpio d.pin) then (tx.setInputs (tx.inputs ||| d.mask), [])
    else (tx.setInputs (tx.inputs &&& ~~~d.mask), [])
  else (tx, [⟨d.pin, d.inverted (rx.outputs &&& d.mask ≠ 0#32)⟩])

/-- An input writes the word of inputs, an output nothing, of the packet to the host. -/
theorem jointFeedback_update (d : DigitalPin) (rx : RxData) (tx : TxData) (gpio : ℕ → Bool)
    {j : ℕ} (hj : j < JOINTS) :
    (d.update rx tx gpio).1.jointFeedback j = tx.jointFeedback j := by
  unfold update
  split_ifs
  · exact TxData.jointFeedback_setInputs _ _ hj
  · exact TxData.jointFeedback_setInputs _ _ hj
  · rfl

/-- What an output shows under a packet. -/
def shown (rx : RxData) (d : DigitalPin) : Bool := d.inverted (rx.outputs &&& d.mask ≠ 0#32)

/-- The level for a 0 bit. -/
theorem inverted_false (d : DigitalPin) : d.inverted false = d.invert := by
  cases h : d.invert <;> simp [inverted, h]

/-- Under an all-zero packet an output is driven to its level for a 0 bit. -/
@[simp] theorem shown_zero (d : DigitalPin) : d.shown RxData.zero = d.invert := by
  rw [← d.inverted_false]
  simp [shown]

end DigitalPin

namespace Blink

/-- `Blink::update` -/
def update (b : Blink) : Blink × List Put :=
  let blinkCount := b.blinkCount + 1
  if blinkCount ≥ b.periodCount / 2 then
    ({ b with bState := !b.bState, blinkCount := 0 }, [⟨b.blinkPin, !b.bState⟩])
  else ({ b with blinkCount := blinkCount }, [])

/-- A blinker after `n` servo runs. -/
def after (b : Blink) (n : ℕ) : Blink := (fun b => b.update.1)^[n] b

theorem after_succ (b : Blink) (n : ℕ) : b.after (n + 1) = (b.after n).update.1 :=
  Function.iterate_succ_apply' _ n b

theorem after_succ' (b : Blink) (n : ℕ) : b.after (n + 1) = b.update.1.after n := rfl

theorem blinkPin_update (b : Blink) : b.update.1.blinkPin = b.blinkPin := by
  rw [update]
  split_ifs <;> rfl

theorem periodCount_update (b : Blink) : b.update.1.periodCount = b.periodCount := by
  rw [update]
  split_ifs <;> rfl

theorem after_fixed (b : Blink) (n : ℕ) :
    (b.after n).blinkPin = b.blinkPin ∧ (b.after n).periodCount = b.periodCount := by
  induction n with
  | zero => exact ⟨rfl, rfl⟩
  | succ n ih =>
      rw [after_succ, blinkPin_update, periodCount_update]
      exact ih

/-- A blinker changes its pin at some time. -/
theorem exists_change (b : Blink) : ∃ n, (b.after n).update.2 = [⟨b.blinkPin, !b.bState⟩] ∧
    (b.after (n + 1)).bState = !b.bState := by
  -- the count grows until it reaches the half period, and cannot overflow before
  induction hk : (b.periodCount / 2).toNat - (b.blinkCount + 1).toNat generalizing b with
  | zero =>
      have hge : b.blinkCount + 1 ≥ b.periodCount / 2 := by
        rw [ge_iff_le, BitVec.le_def]
        omega
      exact ⟨0, by rw [after, Function.iterate_zero_apply, update, if_pos hge],
        by rw [after_succ, after, Function.iterate_zero_apply, update, if_pos hge]⟩
  | succ k ih =>
      have hlt : ¬b.blinkCount + 1 ≥ b.periodCount / 2 := by
        rw [ge_iff_le, BitVec.le_def]
        omega
      have hupdate : b.update = ({ b with blinkCount := b.blinkCount + 1 }, []) := if_neg hlt
      have hnext : (b.blinkCount + 1 + 1).toNat = (b.blinkCount + 1).toNat + 1 := by
        have hbound := (b.periodCount / 2).isLt
        rw [BitVec.toNat_add, show (1 : Word).toNat = 1 from rfl]
        omega
      obtain ⟨n, hput, hstate⟩ := ih { b with blinkCount := b.blinkCount + 1 } (by
        dsimp only
        omega)
      refine ⟨n + 1, ?_, ?_⟩
      · rw [after_succ', hupdate]
        exact hput
      · rw [after_succ', hupdate]
        exact hstate

/-- **A blinker leaves its pin at either level**, sooner or later. -/
theorem exists_put (b : Blink) (v : Bool) :
    ∃ n, (b.after n).update.2 = [⟨b.blinkPin, v⟩] := by
  obtain ⟨n, hput, hstate⟩ := b.exists_change
  by_cases hv : v = !b.bState
  · exact ⟨n, hv ▸ hput⟩
  · obtain ⟨n', hput', -⟩ := (b.after (n + 1)).exists_change
    obtain rfl : b.bState = v := (Bool.eq_not_of_ne hv ▸ Bool.not_not _).symm
    refine ⟨n' + (n + 1), ?_⟩
    rw [hstate, (b.after_fixed (n + 1)).1, Bool.not_not] at hput'
    rw [after, Function.iterate_add_apply]
    exact hput'

end Blink

/-- The modules that follow `RemoraComms` in the servo thread. -/
inductive ServoModule where
  | blink (b : Blink)
  | digitalPin (d : DigitalPin)

/-- `update` of a module of the servo thread. -/
def ServoModule.update (rx : RxData) (gpio : ℕ → Bool) :
    ServoModule → TxData → ServoModule × TxData × List Put
  | .blink b, tx => (.blink b.update.1, tx, b.update.2)
  | .digitalPin d, tx => (.digitalPin d, (d.update rx tx gpio).1, (d.update rx tx gpio).2)

/-- The walk over the modules: the modules, the packet to the host, and the pins
written. -/
def runServoModules (rx : RxData) (gpio : ℕ → Bool) :
    List ServoModule → TxData → List ServoModule × TxData × List Put
  | [], tx => ([], tx, [])
  | m :: ms, tx =>
      let r := m.update rx gpio tx
      let rs := runServoModules rx gpio ms r.2.1
      (r.1 :: rs.1, rs.2.1, r.2.2 ++ rs.2.2)

/-- A module after its update: only blinkers have a state. -/
def ServoModule.next : ServoModule → ServoModule
  | .blink b => .blink b.update.1
  | .digitalPin d => .digitalPin d

/-- The pins that an update writes under a packet. -/
def ServoModule.puts (rx : RxData) : ServoModule → List Put
  | .blink b => b.update.2
  | .digitalPin d => if d.mode = 0 then [] else [⟨d.pin, d.shown rx⟩]

/-- The pins that a module of the servo thread may write. -/
def ServoModule.outputs : ServoModule → List ℕ
  | .blink b => [b.blinkPin]
  | .digitalPin d => if d.mode = 0 then [] else [d.pin]

theorem ServoModule.update_puts (m : ServoModule) (rx : RxData) (gpio : ℕ → Bool) (tx : TxData) :
    (m.update rx gpio tx).1 = m.next ∧ (m.update rx gpio tx).2.2 = m.puts rx := by
  cases m with
  | blink b => exact ⟨rfl, rfl⟩
  | digitalPin d =>
      refine ⟨rfl, ?_⟩
      rw [update, puts, DigitalPin.update]
      split_ifs <;> rfl

/-- Its pins stay what they are. -/
@[simp] theorem ServoModule.outputs_next (m : ServoModule) : m.next.outputs = m.outputs := by
  cases m with
  | blink b => exact congrArg (fun p => [p]) b.blinkPin_update
  | digitalPin d => rfl

/-- A module writes its own pins. -/
theorem ServoModule.line_mem_outputs {m : ServoModule} {rx : RxData} {p : Put}
    (h : p ∈ m.puts rx) : p.line ∈ m.outputs := by
  cases m with
  | blink b =>
      rw [puts, Blink.update] at h
      split_ifs at h
      · rw [List.mem_singleton.1 h]
        exact List.mem_singleton_self _
      · cases h
  | digitalPin d =>
      rw [puts] at h
      rw [outputs]
      split_ifs at h ⊢
      · cases h
      · rw [List.mem_singleton.1 h]
        exact List.mem_singleton_self _

/-- **What a walk does to the modules.** -/
theorem modules_runServoModules (rx : RxData) (gpio : ℕ → Bool) (ms : List ServoModule)
    (tx : TxData) : (runServoModules rx gpio ms tx).1 = ms.map ServoModule.next := by
  induction ms generalizing tx with
  | nil => rfl
  | cons m ms ih => rw [runServoModules, (m.update_puts rx gpio tx).1, ih, List.map_cons]

/-- **The pins that a walk writes.** -/
theorem puts_runServoModules (rx : RxData) (gpio : ℕ → Bool) (ms : List ServoModule)
    (tx : TxData) :
    (runServoModules rx gpio ms tx).2.2 = ms.flatMap (ServoModule.puts rx) := by
  induction ms generalizing tx with
  | nil => rfl
  | cons m ms ih => rw [runServoModules, (m.update_puts rx gpio tx).2, ih, List.flatMap_cons]

/-- A servo walk leaves the feedback of the joints alone. -/
theorem jointFeedback_runServoModules (rx : RxData) (gpio : ℕ → Bool) (ms : List ServoModule)
    (tx : TxData) {j : ℕ} (hj : j < JOINTS) :
    (runServoModules rx gpio ms tx).2.1.jointFeedback j = tx.jointFeedback j := by
  induction ms generalizing tx with
  | nil => rfl
  | cons m ms ih =>
      rw [runServoModules]
      dsimp only
      rw [ih]
      cases m with
      | blink b => rfl
      | digitalPin d => exact d.jointFeedback_update rx tx gpio hj

/-- The outputs among the modules. -/
def outputPins (ms : List ServoModule) : Set DigitalPin :=
  { d | ServoModule.digitalPin d ∈ ms ∧ d.mode ≠ 0 }

end Remora
