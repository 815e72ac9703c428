/-
# The step generator

`modules/stepgen/stepgen.cpp`.  `makePulses` reads the packet in force, turns
the frequency command into an increment of the DDS accumulator and emits a step
when bit `stepBit` of the accumulator flips: direction pin, then step pin, then
`rawCount` and the feedback of its joint.  `stopPulses` lowers the step pin.

`DDSaddValue` is a `float` product converted to `int32_t`.  What the compiler's
`float` does is a parameter, `FloatUnit`: nothing below depends on its rounding
unless it says so, and `exactFloat` is the unit that reads the scale as an exact
rational and truncates the product toward zero.

A step depends on the increment only, so `makePulses` is split where the source
has its comment: `command` is the first half, up to `DDSaddValue`, and `pulse`
the second.  `pulse_eq` says in one equation what a call does; no later proof
unfolds it.
-/

import Remora.Basis.Lines
import Remora.Basis.Phase
import Remora.Motion.Buffers

namespace Remora

open Basis

/-- What `float` does for a step generator: `(float)a / (float)b`, and the
`int32_t` that `int32_t * float` converts to. -/
structure FloatUnit where
  carrier : Type
  quotient : ℤ → ℤ → carrier
  scale : Word → carrier → Word

/-- Toward zero, as a conversion to an integer type rounds. -/
def truncate (q : ℚ) : ℤ := q.num.tdiv q.den

/-- The scale as an exact rational, the product truncated toward zero.  A product
outside `int32_t` is undefined in C; `out` says what it becomes. -/
def exactFloat (out : ℚ → Word) : FloatUnit where
  carrier := ℚ
  quotient a b := (a : ℚ) / (b : ℚ)
  scale w q :=
    let p : ℚ := w.toInt * q
    if -2 ^ 31 ≤ truncate p ∧ truncate p < 2 ^ 31 then BitVec.ofInt 32 (truncate p) else out p

variable {fl : FloatUnit}

/-- `class Stepgen`, with what outlives a call.  `isEnabled`, `isForward`,
`frequencyCommand` and `DDSaddValue` are set in each call before they are read. -/
structure Stepgen (fl : FloatUnit) where
  jointNumber : ℕ
  stepPin : ℕ
  directionPin : ℕ
  stepBit : Fin 32
  frequencyScale : fl.carrier
  DDSaccumulator : Word
  rawCount : Word

namespace Stepgen

/-- `Stepgen::Stepgen`, the pins already resolved to GPIO numbers. -/
def new (threadFreq : ℤ) (jointNumber stepPin directionPin : ℕ) (stepBit : Fin 32) :
    Stepgen fl where
  jointNumber := jointNumber
  stepPin := stepPin
  directionPin := directionPin
  stepBit := stepBit
  frequencyScale := fl.quotient (2 ^ stepBit.val) threadFreq
  DDSaccumulator := 0
  rawCount := 0

/-- `mask = 1 << jointNumber` -/
def mask (g : Stepgen fl) : Word := 1#32 <<< g.jointNumber

/-- `isEnabled`, the bit of the joint in `jointEnable`. -/
def isEnabled (g : Stepgen fl) (rx : RxData) : Bool := rx.jointEnable.setWidth 32 &&& g.mask ≠ 0#32

/-- `makePulses` up to `DDSaddValue`: none when the joint is not enabled. -/
def command (g : Stepgen fl) (rx : RxData) : Option Word :=
  if g.isEnabled rx then some (fl.scale (rx.jointFreqCmd g.jointNumber) g.frequencyScale) else none

/-- `makePulses` from `DDSaddValue` on: the object, the packet to the host and
the pins written. -/
def pulse (g : Stepgen fl) (txData : TxData) : Option Word → Stepgen fl × TxData × List Put
  | none => (g, txData, [])
  | some DDSaddValue =>
      let DDSaccumulator := g.DDSaccumulator + DDSaddValue
      let stepNow := (g.DDSaccumulator ^^^ DDSaccumulator) &&& 1#32 <<< g.stepBit.val
      let isForward := (0#32).slt DDSaddValue
      if stepNow ≠ 0#32 then
        let rawCount := if isForward then g.rawCount + 1 else g.rawCount - 1
        ({ g with DDSaccumulator := DDSaccumulator, rawCount := rawCount },
          txData.setJointFeedback g.jointNumber rawCount,
          [⟨g.directionPin, isForward⟩, ⟨g.stepPin, true⟩])
      else ({ g with DDSaccumulator := DDSaccumulator }, txData, [])

/-- `makePulses` -/
def makePulses (g : Stepgen fl) (rxData : RxData) (txData : TxData) :
    Stepgen fl × TxData × List Put := g.pulse txData (g.command rxData)

/-- `stopPulses` -/
def stopPulses (g : Stepgen fl) : List Put := [⟨g.stepPin, false⟩]

/-- The step that an increment makes, if any, and its direction. -/
def steps (g : Stepgen fl) : Option Word → Option Bool
  | none => none
  | some a =>
      if StepBitFlips g.stepBit g.DDSaccumulator (g.DDSaccumulator + a) then some ((0#32).slt a)
      else none

/-- The change of `rawCount` that a step makes. -/
def delta : Option Bool → Word
  | none => 0
  | some d => if d then 1 else -1

/-- The object after an increment. -/
def next (g : Stepgen fl) (a : Option Word) : Stepgen fl :=
  { g with
    DDSaccumulator := g.DDSaccumulator + a.getD 0
    rawCount := g.rawCount + delta (g.steps a) }

/-- The pins written for a step. -/
def putsOf (g : Stepgen fl) : Option Bool → List Put
  | none => []
  | some d => [⟨g.directionPin, d⟩, ⟨g.stepPin, true⟩]

/-- The packet to the host after an increment: only a step writes it. -/
def feed (g : Stepgen fl) (txData : TxData) (a : Option Word) : TxData :=
  if g.steps a = none then txData else txData.setJointFeedback g.jointNumber (g.next a).rawCount

/-- **What a call does.** -/
theorem pulse_eq (g : Stepgen fl) (txData : TxData) (a : Option Word) :
    g.pulse txData a = (g.next a, g.feed txData a, g.putsOf (g.steps a)) := by
  cases a with
  | none => simp [pulse, feed, next, steps, putsOf, delta]
  | some a =>
      have hbit := xor_and_twoPow_ne_zero g.stepBit.isLt g.DDSaccumulator (g.DDSaccumulator + a)
      simp only [pulse, hbit]
      by_cases h : StepBitFlips g.stepBit g.DDSaccumulator (g.DDSaccumulator + a)
      · by_cases hd : (0#32).slt a
        · simp [h, hd, feed, next, steps, putsOf, delta]
        · simp [h, hd, feed, next, steps, putsOf, delta, BitVec.sub_eq_add_neg]
      · simp [h, feed, next, steps, putsOf, delta]

@[simp] theorem next_jointNumber (g : Stepgen fl) (a : Option Word) :
    (g.next a).jointNumber = g.jointNumber := rfl

@[simp] theorem next_stepPin (g : Stepgen fl) (a : Option Word) :
    (g.next a).stepPin = g.stepPin := rfl

@[simp] theorem next_directionPin (g : Stepgen fl) (a : Option Word) :
    (g.next a).directionPin = g.directionPin := rfl

@[simp] theorem next_stepBit (g : Stepgen fl) (a : Option Word) :
    (g.next a).stepBit = g.stepBit := rfl

@[simp] theorem next_frequencyScale (g : Stepgen fl) (a : Option Word) :
    (g.next a).frequencyScale = g.frequencyScale := rfl

@[simp] theorem next_rawCount (g : Stepgen fl) (a : Option Word) :
    (g.next a).rawCount = g.rawCount + delta (g.steps a) := rfl

@[simp] theorem next_DDSaccumulator (g : Stepgen fl) (a : Option Word) :
    (g.next a).DDSaccumulator = g.DDSaccumulator + a.getD 0 := rfl

/-- A disabled joint is left as it is. -/
@[simp] theorem next_none (g : Stepgen fl) : g.next none = g := by
  simp [next, steps, delta]

@[simp] theorem putsOf_none (g : Stepgen fl) : g.putsOf none = [] := rfl

@[simp] theorem steps_none (g : Stepgen fl) : g.steps none = none := rfl

/-- The pins written are the generator's own. -/
theorem line_of_mem_putsOf {g : Stepgen fl} {s : Option Bool} {p : Put} (h : p ∈ g.putsOf s) :
    p.line = g.directionPin ∨ p.line = g.stepPin := by
  cases s with
  | none => simp [putsOf] at h
  | some d => rcases List.mem_cons.1 h with rfl | h
              · exact Or.inl rfl
              · exact Or.inr (by rw [List.mem_singleton.1 h])

/-- An all-zero packet enables no joint. -/
theorem command_zero (g : Stepgen fl) : g.command RxData.zero = none := by
  simp [command, isEnabled]

end Stepgen
end Remora
