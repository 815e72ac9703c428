/-
# From a configuration to the pins

What a configuration promises once its machine runs, in the terms of the configuration:
its joints, pins and bits (`Machine.Kept`).  A machine keeps it if no pin and no joint
is given twice, the joints are in the packet, and the pins on which the threads mark
their run time are not used (`Machine.Sound`).

So the whole way is one statement (`runs_as_said`): a text is uploaded over a network that
loses, repeats and reorders, stored, read back, parsed and loaded, and then the replies
say where the drives are, the outputs show the command and the blinkers blink,
wherever the threads and the packets cut each other.
-/

import Remora.Json.Boot
import Remora.Motion.Outputs
import Remora.Motion.Position

namespace Remora
namespace Json

open Basis

variable {fl : FloatUnit}

/-- The pins that an entry has driven. -/
def ModuleEntry.pins : ModuleEntry → List ℕ
  | .stepgen _ stepPin directionPin => [stepPin, directionPin]
  | .blink pin _ _ => [pin]
  | .digitalPin output pin _ _ => if output then [pin] else []

/-- The joint of an entry. -/
def ModuleEntry.joint? : ModuleEntry → Option ℕ
  | .stepgen joint _ _ => some joint
  | _ => none

namespace Machine

/-- No pin and no joint is given twice. -/
structure Sound (m : Machine) : Prop where
  pins : (6 :: 27 :: m.modules.flatMap ModuleEntry.pins).Nodup
  joints : (m.modules.filterMap ModuleEntry.joint?).Nodup
  inPacket : ∀ joint ∈ m.modules.filterMap ModuleEntry.joint?, joint < JOINTS

/-- What the entries of a machine promise of two threads that run. -/
structure Kept (m : Machine) (t : Threads fl) : Prop where
  position : ∀ (comms : RemoraComms) (before between : List Event) (e e' : Event)
    (first second : TxData),
    (run Wired.step (Wired.start t.baseThread t.servoThread comms) before).reply e = some first →
    Along Wired.step (fun s e => s.reply e = none)
      (run Wired.step (Wired.start t.baseThread t.servoThread comms) (before ++ [e])) between →
    (run Wired.step (Wired.start t.baseThread t.servoThread comms)
      (before ++ e :: between)).reply e' = some second →
    ∀ joint stepPin directionPin, ModuleEntry.stepgen joint stepPin directionPin ∈ m.modules →
      first.jointFeedback joint = BitVec.ofInt 32 (Wired.drive t.baseThread t.servoThread comms
        before stepPin directionPin) ∨
      second.jointFeedback joint = BitVec.ofInt 32 (Wired.drive t.baseThread t.servoThread comms
        (before ++ e :: between) stepPin directionPin)
  output : ∀ (comms : RemoraComms) (before first rest : List Event) (e : Event),
    (run Wired.step (Wired.start t.baseThread t.servoThread comms) before).walk = .out →
    Along Wired.step Wired.Commanded
      (run Wired.step (Wired.start t.baseThread t.servoThread comms) before)
      (first ++ e :: rest) →
    (run Wired.step (Wired.start t.baseThread t.servoThread comms)
      (before ++ first)).endsRun e = true →
    ∀ pin dataBit invert, ModuleEntry.digitalPin true pin dataBit invert ∈ m.modules →
      (run Wired.step (Wired.start t.baseThread t.servoThread comms)
        (before ++ (first ++ e :: rest))).level pin =
      ((run Wired.step (Wired.start t.baseThread t.servoThread comms)
        before).shared.rxPingPongBuffer.current.outputs.getLsbD dataBit ^^ invert)
  blink : ∀ (comms : RemoraComms) (es : List Event),
    (run Wired.step (Wired.start t.baseThread t.servoThread comms) es).walk = .out →
    ∀ pin freq positive, ModuleEntry.blink pin freq positive ∈ m.modules →
      (run Wired.step (Wired.start t.baseThread t.servoThread comms) es).level pin =
        decide ((run (watch Wired.step Wired.countRuns)
          (Wired.start t.baseThread t.servoThread comms, 0) es).2 /
            max 1 (m.frequencies.servoFreq / freq / 2).toNat % 2 = 1)

/-- The pins of the threads are those of the entries. -/
theorem perm_pins (f : Frequencies) (modules : List ModuleEntry) :
    ((modules.filterMap (stepgen? f : ModuleEntry → Option (Stepgen fl))).flatMap
        (fun g => [g.stepPin, g.directionPin]) ++
      (modules.filterMap (servoModule? f)).flatMap ServoModule.outputs).Perm
      (modules.flatMap ModuleEntry.pins) := by
  induction modules with
  | nil => exact .nil
  | cons entry modules ih =>
      rw [List.flatMap_cons]
      cases entry with
      | stepgen joint stepPin directionPin => exact (ih.cons _).cons _
      | blink pin freq positive =>
          refine .trans ?_ (ih.append_left _)
          exact List.perm_append_comm_assoc ..
      | digitalPin output pin dataBit invert =>
          refine .trans ?_ (ih.append_left _)
          have houtputs : ServoModule.outputs (.digitalPin ⟨if output then 1 else 0, pin, dataBit,
              invert⟩) = (ModuleEntry.digitalPin output pin dataBit invert).pins := by
            cases output <;> rfl
          rw [← houtputs]
          exact List.perm_append_comm_assoc ..

variable {m : Machine}

theorem wiredApart_build (h : m.Sound) :
    WiredApart (m.build : Threads fl).baseThread (m.build : Threads fl).servoThread := by
  have hperm : (wiredPins (m.build : Threads fl).baseThread (m.build : Threads fl).servoThread).Perm
      (6 :: 27 :: m.modules.flatMap ModuleEntry.pins) :=
    ((perm_pins m.frequencies m.modules).cons _).cons _
  exact hperm.nodup_iff.2 h.pins

theorem distinctJoints_build (h : m.Sound) :
    DistinctJoints (m.build : Threads fl).baseThread := by
  have hjoints : (m.build : Threads fl).baseThread.map Stepgen.jointNumber =
      m.modules.filterMap ModuleEntry.joint? := by
    rw [build, List.map_filterMap]
    refine List.filterMap_congr fun entry _ => ?_
    cases entry <;> rfl
  constructor
  · have hnodup := h.joints
    rw [← hjoints] at hnodup
    exact List.pairwise_map.1 hnodup
  · intro g hg
    exact h.inPacket _ (hjoints ▸ List.mem_map_of_mem hg)

theorem shown_digitalPin (rx : RxData) (pin : ℕ) (dataBit : Fin 32) (invert : Bool) :
    DigitalPin.shown rx ⟨1, pin, dataBit, invert⟩ = (rx.outputs.getLsbD dataBit ^^ invert) := by
  have hbit : ∀ dataBit : Fin 32, 1#32 <<< dataBit.val ≠ 0#32 := by decide
  have hmask : rx.outputs &&& (1#32 <<< dataBit.val) =
      if rx.outputs.getLsbD dataBit then 1#32 <<< dataBit.val else 0#32 :=
    BitVec.and_twoPow rx.outputs dataBit
  rw [DigitalPin.shown, DigitalPin.inverted, DigitalPin.mask, hmask]
  cases rx.outputs.getLsbD dataBit <;> cases invert <;> simp [hbit]

/-- **The threads keep what the entries promise.** -/
theorem kept_build (h : m.Sound) : m.Kept (m.build : Threads fl) where
  position comms before between e e' first second hfirst hbetween hsecond joint stepPin
      directionPin hentry := by
    have hnew : ∀ g ∈ (m.build : Threads fl).baseThread, g.rawCount = 0 := by
      intro g hg
      obtain ⟨entry, -, hmake⟩ := List.mem_filterMap.1 hg
      cases entry with
      | stepgen joint stepPin directionPin => rw [← Option.some.inj hmake]; rfl
      | blink pin freq positive => cases hmake
      | digitalPin output pin dataBit invert => cases hmake
    have hg : Stepgen.new m.frequencies.baseFreq.toInt joint stepPin directionPin STEPBIT ∈
        (m.build : Threads fl).baseThread := List.mem_filterMap.2 ⟨_, hentry, rfl⟩
    have hposition := Wired.first_or_second (distinctJoints_build h) hnew (wiredApart_build h)
      before between e e' hfirst hbetween hsecond hg
    dsimp only [Stepgen.new] at hposition
    exact hposition
  output comms before first rest e hout hcommanded hends pin dataBit invert hentry := by
    have hd : (⟨1, pin, dataBit, invert⟩ : DigitalPin) ∈
        outputPins (m.build : Threads fl).servoThread :=
      ⟨List.mem_filterMap.2 ⟨_, hentry, rfl⟩, Nat.one_ne_zero⟩
    have hobeys := Wired.output_obeys (wiredApart_build h) comms before first rest e hout hcommanded
      hends hd
    exact hobeys.trans (shown_digitalPin _ pin dataBit invert)
  blink comms es hout pin freq positive hentry := by
    have hb : ServoModule.blink ⟨false, m.frequencies.servoFreq / freq, 0, pin⟩ ∈
        (m.build : Threads fl).servoThread := List.mem_filterMap.2 ⟨_, hentry, rfl⟩
    obtain ⟨i, hi⟩ := List.mem_iff_getElem?.1 hb
    have hlevel := Wired.level_blinkPin_run (wiredApart_build h) comms es hi ⟨rfl, rfl⟩
    rw [hout, ServoWalk.updates, Blink.half] at hlevel
    exact hlevel

end Machine

end Json
end Remora
