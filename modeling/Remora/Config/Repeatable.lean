/-
# Loading twice

`loadModules` and the `create…` functions again, now with what a run leaves of them:
the arguments that each constructor is given, and the calls by which its pins are
configured.  Memory that is read before it is written is a parameter for each entry
(`EntryMemory`): the local `mod` of `createDigitalPin`, the memory in which a `Pin` is
made, and what stands past the end of its name.  What is made is what `loadModules`
registers (`foldlM_loadModule_eq`).

`createDigitalPin` reads the key `Modifier` but gives the constructor `mod`, which
nothing sets.  So a document loads the same way twice only if it registers no
Digital Pin, and names its other pins so that `configPin` does not read past the
end of a name (`repeatable_iff`).
-/

import Remora.Config.PinNames
import Remora.Config.SafeLoading
import Mathlib.Data.List.GetD

namespace Remora

open Basis

/-- A module, as the arguments of its constructor. -/
inductive Created where
  | stepgen (threadFreq jointNumber : Word) (step direction : String) (stepBit : Fin 32)
  | blink (portAndPin : String) (threadFreq freq : Word)
  | digitalPin (mode : Byte) (portAndPin : String) (bitNumber : Word) (invert : Bool)
      (modifier : Word)
  deriving DecidableEq

/-- What an entry makes: a module of a thread, its pins, and the calls for them. -/
structure Made where
  thread : String
  module : Created
  pins : List Pin
  calls : List GpioCall

/-- The memory in which a `Pin` is made, and what stands past the end of its name. -/
structure PinMemory where
  raw : Pin
  beyond : ℕ → Byte

/-- The memory that an entry of `Modules` is made in. -/
structure EntryMemory where
  mod : Word
  first : PinMemory
  second : PinMemory

namespace EntryMemory

/-- `createStepgen` and the constructor of `Stepgen`. -/
def createStepgen (m : EntryMemory) (f : Frequencies) (module : JsonObject) : Option Made :=
  let joint := (module "Joint Number").asInt
  match (module "Step Pin").asString, (module "Direction Pin").asString with
  | some step, some dir =>
      if 0 ≤ joint.toInt ∧ joint.toInt < 32 then
        let stepPin := Pin.new m.first.raw m.first.beyond (nameBytes step) OUTPUT
        let directionPin := Pin.new m.second.raw m.second.beyond (nameBytes dir) OUTPUT
        some ⟨"Base", .stepgen f.baseFreq joint step dir STEPBIT, [stepPin.1, directionPin.1],
          stepPin.2 ++ directionPin.2⟩
      else none
  | _, _ => none

/-- `createBlink` and the constructor of `Blink`, which drives its pin low. -/
def createBlink (m : EntryMemory) (f : Frequencies) (module : JsonObject) : Option Made :=
  let freq := (module "Frequency").asInt
  match (module "Pin").asString with
  | some pin =>
      if freq = 0 then none
      else
        let blinkPin := Pin.new m.first.raw m.first.beyond (nameBytes pin) OUTPUT
        some ⟨"Servo", .blink pin f.servoFreq freq, [blinkPin.1],
          blinkPin.2 ++ blinkPin.1.set false⟩
  | none => none

/-- `createDigitalPin` and the constructor of `DigitalPin`. -/
def createDigitalPin (m : EntryMemory) (module : JsonObject) : Option (Option Made) :=
  let dataBit := (module "Data Bit").asInt
  match (module "Invert").asString, (module "Mode").asString with
  | some invert, some mode =>
      if mode = "Output" ∨ mode = "Input" then
        match (module "Pin").asString with
        | some pin =>
            if 0 ≤ dataBit.toInt ∧ dataBit.toInt < 32 then
              let dir := if mode = "Output" then OUTPUT else INPUT
              let p := Pin.newWithModifier m.first.raw m.first.beyond (nameBytes pin) dir
                (m.mod.setWidth 8)
              some (some ⟨"Servo", .digitalPin dir pin dataBit (decide (invert = "True")) m.mod,
                [p.1], p.2⟩)
            else none
        | none => none
      else some none
  | _, _ => none

/-- An entry of `Modules`. -/
def loadModule (m : EntryMemory) (f : Frequencies) (module : JsonObject) : Option (Option Made) :=
  match (module "Thread").asString with
  | none => none
  | some thread =>
      if thread = "Base" then
        match (module "Type").asString with
        | none => none
        | some type =>
            if type = "Stepgen" then (m.createStepgen f module).map some else some none
      else if thread = "Servo" then
        match (module "Type").asString with
        | none => none
        | some type =>
            if type = "Blink" then (m.createBlink f module).map some
            else if type = "Digital Pin" then m.createDigitalPin module
            else some none
      else some none

end EntryMemory

/-- `loadModules`: what the entries make, in their order. -/
def makeModules (f : Frequencies) : (ℕ → EntryMemory) → List JsonObject → Option (List Made)
  | _, [] => some []
  | memory, module :: modules =>
      ((memory 0).loadModule f module).bind fun made =>
        (makeModules f (fun k => memory (k + 1)) modules).map fun rest => made.toList ++ rest

/-- The call configures its pin. -/
def GpioCall.configures : GpioCall → Bool
  | .init _ | .setDir .. | .setPulls .. => true
  | .put .. | .get _ => false

/-- What must not depend on memory: the thread, the constructor's arguments, and how
the pins are configured. -/
def Made.outcome (made : Made) : String × Created × List GpioCall :=
  (made.thread, made.module, made.calls.filter GpioCall.configures)

/-- **A configuration loads from the document alone**: every memory gives the same
modules and the same configuration of the pins, and every input gets the pulls that
its `Modifier` names, whatever the names mean. -/
structure Repeatable (pulls : JsonVariant → Bool × Bool) (f : Frequencies) (doc : JsonDocument) :
    Prop where
  same : ∃ outcome, ∀ memory, (makeModules f memory doc.modules).map (List.map Made.outcome) =
    some outcome
  pulls : ∀ module ∈ doc.modules, ∀ m made, EntryMemory.loadModule m f module = some (some made) →
    ∀ pin bit invert modifier, made.module = .digitalPin INPUT pin bit invert modifier →
      ∀ gpio up down, .setPulls gpio up down ∈ made.calls → (up, down) = pulls (module "Modifier")

/-- `configPin` reads nothing past the end of the name. -/
def SelfContained (name : String) : Prop :=
  (nameBytes name).head? = some 0x47 → 3 ≤ (nameBytes name).length

/-- An entry that is made, or skipped, from the document alone. -/
inductive Settled (module : JsonObject) : Prop
  | skipped (h : Unknown module)
  | stepgen (hthread : (module "Thread").asString = some "Base")
      (htype : (module "Type").asString = some "Stepgen")
      (hjoint : 0 ≤ (module "Joint Number").asInt.toInt ∧
        (module "Joint Number").asInt.toInt < 32)
      (hstep : ∃ step, (module "Step Pin").asString = some step ∧ SelfContained step)
      (hdir : ∃ dir, (module "Direction Pin").asString = some dir ∧ SelfContained dir)
  | blink (hthread : (module "Thread").asString = some "Servo")
      (htype : (module "Type").asString = some "Blink")
      (hfreq : (module "Frequency").asInt ≠ 0)
      (hpin : ∃ pin, (module "Pin").asString = some pin ∧ SelfContained pin)

/-- Up to its end a name is read from the document. -/
theorem byteAt_of_le {name : List Byte} {i : ℕ} (h : i ≤ name.length) (beyond : ℕ → Byte) :
    byteAt beyond name i = name.getD i 0 := by
  unfold byteAt
  split_ifs with hlt heq
  · exact (List.getD_eq_getElem _ _ hlt).symm
  · rw [List.getD_eq_default _ _ (Nat.le_of_eq heq.symm)]
  · omega

/-- The first character is read from the document in any case. -/
theorem byteAt_zero_iff (beyond : ℕ → Byte) (name : List Byte) :
    byteAt beyond name 0 = 0x47 ↔ name.head? = some 0x47 := by
  rw [byteAt_of_le (Nat.zero_le _)]
  cases name <;> simp

namespace Pin

/-- The calls for an output pin. -/
theorem calls_new (raw : Pin) (beyond : ℕ → Byte) (name : List Byte) :
    (new raw beyond name OUTPUT).2 =
      if name.head? = some 0x47 then configCalls (number beyond name).toNat true false false
      else [] := by
  rw [new, configPin_eq]
  dsimp only
  rw [if_neg (show ¬OUTPUT = INPUT by decide), if_congr (byteAt_zero_iff beyond name) rfl rfl]
  split_ifs <;> rfl

theorem configures_calls_new (raw : Pin) (beyond : ℕ → Byte) (name : List Byte) :
    (new raw beyond name OUTPUT).2.filter GpioCall.configures = (new raw beyond name OUTPUT).2 := by
  rw [calls_new]
  split_ifs <;> rfl

/-- With a modifier that the `switch` does not know, an input pin has the pulls that
memory held. -/
theorem calls_newWithModifier_zero (beyond : ℕ → Byte) {name : List Byte}
    (hG : name.head? = some 0x47) (up down : Bool) :
    (newWithModifier ⟨[], 0, 0, 0, 0, false, up, down⟩ beyond name INPUT 0).2 =
      configCalls (number beyond name).toNat false up down := by
  rw [newWithModifier, configPin_eq]
  dsimp only
  rw [if_pos rfl, if_neg (show ¬(0 : Byte) = PULLUP by decide),
    if_neg (show ¬(0 : Byte) = PULLDOWN by decide), if_neg (show ¬(0 : Byte) = PULLNONE by decide)]
  dsimp only
  rw [if_pos ((byteAt_zero_iff beyond name).2 hG)]

/-- Driving a pin does not configure it. -/
theorem configures_calls_set (p : Pin) (value : Bool) :
    (p.set value).filter GpioCall.configures = [] := by
  cases value <;> rfl

/-- The pin made is the one that the loader's `configPin` finds. -/
theorem toNat_pin_new (u : Uninitialised) {m : PinMemory} {name : String}
    (hraw : m.raw.pin = u.pin) (hbeyond : m.beyond = u.beyond name) (dir : Byte) :
    (new m.raw m.beyond (nameBytes name) dir).1.pin.toNat = Remora.configPin u name := by
  rw [new, hbeyond]
  dsimp only
  split_ifs
  · exact toNat_pin_configPin u rfl hraw
  · exact toNat_pin_configPin u rfl hraw

theorem toNat_pin_newWithModifier (u : Uninitialised) {m : PinMemory} {name : String}
    (hraw : m.raw.pin = u.pin) (hbeyond : m.beyond = u.beyond name) (dir modifier : Byte) :
    (newWithModifier m.raw m.beyond (nameBytes name) dir modifier).1.pin.toNat =
      Remora.configPin u name := by
  rw [newWithModifier, hbeyond]
  dsimp only
  split_ifs <;> exact toNat_pin_configPin u rfl hraw

end Pin

/-- Memory past a name that holds `c` at 3 and a digit elsewhere. -/
def past (c : Byte) (i : ℕ) : Byte := if i = 3 then c else 0x31

/-- **A short name is read past its end**, and what stands there is part of the number. -/
theorem number_past_ne {name : List Byte} (hG : name.head? = some 0x47)
    (hshort : name.length < 3) : Pin.number (past 0) name ≠ Pin.number (past 1) name := by
  match name, hG, hshort with
  | [a], _, _ => simp [Pin.number, byteAt, past]
  | [a, b], _, _ => simp [Pin.number, byteAt, past]

/-- The calls for a name that is not read past its end. -/
theorem SelfContained.calls_new {name : String} (h : SelfContained name) (m m' : PinMemory) :
    (Pin.new m.raw m.beyond (nameBytes name) OUTPUT).2 =
      (Pin.new m'.raw m'.beyond (nameBytes name) OUTPUT).2 := by
  rw [Pin.calls_new, Pin.calls_new]
  split_ifs with hG
  · have hlen := h hG
    simp only [Pin.number, byteAt_of_le hlen,
      byteAt_of_le (show 2 ≤ (nameBytes name).length by omega)]
  · rfl

/-- The memory in which a pin is made, with `c` past the end of its name. -/
def PinMemory.of (c : Byte) : PinMemory := ⟨⟨[], 0, 0, 0, 0, false, false, false⟩, past c⟩

/-- Two memories tell that a name is read past its end. -/
theorem selfContained_of_calls {name : String} {rest rest' : List GpioCall}
    (h : (Pin.new (PinMemory.of 0).raw (PinMemory.of 0).beyond (nameBytes name) OUTPUT).2 ++ rest =
      (Pin.new (PinMemory.of 1).raw (PinMemory.of 1).beyond (nameBytes name) OUTPUT).2 ++ rest') :
    SelfContained name := by
  intro hG
  by_contra hshort
  rw [Pin.calls_new, Pin.calls_new, if_pos hG, if_pos hG] at h
  have hinit := List.head_eq_of_cons_eq h
  exact number_past_ne hG (not_le.1 hshort) (BitVec.eq_of_toNat_eq (GpioCall.init.inj hinit))

/-- The GPIO of a pin of the module made. -/
def Made.gpio (made : Made) (i : ℕ) : ℕ := (made.pins[i]?.map fun p => p.pin.toNat).getD 0

variable {fl : FloatUnit}

/-- `registerModule` of the module made, with its constructor's other fields. -/
def Made.register (t : Threads fl) (made : Made) : Threads fl :=
  match made.module with
  | .stepgen threadFreq joint _ _ stepBit =>
      { t with baseThread := t.baseThread ++ [Stepgen.new threadFreq.toInt joint.toInt.toNat
          (made.gpio 0) (made.gpio 1) stepBit] }
  | .blink _ threadFreq freq =>
      { t with servoThread := t.servoThread ++
          [.blink ⟨false, threadFreq / freq, 0, made.gpio 0⟩] }
  | .digitalPin mode _ bitNumber invert _ =>
      { t with servoThread := t.servoThread ++
          [.digitalPin ⟨mode.toNat, made.gpio 0, bitNumber.toInt.toNat, invert⟩] }

/-- The memory of an entry is what the loader reads uninitialised. -/
structure Agrees (u : Uninitialised) (module : JsonObject) (m : EntryMemory) : Prop where
  raw : m.first.raw.pin = u.pin ∧ m.second.raw.pin = u.pin
  stepPin : (module "Type").asString = some "Stepgen" →
    ∀ name, (module "Step Pin").asString = some name → m.first.beyond = u.beyond name
  directionPin : ∀ name, (module "Direction Pin").asString = some name →
    m.second.beyond = u.beyond name
  pin : (module "Type").asString ≠ some "Stepgen" →
    ∀ name, (module "Pin").asString = some name → m.first.beyond = u.beyond name

namespace EntryMemory

variable {f : Frequencies} {module : JsonObject}

/-- The generator made for these names. -/
def stepgen (m : EntryMemory) (f : Frequencies) (module : JsonObject) (step dir : String) :
    Made :=
  let stepPin := Pin.new m.first.raw m.first.beyond (nameBytes step) OUTPUT
  let directionPin := Pin.new m.second.raw m.second.beyond (nameBytes dir) OUTPUT
  ⟨"Base", .stepgen f.baseFreq (module "Joint Number").asInt step dir STEPBIT,
    [stepPin.1, directionPin.1], stepPin.2 ++ directionPin.2⟩

theorem createStepgen_of {step dir : String} (hstep : (module "Step Pin").asString = some step)
    (hdir : (module "Direction Pin").asString = some dir)
    (hjoint : 0 ≤ (module "Joint Number").asInt.toInt ∧ (module "Joint Number").asInt.toInt < 32)
    (m : EntryMemory) : m.createStepgen f module = some (m.stepgen f module step dir) := by
  rw [createStepgen, hstep, hdir]
  exact if_pos hjoint

theorem exists_of_createStepgen {m : EntryMemory} {made : Made}
    (h : m.createStepgen f module = some made) :
    ∃ step dir, (module "Step Pin").asString = some step ∧
      (module "Direction Pin").asString = some dir ∧
      (0 ≤ (module "Joint Number").asInt.toInt ∧ (module "Joint Number").asInt.toInt < 32) ∧
      made = m.stepgen f module step dir := by
  unfold createStepgen at h
  dsimp only at h
  cases hstep : (module "Step Pin").asString with
  | none => simp [hstep] at h
  | some step =>
      cases hdir : (module "Direction Pin").asString with
      | none => simp [hstep, hdir] at h
      | some dir =>
          rw [hstep, hdir] at h
          dsimp only at h
          split_ifs at h with hjoint
          exact ⟨step, dir, rfl, rfl, hjoint, (Option.some.inj h).symm⟩

/-- **The generator that is registered** is the one whose constructor is called here. -/
theorem createStepgen_eq (u : Uninitialised) {m : EntryMemory}
    (hfirst : m.first.raw.pin = u.pin ∧
      ∀ step, (module "Step Pin").asString = some step → m.first.beyond = u.beyond step)
    (hsecond : m.second.raw.pin = u.pin ∧
      ∀ dir, (module "Direction Pin").asString = some dir → m.second.beyond = u.beyond dir) :
    (Remora.createStepgen u f module : Option (Stepgen fl)) =
      (m.createStepgen f module).map fun made =>
        Stepgen.new f.baseFreq.toInt (module "Joint Number").asInt.toInt.toNat (made.gpio 0)
          (made.gpio 1) STEPBIT := by
  unfold Remora.createStepgen createStepgen
  dsimp only
  cases hstep : (module "Step Pin").asString with
  | none => rfl
  | some step =>
      cases hdir : (module "Direction Pin").asString with
      | none => rfl
      | some dir =>
          dsimp only
          split_ifs
          · rw [← Pin.toNat_pin_new u hfirst.1 (hfirst.2 step hstep) OUTPUT,
              ← Pin.toNat_pin_new u hsecond.1 (hsecond.2 dir hdir) OUTPUT]
            rfl
          · rfl

/-- The blinker made for this name. -/
def blink (m : EntryMemory) (f : Frequencies) (module : JsonObject) (pin : String) : Made :=
  let blinkPin := Pin.new m.first.raw m.first.beyond (nameBytes pin) OUTPUT
  ⟨"Servo", .blink pin f.servoFreq (module "Frequency").asInt, [blinkPin.1],
    blinkPin.2 ++ blinkPin.1.set false⟩

theorem createBlink_of {pin : String} (hpin : (module "Pin").asString = some pin)
    (hfreq : (module "Frequency").asInt ≠ 0) (m : EntryMemory) :
    m.createBlink f module = some (m.blink f module pin) := by
  rw [createBlink, hpin]
  exact if_neg hfreq

theorem exists_of_createBlink {m : EntryMemory} {made : Made}
    (h : m.createBlink f module = some made) :
    ∃ pin, (module "Pin").asString = some pin ∧ (module "Frequency").asInt ≠ 0 ∧
      made = m.blink f module pin := by
  unfold createBlink at h
  dsimp only at h
  cases hpin : (module "Pin").asString with
  | none => simp [hpin] at h
  | some pin =>
      rw [hpin] at h
      dsimp only at h
      split_ifs at h with hfreq
      exact ⟨pin, rfl, hfreq, (Option.some.inj h).symm⟩

/-- **The blinker that is registered.** -/
theorem createBlink_eq (u : Uninitialised) {m : EntryMemory}
    (hfirst : m.first.raw.pin = u.pin ∧
      ∀ pin, (module "Pin").asString = some pin → m.first.beyond = u.beyond pin) :
    Remora.createBlink u f module = (m.createBlink f module).map fun made =>
      ⟨false, f.servoFreq / (module "Frequency").asInt, 0, made.gpio 0⟩ := by
  unfold Remora.createBlink createBlink
  dsimp only
  cases hpin : (module "Pin").asString with
  | none => rfl
  | some pin =>
      dsimp only
      split_ifs
      · rfl
      · rw [← Pin.toNat_pin_new u hfirst.1 (hfirst.2 pin hpin) OUTPUT]
        rfl

/-- **The pin that is registered.** -/
theorem createDigitalPin_eq (u : Uninitialised) {m : EntryMemory}
    (hfirst : m.first.raw.pin = u.pin ∧
      ∀ pin, (module "Pin").asString = some pin → m.first.beyond = u.beyond pin) :
    Remora.createDigitalPin u module = (m.createDigitalPin module).map (Option.map fun made =>
      { mode := if (module "Mode").asString = some "Output" then 1 else 0
        pin := made.gpio 0
        bitNumber := (module "Data Bit").asInt.toInt.toNat
        invert := decide ((module "Invert").asString = some "True") }) := by
  unfold Remora.createDigitalPin createDigitalPin
  dsimp only
  cases hinvert : (module "Invert").asString with
  | none => rfl
  | some invert =>
      cases hmode : (module "Mode").asString with
      | none => rfl
      | some mode =>
          dsimp only
          by_cases hknown : mode = "Output" ∨ mode = "Input"
          · cases hpin : (module "Pin").asString with
            | none => simp [hknown]
            | some pin =>
                have hnumber := Pin.toNat_pin_newWithModifier u hfirst.1 (hfirst.2 pin hpin)
                  (if mode = "Output" then OUTPUT else INPUT) (m.mod.setWidth 8)
                by_cases hbit : 0 ≤ (module "Data Bit").asInt.toInt ∧
                    (module "Data Bit").asInt.toInt < 32
                · simp [hknown, hbit, Made.gpio, hnumber]
                · simp [hknown, hbit]
          · simp [hknown]

/-- The pin made for this name, with what `mod` held. -/
def digitalPin (m : EntryMemory) (module : JsonObject) (invert mode pin : String) : Made :=
  let dir := if mode = "Output" then OUTPUT else INPUT
  let p := Pin.newWithModifier m.first.raw m.first.beyond (nameBytes pin) dir (m.mod.setWidth 8)
  ⟨"Servo",
    .digitalPin dir pin (module "Data Bit").asInt (decide (invert = "True")) m.mod, [p.1], p.2⟩

theorem createDigitalPin_of {invert mode pin : String}
    (hinvert : (module "Invert").asString = some invert)
    (hmode : (module "Mode").asString = some mode) (hknown : mode = "Output" ∨ mode = "Input")
    (hpin : (module "Pin").asString = some pin)
    (hbit : 0 ≤ (module "Data Bit").asInt.toInt ∧ (module "Data Bit").asInt.toInt < 32)
    (m : EntryMemory) :
    m.createDigitalPin module = some (some (m.digitalPin module invert mode pin)) := by
  rw [createDigitalPin, hinvert, hmode]
  dsimp only
  rw [if_pos hknown, hpin]
  exact if_pos hbit

theorem exists_of_createDigitalPin {m : EntryMemory} {made : Made}
    (h : m.createDigitalPin module = some (some made)) :
    ∃ invert mode pin, (module "Invert").asString = some invert ∧
      (module "Mode").asString = some mode ∧ made = m.digitalPin module invert mode pin := by
  unfold createDigitalPin at h
  dsimp only at h
  cases hinvert : (module "Invert").asString with
  | none => simp [hinvert] at h
  | some invert =>
      cases hmode : (module "Mode").asString with
      | none => simp [hinvert, hmode] at h
      | some mode =>
          rw [hinvert, hmode] at h
          dsimp only at h
          rcases ite_eq_iff.1 h with ⟨hknown, h⟩ | ⟨_, h⟩
          · cases hpin : (module "Pin").asString with
            | none => simp [hpin] at h
            | some pin =>
                rw [hpin] at h
                dsimp only at h
                rcases ite_eq_iff.1 h with ⟨_, h⟩ | ⟨_, h⟩
                · exact ⟨invert, mode, pin, rfl, rfl, (Option.some.inj (Option.some.inj h)).symm⟩
                · cases h
          · cases h

/-- No pin is made for a mode that is not known. -/
theorem createDigitalPin_eq_some_none_iff {m : EntryMemory} :
    m.createDigitalPin module = some none ↔
      HasString module "Invert" ∧ HasString module "Mode" ∧
        (module "Mode").asString ≠ some "Output" ∧ (module "Mode").asString ≠ some "Input" := by
  rw [← Remora.createDigitalPin_eq_some_none_iff
    (u := ⟨fun _ => m.first.beyond, m.first.raw.pin⟩), createDigitalPin_eq _ ⟨rfl, fun _ _ => rfl⟩]
  rcases m.createDigitalPin module with _ | _ | made <;> simp

theorem loadModule_of_undecided (h : Undecided module) (m : EntryMemory) :
    m.loadModule f module = none := dispatch_of_undecided _ _ _ _ h

/-- An entry that the loader does not know makes nothing. -/
theorem loadModule_of_unknown (h : Unknown module) (m : EntryMemory) :
    m.loadModule f module = some none :=
  dispatch_of_unknown _ _ _ _ h fun hinvert hmode houtput hinput =>
    createDigitalPin_eq_some_none_iff.2 ⟨hinvert, hmode, houtput, hinput⟩

theorem loadModule_stepgen (hthread : (module "Thread").asString = some "Base")
    (htype : (module "Type").asString = some "Stepgen") (m : EntryMemory) :
    m.loadModule f module = (m.createStepgen f module).map some :=
  dispatch_stepgen _ _ _ _ hthread htype

theorem loadModule_blink (hthread : (module "Thread").asString = some "Servo")
    (htype : (module "Type").asString = some "Blink") (m : EntryMemory) :
    m.loadModule f module = (m.createBlink f module).map some :=
  dispatch_blink _ _ _ _ hthread htype

theorem loadModule_digitalPin (hthread : (module "Thread").asString = some "Servo")
    (htype : (module "Type").asString = some "Digital Pin") (m : EntryMemory) :
    m.loadModule f module = m.createDigitalPin module :=
  dispatch_digitalPin _ _ _ _ hthread htype

/-- **What an entry makes is what the loader registers.** -/
theorem loadModule_eq {u : Uninitialised} {m : EntryMemory} (h : Agrees u module m)
    (t : Threads fl) :
    Remora.loadModule u f t module =
      (m.loadModule f module).map fun made => made.elim t (Made.register t) := by
  cases kind module with
  | undecided hnone =>
      rw [Remora.loadModule_of_undecided hnone, loadModule_of_undecided hnone]
      rfl
  | unknown hunknown =>
      rw [Remora.loadModule_of_unknown hunknown, loadModule_of_unknown hunknown]
      rfl
  | stepgen hthread htype =>
      rw [Remora.loadModule_stepgen hthread htype, loadModule_stepgen hthread htype,
        createStepgen_eq u ⟨h.raw.1, h.stepPin htype⟩ ⟨h.raw.2, h.directionPin⟩]
      cases hmade : m.createStepgen f module with
      | none => rfl
      | some made =>
          obtain ⟨_, _, -, -, -, rfl⟩ := exists_of_createStepgen hmade
          rfl
  | blink hthread htype =>
      rw [Remora.loadModule_blink hthread htype, loadModule_blink hthread htype,
        createBlink_eq u ⟨h.raw.1, h.pin (by simp [htype])⟩]
      cases hmade : m.createBlink f module with
      | none => rfl
      | some made =>
          obtain ⟨_, -, -, rfl⟩ := exists_of_createBlink hmade
          rfl
  | digitalPin hthread htype =>
      rw [Remora.loadModule_digitalPin hthread htype, loadModule_digitalPin hthread htype,
        createDigitalPin_eq u ⟨h.raw.1, h.pin (by simp [htype])⟩]
      rcases hmade : m.createDigitalPin module with _ | _ | made
      · rfl
      · simp
      · obtain ⟨invert, mode, pin, hinvert, hmode, rfl⟩ := exists_of_createDigitalPin hmade
        simp only [Option.map_some, Option.elim_some, Made.register, digitalPin, hinvert, hmode,
          Option.some_inj]
        split_ifs <;> rfl

/-- Memory that holds `c`, as a `mod` and past the end of each name. -/
def of (c : Byte) : EntryMemory := ⟨c.setWidth 32, .of c, .of c⟩

end EntryMemory

/-- **What a document makes is what the loader registers**, entry by entry. -/
theorem foldlM_loadModule_eq {u : Uninitialised} {f : Frequencies} {modules : List JsonObject}
    {memory : ℕ → EntryMemory}
    (h : ∀ k module, modules[k]? = some module → Agrees u module (memory k)) (t : Threads fl) :
    modules.foldlM (loadModule u f) t =
      (makeModules f memory modules).map fun made => made.foldl Made.register t := by
  induction modules generalizing memory t with
  | nil => rfl
  | cons module modules ih =>
      have htail (k : ℕ) (other : JsonObject) (hget : modules[k]? = some other) :
          Agrees u other (memory (k + 1)) := h (k + 1) other hget
      rw [List.foldlM_cons, EntryMemory.loadModule_eq (h 0 module rfl), makeModules]
      rcases (memory 0).loadModule f module with _ | made
      · rfl
      · rw [Option.map_some, Option.bind_eq_bind, Option.bind_some, ih htail, Option.bind_some,
          Option.map_map]
        cases made <;> rfl

/-- Memory for a first entry, and for the others. -/
def EntryMemory.cons (m : EntryMemory) (memory : ℕ → EntryMemory) : ℕ → EntryMemory
  | 0 => m
  | k + 1 => memory k

/-- Whatever the memory, the entry makes the same. -/
def Same (f : Frequencies) (module : JsonObject) : Prop :=
  ∃ outcome, ∀ m : EntryMemory,
    (m.loadModule f module).map (Option.map Made.outcome) = some outcome

section Same

variable {f : Frequencies} {module : JsonObject}

theorem Settled.same (h : Settled module) : Same f module := by
  cases h with
  | skipped hunknown =>
      exact ⟨none, fun m => by rw [EntryMemory.loadModule_of_unknown hunknown]; rfl⟩
  | stepgen hthread htype hjoint hstep hdir =>
      obtain ⟨step, hname, hstep⟩ := hstep
      obtain ⟨dir, hname', hdir⟩ := hdir
      refine ⟨some ("Base",
        .stepgen f.baseFreq (module "Joint Number").asInt step dir STEPBIT,
        (Pin.new (PinMemory.of 0).raw (PinMemory.of 0).beyond (nameBytes step) OUTPUT).2 ++
          (Pin.new (PinMemory.of 0).raw (PinMemory.of 0).beyond (nameBytes dir) OUTPUT).2),
        fun m => ?_⟩
      rw [EntryMemory.loadModule_stepgen hthread htype,
        EntryMemory.createStepgen_of hname hname' hjoint]
      simp only [Option.map_some, Made.outcome, EntryMemory.stepgen, List.filter_append,
        Pin.configures_calls_new]
      rw [hstep.calls_new m.first (.of 0), hdir.calls_new m.second (.of 0)]
  | blink hthread htype hfreq hpin =>
      obtain ⟨pin, hname, hpin⟩ := hpin
      refine ⟨some ("Servo", .blink pin f.servoFreq (module "Frequency").asInt,
        (Pin.new (PinMemory.of 0).raw (PinMemory.of 0).beyond (nameBytes pin) OUTPUT).2),
        fun m => ?_⟩
      rw [EntryMemory.loadModule_blink hthread htype, EntryMemory.createBlink_of hname hfreq]
      simp only [Option.map_some, Made.outcome, EntryMemory.blink, List.filter_append,
        Pin.configures_calls_new, Pin.configures_calls_set, List.append_nil]
      rw [hpin.calls_new m.first (.of 0)]

theorem Same.outcome_eq (h : Same f module) {make : EntryMemory → Made}
    (hmake : ∀ m : EntryMemory, m.loadModule f module = some (some (make m))) (m m' : EntryMemory) :
    (make m).outcome = (make m').outcome := by
  obtain ⟨outcome, h⟩ := h
  have hm := h m
  have hm' := h m'
  rw [hmake] at hm hm'
  exact Option.some.inj (Option.some.inj (hm.trans hm'.symm))

/-- A generator made the same way in two memories has names that are read to their end. -/
theorem settled_of_stepgen (hthread : (module "Thread").asString = some "Base")
    (htype : (module "Type").asString = some "Stepgen") (h : Same f module) : Settled module := by
  have hload := EntryMemory.loadModule_stepgen (f := f) hthread htype
  obtain ⟨made, hmade, -⟩ := Option.map_eq_some_iff.1 (h.choose_spec (.of 0))
  rw [hload] at hmade
  obtain ⟨_, hcreate, -⟩ := Option.map_eq_some_iff.1 hmade
  obtain ⟨step, dir, hstep, hdir, hjoint, -⟩ := EntryMemory.exists_of_createStepgen hcreate
  have houtcome := h.outcome_eq (fun m => by
    rw [hload, EntryMemory.createStepgen_of hstep hdir hjoint]; rfl) (.of 0) (.of 1)
  have hcalls := congrArg (fun r => r.2.2) houtcome
  simp only [EntryMemory.stepgen, Made.outcome, List.filter_append,
    Pin.configures_calls_new] at hcalls
  have hself : SelfContained step := selfContained_of_calls hcalls
  refine .stepgen hthread htype hjoint ⟨step, hstep, hself⟩ ⟨dir, hdir, ?_⟩
  rw [hself.calls_new (EntryMemory.of 0).first (EntryMemory.of 1).first] at hcalls
  refine @selfContained_of_calls dir [] [] ?_
  rw [List.append_nil, List.append_nil]
  exact List.append_cancel_left hcalls

/-- So has a blinker. -/
theorem settled_of_blink (hthread : (module "Thread").asString = some "Servo")
    (htype : (module "Type").asString = some "Blink") (h : Same f module) : Settled module := by
  have hload := EntryMemory.loadModule_blink (f := f) hthread htype
  obtain ⟨made, hmade, -⟩ := Option.map_eq_some_iff.1 (h.choose_spec (.of 0))
  rw [hload] at hmade
  obtain ⟨_, hcreate, -⟩ := Option.map_eq_some_iff.1 hmade
  obtain ⟨pin, hpin, hfreq, -⟩ := EntryMemory.exists_of_createBlink hcreate
  have houtcome := h.outcome_eq (fun m => by
    rw [hload, EntryMemory.createBlink_of hpin hfreq]; rfl) (.of 0) (.of 1)
  have hcalls := congrArg (fun r => r.2.2) houtcome
  simp only [EntryMemory.blink, Made.outcome, List.filter_append,
    Pin.configures_calls_new] at hcalls
  exact .blink hthread htype hfreq ⟨pin, hpin, selfContained_of_calls hcalls⟩

/-- **A Digital Pin that is registered is never the same**: it has what `mod` held. -/
theorem settled_of_digitalPin (hthread : (module "Thread").asString = some "Servo")
    (htype : (module "Type").asString = some "Digital Pin") (h : Same f module) :
    Settled module := by
  obtain ⟨outcome, h⟩ := h
  simp only [EntryMemory.loadModule_digitalPin hthread htype] at h
  obtain ⟨made, hmade, houtcome⟩ := Option.map_eq_some_iff.1 (h (.of 0))
  cases made with
  | none =>
      obtain ⟨hinvert, hmode, houtput, hinput⟩ :=
        EntryMemory.createDigitalPin_eq_some_none_iff.1 hmade
      exact .skipped (.mode hthread htype hinvert hmode houtput hinput)
  | some made =>
      obtain ⟨made', hmade', houtcome'⟩ := Option.map_eq_some_iff.1 (h (.of 1))
      cases made' with
      | none => simp [← houtcome] at houtcome'
      | some made' =>
          obtain ⟨_, _, _, -, -, rfl⟩ := EntryMemory.exists_of_createDigitalPin hmade
          obtain ⟨_, _, _, -, -, rfl⟩ := EntryMemory.exists_of_createDigitalPin hmade'
          have hmodule := congrArg (Option.map fun r => r.2.1) (houtcome.trans houtcome'.symm)
          simp [Made.outcome, EntryMemory.digitalPin, EntryMemory.of] at hmodule

/-- **An entry is made from the document alone** exactly if it is settled. -/
theorem same_iff_settled : Same f module ↔ Settled module := by
  constructor
  · intro h
    cases kind module with
    | undecided hnone =>
        obtain ⟨outcome, h⟩ := h
        simpa [EntryMemory.loadModule_of_undecided hnone] using h (.of 0)
    | unknown hunknown => exact .skipped hunknown
    | stepgen hthread htype => exact settled_of_stepgen hthread htype h
    | blink hthread htype => exact settled_of_blink hthread htype h
    | digitalPin hthread htype => exact settled_of_digitalPin hthread htype h
  · exact Settled.same

end Same

/-- Two parts on memory of their own give one list together only if each gives one. -/
theorem exists_append_iff {α β γ : Type*} [Nonempty α] [Nonempty β] (A : α → Option (Option γ))
    (B : β → Option (List γ)) :
    (∃ o, ∀ a b, ((A a).bind fun x => (B b).map fun xs => x.toList ++ xs) = some o) ↔
      (∃ x, ∀ a, A a = some x) ∧ ∃ xs, ∀ b, B b = some xs := by
  constructor
  · rintro ⟨o, h⟩
    have hparts (a : α) (b : β) : ∃ x xs, A a = some x ∧ B b = some xs ∧ x.toList ++ xs = o := by
      obtain ⟨x, hx, hrest⟩ := Option.bind_eq_some_iff.1 (h a b)
      obtain ⟨xs, hxs, heq⟩ := Option.map_eq_some_iff.1 hrest
      exact ⟨x, xs, hx, hxs, heq⟩
    obtain ⟨a⟩ := ‹Nonempty α›
    obtain ⟨b⟩ := ‹Nonempty β›
    obtain ⟨x, xs, hx, hxs, hfirst⟩ := hparts a b
    refine ⟨⟨x, fun a' => ?_⟩, xs, fun b' => ?_⟩
    · obtain ⟨y, ys, hy, hys, heq⟩ := hparts a' b
      obtain rfl := Option.some.inj (hys.symm.trans hxs)
      have hlist : y.toList = x.toList := List.append_cancel_right (heq.trans hfirst.symm)
      rw [hy]
      cases x <;> cases y <;> simp_all
    · obtain ⟨y, ys, hy, hys, heq⟩ := hparts a b'
      obtain rfl := Option.some.inj (hy.symm.trans hx)
      rw [hys, List.append_cancel_left (heq.trans hfirst.symm)]
  · rintro ⟨⟨x, hx⟩, xs, hxs⟩
    refine ⟨x.toList ++ xs, fun a b => ?_⟩
    rw [hx, hxs]
    rfl

/-- The outcome of a list, from those of its first entry and of the others. -/
theorem makeModules_cons (f : Frequencies) (memory : ℕ → EntryMemory) (module : JsonObject)
    (modules : List JsonObject) :
    (makeModules f memory (module :: modules)).map (List.map Made.outcome) =
      (((memory 0).loadModule f module).map (Option.map Made.outcome)).bind fun made =>
        ((makeModules f (fun k => memory (k + 1)) modules).map (List.map Made.outcome)).map
          fun rest => made.toList ++ rest := by
  rw [makeModules]
  rcases (memory 0).loadModule f module with _ | made
  · rfl
  · rcases makeModules f (fun k => memory (k + 1)) modules with _ | rest
    · rfl
    · cases made <;> rfl

/-- **Entries are made from the document alone** exactly if each is. -/
theorem makeModules_same_iff (f : Frequencies) (modules : List JsonObject) :
    (∃ outcome, ∀ memory, (makeModules f memory modules).map (List.map Made.outcome) =
      some outcome) ↔ ∀ module ∈ modules, Same f module := by
  have hempty : Nonempty EntryMemory := ⟨.of 0⟩
  induction modules with
  | nil => exact ⟨nofun, fun _ => ⟨[], fun _ => rfl⟩⟩
  | cons module modules ih =>
      have hparts := exists_append_iff
        (fun m : EntryMemory => (m.loadModule f module).map (Option.map Made.outcome))
        (fun memory => (makeModules f memory modules).map (List.map Made.outcome))
      rw [List.forall_mem_cons]
      refine Iff.trans ?_ (hparts.trans (and_congr Iff.rfl ih))
      simp only [makeModules_cons]
      -- the first entry's memory and that of the others are chosen apart
      refine exists_congr fun outcome => ⟨fun h m memory => ?_, fun h memory => ?_⟩
      · exact h (EntryMemory.cons m memory)
      · exact h (memory 0) fun k => memory (k + 1)

/-- A settled entry is no Digital Pin. -/
theorem Settled.not_digitalPin {f : Frequencies} {module : JsonObject} (h : Settled module)
    {m : EntryMemory} {made : Made} (hmade : m.loadModule f module = some (some made))
    (dir : Byte) (pin : String) (bit : Word) (invert : Bool) (modifier : Word) :
    made.module ≠ .digitalPin dir pin bit invert modifier := by
  cases h with
  | skipped hunknown => simp [EntryMemory.loadModule_of_unknown hunknown] at hmade
  | stepgen hthread htype =>
      rw [EntryMemory.loadModule_stepgen hthread htype] at hmade
      obtain ⟨_, hcreate, heq⟩ := Option.map_eq_some_iff.1 hmade
      obtain rfl := Option.some.inj heq
      obtain ⟨_, _, -, -, -, rfl⟩ := EntryMemory.exists_of_createStepgen hcreate
      simp [EntryMemory.stepgen]
  | blink hthread htype =>
      rw [EntryMemory.loadModule_blink hthread htype] at hmade
      obtain ⟨_, hcreate, heq⟩ := Option.map_eq_some_iff.1 hmade
      obtain rfl := Option.some.inj heq
      obtain ⟨_, -, -, rfl⟩ := EntryMemory.exists_of_createBlink hcreate
      simp [EntryMemory.blink]

/-- **When loading repeats.**  Whatever the modifiers mean, a document loads from its
text alone exactly if every entry of `Modules` is skipped, or is a Stepgen or a Blink
whose names `configPin` reads to their end: it may register no Digital Pin. -/
theorem repeatable_iff (pulls : JsonVariant → Bool × Bool) (f : Frequencies)
    (doc : JsonDocument) :
    Repeatable pulls f doc ↔ ∀ module ∈ doc.modules, Settled module := by
  constructor
  · intro h module hmem
    exact same_iff_settled.1 ((makeModules_same_iff f _).1 h.same module hmem)
  · intro h
    refine ⟨(makeModules_same_iff f _).2 fun module hmem => (h module hmem).same, ?_⟩
    intro module hmem m made hmade pin bit invert modifier hinput
    exact absurd hinput ((h module hmem).not_digitalPin hmade _ _ _ _ _)

/-- **An input may get any pulls**: with a modifier that the `switch` does not know,
what memory held in `pullup` and `pulldown` is what is set. -/
theorem exists_pulls_of_input {f : Frequencies} {module : JsonObject} {pin : String}
    (hthread : (module "Thread").asString = some "Servo")
    (htype : (module "Type").asString = some "Digital Pin")
    (hinvert : HasString module "Invert") (hmode : (module "Mode").asString = some "Input")
    (hpin : (module "Pin").asString = some pin) (hG : (nameBytes pin).head? = some 0x47)
    (hbit : 0 ≤ (module "Data Bit").asInt.toInt ∧ (module "Data Bit").asInt.toInt < 32)
    (up down : Bool) :
    ∃ (m : EntryMemory) (made : Made), m.loadModule f module = some (some made) ∧
      (∃ bit invert modifier, made.module = .digitalPin INPUT pin bit invert modifier) ∧
      ∃ gpio, .setPulls gpio up down ∈ made.calls := by
  obtain ⟨invert, hinvert⟩ := Option.isSome_iff_exists.1 hinvert
  let raw : Pin := ⟨[], 0, 0, 0, 0, false, up, down⟩
  let m : EntryMemory := ⟨0, ⟨raw, past 0⟩, .of 0⟩
  have hload := EntryMemory.loadModule_digitalPin (f := f) hthread htype m
  have hmem : .setPulls (Pin.number (past 0) (nameBytes pin)).toNat up down ∈
      (Pin.newWithModifier raw (past 0) (nameBytes pin) INPUT 0).2 := by
    rw [Pin.calls_newWithModifier_zero (past 0) hG up down]
    simp [Pin.configCalls]
  refine ⟨m, _,
    hload.trans (EntryMemory.createDigitalPin_of hinvert hmode (.inr rfl) hpin hbit m),
    ⟨_, _, _, rfl⟩, _, hmem⟩

/-- The first input of a shipped configuration. -/
def xLimit : JsonObject
  | "Thread" => ⟨some "Servo", 0, 0⟩
  | "Type" => ⟨some "Digital Pin", 0, 0⟩
  | "Comment" => ⟨some "X_Limit", 0, 0⟩
  | "Pin" => ⟨some "GP11", 0, 0⟩
  | "Mode" => ⟨some "Input", 0, 0⟩
  | "Invert" => ⟨some "False", 0, 0⟩
  | _ => .null

/-- It is made with what the stack held, and configured by that. -/
theorem not_repeatable :
    ¬Repeatable (fun _ => (false, false)) Frequencies.initial ⟨[], [xLimit]⟩ := by
  intro h
  obtain ⟨m, made, hmade, ⟨bit, invert, modifier, hinput⟩, gpio, hset⟩ :=
    @exists_pulls_of_input Frequencies.initial xLimit "GP11" rfl rfl rfl rfl rfl (by decide)
      (by decide) true false
  have hpulls := h.pulls xLimit (by simp) m made hmade _ _ _ _ hinput gpio true false hset
  simp at hpulls

end Remora
