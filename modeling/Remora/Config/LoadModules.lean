/-
# Loading a configuration

`configThreads` and `loadModules` of `remora.cpp`, the `create…` functions and
constructors they call, and `Pin::configPin`.  A parsed document is what
ArduinoJson shows of it: each value through the conversions the source asks for,
a null string and the number `0` for a key that is absent or of another kind.

`none` stands for undefined behaviour: `strcmp` on a null string, `std::string`
from one, a shift by a count outside `0 … 31`, a division by zero.  What memory
holds where the source reads it uninitialised, or past the end of a name, is a
parameter.
-/

import Remora.Basis.Run
import Remora.Motion.Servo

namespace Remora

open Basis

/-- A JSON value: as `const char*`, as `uint32_t` and as `int`. -/
structure JsonVariant where
  asString : Option String
  asUInt32 : Word
  asInt : Word

/-- An absent key. -/
def JsonVariant.null : JsonVariant := ⟨none, 0, 0⟩

/-- A JSON object, by key. -/
abbrev JsonObject := String → JsonVariant

/-- `doc`: the arrays `Threads` and `Modules`. -/
structure JsonDocument where
  threads : List JsonObject
  modules : List JsonObject

/-- `base_freq` and `servo_freq` -/
structure Frequencies where
  baseFreq : Word
  servoFreq : Word

/-- Before the configuration is read. -/
def Frequencies.initial : Frequencies :=
  ⟨BitVec.ofNat 32 PRU_BASEFREQ, BitVec.ofNat 32 PRU_SERVOFREQ⟩

/-- An entry of `Threads`. -/
def configThread (f : Frequencies) (thread : JsonObject) : Option Frequencies :=
  let freq := (thread "Frequency").asUInt32
  match (thread "Thread").asString with
  | none => none
  | some configor =>
      if configor = "Base" then some { f with baseFreq := freq }
      else if configor = "Servo" then some { f with servoFreq := freq }
      else some f

/-- `configThreads` -/
def configThreads (doc : JsonDocument) : Option Frequencies :=
  doc.threads.foldlM configThread Frequencies.initial

/-- Memory that the source reads without having written it. -/
structure Uninitialised where
  /-- What stands at index `i` from a name on, behind its terminating zero. -/
  beyond : String → ℕ → Byte
  /-- `pin` of a `Pin` whose name `configPin` rejects. -/
  pin : BitVec 16

/-- `portAndPin[i]` -/
def charAt (u : Uninitialised) (portAndPin : String) (i : ℕ) : Byte :=
  let bytes := portAndPin.toUTF8.data.toList.map UInt8.toBitVec
  if h : i < bytes.length then bytes[i] else if i = bytes.length then 0 else u.beyond portAndPin i

/-- `Pin::configPin`: the GPIO that the `Pin` writes and reads from then on. -/
def configPin (u : Uninitialised) (portAndPin : String) : ℕ :=
  if charAt u portAndPin 0 = 0x47 then
    let pinNumber : BitVec 16 := (charAt u portAndPin 3).setWidth 16 - 0x30
    let pin2 : BitVec 16 := (charAt u portAndPin 2).setWidth 16 - 0x30
    (if pin2 > 0 then pin2 * 10 + pinNumber else pinNumber).toNat
  else u.pin.toNat

variable {fl : FloatUnit}

/-- The threads, as far as `loadModules` has registered their modules. -/
structure Threads (fl : FloatUnit) where
  baseThread : List (Stepgen fl)
  servoThread : List ServoModule

/-- `createStepgen`, with the constructor's `mask = 1 << jointNumber`. -/
def createStepgen (u : Uninitialised) (f : Frequencies) (module : JsonObject) :
    Option (Stepgen fl) :=
  let joint := (module "Joint Number").asInt.toInt
  match (module "Step Pin").asString, (module "Direction Pin").asString with
  | some step, some dir =>
      if 0 ≤ joint ∧ joint < 32 then
        some (Stepgen.new f.baseFreq.toInt joint.toNat (configPin u step) (configPin u dir) STEPBIT)
      else none
  | _, _ => none

/-- `createBlink`, with the constructor's `periodCount = threadFreq / freq`. -/
def createBlink (u : Uninitialised) (f : Frequencies) (module : JsonObject) : Option Blink :=
  let freq := (module "Frequency").asInt
  match (module "Pin").asString with
  | some pin =>
      if freq = 0 then none
      else some { bState := false, periodCount := f.servoFreq / freq, blinkCount := 0,
                  blinkPin := configPin u pin }
  | none => none

/-- `createDigitalPin`: nothing is registered for another mode than the two. -/
def createDigitalPin (u : Uninitialised) (module : JsonObject) : Option (Option DigitalPin) :=
  let dataBit := (module "Data Bit").asInt.toInt
  match (module "Invert").asString, (module "Mode").asString with
  | some invert, some mode =>
      if mode = "Output" ∨ mode = "Input" then
        match (module "Pin").asString with
        | some pin =>
            if 0 ≤ dataBit ∧ dataBit < 32 then
              some (some { mode := if mode = "Output" then 1 else 0, pin := configPin u pin,
                           bitNumber := dataBit.toNat, invert := decide (invert = "True") })
            else none
        | none => none
      else some none
  | _, _ => none

/-- An entry of `Modules`. -/
def loadModule (u : Uninitialised) (f : Frequencies) (t : Threads fl) (module : JsonObject) :
    Option (Threads fl) :=
  match (module "Thread").asString with
  | none => none
  | some thread =>
      if thread = "Base" then
        match (module "Type").asString with
        | none => none
        | some type =>
            if type = "Stepgen" then
              (createStepgen u f module).map fun g => { t with baseThread := t.baseThread ++ [g] }
            else some t
      else if thread = "Servo" then
        match (module "Type").asString with
        | none => none
        | some type =>
            if type = "Blink" then
              (createBlink u f module).map fun b =>
                { t with servoThread := t.servoThread ++ [.blink b] }
            else if type = "Digital Pin" then
              (createDigitalPin u module).map fun d =>
                { t with servoThread := t.servoThread ++ d.toList.map .digitalPin }
            else some t
      else some t

/-- `loadModules`, after `RemoraComms` is registered. -/
def loadModules (u : Uninitialised) (f : Frequencies) (doc : JsonDocument) : Option (Threads fl) :=
  doc.modules.foldlM (loadModule u f) ⟨[], []⟩

/-- `ST_SETUP`, from the parsed document on. -/
def setup (u : Uninitialised) (doc : JsonDocument) : Option (Frequencies × Threads fl) :=
  (configThreads doc).bind fun f => (loadModules u f doc).map fun t => (f, t)

/-- What the constructor gives every generator of a configuration. -/
structure Scaled (f : Frequencies) (g : Stepgen fl) : Prop where
  stepBit : g.stepBit = STEPBIT
  frequencyScale : g.frequencyScale = fl.quotient (2 ^ STEPBIT.val) f.baseFreq.toInt

theorem scaled_of_createStepgen {u : Uninitialised} {f : Frequencies} {module : JsonObject}
    {g : Stepgen fl} (h : createStepgen u f module = some g) : Scaled f g := by
  unfold createStepgen at h
  split at h
  · dsimp only at h
    split_ifs at h
    obtain rfl := Option.some.inj h
    exact ⟨rfl, rfl⟩
  · exact absurd h (by simp)

/-- **What an entry does to the base thread**: it adds a generator, or nothing. -/
theorem baseThread_loadModule {u : Uninitialised} {f : Frequencies} {t t' : Threads fl}
    {module : JsonObject} (h : loadModule u f t module = some t') :
    t'.baseThread = t.baseThread ∨
      ∃ g, createStepgen u f module = some g ∧ t'.baseThread = t.baseThread ++ [g] := by
  unfold loadModule at h
  split at h
  · exact absurd h (by simp)
  · split_ifs at h
    · split at h
      · exact absurd h (by simp)
      · split_ifs at h
        · obtain ⟨g, hg, rfl⟩ := Option.map_eq_some_iff.1 h
          exact Or.inr ⟨g, hg, rfl⟩
        · exact Or.inl (Option.some.inj h ▸ rfl)
    · split at h
      · exact absurd h (by simp)
      · split_ifs at h
        · obtain ⟨b, -, rfl⟩ := Option.map_eq_some_iff.1 h
          exact Or.inl rfl
        · obtain ⟨d, -, rfl⟩ := Option.map_eq_some_iff.1 h
          exact Or.inl rfl
        · exact Or.inl (Option.some.inj h ▸ rfl)
    · exact Or.inl (Option.some.inj h ▸ rfl)

/-- **Every generator of a configuration is scaled by its base frequency.** -/
theorem scaled_of_setup {u : Uninitialised} {f : Frequencies} {doc : JsonDocument}
    {t : Threads fl} (h : setup u doc = some (f, t)) : ∀ g ∈ t.baseThread, Scaled f g := by
  obtain ⟨f', -, hmap⟩ := Option.bind_eq_some_iff.1 h
  obtain ⟨t', hload, heq⟩ := Option.map_eq_some_iff.1 hmap
  obtain ⟨rfl, rfl⟩ := Prod.mk.inj heq
  refine foldlM_invariant (I := fun t : Threads fl => ∀ g ∈ t.baseThread, Scaled f' g)
    (fun t module t' ht hstep => ?_) (by simp) hload
  rcases baseThread_loadModule hstep with hbase | ⟨g, hg, hbase⟩
  · rwa [hbase]
  · rw [hbase]
    exact List.forall_mem_append.2
      ⟨ht, List.forall_mem_singleton.2 (scaled_of_createStepgen hg)⟩

end Remora
