/-
# What a configuration says

A machine as a configuration is meant to describe it: the frequencies of the two threads
and the modules on them, each with the pins and bits that it is given (`Machine`).  A
value says a machine if it has the members that the loader reads, whatever else it has
and in whatever order (`Says`).

What a value says is what is set up (`setup_of_says`).
-/

import Remora.Json.Document
import Remora.Config.SafeLoading

namespace Remora
namespace Json

open Basis

/-- An entry of `Threads`. -/
inductive ThreadEntry where
  | base (freq : Word)
  | servo (freq : Word)

/-- An entry of `Modules`. -/
inductive ModuleEntry where
  | stepgen (joint : Fin 32) (stepPin directionPin : Fin 30)
  | blink (pin : Fin 30) (freq : Word) (positive : freq ≠ 0)
  | digitalPin (output : Bool) (pin : Fin 30) (dataBit : Fin 32) (invert : Bool)

/-- The two threads and their modules. -/
structure Machine where
  threads : List ThreadEntry
  modules : List ModuleEntry

/-- The frequencies after an entry of `Threads`. -/
def ThreadEntry.apply (f : Frequencies) : ThreadEntry → Frequencies
  | .base freq => { f with baseFreq := freq }
  | .servo freq => { f with servoFreq := freq }

namespace Machine

/-- Of several entries for a thread the last counts. -/
def frequencies (m : Machine) : Frequencies :=
  m.threads.foldl ThreadEntry.apply Frequencies.initial

variable {fl : FloatUnit}

/-- The generator of an entry. -/
def stepgen? (f : Frequencies) : ModuleEntry → Option (Stepgen fl)
  | .stepgen joint stepPin directionPin =>
      some (Stepgen.new f.baseFreq.toInt joint stepPin directionPin STEPBIT)
  | _ => none

/-- The module of the servo thread of an entry. -/
def servoModule? (f : Frequencies) : ModuleEntry → Option ServoModule
  | .stepgen _ _ _ => none
  | .blink pin freq _ =>
      some (.blink { bState := false, periodCount := f.servoFreq / freq, blinkCount := 0,
                     blinkPin := pin })
  | .digitalPin output pin dataBit invert =>
      some (.digitalPin { mode := if output then 1 else 0, pin := pin, bitNumber := dataBit,
                          invert := invert })

/-- The modules, each on its thread and in the order of the entries. -/
def build (m : Machine) : Threads fl where
  baseThread := m.modules.filterMap (stepgen? m.frequencies)
  servoThread := m.modules.filterMap (servoModule? m.frequencies)

end Machine

namespace VariantData

/-- A member that is a text. -/
def HasText (v : VariantData) (key text : String) : Prop :=
  v.getMember (nameBytes key) = some (.ownedString (nameBytes text))

/-- A member that names a pin. -/
def HasPin (v : VariantData) (key : String) (pin : Fin 30) : Prop :=
  v.getMember (nameBytes key) = some (.ownedString (pinName pin))

/-- A member that is a number. -/
def HasNumber (v : VariantData) (key : String) (n : ℕ) : Prop :=
  v.getMember (nameBytes key) = some (.positiveInteger (BitVec.ofNat 64 n))

end VariantData

/-- What an entry of `Threads` says. -/
inductive SaysThread (v : VariantData) : ThreadEntry → Prop
  | base {freq : Word} : v.HasText "Thread" "Base" → v.HasNumber "Frequency" freq.toNat →
      SaysThread v (.base freq)
  | servo {freq : Word} : v.HasText "Thread" "Servo" → v.HasNumber "Frequency" freq.toNat →
      SaysThread v (.servo freq)

/-- What an entry of `Modules` says. -/
inductive SaysModule (v : VariantData) : ModuleEntry → Prop
  | stepgen {joint : Fin 32} {stepPin directionPin : Fin 30} : v.HasText "Thread" "Base" →
      v.HasText "Type" "Stepgen" → v.HasNumber "Joint Number" joint →
      v.HasPin "Step Pin" stepPin → v.HasPin "Direction Pin" directionPin →
      SaysModule v (.stepgen joint stepPin directionPin)
  | blink {pin : Fin 30} {freq : Word} {positive : freq ≠ 0} : v.HasText "Thread" "Servo" →
      v.HasText "Type" "Blink" → v.HasPin "Pin" pin → v.HasNumber "Frequency" freq.toNat →
      freq.toNat < 0x80000000 → SaysModule v (.blink pin freq positive)
  | digitalPin {output : Bool} {pin : Fin 30} {dataBit : Fin 32} {invert : Bool} :
      v.HasText "Thread" "Servo" → v.HasText "Type" "Digital Pin" →
      v.HasText "Mode" (if output then "Output" else "Input") → v.HasPin "Pin" pin →
      v.HasNumber "Data Bit" dataBit → v.HasText "Invert" (if invert then "True" else "False") →
      SaysModule v (.digitalPin output pin dataBit invert)

/-- What a document says. -/
structure Says (v : VariantData) (m : Machine) : Prop where
  threads : List.Forall₂ SaysThread (entries v "Threads") m.threads
  modules : List.Forall₂ SaysModule (entries v "Modules") m.modules

variable {c : Conversions} {v : VariantData} {key : String}

theorem asString_of_hasText {text : String} (h : v.HasText key text) :
    (object c v key).asString = some text := by
  rw [object, h]
  exact nameOf_eq_some.2 rfl

/-- A number shows itself, as `uint32_t` and, below `2 ^ 31`, as `int`. -/
theorem asUInt32_of_hasNumber {n : ℕ} (h : v.HasNumber key n) (hn : n ≤ 0xFFFFFFFF) :
    (object c v key).asUInt32 = BitVec.ofNat 32 n := by
  have hle : BitVec.ofNat 64 n ≤ c.uint32.highest := by
    rw [BitVec.le_def, BitVec.toNat_ofNat]
    exact Nat.le_trans (Nat.mod_le _ _) hn
  rw [object, h]
  show convertPositiveInteger _ _ = _
  rw [convertPositiveInteger, if_pos hle]
  exact BitVec.setWidth_ofNat_of_le (by decide) n

theorem asInt_of_hasNumber {n : ℕ} (h : v.HasNumber key n) (hn : n < 0x80000000) :
    (object c v key).asInt = BitVec.ofNat 32 n := by
  have hle : BitVec.ofNat 64 n ≤ c.int.highest := by
    rw [BitVec.le_def, BitVec.toNat_ofNat]
    exact Nat.le_trans (Nat.mod_le _ _) (Nat.le_of_lt_succ hn)
  rw [object, h]
  show convertPositiveInteger _ _ = _
  rw [convertPositiveInteger, if_pos hle]
  exact BitVec.setWidth_ofNat_of_le (by decide) n

theorem toInt_ofNat_of_lt {n : ℕ} (hn : n < 0x80000000) : (BitVec.ofNat 32 n).toInt = n := by
  have htoNat : (BitVec.ofNat 32 n).toNat = n := Nat.mod_eq_of_lt (by omega)
  rw [BitVec.toInt_eq_toNat_of_lt (by omega), htoNat]

/-- The documented name of a pin is a name, and means the pin. -/
theorem exists_of_hasPin (u : Uninitialised) {pin : Fin 30} (h : v.HasPin key pin) :
    ∃ name, (object c v key).asString = some name ∧ configPin u name = pin := by
  have hascii : ∀ pin : Fin 30, (nameOf (pinName pin)).isSome = true := by decide +kernel
  obtain ⟨name, hname⟩ := Option.isSome_iff_exists.1 (hascii pin)
  refine ⟨name, ?_, ?_⟩
  · rw [object, h]
    exact hname
  · have hbytes : pinName pin = nameBytes name := nameOf_eq_some.1 hname
    have hconfig := Pin.toNat_pin_configPin u (p := ⟨nameBytes name, 0, 0, 0, u.pin, false, false,
      false⟩) rfl rfl
    rw [← hconfig, configPin_pinName (n := pin) (by omega) hbytes.symm]
    exact Nat.mod_eq_of_lt (by omega)

/-- **An entry of `Threads`** sets the frequency that it says. -/
theorem configThread_of_says {entry : ThreadEntry} (h : SaysThread v entry) (f : Frequencies) :
    configThread f (object c v) = some (entry.apply f) := by
  cases h with
  | base hthread hfreq =>
      have hvalue := asUInt32_of_hasNumber (c := c) hfreq (by omega)
      rw [BitVec.ofNat_toNat, BitVec.setWidth_eq] at hvalue
      rw [configThread, asString_of_hasText hthread, hvalue]
      rfl
  | servo hthread hfreq =>
      have hvalue := asUInt32_of_hasNumber (c := c) hfreq (by omega)
      rw [BitVec.ofNat_toNat, BitVec.setWidth_eq] at hvalue
      rw [configThread, asString_of_hasText hthread, hvalue]
      rfl

variable {fl : FloatUnit}

/-- **An entry of `Modules`** makes the module that it says. -/
theorem loadModule_of_says (u : Uninitialised) {entry : ModuleEntry} (h : SaysModule v entry)
    (f : Frequencies) (t : Threads fl) :
    loadModule u f t (object c v) = some
      ⟨t.baseThread ++ (Machine.stepgen? f entry).toList,
        t.servoThread ++ (Machine.servoModule? f entry).toList⟩ := by
  cases h with
  | @stepgen joint _ _ hthread htype hjoint hstep hdirection =>
      obtain ⟨step, hstep, hstepPin⟩ := exists_of_hasPin (c := c) u hstep
      obtain ⟨direction, hdirection, hdirectionPin⟩ := exists_of_hasPin (c := c) u hdirection
      have hvalue := asInt_of_hasNumber (c := c) hjoint (by omega)
      have htoInt := toInt_ofNat_of_lt (n := joint) (by omega)
      have hcreate : createStepgen u f (object c v) = some (Stepgen.new f.baseFreq.toInt joint
          (configPin u step) (configPin u direction) STEPBIT : Stepgen fl) := by
        rw [createStepgen, hvalue, hstep, hdirection]
        dsimp only
        rw [htoInt, if_pos (by omega)]
        rfl
      rw [loadModule, asString_of_hasText hthread]
      dsimp only
      rw [if_pos rfl, asString_of_hasText htype]
      dsimp only
      rw [if_pos rfl, hcreate, hstepPin, hdirectionPin]
      simp [Machine.stepgen?, Machine.servoModule?]
  | @blink pin freq positive hthread htype hpin hfreq hsmall =>
      obtain ⟨name, hname, hblinkPin⟩ := exists_of_hasPin (c := c) u hpin
      have hvalue := asInt_of_hasNumber (c := c) hfreq hsmall
      rw [BitVec.ofNat_toNat, BitVec.setWidth_eq] at hvalue
      rw [loadModule, asString_of_hasText hthread]
      dsimp only
      rw [if_neg (by decide), if_pos rfl, asString_of_hasText htype]
      dsimp only
      rw [if_pos rfl, createBlink, hvalue, hname]
      dsimp only
      rw [if_neg positive, hblinkPin]
      simp [Machine.stepgen?, Machine.servoModule?]
  | @digitalPin output pin dataBit invert hthread htype hmode hpin hbit hinvert =>
      obtain ⟨name, hname, hdataPin⟩ := exists_of_hasPin (c := c) u hpin
      have hvalue := asInt_of_hasNumber (c := c) hbit (by omega)
      have htoInt := toInt_ofNat_of_lt (n := dataBit) (by omega)
      rw [loadModule, asString_of_hasText hthread]
      dsimp only
      rw [if_neg (by decide), if_pos rfl, asString_of_hasText htype]
      dsimp only
      rw [if_neg (by decide), if_pos rfl, createDigitalPin, hvalue, hname,
        asString_of_hasText hinvert, asString_of_hasText hmode]
      dsimp only
      rw [if_pos (by cases output <;> decide), htoInt, if_pos (by omega), hdataPin]
      cases output <;> cases invert <;> simp [Machine.stepgen?, Machine.servoModule?]

theorem foldlM_configThread_of_says {values : List VariantData} {threads : List ThreadEntry}
    (h : List.Forall₂ SaysThread values threads) (f : Frequencies) :
    (values.map (object c)).foldlM configThread f = some (threads.foldl ThreadEntry.apply f) := by
  induction h generalizing f with
  | nil => rfl
  | cons hentry _ ih =>
      rw [List.map_cons, List.foldlM_cons, configThread_of_says hentry]
      exact ih _

theorem foldlM_loadModule_of_says (u : Uninitialised) {values : List VariantData}
    {modules : List ModuleEntry} (h : List.Forall₂ SaysModule values modules) (f : Frequencies)
    (t : Threads fl) :
    (values.map (object c)).foldlM (loadModule u f) t = some
      ⟨t.baseThread ++ modules.filterMap (Machine.stepgen? f),
        t.servoThread ++ modules.filterMap (Machine.servoModule? f)⟩ := by
  induction h generalizing t with
  | nil => simp
  | @cons _ entry _ _ hentry _ ih =>
      rw [List.map_cons, List.foldlM_cons, loadModule_of_says u hentry]
      refine (ih _).trans ?_
      have hcons : ∀ {α : Type} (make : ModuleEntry → Option α) (entries : List ModuleEntry),
          (entry :: entries).filterMap make = (make entry).toList ++ entries.filterMap make := by
        intro α make entries
        cases hmake : make entry with
        | none => rw [List.filterMap_cons_none hmake]; rfl
        | some a => rw [List.filterMap_cons_some hmake]; rfl
      rw [hcons, hcons, List.append_assoc, List.append_assoc]

/-- **What a document says is what is set up.** -/
theorem setup_of_says (u : Uninitialised) {m : Machine} (h : Says v m) {doc : JsonDocument}
    (hdoc : document c v = some doc) :
    (setup u doc : Option (Frequencies × Threads fl)) = some (m.frequencies, m.build) := by
  rw [document] at hdoc
  split_ifs at hdoc
  obtain rfl := Option.some.inj hdoc
  have hthreads := foldlM_configThread_of_says (c := c) h.threads Frequencies.initial
  have hmodules := foldlM_loadModule_of_says (c := c) u h.modules m.frequencies
    (⟨[], []⟩ : Threads fl)
  rw [setup, configThreads, hthreads, Option.bind_some, loadModules]
  rw [← Machine.frequencies, hmodules]
  rfl

end Json
end Remora
