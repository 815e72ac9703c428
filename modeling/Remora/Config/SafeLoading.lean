/-
# Documents that load safely

The loader takes every key for granted.  An entry of `Threads` without the string
it compares, or of `Modules` without one it compares or makes a pin of, stops it
(`none`); so does a blink without a frequency.  What it registers it does not check
either: a joint number or a data bit out of range, or a frequency of `0` from
`Threads`, goes into the module.  The only entries it skips are those whose thread,
type or mode it does not know.

So a document loads safely exactly when each of its entries is one of the two: a
module with all that it needs, or one of those skipped (`loadsSafely_iff`).
-/

import Remora.Config.LoadModules

namespace Remora

open Basis

/-- A key with a string. -/
def HasString (o : JsonObject) (key : String) : Prop := (o key).asString.isSome = true

/-- The frequency of the last entry of `Threads` under a name. -/
def frequencyOf (name : String) (initial : Word) (threads : List JsonObject) : Word :=
  (threads.filter fun thread => (thread "Thread").asString = some name).getLast?.elim initial
    fun thread => (thread "Frequency").asUInt32

/-- The frequencies after the entries `threads`. -/
def Frequencies.after (f : Frequencies) (threads : List JsonObject) : Frequencies :=
  ⟨frequencyOf "Base" f.baseFreq threads, frequencyOf "Servo" f.servoFreq threads⟩

/-- What a document says of the two frequencies. -/
def frequencies (doc : JsonDocument) : Frequencies := Frequencies.initial.after doc.threads

/-- A generator for a joint of the packet, on a thread with a frequency. -/
structure StepgenEntry (f : Frequencies) (module : JsonObject) : Prop where
  stepPin : HasString module "Step Pin"
  directionPin : HasString module "Direction Pin"
  joint : 0 ≤ (module "Joint Number").asInt.toInt ∧ (module "Joint Number").asInt.toInt < JOINTS
  baseFreq : f.baseFreq ≠ 0

/-- A blink with a frequency, on a thread with one. -/
structure BlinkEntry (f : Frequencies) (module : JsonObject) : Prop where
  pin : HasString module "Pin"
  frequency : (module "Frequency").asInt ≠ 0
  servoFreq : f.servoFreq ≠ 0

/-- A pin for a bit of the packet. -/
structure DigitalPinEntry (module : JsonObject) : Prop where
  invert : HasString module "Invert"
  mode : (module "Mode").asString = some "Output" ∨ (module "Mode").asString = some "Input"
  pin : HasString module "Pin"
  dataBit : 0 ≤ (module "Data Bit").asInt.toInt ∧ (module "Data Bit").asInt.toInt ≤ 31

/-- An entry of `Modules` that qualifies. -/
inductive Qualifies (f : Frequencies) (module : JsonObject) : Prop
  | stepgen (thread : (module "Thread").asString = some "Base")
      (type : (module "Type").asString = some "Stepgen") (entry : StepgenEntry f module)
  | blink (thread : (module "Thread").asString = some "Servo")
      (type : (module "Type").asString = some "Blink") (entry : BlinkEntry f module)
  | digitalPin (thread : (module "Thread").asString = some "Servo")
      (type : (module "Type").asString = some "Digital Pin") (entry : DigitalPinEntry module)

/-- An entry of `Modules` with a thread, a type or a mode that the loader does not
know. -/
inductive Unknown (module : JsonObject) : Prop
  | thread (hthread : HasString module "Thread")
      (hbase : (module "Thread").asString ≠ some "Base")
      (hservo : (module "Thread").asString ≠ some "Servo")
  | baseType (hthread : (module "Thread").asString = some "Base")
      (htype : HasString module "Type") (hstepgen : (module "Type").asString ≠ some "Stepgen")
  | servoType (hthread : (module "Thread").asString = some "Servo")
      (htype : HasString module "Type") (hblink : (module "Type").asString ≠ some "Blink")
      (hpin : (module "Type").asString ≠ some "Digital Pin")
  | mode (hthread : (module "Thread").asString = some "Servo")
      (htype : (module "Type").asString = some "Digital Pin") (hinvert : HasString module "Invert")
      (hmode : HasString module "Mode") (houtput : (module "Mode").asString ≠ some "Output")
      (hinput : (module "Mode").asString ≠ some "Input")

/-- Every entry is one that qualifies or one that is skipped. -/
structure WellFormed (doc : JsonDocument) : Prop where
  threads : ∀ thread ∈ doc.threads, HasString thread "Thread"
  modules : ∀ module ∈ doc.modules, Qualifies (frequencies doc) module ∨ Unknown module

variable {fl : FloatUnit}

/-- Every module registered has parameters that its update can use. -/
structure Usable (f : Frequencies) (t : Threads fl) : Prop where
  joint : ∀ g ∈ t.baseThread, g.jointNumber < JOINTS
  baseFreq : ∀ g ∈ t.baseThread, f.baseFreq ≠ 0
  servoFreq : ∀ b, .blink b ∈ t.servoThread → f.servoFreq ≠ 0
  dataBit : ∀ d, .digitalPin d ∈ t.servoThread → d.bitNumber ≤ 31

/-- A document loads safely: every entry is processed, what is registered is usable,
and what does not qualify is skipped. -/
def LoadsSafely (fl : FloatUnit) (u : Uninitialised) (doc : JsonDocument) : Prop :=
  ∃ f, ∃ t : Threads fl, setup u doc = some (f, t) ∧ Usable f t ∧
    ∀ module ∈ doc.modules, ¬Qualifies f module →
      ∀ t : Threads fl, loadModule u f t module = some t

theorem usable_nil {f : Frequencies} : Usable f (⟨[], []⟩ : Threads fl) :=
  ⟨by simp, by simp, by simp, by simp⟩

/-- An entry of `Threads` sets one frequency, or none. -/
theorem configThread_eq_some_iff {f f' : Frequencies} {thread : JsonObject} :
    configThread f thread = some f' ↔ HasString thread "Thread" ∧ f' = f.after [thread] := by
  unfold configThread HasString Frequencies.after frequencyOf
  cases hname : (thread "Thread").asString with
  | none => simp
  | some configor =>
      by_cases hbase : configor = "Base"
      · simp [hname, hbase, eq_comm]
      · by_cases hservo : configor = "Servo"
        · simp [hname, hservo, eq_comm]
        · simpa [hname, hbase, hservo] using eq_comm

theorem frequencyOf_cons (name : String) (initial : Word) (thread : JsonObject)
    (threads : List JsonObject) :
    frequencyOf name initial (thread :: threads) =
      frequencyOf name (frequencyOf name initial [thread]) threads := by
  unfold frequencyOf
  by_cases hname : (thread "Thread").asString = some name
  · rw [List.filter_cons_of_pos (by simpa using hname), List.getLast?_cons]
    cases (threads.filter fun thread => (thread "Thread").asString = some name).getLast? <;>
      simp [hname]
  · rw [List.filter_cons_of_neg (by simpa using hname)]
    simp [hname]

theorem Frequencies.after_cons (f : Frequencies) (thread : JsonObject)
    (threads : List JsonObject) :
    f.after (thread :: threads) = (f.after [thread]).after threads := by
  unfold Frequencies.after
  rw [frequencyOf_cons "Base", frequencyOf_cons "Servo"]

/-- **What `configThreads` leaves**: for each thread the frequency of its last entry,
when every entry has a name. -/
theorem foldlM_configThread_eq_some_iff {f f' : Frequencies} {threads : List JsonObject} :
    threads.foldlM configThread f = some f' ↔
      (∀ thread ∈ threads, HasString thread "Thread") ∧ f' = f.after threads := by
  induction threads generalizing f with
  | nil => simp [Frequencies.after, frequencyOf, eq_comm]
  | cons thread threads ih =>
      rw [List.foldlM_cons, List.forall_mem_cons, Frequencies.after_cons, and_assoc]
      constructor
      · intro h
        obtain ⟨f₁, hf₁, h⟩ := Option.bind_eq_some_iff.1 h
        obtain ⟨hname, rfl⟩ := configThread_eq_some_iff.1 hf₁
        exact ⟨hname, ih.1 h⟩
      · rintro ⟨hname, h⟩
        exact Option.bind_eq_some_iff.2 ⟨_, configThread_eq_some_iff.2 ⟨hname, rfl⟩, ih.2 h⟩

section

variable {u : Uninitialised} {f : Frequencies} {module : JsonObject}

/-- A generator that qualifies is made. -/
theorem StepgenEntry.create (fl : FloatUnit) (u : Uninitialised) (h : StepgenEntry f module) :
    ∃ g : Stepgen fl, createStepgen u f module = some g ∧ g.jointNumber < JOINTS := by
  obtain ⟨step, hstep⟩ := Option.isSome_iff_exists.1 h.stepPin
  obtain ⟨dir, hdir⟩ := Option.isSome_iff_exists.1 h.directionPin
  have hjoints : JOINTS ≤ 32 := by decide
  have hjoint := h.joint
  unfold createStepgen
  rw [hstep, hdir]
  refine ⟨_, if_pos ⟨hjoint.1, by omega⟩, ?_⟩
  show (module "Joint Number").asInt.toInt.toNat < JOINTS
  omega

/-- A blink that qualifies is made. -/
theorem BlinkEntry.create (u : Uninitialised) (h : BlinkEntry f module) :
    ∃ b, createBlink u f module = some b := by
  obtain ⟨pin, hpin⟩ := Option.isSome_iff_exists.1 h.pin
  unfold createBlink
  rw [hpin]
  exact ⟨_, if_neg h.frequency⟩

/-- A pin that qualifies is made. -/
theorem DigitalPinEntry.create (u : Uninitialised) (h : DigitalPinEntry module) :
    ∃ d : DigitalPin, createDigitalPin u module = some (some d) ∧ d.bitNumber ≤ 31 := by
  obtain ⟨pin, hpin⟩ := Option.isSome_iff_exists.1 h.pin
  obtain ⟨invert, hinvert⟩ := Option.isSome_iff_exists.1 h.invert
  obtain ⟨mode, hmode, hknown⟩ : ∃ mode, (module "Mode").asString = some mode ∧
      (mode = "Output" ∨ mode = "Input") := by
    rcases h.mode with hmode | hmode
    · exact ⟨_, hmode, Or.inl rfl⟩
    · exact ⟨_, hmode, Or.inr rfl⟩
  have hbit := h.dataBit
  unfold createDigitalPin
  rw [hinvert, hpin, hmode]
  refine ⟨_, (if_pos hknown).trans (if_pos ⟨hbit.1, by omega⟩), ?_⟩
  show (module "Data Bit").asInt.toInt.toNat ≤ 31
  omega

variable {t : Threads fl}

/-- A null string is compared with a thread or with a type. -/
def Undecided (module : JsonObject) : Prop :=
  (module "Thread").asString = none ∨
    ((module "Thread").asString = some "Base" ∨ (module "Thread").asString = some "Servo") ∧
      (module "Type").asString = none

/-- What becomes of an entry is decided by its thread and its type. -/
inductive Kind (module : JsonObject) : Prop
  | undecided (h : Undecided module)
  | unknown (h : Unknown module)
  | stepgen (hthread : (module "Thread").asString = some "Base")
      (htype : (module "Type").asString = some "Stepgen")
  | blink (hthread : (module "Thread").asString = some "Servo")
      (htype : (module "Type").asString = some "Blink")
  | digitalPin (hthread : (module "Thread").asString = some "Servo")
      (htype : (module "Type").asString = some "Digital Pin")

theorem kind (module : JsonObject) : Kind module := by
  cases hthread : (module "Thread").asString with
  | none => exact .undecided (.inl hthread)
  | some thread =>
      by_cases hbase : thread = "Base"
      · subst hbase
        cases htype : (module "Type").asString with
        | none => exact .undecided (.inr ⟨.inl hthread, htype⟩)
        | some type =>
            by_cases hstepgen : type = "Stepgen"
            · exact .stepgen hthread (htype.trans (congrArg some hstepgen))
            · exact .unknown (.baseType hthread (by simp [HasString, htype])
                (by simpa [htype] using hstepgen))
      · by_cases hservo : thread = "Servo"
        · subst hservo
          cases htype : (module "Type").asString with
          | none => exact .undecided (.inr ⟨.inr hthread, htype⟩)
          | some type =>
              by_cases hblink : type = "Blink"
              · exact .blink hthread (htype.trans (congrArg some hblink))
              · by_cases hpin : type = "Digital Pin"
                · exact .digitalPin hthread (htype.trans (congrArg some hpin))
                · exact .unknown (.servoType hthread (by simp [HasString, htype])
                    (by simpa [htype] using hblink) (by simpa [htype] using hpin))
        · exact .unknown (.thread (by simp [HasString, hthread])
            (by simpa [hthread] using hbase) (by simpa [hthread] using hservo))

section

variable {β : Type*} (skip stepgen blink digitalPin : Option β)

variable (module) in
/-- The choice of the loader: by the thread, then by the type. -/
def dispatch : Option β :=
  match (module "Thread").asString with
  | none => none
  | some thread =>
      if thread = "Base" then
        match (module "Type").asString with
        | none => none
        | some type => if type = "Stepgen" then stepgen else skip
      else if thread = "Servo" then
        match (module "Type").asString with
        | none => none
        | some type =>
            if type = "Blink" then blink else if type = "Digital Pin" then digitalPin else skip
      else skip

theorem dispatch_of_undecided (h : Undecided module) :
    dispatch module skip stepgen blink digitalPin = none := by
  rcases h with hthread | ⟨hthread | hthread, htype⟩
  · simp [dispatch, hthread]
  · simp [dispatch, hthread, htype]
  · simp [dispatch, hthread, htype]

theorem dispatch_stepgen (hthread : (module "Thread").asString = some "Base")
    (htype : (module "Type").asString = some "Stepgen") :
    dispatch module skip stepgen blink digitalPin = stepgen := by
  simp [dispatch, hthread, htype]

theorem dispatch_blink (hthread : (module "Thread").asString = some "Servo")
    (htype : (module "Type").asString = some "Blink") :
    dispatch module skip stepgen blink digitalPin = blink := by
  simp [dispatch, hthread, htype]

theorem dispatch_digitalPin (hthread : (module "Thread").asString = some "Servo")
    (htype : (module "Type").asString = some "Digital Pin") :
    dispatch module skip stepgen blink digitalPin = digitalPin := by
  simp [dispatch, hthread, htype]

/-- An entry that the loader does not know is skipped, if a mode that is not known is. -/
theorem dispatch_of_unknown (h : Unknown module)
    (hpin : HasString module "Invert" → HasString module "Mode" →
      (module "Mode").asString ≠ some "Output" → (module "Mode").asString ≠ some "Input" →
      digitalPin = skip) : dispatch module skip stepgen blink digitalPin = skip := by
  cases h with
  | thread hthread hbase hservo =>
      obtain ⟨thread, hname⟩ := Option.isSome_iff_exists.1 hthread
      rw [hname, ne_eq, Option.some_inj] at hbase hservo
      simp [dispatch, hname, hbase, hservo]
  | baseType hthread htype hstepgen =>
      obtain ⟨type, hname⟩ := Option.isSome_iff_exists.1 htype
      rw [hname, ne_eq, Option.some_inj] at hstepgen
      simp [dispatch, hthread, hname, hstepgen]
  | servoType hthread htype hblink hdigitalPin =>
      obtain ⟨type, hname⟩ := Option.isSome_iff_exists.1 htype
      rw [hname, ne_eq, Option.some_inj] at hblink hdigitalPin
      simp [dispatch, hthread, hname, hblink, hdigitalPin]
  | mode hthread htype hinvert hmode houtput hinput =>
      rw [dispatch_digitalPin skip stepgen blink digitalPin hthread htype]
      exact hpin hinvert hmode houtput hinput

end

theorem loadModule_of_undecided (h : Undecided module) : loadModule u f t module = none :=
  dispatch_of_undecided _ _ _ _ h

theorem loadModule_stepgen (hthread : (module "Thread").asString = some "Base")
    (htype : (module "Type").asString = some "Stepgen") :
    loadModule u f t module =
      (createStepgen u f module).map fun g => { t with baseThread := t.baseThread ++ [g] } :=
  dispatch_stepgen _ _ _ _ hthread htype

theorem loadModule_blink (hthread : (module "Thread").asString = some "Servo")
    (htype : (module "Type").asString = some "Blink") :
    loadModule u f t module =
      (createBlink u f module).map fun b =>
        { t with servoThread := t.servoThread ++ [.blink b] } :=
  dispatch_blink _ _ _ _ hthread htype

theorem loadModule_digitalPin (hthread : (module "Thread").asString = some "Servo")
    (htype : (module "Type").asString = some "Digital Pin") :
    loadModule u f t module =
      (createDigitalPin u module).map fun d =>
        { t with servoThread := t.servoThread ++ d.toList.map .digitalPin } :=
  dispatch_digitalPin _ _ _ _ hthread htype

/-- An entry that qualifies registers a module that is usable. -/
theorem Qualifies.load (h : Qualifies f module) (ht : Usable f t) :
    ∃ t', loadModule u f t module = some t' ∧ Usable f t' := by
  cases h with
  | stepgen hthread htype entry =>
      obtain ⟨g, hg, hjoint⟩ := entry.create fl u
      rw [loadModule_stepgen hthread htype, hg]
      refine ⟨_, rfl, ?_, ?_, ht.servoFreq, ht.dataBit⟩
      · exact List.forall_mem_append.2 ⟨ht.joint, List.forall_mem_singleton.2 hjoint⟩
      · exact fun _ _ => entry.baseFreq
  | blink hthread htype entry =>
      obtain ⟨b, hb⟩ := entry.create u
      rw [loadModule_blink hthread htype, hb]
      refine ⟨_, rfl, ht.joint, ht.baseFreq, fun _ _ => entry.servoFreq, fun d hd => ?_⟩
      exact ht.dataBit d (by simpa using hd)
  | digitalPin hthread htype entry =>
      obtain ⟨d, hd, hbit⟩ := entry.create u
      rw [loadModule_digitalPin hthread htype, hd]
      refine ⟨_, rfl, ht.joint, ht.baseFreq, fun b hb => ?_, fun d' hd' => ?_⟩
      · exact ht.servoFreq b (by simpa using hb)
      · rcases List.mem_append.1 hd' with hmem | hmem
        · exact ht.dataBit d' hmem
        · have hsame : d' = d := by simpa using hmem
          exact hsame ▸ hbit

/-- No pin is made for a mode that is not known. -/
theorem createDigitalPin_eq_some_none_iff : createDigitalPin u module = some none ↔
    HasString module "Invert" ∧ HasString module "Mode" ∧
      (module "Mode").asString ≠ some "Output" ∧ (module "Mode").asString ≠ some "Input" := by
  unfold createDigitalPin HasString
  cases hinvert : (module "Invert").asString with
  | none => simp
  | some invert =>
      cases hmode : (module "Mode").asString with
      | none => simp
      | some mode =>
          by_cases hknown : mode = "Output" ∨ mode = "Input"
          · have hinput := or_iff_not_imp_left.1 hknown
            cases (module "Pin").asString with
            | none => simpa [hknown] using hinput
            | some pin =>
                by_cases hbit : 0 ≤ (module "Data Bit").asInt.toInt ∧
                    (module "Data Bit").asInt.toInt < 32
                · simpa [hknown, hbit] using hinput
                · simpa [hknown, hbit] using hinput
          · simp [not_or.1 hknown]

/-- An entry that the loader does not know is skipped. -/
theorem loadModule_of_unknown (h : Unknown module) : loadModule u f t module = some t := by
  refine dispatch_of_unknown _ _ _ _ h fun hinvert hmode houtput hinput => ?_
  rw [createDigitalPin_eq_some_none_iff.2 ⟨hinvert, hmode, houtput, hinput⟩]
  simp

/-- **What the loader skips**: the entries it does not know, and no others. -/
theorem loadModule_eq_self_iff : loadModule u f t module = some t ↔ Unknown module := by
  constructor
  · intro h
    cases kind module with
    | undecided hnone =>
        rw [loadModule_of_undecided hnone] at h
        cases h
    | unknown hunknown => exact hunknown
    | stepgen hthread htype =>
        rw [loadModule_stepgen hthread htype] at h
        obtain ⟨g, -, heq⟩ := Option.map_eq_some_iff.1 h
        simpa using congrArg Threads.baseThread heq
    | blink hthread htype =>
        rw [loadModule_blink hthread htype] at h
        obtain ⟨b, -, heq⟩ := Option.map_eq_some_iff.1 h
        simpa using congrArg Threads.servoThread heq
    | digitalPin hthread htype =>
        rw [loadModule_digitalPin hthread htype] at h
        obtain ⟨d, hd, heq⟩ := Option.map_eq_some_iff.1 h
        cases d with
        | none =>
            obtain ⟨hinvert, hmode, houtput, hinput⟩ := createDigitalPin_eq_some_none_iff.1 hd
            exact .mode hthread htype hinvert hmode houtput hinput
        | some d => simpa using congrArg Threads.servoThread heq
  · exact loadModule_of_unknown

end

/-- **A document loads safely** exactly when every entry of `Threads` has a name and
every entry of `Modules` qualifies or is one that the loader does not know. -/
theorem loadsSafely_iff (fl : FloatUnit) (u : Uninitialised) (doc : JsonDocument) :
    LoadsSafely fl u doc ↔ WellFormed doc := by
  constructor
  · rintro ⟨f, t, hsetup, -, hskipped⟩
    obtain ⟨f', hf', hmap⟩ := Option.bind_eq_some_iff.1 hsetup
    obtain ⟨t', -, heq⟩ := Option.map_eq_some_iff.1 hmap
    obtain ⟨rfl, rfl⟩ := Prod.mk.inj heq
    obtain ⟨hnames, rfl⟩ := foldlM_configThread_eq_some_iff.1 hf'
    refine ⟨hnames, fun module hmodule => or_iff_not_imp_left.2 fun hnot => ?_⟩
    exact loadModule_eq_self_iff.1 (hskipped module hmodule hnot t')
  · intro h
    have hthreads : configThreads doc = some (frequencies doc) :=
      foldlM_configThread_eq_some_iff.2 ⟨h.threads, rfl⟩
    have hload : ∀ module ∈ doc.modules, ∀ t : Threads fl, Usable (frequencies doc) t →
        ∃ t', loadModule u (frequencies doc) t module = some t' ∧ Usable (frequencies doc) t' := by
      intro module hmodule t ht
      rcases h.modules module hmodule with hqualifies | hunknown
      · exact hqualifies.load ht
      · exact ⟨t, loadModule_eq_self_iff.2 hunknown, ht⟩
    obtain ⟨t, ht, husable⟩ := exists_foldlM_of_forall hload usable_nil
    refine ⟨frequencies doc, t, ?_, husable, fun module hmodule hnot t => ?_⟩
    · rw [setup, hthreads, Option.bind_some, loadModules, ht, Option.map_some]
    · exact loadModule_eq_self_iff.2 ((h.modules module hmodule).resolve_left hnot)

/-- An entry of the shipped configuration for the W5500 board. -/
def light : JsonObject
  | "Thread" => ⟨some "Servo", 0, 0⟩
  | "Type" => ⟨some "Digital Pin", 0, 0⟩
  | "Comment" => ⟨some "light", 0, 0⟩
  | "Pin" => ⟨some "GP12", 0, 0⟩
  | "Mode" => ⟨some "Output", 0, 0⟩
  | _ => .null

/-- It has no key `Invert`, whose string is compared. -/
theorem not_loadsSafely_light :
    ¬LoadsSafely (exactFloat fun _ => 0) ⟨fun _ _ => 0, 0⟩ ⟨[], [light]⟩ := by
  rintro ⟨f, t, hsetup, -⟩
  have hnone : @setup (exactFloat fun _ => 0) ⟨fun _ _ => 0, 0⟩ ⟨[], [light]⟩ = none := by decide
  rw [hnone] at hsetup
  cases hsetup

end Remora
