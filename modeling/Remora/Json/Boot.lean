/-
# From an upload to a machine

`ST_SETUP` as one step, from the flash to the modules on the threads, and what an upload
makes of it.  The network may lose, repeat and reorder what it likes, the text may be
laid out and commented in any way, and have members that the loader does not know: if
the text stands for a value that says a machine, the board that comes up after the reboot
is that machine (`boots_machine`).  If it stands for no value, `configError` is set, and
the board comes up with no module but `comms` (`boots_without_modules`).
-/

import Remora.Json.Machine
import Remora.Json.Serializer
import Remora.Upload.Reconfigure

namespace Remora
namespace Json

open Basis Session

variable {fl : FloatUnit}

/-- `ST_SETUP` from `jsonFromFlash` to `loadModules`.  Every error sets `configError`, at
which `configThreads` and `loadModules` return. -/
def setupFromFlash (u : Uninitialised) (c : Conversions) (flash : Flash) :
    Option (Frequencies × Threads fl) :=
  match deserializeJson (jsonFromFlash flash []) with
  | none => none
  | some (.error _) => some (Frequencies.initial, ⟨[], []⟩)
  | some (.ok (v, _)) => (document c v).bind (setup u)

/-- What stands for a value is set up as the value is. -/
theorem setupFromFlash_of_standsFor (u : Uninitialised) {c : Conversions} {flash : Flash}
    {v : VariantData} (h : StandsFor (jsonFromFlash flash []) v) :
    (setupFromFlash u c flash : Option (Frequencies × Threads fl)) =
      (document c v).bind (setup u) := by
  obtain ⟨t, ht⟩ := ok_of_standsFor h
  rw [setupFromFlash, ht]

/-- **What the text says is set up.** -/
theorem setupFromFlash_of_says (u : Uninitialised) {c : Conversions} {flash : Flash}
    {v : VariantData} {m : Machine} (hstands : StandsFor (jsonFromFlash flash []) v)
    (hsaid : Says v m) (hnames : (document c v).isSome = true) :
    (setupFromFlash u c flash : Option (Frequencies × Threads fl)) =
      some (m.frequencies, m.build) := by
  obtain ⟨doc, hdoc⟩ := Option.isSome_iff_exists.1 hnames
  rw [setupFromFlash_of_standsFor u hstands, hdoc]
  exact setup_of_says u hsaid hdoc

/-- What stands for no value leaves the threads without modules. -/
theorem setupFromFlash_of_forall_not (u : Uninitialised) (c : Conversions) {flash : Flash}
    (h : ∀ v, ¬StandsFor (jsonFromFlash flash []) v) :
    (setupFromFlash u c flash : Option (Frequencies × Threads fl)) =
      some (Frequencies.initial, ⟨[], []⟩) := by
  obtain ⟨r, hr, -⟩ := Deserializer.safely_parse DEFAULT_NESTING_LIMIT
    ⟨(jsonFromFlash flash []).takeWhile (· ≠ 0) ++ [0], ⟨0, JSON_BUFF_SIZE⟩⟩ ⟨_, rfl⟩
    (Nat.zero_le _)
  have hread : deserializeJson (jsonFromFlash flash []) = some r := hr
  rw [setupFromFlash, hread]
  cases r with
  | error e => rfl
  | ok r => exact absurd (standsFor_of_ok hread) (h r.1)

section

variable {config : List Byte}
  (hfit : METADATA_LEN + (config.length + 3) / 4 * 4 ≤ REGION_SIZE) (s : Board fl)
  (hnew : s.checker.newJson = false) (hended : s.ended = false) (request : PBuf)
  (hop : iapTftpDecodeOp request = TFTP_WRQ) (es : List SessionEvent)
  (hdone : (run (step (UploadConfig.image config)) (start s request) es).board.rebooting = true)
include hfit hnew hended hop hdone

/-- **An upload makes the machine that its text says**, in every run that comes to the
reboot. -/
theorem boots_machine (u : Uninitialised) {c : Conversions} {v : VariantData} {m : Machine}
    (hstands : StandsFor config v) (hsaid : Says v m) (hnames : (document c v).isSome = true) :
    (setupFromFlash u c (run (step (UploadConfig.image config)) (start s request)
      es).board.server.flash : Option (Frequencies × Threads fl)) =
        some (m.frequencies, m.build) := by
  rw [← (rebooting_run hfit s hnew hended request hop es hdone).loaded] at hstands
  exact setupFromFlash_of_says u hstands hsaid hnames

/-- **An upload that is no configuration leaves the board without modules**, and not
without a boot. -/
theorem boots_without_modules (u : Uninitialised) (c : Conversions)
    (hnone : ∀ v, ¬StandsFor config v) :
    (setupFromFlash u c (run (step (UploadConfig.image config)) (start s request)
      es).board.server.flash : Option (Frequencies × Threads fl)) =
        some (Frequencies.initial, ⟨[], []⟩) := by
  refine setupFromFlash_of_forall_not u c ?_
  rw [(rebooting_run hfit s hnew hended request hop es hdone).loaded]
  exact hnone

end

/-- One generator on a thread of 80 kHz. -/
def oneStepgen : VariantData :=
  .object
    [(nameBytes "Threads", .array [.object [(nameBytes "Thread", .ownedString (nameBytes "Base")),
        (nameBytes "Frequency", .positiveInteger 80000)]]),
      (nameBytes "Modules", .array [.object [(nameBytes "Thread", .ownedString (nameBytes "Base")),
        (nameBytes "Type", .ownedString (nameBytes "Stepgen")),
        (nameBytes "Joint Number", .positiveInteger 0),
        (nameBytes "Step Pin", .ownedString (nameBytes "GP02")),
        (nameBytes "Direction Pin", .ownedString (nameBytes "GP03"))]])]

/-- A file of it, with blanks to make it long enough. -/
def oneStepgenText : List Byte := serialize (fun _ => []) oneStepgen ++ List.replicate 120 0x20

theorem standsFor_oneStepgenText : StandsFor oneStepgenText oneStepgen := by
  have hplain : Plain oneStepgen := by
    refine .object (by decide) (List.forall_mem_cons.2 ⟨.array (List.forall_mem_singleton.2 ?_),
      List.forall_mem_singleton.2 (.array (List.forall_mem_singleton.2 ?_))⟩)
    · exact .object (by decide) (List.forall_mem_cons.2
        ⟨.ownedString (by decide), List.forall_mem_singleton.2 .positiveInteger⟩)
    · refine .object (by decide) ?_
      simp only [List.forall_mem_cons, List.not_mem_nil, false_implies, implies_true, and_true]
      exact ⟨.ownedString (by decide), .ownedString (by decide), .positiveInteger,
        .ownedString (by decide), .ownedString (by decide)⟩
  rw [← List.nil_append oneStepgenText, oneStepgenText, oneStepgen]
  refine standsFor_append (written_serialize _ hplain) (by decide +kernel) (by decide +kernel)
    .nil ?_
  exact Deserializer.stops_of_head (c := 0x7B) (by decide) _ _

theorem fits_oneStepgenText :
    METADATA_LEN + (oneStepgenText.length + 3) / 4 * 4 ≤ REGION_SIZE := by
  decide +kernel

theorem says_oneStepgen : Says oneStepgen ⟨[.base 80000], [.stepgen 0 2 3]⟩ :=
  ⟨.cons (.base rfl rfl) .nil, .cons (.stepgen rfl rfl rfl rfl rfl) .nil⟩

/-- An upload of it comes to the reboot. -/
theorem exists_run_oneStepgenText :
    ∃ es, (run (step (UploadConfig.image oneStepgenText))
      (start (launched : Board (exactFloat fun _ => 0)) ⟨[0, 2, 0x61, 0], 4, fun _ => 0⟩)
        es).board.rebooting = true := by
  have hop : iapTftpDecodeOp ⟨[0, 2, 0x61, 0], 4, fun _ => 0⟩ = TFTP_WRQ := by decide
  have hstart : Receiving oneStepgenText 0 (start launched ⟨[0, 2, 0x61, 0], 4, fun _ => 0⟩) 0 :=
    receiving_start _ (s := launched) rfl rfl hop
  obtain ⟨es, -, hdone⟩ := hstart.exists_run fits_oneStepgenText (by decide +kernel)
    (Nat.zero_add _)
  exact ⟨es, hdone⟩

/-- The generator is there after the reboot. -/
theorem boots_machine_stepgen :
    ∃ es, (setupFromFlash ⟨fun _ _ => 0, 0⟩ ⟨fun _ => 0, fun _ => 0⟩
        (run (step (UploadConfig.image oneStepgenText))
          (start launched ⟨[0, 2, 0x61, 0], 4, fun _ => 0⟩) es).board.server.flash :
        Option (Frequencies × Threads (exactFloat fun _ => 0))) =
      some (Machine.frequencies ⟨[.base 80000], [.stepgen 0 2 3]⟩,
        Machine.build ⟨[.base 80000], [.stepgen 0 2 3]⟩) := by
  obtain ⟨es, hdone⟩ := exists_run_oneStepgenText
  exact ⟨es, boots_machine fits_oneStepgenText launched rfl rfl _ (by decide) es hdone _
    standsFor_oneStepgenText says_oneStepgen (by decide +kernel)⟩

/-- A closing bracket at the start is no configuration. -/
theorem boots_without_modules_brackets :
    ∃ es, (setupFromFlash ⟨fun _ _ => 0, 0⟩ ⟨fun _ => 0, fun _ => 0⟩
        (run (step (UploadConfig.image (List.replicate 252 0x5D)))
          (start launched ⟨[0, 2, 0x61, 0], 4, fun _ => 0⟩) es).board.server.flash :
        Option (Frequencies × Threads (exactFloat fun _ => 0))) =
      some (Frequencies.initial, ⟨[], []⟩) := by
  have hfit : METADATA_LEN + ((List.replicate 252 (0x5D : Byte)).length + 3) / 4 * 4 ≤
      REGION_SIZE := by decide +kernel
  have hop : iapTftpDecodeOp ⟨[0, 2, 0x61, 0], 4, fun _ => 0⟩ = TFTP_WRQ := by decide
  have hstart : Receiving (List.replicate 252 0x5D) 0
      (start launched ⟨[0, 2, 0x61, 0], 4, fun _ => 0⟩) 0 :=
    receiving_start _ (s := launched) rfl rfl hop
  obtain ⟨es, -, hdone⟩ := hstart.exists_run hfit (by rw [List.length_replicate])
    (Nat.zero_add _)
  refine ⟨es, boots_without_modules hfit launched rfl rfl _ hop es hdone _ _ fun v h => ?_⟩
  obtain ⟨t, ht⟩ := ok_of_standsFor h
  have hbrackets : (deserializeJson (List.replicate 252 0x5D)).map Except.isOk = some false := by
    decide +kernel
  rw [ht] at hbrackets
  cases hbrackets

end Json
end Remora
