/-
# A packet between the test and the clear

`update` reads `data` in its first statement and writes it in its last, and
`dataReceived` runs on the other core.  Here `update` is cut into its four
statements, and `dataReceived`, a single write, may fall between any two of them.
An update that is not interrupted is one `update` (`run_update`).

A packet that falls between the two accesses of an update that found nothing is
cleared with them.  It is not forgotten if the update counts it, that is if it
found an earlier packet, or if the next update finds a later one.
-/

import Remora.Basis.Run
import Remora.Motion.RemoraComms

namespace Remora

open Basis

/-- The next statement of `update`. -/
inductive UpdateAt where
  /-- `if (data)`, which starts an update. -/
  | test
  /-- The branch taken. -/
  | branch (found : Bool)
  /-- `if (noDataCount > DATA_ERR_MAX)` and its body. -/
  | timeout
  /-- `data = false`, which ends the update. -/
  | clear
  deriving DecidableEq

/-- A step of one of the two cores. -/
inductive CommsEvent where
  /-- Core 0 executes `dataReceived`. -/
  | dataReceived
  /-- Core 1 executes the next statement of `update`. -/
  | update
  deriving DecidableEq

/-- The watchdog, and where core 1 stands in its `update`. -/
structure CommsCores where
  comms : RemoraComms
  core1 : UpdateAt

namespace CommsCores

/-- The state after a step. -/
def step (s : CommsCores) : CommsEvent → CommsCores
  | .dataReceived => { s with comms := s.comms.dataReceived }
  | .update =>
      match s.core1 with
      | .test => { s with core1 := .branch s.comms.data }
      | .branch true => ⟨{ s.comms with noDataCount := 0, status := true }, .timeout⟩
      | .branch false => ⟨{ s.comms with noDataCount := s.comms.noDataCount + 1 }, .timeout⟩
      | .timeout =>
          ⟨if s.comms.noDataCount > DATA_ERR_MAX then
            { s.comms with noDataCount := 0, status := false } else s.comms, .clear⟩
      | .clear => ⟨{ s.comms with data := false }, .test⟩

/-- The four statements with nothing between them are an `update`. -/
theorem run_update (c : RemoraComms) :
    run step ⟨c, .test⟩ (List.replicate 4 .update) = ⟨c.update, .test⟩ := by
  cases h : c.data <;> simp [List.replicate, step, RemoraComms.update, h]

/-- What has happened since the latest test of `data`. -/
structure Since where
  /-- The test found data: the update executes its data branch. -/
  found : Bool
  /-- A packet has come in that update, after the test. -/
  inside : Bool
  /-- A packet has come since that update. -/
  after : Bool
  deriving DecidableEq

/-- Before the first update. -/
def Since.start : Since := ⟨false, false, false⟩

/-- How a step changes the record. -/
def record (s : CommsCores) : CommsEvent → Since → Since
  | .dataReceived, since =>
      if s.core1 = .test then { since with after := true } else { since with inside := true }
  | .update, since => if s.core1 = .test then ⟨s.comms.data, false, false⟩ else since

/-- **No packet is forgotten** at a test of `data`, the one that decides the branch
of the update it starts.  Of a packet in the update before, that update or this one
executes its data branch; of a packet between the two, this one does. -/
def Remembers (s : CommsCores × Since) : CommsEvent → Prop
  | .dataReceived => True
  | .update => s.1.core1 = .test →
      (s.2.inside = true → s.2.found = true ∨ s.1.comms.data = true) ∧
      (s.2.after = true → s.1.comms.data = true)

/-- At a test: a packet that the update before did not find, and cleared, has been
followed by another. -/
def Repeated (s : CommsCores × Since) : CommsEvent → Prop
  | .dataReceived => True
  | .update => s.1.core1 = .test → s.2.inside = true → s.2.found = false → s.2.after = true

instance (s : CommsCores × Since) : DecidablePred (Remembers s)
  | .dataReceived => inferInstanceAs (Decidable True)
  | .update => inferInstanceAs (Decidable (_ → _))

/-- What the flag says between two updates: a packet since the last one.  Before the
first update it says nothing, and nothing has come in an update either. -/
def Flagged (s : CommsCores × Since) : Prop :=
  if s.1.core1 = .test then
    (s.2.after = true → s.1.comms.data = true) ∧
    (s.2.inside = true → s.1.comms.data = true → s.2.after = true)
  else s.2.after = false

theorem flagged_start (c : RemoraComms) : Flagged (⟨c, .test⟩, Since.start) :=
  And.intro (fun h => absurd h Bool.false_ne_true) (fun h => absurd h Bool.false_ne_true)

theorem Flagged.step {s : CommsCores × Since} (h : Flagged s) (e : CommsEvent) :
    Flagged (watch step record s e) := by
  obtain ⟨⟨c, pc⟩, since⟩ := s
  cases e with
  | dataReceived =>
      cases pc with
      | test => exact ⟨fun _ => rfl, fun _ _ => rfl⟩
      | branch found => exact h
      | timeout => exact h
      | clear => exact h
  | update =>
      cases pc with
      | test => rfl
      | branch found => cases found <;> exact h
      | timeout => exact h
      | clear =>
          -- the clear: nothing has come after it, and the flag agrees
          have hafter : since.after = false := h
          refine ⟨fun hcome => ?_, fun _ hdata => ?_⟩
          · exact absurd (hafter.symm.trans hcome) (by simp)
          · exact absurd hdata (by simp [CommsCores.step])

theorem remembers_iff_repeated {s : CommsCores × Since} (h : Flagged s) (e : CommsEvent) :
    Remembers s e ↔ Repeated s e := by
  cases e with
  | dataReceived => exact Iff.rfl
  | update =>
      refine imp_congr_right fun htest => ?_
      obtain ⟨hafter, hdata⟩ := (if_pos htest).mp h
      constructor
      · rintro ⟨hin, -⟩ hinside hfound
        exact hdata hinside ((hin hinside).resolve_left (by simp [hfound]))
      · refine fun hrep => ⟨fun hinside => ?_, hafter⟩
        cases hfound : s.2.found with
        | true => exact Or.inl rfl
        | false => exact Or.inr (hafter (hrep hinside hfound))

end CommsCores

/-- **No packet is forgotten** along a run exactly when every packet that falls
between the test of an update that found nothing and its clear is followed by
another before the next update's test. -/
theorem CommsCores.remembers_along_iff (c : RemoraComms) (es : List CommsEvent) :
    Along (watch CommsCores.step CommsCores.record) CommsCores.Remembers
        (⟨c, .test⟩, CommsCores.Since.start) es ↔
      Along (watch CommsCores.step CommsCores.record) CommsCores.Repeated
        (⟨c, .test⟩, CommsCores.Since.start) es :=
  along_iff_along (I := CommsCores.Flagged) (fun _ e h => CommsCores.remembers_iff_repeated h e)
    (fun _ e h _ => h.step e) (CommsCores.flagged_start c) es

/-- A packet right after the test: the update clears it, and the next one finds nothing. -/
theorem CommsCores.not_remembers_along :
    ¬Along (watch CommsCores.step CommsCores.record) CommsCores.Remembers
      (⟨⟨false, true, 40⟩, .test⟩, CommsCores.Since.start)
      [.update, .dataReceived, .update, .update, .update, .update] := by
  decide

end Remora
