/-
# The base thread

`thread/pruThread.cpp`, as the base thread uses it: `run` walks the registered
modules, then the modules registered to run after them, and it marks the time it
takes on a pin of its own, GPIO 6 for slice 0 and GPIO 27 for slice 1
(`scopePins`).  The modules of the base thread are step generators, each
registered in both lists (`createStepgen`, `loadStaticConfig`), so the second
walk lowers the step pins in the order of the first.

A run is taken here as one atomic step, so `semaphore` and `execute` are free
when it starts and free when it ends.  What a run does to the generators, to the
packet to the host and to the pins is said once each: `thread_baseRun`,
`jointFeedback_baseRun` and `puts_baseRun`.
-/

import Remora.Motion.Stepgen

namespace Remora

open Basis

variable {fl : FloatUnit}

/-- The pin that `run` raises on entry and lowers on exit. -/
def scopePins (slice : ℕ) : List ℕ := if slice = 0 then [6] else if slice = 1 then [27] else []

/-- The writes of a run around those of its modules. -/
def underScope (slice : ℕ) (puts : List Put) : List Put :=
  (scopePins slice).map (fun p => ⟨p, true⟩) ++ puts ++
    (scopePins slice).map (fun p => ⟨p, false⟩)

/-- The walk over `vThread`, each generator given its increment by `cmd`. -/
def runModules (cmd : Stepgen fl → Option Word) :
    List (Stepgen fl) → TxData → List (Stepgen fl) × TxData × List Put
  | [], tx => ([], tx, [])
  | g :: gs, tx =>
      let r := g.pulse tx (cmd g)
      let rs := runModules cmd gs r.2.1
      (r.1 :: rs.1, rs.2.1, r.2.2 ++ rs.2.2)

/-- Under a packet the walk is `makePulses` of each generator in turn. -/
theorem runModules_command (rx : RxData) (g : Stepgen fl) (gs : List (Stepgen fl)) (tx : TxData) :
    runModules (fun g => g.command rx) (g :: gs) tx =
      let r := g.makePulses rx tx
      let rs := runModules (fun g => g.command rx) gs r.2.1
      (r.1 :: rs.1, rs.2.1, r.2.2 ++ rs.2.2) := rfl

/-- The walk over `vThreadPost`. -/
def runModulesPost (gs : List (Stepgen fl)) : List Put := gs.flatMap Stepgen.stopPulses

/-- `pruThread::run` on the base thread: the generators, the packet to the host
and the pins written. -/
def baseRun (cmd : Stepgen fl → Option Word) (gs : List (Stepgen fl)) (tx : TxData) :
    List (Stepgen fl) × TxData × List Put :=
  let r := runModules cmd gs tx
  (r.1, r.2.1, underScope BASE_SLICE (r.2.2 ++ runModulesPost r.1))

theorem runModules_eq (cmd : Stepgen fl → Option Word) (gs : List (Stepgen fl)) (tx : TxData) :
    runModules cmd gs tx = (gs.map fun g => g.next (cmd g),
      gs.foldl (fun tx g => g.feed tx (cmd g)) tx,
      gs.flatMap fun g => g.putsOf (g.steps (cmd g))) := by
  induction gs generalizing tx with
  | nil => rfl
  | cons g gs ih => rw [runModules, Stepgen.pulse_eq, ih]; rfl

/-- **Every generator takes its own increment.** -/
@[simp] theorem thread_baseRun (cmd : Stepgen fl → Option Word) (gs : List (Stepgen fl))
    (tx : TxData) : (baseRun cmd gs tx).1 = gs.map fun g => g.next (cmd g) := by
  rw [baseRun, runModules_eq]

/-- **The pins a run writes**: the thread's own, the steps, the thread's step
pins lowered, the thread's own again. -/
theorem puts_baseRun (cmd : Stepgen fl → Option Word) (gs : List (Stepgen fl)) (tx : TxData) :
    (baseRun cmd gs tx).2.2 =
      ⟨6, true⟩ :: (gs.flatMap (fun g => g.putsOf (g.steps (cmd g))) ++
        gs.map (fun g => ⟨g.stepPin, false⟩)) ++ [⟨6, false⟩] := by
  have hpost : runModulesPost (gs.map fun g => g.next (cmd g)) =
      gs.map fun g => ⟨g.stepPin, false⟩ := by
    rw [runModulesPost, List.flatMap_map]
    exact List.flatMap_pure_eq_map _ _
  rw [baseRun, runModules_eq, hpost]
  rfl

/-- A generator of another joint does not write the feedback of joint `j`. -/
theorem jointFeedback_foldl_of_ne (cmd : Stepgen fl → Option Word) {gs : List (Stepgen fl)}
    {j : ℕ} (h : ∀ g ∈ gs, g.jointNumber ≠ j) (tx : TxData) :
    (gs.foldl (fun tx g => g.feed tx (cmd g)) tx).jointFeedback j = tx.jointFeedback j := by
  induction gs generalizing tx with
  | nil => rfl
  | cons g gs ih =>
      rw [List.foldl_cons, ih fun g' hg' => h g' (List.mem_cons_of_mem _ hg'), Stepgen.feed]
      split_ifs
      · rfl
      · exact TxData.jointFeedback_setJointFeedback_of_ne _ _ (h g (List.mem_cons_self ..))

/-- **The feedback a run leaves for a joint**: the new count when the joint
stepped, what was there when it did not. -/
theorem jointFeedback_baseRun (cmd : Stepgen fl → Option Word) {gs : List (Stepgen fl)}
    (hnd : gs.Pairwise fun g g' => g.jointNumber ≠ g'.jointNumber) {g : Stepgen fl} (hg : g ∈ gs)
    (hj : g.jointNumber < JOINTS) (tx : TxData) :
    (baseRun cmd gs tx).2.1.jointFeedback g.jointNumber =
      if g.steps (cmd g) = none then tx.jointFeedback g.jointNumber
      else (g.next (cmd g)).rawCount := by
  rw [baseRun, runModules_eq]
  dsimp only
  induction gs generalizing tx with
  | nil => simp at hg
  | cons g₀ gs ih =>
      obtain ⟨hne, hnd⟩ := List.pairwise_cons.1 hnd
      rw [List.foldl_cons]
      rcases List.mem_cons.1 hg with rfl | hmem
      · rw [jointFeedback_foldl_of_ne cmd fun g' hg' => (hne g' hg').symm, Stepgen.feed]
        split_ifs
        · rfl
        · exact TxData.jointFeedback_setJointFeedback _ _ hj
      · rw [ih hnd hmem]
        split_ifs
        · rw [Stepgen.feed]
          split_ifs
          · rfl
          · exact TxData.jointFeedback_setJointFeedback_of_ne _ _ (hne g hmem)
        · rfl

/-- With no joint enabled a run leaves generators and packet as they are, and
raises no pin but the thread's own. -/
theorem baseRun_of_none {cmd : Stepgen fl → Option Word} {gs : List (Stepgen fl)}
    (h : ∀ g ∈ gs, cmd g = none) (tx : TxData) :
    (baseRun cmd gs tx).1 = gs ∧
      ∀ p ∈ (baseRun cmd gs tx).2.2, p.level = true → p.line = 6 := by
  constructor
  · rw [thread_baseRun]
    calc gs.map (fun g => g.next (cmd g)) = gs.map id :=
          List.map_congr_left fun g hg => by rw [h g hg, Stepgen.next_none, id]
      _ = gs := List.map_id _
  · have hputs : gs.flatMap (fun g => g.putsOf (g.steps (cmd g))) = [] :=
      List.flatMap_eq_nil_iff.2 fun g hg => by rw [h g hg]; rfl
    rw [puts_baseRun, hputs]
    intro p hp hlevel
    simp only [List.nil_append, List.cons_append, List.mem_cons, List.mem_append, List.mem_map,
      List.not_mem_nil, or_false] at hp
    rcases hp with rfl | ⟨g, -, rfl⟩ | rfl
    · rfl
    · simp at hlevel
    · rfl

end Remora
