/-
# No step is lost or invented

A bench runs the base thread and watches one step generator from outside, on
its step pin `s` and its direction pin `d`: the levels of all pins, the exact
sum of the increments the generator was given, and the rising edges seen on `s`,
those with `d` high counted up and those with `d` low counted down.

Inside the generator everything wraps at 32 bits.  `Tracks` ties the inside to
the outside, and one run keeps it (`tracks_step`): the accumulator is the exact
sum, and `rawCount` is both the exact phase and the signed count of edges, all
modulo `2 ^ 32`.

This takes a step pin of its own.  `pruThread::run` marks its run time on GPIO 6
(`scopePins`), so a generator whose step pin is GPIO 6, as joint 2 of the default
configuration has it, shows an edge in every run, enabled or not; and a generator
whose direction pin is its step pin shows every edge with the direction high.
`losesNoStep_iff` says that these are the only exceptions.
-/

import Remora.Basis.Run
import Remora.Motion.PruThread

namespace Remora

open Basis

variable {fl : FloatUnit}

/-- The increments of one run: each generator's, none for a disabled one. -/
abbrev Commands (fl : FloatUnit) := Stepgen fl → Option Word

/-- The base thread, its pins, and what an observer of one generator counts. -/
structure Bench (fl : FloatUnit) where
  thread : List (Stepgen fl)
  txData : TxData
  level : ℕ → Bool
  exact : ℤ
  edges : ℤ

namespace Bench

/-- The bench before the first run. -/
def start (thread : List (Stepgen fl)) (level : ℕ → Bool) : Bench fl :=
  { thread := thread, txData := TxData.zero, level := level, exact := 0, edges := 0 }

/-- The pins that the next run writes. -/
def puts (b : Bench fl) (cmd : Commands fl) : List Put := (baseRun cmd b.thread b.txData).2.2

/-- The increment of the generator on step pin `s`, `0` for a disabled one. -/
def increment (s : ℕ) (b : Bench fl) (cmd : Commands fl) : ℤ :=
  (((b.thread.find? fun g => g.stepPin = s).bind cmd).getD 0).toInt

/-- One run of the base thread, observed on the pins `s` and `d`. -/
def step (s d : ℕ) (b : Bench fl) (cmd : Commands fl) : Bench fl where
  thread := (baseRun cmd b.thread b.txData).1
  txData := (baseRun cmd b.thread b.txData).2.1
  level := levels b.level (b.puts cmd)
  exact := b.exact + b.increment s cmd
  edges := b.edges + signedCount (risingEdges s d b.level (b.puts cmd))

end Bench

/-- After the run the count is the exact phase and the signed count of edges,
modulo `2 ^ 32`; every edge of the run was raised with the direction pin set for
the increment that made it; and the step pin is low again. -/
def NoStepLost (s d : ℕ) (b : Bench fl) (cmd : Commands fl) : Prop :=
  (∀ g ∈ (b.step s d cmd).thread, g.stepPin = s →
    g.rawCount = BitVec.ofInt 32 (phase g.stepBit (b.step s d cmd).exact) ∧
      g.rawCount = BitVec.ofInt 32 (b.step s d cmd).edges) ∧
  (∀ e ∈ risingEdges s d b.level (b.puts cmd),
    ∃ g ∈ b.thread, g.stepPin = s ∧ ∃ a, cmd g = some a ∧ e = (0#32).slt a) ∧
  (b.step s d cmd).level s = false

/-- The increment of the generator on step pin `s` is at most `2 ^ stepBit` in
magnitude. -/
def InRange (s : ℕ) (cmd : Commands fl) : Prop :=
  ∀ g a, g.stepPin = s → cmd g = some a → |a.toInt| ≤ 2 ^ g.stepBit.val

/-- No other generator writes the step pin `s`. -/
def Unshared (s : ℕ) (others : List (Stepgen fl)) : Prop :=
  ∀ g ∈ others, g.stepPin ≠ s ∧ g.directionPin ≠ s

theorem Unshared.step_writes {s : ℕ} {gs : List (Stepgen fl)} (h : Unshared s gs)
    (cmd : Commands fl) : ∀ p ∈ gs.flatMap (fun g => g.putsOf (g.steps (cmd g))), p.line ≠ s := by
  intro p hp
  obtain ⟨g, hg, hp⟩ := List.mem_flatMap.1 hp
  rcases Stepgen.line_of_mem_putsOf hp with hline | hline
  · exact hline ▸ (h g hg).2
  · exact hline ▸ (h g hg).1

theorem Unshared.post_writes {s : ℕ} {gs : List (Stepgen fl)} (h : Unshared s gs) :
    ∀ p ∈ gs.map (fun g => (⟨g.stepPin, false⟩ : Put)), p.line ≠ s := by
  intro p hp
  obtain ⟨g, hg, rfl⟩ := List.mem_map.1 hp
  exact (h g hg).1

/-- The edges of a generator's own writes, from a low step pin: one for a step.
The direction pin is written first, so it shows the direction of the step,
unless it is the step pin itself. -/
theorem risingEdges_putsOf {s d : ℕ} {g : Stepgen fl} (hs : g.stepPin = s)
    (hd : g.directionPin = d) {l : ℕ → Bool} (hl : l s = false) (e : Option Bool) :
    risingEdges s d l (g.putsOf e) = e.toList.map fun e => if s = d then true else e := by
  subst hs hd
  cases e with
  | none => rfl
  | some e =>
      show risingEdges _ _ l ([⟨g.directionPin, e⟩] ++ [⟨g.stepPin, true⟩]) = _
      rw [risingEdges_append]
      have hdir : levels l [⟨g.directionPin, e⟩] g.directionPin = e :=
        Put.apply_self l ⟨g.directionPin, e⟩
      by_cases h : g.stepPin = g.directionPin
      · cases e with
        | false =>
            rw [risingEdges_low, ← h, risingEdges_high (h ▸ hdir)]
            simp
        | true =>
            rw [← h] at hdir ⊢
            rw [risingEdges_high hl, risingEdges_of_high _ hdir]
            simp
      · have hlow : levels l [⟨g.directionPin, e⟩] g.stepPin = false := by
          rw [levels_of_untouched (by simpa using Ne.symm h), hl]
        rw [risingEdges_of_untouched _ (by simpa using Ne.symm h), risingEdges_high hlow, hdir]
        simp [h]

/-- **The edges of one run.**  Off GPIO 6, the only edges on the step pin are those
of its own generator, and the run leaves it low. -/
theorem risingEdges_run {s d : ℕ} (h6 : s ≠ 6) {pre post : List (Stepgen fl)} {g : Stepgen fl}
    (hs : g.stepPin = s) (hd : g.directionPin = d) (hpre : Unshared s pre)
    (hpost : Unshared s post) (cmd : Commands fl) (tx : TxData) {l : ℕ → Bool}
    (hl : l s = false) :
    risingEdges s d l (baseRun cmd (pre ++ g :: post) tx).2.2 =
        (g.steps (cmd g)).toList.map (fun e => if s = d then true else e) ∧
      levels l (baseRun cmd (pre ++ g :: post) tx).2.2 s = false := by
  -- what is written before the generator's own step, between it and the post walk, and after
  set A := (⟨6, true⟩ : Put) :: pre.flatMap fun g => g.putsOf (g.steps (cmd g)) with hA
  set B := post.flatMap (fun g => g.putsOf (g.steps (cmd g))) ++
    pre.map fun g => (⟨g.stepPin, false⟩ : Put) with hB
  set C := (post.map fun g => (⟨g.stepPin, false⟩ : Put)) ++ [⟨6, false⟩] with hC
  have hsplit : (baseRun cmd (pre ++ g :: post) tx).2.2 =
      A ++ g.putsOf (g.steps (cmd g)) ++ B ++ [⟨s, false⟩] ++ C := by
    rw [puts_baseRun, hA, hB, hC]
    simp [hs]
  have hA' : ∀ p ∈ A, p.line ≠ s := List.forall_mem_cons.2 ⟨h6.symm, hpre.step_writes cmd⟩
  have hB' : ∀ p ∈ B, p.line ≠ s :=
    List.forall_mem_append.2 ⟨hpost.step_writes cmd, hpre.post_writes⟩
  have hC' : ∀ p ∈ C, p.line ≠ s :=
    List.forall_mem_append.2 ⟨hpost.post_writes, by simpa using h6.symm⟩
  have hlA : levels l A s = false := by rw [levels_of_untouched hA', hl]
  rw [hsplit]
  constructor
  · rw [risingEdges_append, risingEdges_append, risingEdges_append, risingEdges_append,
      risingEdges_putsOf hs hd hlA, risingEdges_of_untouched d hA', risingEdges_of_untouched d hB',
      risingEdges_low, risingEdges_of_untouched d hC']
    simp
  · rw [levels_append, levels_of_untouched hC', levels_append]
    exact Put.apply_self _ ⟨s, false⟩

/-- The inside of the generator on step pin `s`, as an observer of its pins sees it. -/
structure Tracks (s d : ℕ) (k : Fin 32) (b : Bench fl) : Prop where
  unique : ∃ pre g post, b.thread = pre ++ g :: post ∧ Unshared s pre ∧ Unshared s post ∧
    g.stepPin = s ∧ g.directionPin = d ∧ g.stepBit = k ∧
    g.DDSaccumulator = BitVec.ofInt 32 b.exact ∧
    g.rawCount = BitVec.ofInt 32 (phase k b.exact) ∧ g.rawCount = BitVec.ofInt 32 b.edges
  low : b.level s = false

theorem slt_zero_iff (a : Word) : (0#32).slt a = decide (0 < a.toInt) := by
  rw [BitVec.slt_eq_decide, BitVec.toInt_zero]

/-- The change of `rawCount` in one run is the change of the exact phase. -/
theorem delta_steps {g : Stepgen fl} {A : ℤ} (hA : g.DDSaccumulator = BitVec.ofInt 32 A)
    {c : Option Word} (hc : ∀ a, c = some a → |a.toInt| ≤ 2 ^ g.stepBit.val) :
    Stepgen.delta (g.steps c) =
      BitVec.ofInt 32 (phase g.stepBit (A + (c.getD 0).toInt) - phase g.stepBit A) ∧
    Stepgen.delta (g.steps c) = BitVec.ofInt 32 (signedCount (g.steps c).toList) := by
  cases c with
  | none => simp [Stepgen.delta]
  | some a =>
      have hsum : g.DDSaccumulator + a = BitVec.ofInt 32 (A + a.toInt) := by
        rw [hA, BitVec.ofInt_add, BitVec.ofInt_toInt]
      have hphase := phase_add g.stepBit.isLt (hc a rfl) A
      rw [Option.getD_some, hphase, Stepgen.steps, hsum, hA, slt_zero_iff]
      by_cases h : StepBitFlips g.stepBit.val (BitVec.ofInt 32 A) (BitVec.ofInt 32 (A + a.toInt))
      · by_cases hd : 0 < a.toInt <;> simp [h, hd, Stepgen.delta]
      · simp [h, Stepgen.delta]

theorem Bench.increment_eq {s : ℕ} {b : Bench fl} {pre post : List (Stepgen fl)} {g : Stepgen fl}
    (hb : b.thread = pre ++ g :: post) (hpre : Unshared s pre) (hs : g.stepPin = s)
    (cmd : Commands fl) : b.increment s cmd = ((cmd g).getD 0).toInt := by
  have hfind : b.thread.find? (fun g => g.stepPin = s) = some g := by
    rw [hb, List.find?_append,
      List.find?_eq_none.2 fun g' hg' => by simpa using (hpre g' hg').1, Option.none_or,
      List.find?_cons_of_pos (by simpa using hs)]
  rw [increment, hfind, Option.bind_some]

theorem Unshared.map_next {s : ℕ} {gs : List (Stepgen fl)} (h : Unshared s gs)
    (cmd : Commands fl) : Unshared s (gs.map fun g => g.next (cmd g)) := by
  intro g hg
  obtain ⟨g', hg', rfl⟩ := List.mem_map.1 hg
  exact h g' hg'

/-- Of the generators of the thread, only `g` has the step pin `s`. -/
theorem eq_of_stepPin {s : ℕ} {pre post : List (Stepgen fl)} {g g' : Stepgen fl}
    (hpre : Unshared s pre) (hpost : Unshared s post) (h : g' ∈ pre ++ g :: post)
    (hs : g'.stepPin = s) : g' = g := by
  rcases List.mem_append.1 h with h | h
  · exact absurd hs (hpre g' h).1
  · rcases List.mem_cons.1 h with h | h
    · exact h
    · exact absurd hs (hpost g' h).1

variable {s d : ℕ} {k : Fin 32} {b : Bench fl} {cmd : Commands fl}

/-- **One run keeps the inside and the outside together.** -/
theorem tracks_step (h6 : s ≠ 6) (hsd : s ≠ d) (hc : InRange s cmd) (hb : Tracks s d k b) :
    Tracks s d k (b.step s d cmd) := by
  obtain ⟨⟨pre, g, post, hthread, hpre, hpost, hs, hd, hk, hacc, hraw, hedges⟩, hlow⟩ := hb
  obtain ⟨hrise, hlow'⟩ :=
    risingEdges_run (d := d) h6 hs hd hpre hpost cmd b.txData hlow
  rw [← hthread] at hrise hlow'
  have hinc : b.increment s cmd = ((cmd g).getD 0).toInt := Bench.increment_eq hthread hpre hs cmd
  obtain ⟨hphase, hcount⟩ := delta_steps hacc fun a ha => hc g a hs ha
  rw [hk] at hphase
  refine ⟨⟨pre.map fun g => g.next (cmd g), g.next (cmd g), post.map fun g => g.next (cmd g),
    ?_, hpre.map_next cmd, hpost.map_next cmd, hs, hd, hk, ?_, ?_, ?_⟩, hlow'⟩
  · simp [Bench.step, hthread]
  · rw [Stepgen.next_DDSaccumulator, hacc, Bench.step, hinc, BitVec.ofInt_add, BitVec.ofInt_toInt]
  · rw [Stepgen.next_rawCount, hraw, hphase, ← BitVec.ofInt_add, add_sub_cancel, ← hinc]
    rfl
  · rw [Stepgen.next_rawCount, hedges, hcount, ← BitVec.ofInt_add, Bench.step, Bench.puts, hrise]
    simp [hsd]

/-- **One run loses and invents no step.** -/
theorem noStepLost_of_tracks (h6 : s ≠ 6) (hsd : s ≠ d) (hc : InRange s cmd)
    (hb : Tracks s d k b) : NoStepLost s d b cmd := by
  have hb' := tracks_step h6 hsd hc hb
  refine ⟨?_, ?_, hb'.low⟩
  · obtain ⟨⟨pre, g, post, hthread, hpre, hpost, hs, hd, hk, hacc, hraw, hedges⟩, -⟩ := hb'
    rw [hthread]
    intro g' hg' hs'
    obtain rfl := eq_of_stepPin hpre hpost hg' hs'
    exact ⟨hk ▸ hraw, hedges⟩
  · obtain ⟨⟨pre, g, post, hthread, hpre, hpost, hs, hd, -⟩, hlow⟩ := hb
    have hrise := (risingEdges_run h6 hs hd hpre hpost cmd b.txData hlow).1
    rw [← hthread] at hrise
    intro e he
    rw [Bench.puts, hrise, List.mem_map] at he
    obtain ⟨e', he', rfl⟩ := he
    rw [if_neg hsd]
    refine ⟨g, hthread ▸ List.mem_append_right _ (List.mem_cons_self ..), hs, ?_⟩
    cases ha : cmd g with
    | none => simp [ha] at he'
    | some a =>
        rw [ha, Stepgen.steps] at he'
        refine ⟨a, rfl, ?_⟩
        split_ifs at he' <;> simp_all

theorem tracks_start {pre post : List (Stepgen fl)} {g : Stepgen fl} {level : ℕ → Bool}
    (hpre : Unshared g.stepPin pre) (hpost : Unshared g.stepPin post)
    (hnew : g.DDSaccumulator = 0 ∧ g.rawCount = 0) (hlow : level g.stepPin = false) :
    Tracks g.stepPin g.directionPin g.stepBit (Bench.start (pre ++ g :: post) level) := by
  refine ⟨⟨pre, g, post, rfl, hpre, hpost, rfl, rfl, rfl, ?_, ?_, ?_⟩, hlow⟩
  · simpa [Bench.start] using hnew.1
  · simpa [Bench.start] using hnew.2
  · simpa [Bench.start] using hnew.2

/-- GPIO 6 as step pin: an edge in a run in which nothing is enabled. -/
theorem not_noStepLost_of_scope_pin (h6 : s = 6) (hlow : b.level s = false) :
    ¬NoStepLost s d b fun _ => none := by
  rintro ⟨-, hedge, -⟩
  have hrise : ∃ e es, risingEdges s d b.level (b.puts fun _ => none) = e :: es := by
    rw [Bench.puts, puts_baseRun, List.cons_append, risingEdges, h6, Put.apply_self,
      if_pos ⟨h6 ▸ hlow, rfl⟩]
    exact ⟨_, _, rfl⟩
  obtain ⟨e, es, hrise⟩ := hrise
  obtain ⟨g, -, -, a, ha, -⟩ := hedge e (by rw [hrise]; exact List.mem_cons_self ..)
  simp at ha

theorem toInt_ofInt_neg_pow (k : Fin 32) :
    (BitVec.ofInt 32 (-2 ^ k.val)).toInt = -2 ^ k.val := by
  revert k; decide

/-- From an accumulator at `0`, the increment `-2 ^ stepBit` makes a step backward. -/
theorem steps_neg_pow {g : Stepgen fl} (hacc : g.DDSaccumulator = 0#32) :
    g.steps (some (BitVec.ofInt 32 (-2 ^ g.stepBit.val))) = some false := by
  have hpos : (0 : ℤ) < 2 ^ g.stepBit.val := by positivity
  have hrange : |-(2 : ℤ) ^ g.stepBit.val| ≤ 2 ^ g.stepBit.val := by
    rw [abs_neg, abs_of_pos hpos]
  have hphase := phase_add g.stepBit.isLt hrange 0
  have hback := phase_add_pow g.stepBit.val (-2 ^ g.stepBit.val)
  rw [neg_add_cancel, phase_zero] at hback
  rw [zero_add, phase_zero, show BitVec.ofInt 32 0 = 0#32 from rfl] at hphase
  have hflip : StepBitFlips g.stepBit.val 0#32 (BitVec.ofInt 32 (-2 ^ g.stepBit.val)) := by
    by_contra h
    rw [if_neg h] at hphase
    omega
  rw [Stepgen.steps, hacc, BitVec.zero_add, if_pos hflip, slt_zero_iff, toInt_ofInt_neg_pow,
    decide_eq_false (by omega)]

/-- The direction pin as step pin: the first step backward is seen as forward. -/
theorem not_noStepLost_of_same_pin (h6 : s ≠ 6) (hsd : s = d) (hb : Tracks s d k b)
    (hzero : b.exact = 0) :
    ¬NoStepLost s d b fun g => some (BitVec.ofInt 32 (-2 ^ g.stepBit.val)) := by
  obtain ⟨⟨pre, g, post, hthread, hpre, hpost, hs, hd, hk, hacc, -⟩, hlow⟩ := hb
  rw [hzero] at hacc
  rintro ⟨-, hedge, -⟩
  have hrise := (risingEdges_run h6 hs hd hpre hpost
    (fun g => some (BitVec.ofInt 32 (-2 ^ g.stepBit.val))) b.txData hlow).1
  rw [← hthread, steps_neg_pow (hacc.trans rfl), Option.toList_some, List.map_singleton,
    if_pos hsd] at hrise
  obtain ⟨g', -, -, a, ha, hdir⟩ := hedge true (by rw [Bench.puts, hrise]; simp)
  obtain rfl := Option.some.inj ha
  rw [slt_zero_iff, toInt_ofInt_neg_pow, eq_comm, decide_eq_true_iff] at hdir
  have : (0 : ℤ) < 2 ^ g'.stepBit.val := by positivity
  omega

/-- Along every sequence of runs, each with increments of its own, the generator
on step pin `s` and direction pin `d` loses and invents no step. -/
def LosesNoStep (thread : List (Stepgen fl)) (level : ℕ → Bool) (s d : ℕ) : Prop :=
  ∀ runs : List (Commands fl), (∀ cmd ∈ runs, InRange s cmd) →
    Along (Bench.step s d) (NoStepLost s d) (Bench.start thread level) runs

/-- **No step is lost or invented by the DDS**, over any number of runs and of
wraps, exactly when the step pin is neither the pin on which the base thread
marks its run time nor the direction pin. -/
theorem losesNoStep_iff (threadFreq : ℤ) (jointNumber stepPin directionPin : ℕ) (stepBit : Fin 32)
    {pre post : List (Stepgen fl)} (hpre : Unshared stepPin pre) (hpost : Unshared stepPin post)
    {level : ℕ → Bool} (hlow : level stepPin = false) :
    LosesNoStep (pre ++ Stepgen.new threadFreq jointNumber stepPin directionPin stepBit :: post)
        level stepPin directionPin ↔
      stepPin ≠ 6 ∧ stepPin ≠ directionPin := by
  set g : Stepgen fl := Stepgen.new threadFreq jointNumber stepPin directionPin stepBit
  have hstart : Tracks stepPin directionPin stepBit (Bench.start (pre ++ g :: post) level) :=
    tracks_start (g := g) hpre hpost ⟨rfl, rfl⟩ hlow
  constructor
  · intro h
    by_cases h6 : stepPin = 6
    · have := h [fun _ => none] (by simp [InRange])
      exact absurd this.1 (not_noStepLost_of_scope_pin h6 hlow)
    · refine ⟨h6, fun hsd => ?_⟩
      set cmd : Commands fl := fun g => some (BitVec.ofInt 32 (-2 ^ g.stepBit.val))
      have hrange : InRange stepPin cmd := by
        intro g a _ ha
        obtain rfl := Option.some.inj ha
        rw [toInt_ofInt_neg_pow, abs_neg, abs_of_pos (by positivity)]
      have := h [cmd] (by simpa using hrange)
      exact absurd this.1 (not_noStepLost_of_same_pin h6 hsd hstart rfl)
  · rintro ⟨h6, hsd⟩ runs hruns
    exact along_of_invariant (fun _ _ hb hc => tracks_step h6 hsd hc hb)
      (fun _ _ hb hc => noStepLost_of_tracks h6 hsd hc hb) hstart (along_of_forall hruns)

/-- The generators of the default configuration, `DEFAULT_CONFIG`. -/
def defaultThread (fl : FloatUnit) : List (Stepgen fl) :=
  [Stepgen.new PRU_BASEFREQ 0 2 3 STEPBIT, Stepgen.new PRU_BASEFREQ 1 4 5 STEPBIT,
    Stepgen.new PRU_BASEFREQ 2 6 7 STEPBIT, Stepgen.new PRU_BASEFREQ 3 8 9 STEPBIT]

/-- Joint 0 of the default configuration loses no step. -/
theorem losesNoStep_default_joint0 :
    LosesNoStep (defaultThread (exactFloat fun _ => 0)) (fun _ => false) 2 3 := by
  have hpost : Unshared 2 (defaultThread (exactFloat fun _ => 0)).tail := by
    simp [Unshared, defaultThread, Stepgen.new]
  exact (losesNoStep_iff PRU_BASEFREQ 0 2 3 STEPBIT (List.forall_mem_nil _) hpost rfl).2 (by decide)

/-- Joint 2 of the default configuration, whose step pin is GPIO 6, shows an edge
in a run in which it is not enabled. -/
theorem not_losesNoStep_default_joint2 :
    ¬Along (Bench.step 6 7) (NoStepLost 6 7)
      (Bench.start (defaultThread (exactFloat fun _ => 0)) fun _ => false) [fun _ => none] :=
  fun h => not_noStepLost_of_scope_pin rfl rfl h.1

end Remora
