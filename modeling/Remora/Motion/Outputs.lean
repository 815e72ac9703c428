/-
# The pins of the servo thread

What outputs and blinkers show in every run, wherever datagrams and the base thread cut
the servo run.  Everything follows from what one event does to one module
(`module_step`): the step of core 1 whose turn it is updates the module and writes its
pins, and every other event leaves both alone, for the pins are wired apart.

An output may show an old command while the servo run is under way.  Once a run has
been carried out whole under a command, every output shows it, and goes on to do so until
the command changes (`outputs_obey`).  A blinker divides the servo runs by half its
period (`blinks`).
-/

import Remora.Motion.Wired

namespace Remora

open Basis

variable {fl : FloatUnit}

section

variable {gs : List (Stepgen fl)} {ms : List ServoModule} (h : WiredApart gs ms)
include h

theorem WiredApart.notMem_outputs {i k : ℕ} (hne : i ≠ k) {m m' : ServoModule}
    (hm : ms[i]? = some m) (hm' : ms[k]? = some m') {p : ℕ} (hp : p ∈ m.outputs) :
    p ∉ m'.outputs := by
  have hnodup : (ms.flatMap ServoModule.outputs).Nodup :=
    h.of_append_right.of_append_right.of_append_right
  have hdisjoint := List.pairwise_iff_getElem.1 (List.nodup_flatMap.1 hnodup).2
  obtain ⟨hi, rfl⟩ := List.getElem?_eq_some_iff.1 hm
  obtain ⟨hk, rfl⟩ := List.getElem?_eq_some_iff.1 hm'
  rcases Nat.lt_or_gt_of_ne hne with hlt | hlt
  · exact fun hp' => hdisjoint i k hi hk hlt hp hp'
  · exact fun hp' => hdisjoint k i hk hi hlt hp' hp

theorem WiredApart.ne_of_mem_outputs {m : ServoModule} (hm : m ∈ ms) {p : ℕ}
    (hp : p ∈ m.outputs) :
    p ≠ 6 ∧ p ≠ 27 ∧ ∀ g ∈ gs, p ≠ g.stepPin ∧ p ≠ g.directionPin := by
  have hmem : p ∈ ms.flatMap ServoModule.outputs := List.mem_flatMap.2 ⟨m, hm, hp⟩
  have hne : ∀ n, n ∈ 6 :: 27 :: gs.flatMap (fun g => [g.stepPin, g.directionPin]) → p ≠ n := by
    rintro n hn rfl
    have hsplit : wiredPins gs ms = (6 :: 27 :: gs.flatMap fun g => [g.stepPin, g.directionPin]) ++
        ms.flatMap ServoModule.outputs := by
      simp [wiredPins, scopePins, BASE_SLICE, SERVO_SLICE]
    rw [WiredApart, hsplit] at h
    exact List.disjoint_of_nodup_append h hn hmem
  refine ⟨hne _ (by simp), hne _ (by simp), fun g hg => ⟨hne _ ?_, hne _ ?_⟩⟩ <;>
  · refine List.mem_cons_of_mem _ (List.mem_cons_of_mem _ (List.mem_flatMap.2 ⟨g, hg, ?_⟩))
    simp

end

/-- The pins that a run of the base thread writes. -/
theorem line_of_mem_baseTimerTick {c : Controller fl} {p : Put} (hp : p ∈ (baseTimerTick c).2) :
    p.line = 6 ∨ ∃ g ∈ c.baseThread, p.line = g.stepPin ∨ p.line = g.directionPin := by
  rw [baseTimerTick, puts_baseRun] at hp
  rcases List.mem_append.1 hp with hp | hp
  · rcases List.mem_cons.1 hp with rfl | hp
    · exact Or.inl rfl
    · refine Or.inr ?_
      rcases List.mem_append.1 hp with hp | hp
      · obtain ⟨g, hg, hp⟩ := List.mem_flatMap.1 hp
        exact ⟨g, hg, (Stepgen.line_of_mem_putsOf hp).symm⟩
      · obtain ⟨g, hg, rfl⟩ := List.mem_map.1 hp
        exact ⟨g, hg, Or.inl rfl⟩
  · rw [List.mem_singleton.1 hp]
    exact Or.inl rfl

namespace Wired

/-- **What an event does to a module**: it is the update of the module, which writes its
pins, or it leaves the module and its pins alone. -/
theorem module_step {s : Wired fl} (hapart : WiredApart s.shared.baseThread s.shared.servoThread)
    {i : ℕ} {m : ServoModule} (hm : s.shared.servoThread[i]? = some m) (e : Event) :
    (∃ gpio, e = .pass gpio ∧ s.walk = .next i ∧ (s.step e).walk = .next (i + 1) ∧
      (s.step e).shared.servoThread[i]? = some (m.update s.shared.rxPingPongBuffer.current gpio
        s.shared.txPingPongBuffer.current).1 ∧
      (s.step e).level = levels s.level (m.update s.shared.rxPingPongBuffer.current gpio
        s.shared.txPingPongBuffer.current).2.2) ∨
    ((∀ gpio, e = .pass gpio → s.walk ≠ .next i) ∧
      (s.step e).shared.servoThread[i]? = some m ∧
      ∀ p ∈ m.outputs, (s.step e).level p = s.level p) := by
  have hpins := fun p hp => hapart.ne_of_mem_outputs (List.mem_of_getElem? hm) (p := p) hp
  cases e with
  | udp d =>
      refine Or.inr ⟨nofun, ?_, fun p _ => rfl⟩
      rw [show (s.step (.udp d)).shared = (udpDataCallback s.shared d).1 from rfl,
        (threads_udpDataCallback s.shared d).2]
      exact hm
  | baseTimer =>
      refine Or.inr ⟨nofun, hm, fun p hp => ?_⟩
      obtain ⟨h6, -, hbase⟩ := hpins p hp
      refine levels_of_untouched (fun q hq heq => ?_) _
      rcases line_of_mem_baseTimerTick hq with hline | ⟨g, hg, hline | hline⟩
      · exact h6 (heq ▸ hline)
      · exact (hbase g hg).1 (heq ▸ hline)
      · exact (hbase g hg).2 (heq ▸ hline)
  | servoTimer => exact Or.inr ⟨nofun, hm, fun p _ => rfl⟩
  | pass gpio =>
      have hstep : s.step (.pass gpio) = ⟨(s.core1Step gpio).1, (s.core1Step gpio).2.1,
        levels s.level (s.core1Step gpio).2.2⟩ := rfl
      have hmark : ∀ on, ∀ p ∈ m.outputs, levels s.level [⟨27, on⟩] p = s.level p :=
        fun on p hp => Put.apply_of_ne (hpins p hp).2.1.symm
      rw [hstep]
      rcases s.core1Step_cases gpio with ⟨hwalk, -, hcore⟩ | ⟨k, m', hwalk, hm', hcore⟩ |
        ⟨k, hwalk, hk, hcore⟩ | ⟨hwalk, hcore⟩ | ⟨hwalk, state, hcore⟩
      · rw [hcore]
        exact Or.inr ⟨fun _ _ => by rw [hwalk]; exact nofun, hm, hmark true⟩
      · rw [hcore]
        dsimp only
        rcases eq_or_ne k i with rfl | hne
        · obtain rfl := Option.some.inj (hm.symm.trans hm')
          refine Or.inl ⟨gpio, rfl, hwalk, rfl, ?_, rfl⟩
          rw [List.getElem?_set_self (List.getElem?_eq_some_iff.1 hm).1]
        · refine Or.inr ⟨fun _ _ heq => hne (ServoWalk.next.inj (hwalk.symm.trans heq)), ?_,
            fun p hp => levels_of_untouched (fun q hq heq => ?_) _⟩
          · rw [List.getElem?_set_ne hne]
            exact hm
          · rw [(m'.update_puts _ _ _).2] at hq
            exact hapart.notMem_outputs hne.symm hm hm' hp (heq ▸ ServoModule.line_mem_outputs hq)
      · rw [hcore]
        refine Or.inr ⟨fun _ _ heq => ?_, hm, hmark false⟩
        rw [hwalk] at heq
        rw [ServoWalk.next.inj heq, ← List.getElem?_eq_none_iff, hm] at hk
        cases hk
      · rw [hcore]
        exact Or.inr ⟨fun _ _ => by rw [hwalk]; exact nofun, hm, fun p _ => rfl⟩
      · rw [hcore]
        exact Or.inr ⟨fun _ _ => by rw [hwalk]; exact nofun, hm, fun p _ => rfl⟩

theorem length_servoThread_step (s : Wired fl) (e : Event) :
    (s.step e).shared.servoThread.length = s.shared.servoThread.length := by
  cases e with
  | udp d => exact congrArg List.length (threads_udpDataCallback s.shared d).2
  | baseTimer => rfl
  | servoTimer => rfl
  | pass gpio =>
      have hstep : (s.step (.pass gpio)).shared = (s.core1Step gpio).1 := rfl
      rw [hstep]
      rcases s.core1Step_cases gpio with ⟨-, -, hcore⟩ | ⟨k, m, -, -, hcore⟩ | ⟨k, -, -, hcore⟩ |
        ⟨-, hcore⟩ | ⟨-, state, hcore⟩
      · rw [hcore]
      · rw [hcore]
        exact List.length_set
      · rw [hcore]
        rfl
      · rw [hcore]
        rfl
      · rw [hcore]

/-- The module in a place before an event. -/
theorem exists_module {s : Wired fl} {e : Event} {i : ℕ} {m' : ServoModule}
    (h : (s.step e).shared.servoThread[i]? = some m') :
    ∃ m, s.shared.servoThread[i]? = some m := by
  have hlen : i < s.shared.servoThread.length := by
    rw [← s.length_servoThread_step e]
    exact (List.getElem?_eq_some_iff.1 h).1
  exact ⟨_, List.getElem?_eq_getElem hlen⟩

/-- Module `i`, if it is an output, shows its bit of a packet. -/
def Obeys (rx : RxData) (i : ℕ) (s : Wired fl) : Prop :=
  ∀ d, s.shared.servoThread[i]? = some (.digitalPin d) → d.mode ≠ 0 → s.level d.pin = d.shown rx

variable {s : Wired fl} {rx : RxData} {i : ℕ}

/-- **An update makes an output obey** the command in force. -/
theorem obeys_of_update (hapart : WiredApart s.shared.baseThread s.shared.servoThread)
    (hwalk : s.walk = .next i) (gpio : ℕ → Bool) :
    Obeys s.shared.rxPingPongBuffer.current i (s.step (.pass gpio)) := by
  intro d hd hmode
  obtain ⟨m, hm⟩ := exists_module hd
  rcases module_step hapart hm (.pass gpio) with ⟨gpio', heq, -, -, hnext, hlevel⟩ | ⟨hnot, -⟩
  · cases heq
    obtain rfl : m = .digitalPin d := by
      cases m with
      | blink b => rw [hnext] at hd; cases hd
      | digitalPin d' => exact Option.some.inj (hnext.symm.trans hd)
    rw [hlevel, ServoModule.update, DigitalPin.update, if_neg hmode]
    exact Put.apply_self s.level ⟨d.pin, d.shown s.shared.rxPingPongBuffer.current⟩
  · exact absurd hwalk (hnot gpio rfl)

/-- Under the command in force an output that obeys goes on to obey. -/
theorem Obeys.step (hapart : WiredApart s.shared.baseThread s.shared.servoThread)
    (h : Obeys s.shared.rxPingPongBuffer.current i s) (e : Event) :
    Obeys s.shared.rxPingPongBuffer.current i (s.step e) := by
  intro d hd hmode
  obtain ⟨m, hm⟩ := exists_module hd
  rcases module_step hapart hm e with ⟨gpio, rfl, hwalk, -⟩ | ⟨-, hkept, hlevel⟩
  · exact obeys_of_update hapart hwalk gpio d hd hmode
  · obtain rfl := Option.some.inj (hkept.symm.trans hd)
    have hpin : d.pin ∈ (ServoModule.digitalPin d).outputs := by
      rw [ServoModule.outputs, if_neg hmode]
      exact List.mem_singleton_self _
    rw [hlevel _ hpin]
    exact h d hm hmode

/-- The event leaves the command in force what it is. -/
def Commanded (s : Wired fl) (e : Event) : Prop :=
  (s.step e).shared.rxPingPongBuffer.current = s.shared.rxPingPongBuffer.current

/-- The event ends a servo run. -/
def endsRun (s : Wired fl) : Event → Bool
  | .pass _ =>
      match s.walk with
      | .next k => s.shared.servoThread.length ≤ k
      | .out => false
  | _ => false

/-- **Where an event leaves the servo run**: where it was, at its first module, at the
next module, or ended. -/
theorem walk_step (s : Wired fl) (e : Event) :
    ((s.step e).walk = s.walk ∧ s.endsRun e = false) ∨
    (s.walk = .out ∧ (s.step e).walk = .next 0 ∧ s.endsRun e = false) ∨
    (∃ gpio k, e = .pass gpio ∧ s.walk = .next k ∧ (s.step e).walk = .next (k + 1) ∧
      s.endsRun e = false) ∨
    (∃ k, s.walk = .next k ∧ s.shared.servoThread.length ≤ k ∧ (s.step e).walk = .out ∧
      s.endsRun e = true) := by
  cases e with
  | udp d => exact Or.inl ⟨rfl, rfl⟩
  | baseTimer => exact Or.inl ⟨rfl, rfl⟩
  | servoTimer => exact Or.inl ⟨rfl, rfl⟩
  | pass gpio =>
      have hstep : (s.step (.pass gpio)).walk = (s.core1Step gpio).2.1 := rfl
      rw [hstep, endsRun]
      rcases s.core1Step_cases gpio with ⟨hwalk, -, hcore⟩ | ⟨k, m, hwalk, hm, hcore⟩ |
        ⟨k, hwalk, hk, hcore⟩ | ⟨hwalk, hcore⟩ | ⟨hwalk, state, hcore⟩
      · rw [hcore, hwalk]
        exact Or.inr (Or.inl ⟨rfl, rfl, rfl⟩)
      · rw [hcore, hwalk]
        have hlt := (List.getElem?_eq_some_iff.1 hm).1
        exact Or.inr (Or.inr (Or.inl ⟨gpio, k, rfl, rfl, rfl, decide_eq_false (by omega)⟩))
      · rw [hcore, hwalk]
        exact Or.inr (Or.inr (Or.inr ⟨k, rfl, hk, rfl, decide_eq_true hk⟩))
      · rw [hcore, hwalk]
        exact Or.inl ⟨rfl, rfl⟩
      · rw [hcore, hwalk]
        exact Or.inl ⟨rfl, rfl⟩

/-- A servo run ends after its last module. -/
theorem exists_next_of_endsRun {e : Event} (h : s.endsRun e = true) :
    ∃ k, s.walk = .next k ∧ s.shared.servoThread.length ≤ k ∧ (s.step e).walk = .out := by
  rcases s.walk_step e with ⟨-, hnot⟩ | ⟨-, -, hnot⟩ | ⟨-, -, -, -, -, hnot⟩ |
    ⟨k, hwalk, hk, hout, -⟩
  · rw [h] at hnot
    cases hnot
  · rw [h] at hnot
    cases hnot
  · rw [h] at hnot
    cases hnot
  · exact ⟨k, hwalk, hk, hout⟩

/-- The outputs updated since the servo run began obey the command. -/
structure Carrying (rx : RxData) (s : Wired fl) : Prop where
  apart : WiredApart s.shared.baseThread s.shared.servoThread
  current : s.shared.rxPingPongBuffer.current = rx
  updated : ∀ k, s.walk = .next k → ∀ i < k, Obeys rx i s

/-- All outputs obey the command. -/
structure Carried (rx : RxData) (s : Wired fl) : Prop where
  apart : WiredApart s.shared.baseThread s.shared.servoThread
  current : s.shared.rxPingPongBuffer.current = rx
  obeys : ∀ i, Obeys rx i s

theorem Carried.step (h : Carried rx s) {e : Event} (he : s.Commanded e) :
    Carried rx (s.step e) := by
  obtain ⟨hapart, rfl, hobeys⟩ := h
  exact ⟨wiredApart_step hapart e, he, fun i => (hobeys i).step hapart e⟩

theorem Carrying.step (h : Carrying rx s) {e : Event} (he : s.Commanded e) :
    Carrying rx (s.step e) := by
  obtain ⟨hapart, rfl, hupdated⟩ := h
  refine ⟨wiredApart_step hapart e, he, fun k hk i hi => ?_⟩
  rcases s.walk_step e with ⟨hwalk, -⟩ | ⟨-, hwalk, -⟩ | ⟨gpio, k', rfl, hwalk, hwalk', -⟩ |
    ⟨k', -, -, hwalk, -⟩
  · exact (hupdated k (hwalk.symm.trans hk) i hi).step hapart e
  · rw [hwalk] at hk
    cases hk
    exact absurd hi (Nat.not_lt_zero i)
  · rw [hwalk'] at hk
    cases hk
    rcases Nat.lt_succ_iff_lt_or_eq.1 hi with hlt | rfl
    · exact (hupdated k' hwalk i hlt).step hapart _
    · exact obeys_of_update hapart hwalk gpio
  · rw [hwalk] at hk
    cases hk

/-- At the end of a run all outputs have been updated. -/
theorem Carrying.carried (h : Carrying rx s) {e : Event} (he : s.Commanded e)
    (hends : s.endsRun e = true) : Carried rx (s.step e) := by
  obtain ⟨hapart, rfl, hupdated⟩ := h
  obtain ⟨k, hwalk, hk, -⟩ := exists_next_of_endsRun hends
  refine ⟨wiredApart_step hapart e, he, fun i d hd => ?_⟩
  obtain ⟨m, hm⟩ := exists_module hd
  have hlt := (List.getElem?_eq_some_iff.1 hm).1
  exact (hupdated k hwalk i (by omega)).step hapart e d hd

/-- An output stays in its place. -/
theorem output_run {gs : List (Stepgen fl)} {ms : List ServoModule} (hapart : WiredApart gs ms)
    (comms : RemoraComms) {i : ℕ} {d : DigitalPin} (hd : ms[i]? = some (.digitalPin d))
    (es : List Event) :
    (run step (start gs ms comms) es).shared.servoThread[i]? = some (.digitalPin d) := by
  refine (run_invariant (I := fun s : Wired fl =>
    WiredApart s.shared.baseThread s.shared.servoThread ∧
      s.shared.servoThread[i]? = some (.digitalPin d)) ?_ ⟨hapart, hd⟩ es).2
  rintro s e ⟨hapart, hd⟩
  refine ⟨wiredApart_step hapart e, ?_⟩
  rcases module_step hapart hd e with ⟨gpio, -, -, -, hnext, -⟩ | ⟨-, hkept, -⟩
  · exact hnext
  · exact hkept

variable {gs : List (Stepgen fl)} {ms : List ServoModule}

theorem wiredApart_run (hapart : WiredApart gs ms) (comms : RemoraComms) (es : List Event) :
    WiredApart (run step (start gs ms comms) es).shared.baseThread
      (run step (start gs ms comms) es).shared.servoThread :=
  run_invariant (I := fun s : Wired fl => WiredApart s.shared.baseThread s.shared.servoThread)
    (fun _ e h => wiredApart_step h e) hapart es

/-- After a whole servo run under a command an output shows it. -/
theorem output_obeys (hapart : WiredApart gs ms) (comms : RemoraComms)
    (before first rest : List Event) (e : Event)
    (hout : (run step (start gs ms comms) before).walk = .out)
    (hcommanded : Along step Commanded (run step (start gs ms comms) before) (first ++ e :: rest))
    (hends : (run step (start gs ms comms) (before ++ first)).endsRun e = true) {d : DigitalPin}
    (hd : d ∈ outputPins ms) :
    (run step (start gs ms comms) (before ++ (first ++ e :: rest))).level d.pin =
      d.shown (run step (start gs ms comms) before).shared.rxPingPongBuffer.current := by
  set s := run step (start gs ms comms) before with hs
  obtain ⟨hfirst, hend, hrest⟩ := along_append.1 hcommanded
  rw [run_append, ← hs] at hends
  have hstart : Carrying s.shared.rxPingPongBuffer.current s :=
    ⟨wiredApart_run hapart comms before, rfl, fun k hk => by rw [hout] at hk; cases hk⟩
  have hcarrying : Carrying s.shared.rxPingPongBuffer.current (run step s first) :=
    run_invariant_of_along (fun _ _ h he => h.step he) hstart hfirst
  have hcarried : Carried s.shared.rxPingPongBuffer.current
      (run step ((run step s first).step e) rest) :=
    run_invariant_of_along (fun _ _ h he => h.step he) (hcarrying.carried hend hends) hrest
  obtain ⟨hmem, hmode⟩ := hd
  obtain ⟨i, hi⟩ := List.mem_iff_getElem?.1 hmem
  have hplace := output_run hapart comms hi (before ++ (first ++ e :: rest))
  rw [run_append, ← hs, run_append, run_cons] at hplace ⊢
  exact hcarried.obeys i d hplace hmode

/-- A write of `BUFFER_SIZE` bytes: output 0 set. -/
def writeOutput0 : Datagram where
  payload := [0x74, 0x69, 0x72, 0x77] ++ List.replicate 41 0 ++ [1] ++ List.replicate 22 0
  fits := by simp [BUFFER_SIZE]

/-- One run of `smallServoThread`, with a run of the base thread in it. -/
def smallRun : List Event :=
  [.pass fun _ => false, .pass fun _ => false, .baseTimer, .pass fun _ => false,
    .pass fun _ => false]

end Wired

namespace Blink

/-- The servo runs between two changes of the pin. -/
def half (b : Blink) : ℕ := max 1 (b.periodCount / 2).toNat

/-- As `createBlink` makes it. -/
def Fresh (b : Blink) : Prop := b.bState = false ∧ b.blinkCount = 0

/-- **A blinker divides the runs by `half`.** -/
theorem after_fresh {b : Blink} (h : b.Fresh) (n : ℕ) :
    (b.after n).bState = decide (n / b.half % 2 = 1) ∧
      (b.after n).blinkCount = BitVec.ofNat 32 (n % b.half) := by
  induction n with
  | zero =>
      rw [Nat.zero_div, Nat.zero_mod]
      exact h
  | succ n ih =>
      obtain ⟨hstate, hcount⟩ := ih
      have hpos : 0 < b.half := Nat.lt_of_lt_of_le Nat.one_pos (Nat.le_max_left _ _)
      have hlt : n % b.half < b.half := Nat.mod_lt _ hpos
      have hword : b.half < 4294967296 :=
        Nat.max_lt.2 ⟨by decide, (b.periodCount / 2).isLt⟩
      have hone : (1 : Word).toNat = 1 := rfl
      have hsum : (BitVec.ofNat 32 (n % b.half) + 1).toNat = n % b.half + 1 := by
        rw [BitVec.toNat_add, BitVec.toNat_ofNat, hone]
        omega
      have hreach : BitVec.ofNat 32 (n % b.half) + 1 ≥ b.periodCount / 2 ↔
          n % b.half + 1 = b.half := by
        rw [ge_iff_le, BitVec.le_def, hsum]
        have hhalf : b.half = max 1 (b.periodCount / 2).toNat := rfl
        omega
      have hn := Nat.div_add_mod n b.half
      rw [after_succ, update, hstate, hcount, (b.after_fixed n).2]
      split_ifs with hge
      · have heq := hreach.1 hge
        obtain ⟨hdiv, hmod⟩ := (Nat.div_mod_unique (a := n + 1) (c := 0) (d := n / b.half + 1)
          hpos).2 ⟨by rw [Nat.mul_add]; omega, hpos⟩
        rw [hdiv, hmod]
        refine ⟨?_, rfl⟩
        rw [← decide_not]
        exact decide_eq_decide.2 (by omega)
      · have hne : n % b.half + 1 ≠ b.half := fun heq => hge (hreach.2 heq)
        obtain ⟨hdiv, hmod⟩ := (Nat.div_mod_unique (a := n + 1) (c := n % b.half + 1)
          (d := n / b.half) hpos).2 ⟨by omega, by omega⟩
        rw [hdiv, hmod]
        exact ⟨rfl, BitVec.eq_of_toNat_eq (by rw [hsum, BitVec.toNat_ofNat]; omega)⟩

/-- A pin that shows the state goes on to show it. -/
theorem level_update {b : Blink} {l : ℕ → Bool} (h : l b.blinkPin = b.bState) :
    levels l b.update.2 b.blinkPin = b.update.1.bState := by
  rw [update]
  split_ifs
  · exact Put.apply_self l ⟨b.blinkPin, !b.bState⟩
  · exact h

end Blink

/-- The updates of module `i` after `n` servo runs and the part of another. -/
def ServoWalk.updates (n i : ℕ) : ServoWalk → ℕ
  | .out => n
  | .next k => if i < k then n + 1 else n

namespace Wired

/-- The servo runs that have been ended. -/
def countRuns (s : Wired fl) (e : Event) (n : ℕ) : ℕ := if s.endsRun e then n + 1 else n

/-- The blinker of place `i` has been updated in each run, and its pin shows its state. -/
structure Blinks (i : ℕ) (b : Blink) (s : Wired fl × ℕ) : Prop where
  apart : WiredApart s.1.shared.baseThread s.1.shared.servoThread
  updated : s.1.shared.servoThread[i]? = some (.blink (b.after (s.1.walk.updates s.2 i)))
  level : s.1.level b.blinkPin = (b.after (s.1.walk.updates s.2 i)).bState

theorem Blinks.step {i : ℕ} {b : Blink} {s : Wired fl × ℕ} (h : Blinks i b s) (e : Event) :
    Blinks i b (watch Wired.step countRuns s e) := by
  obtain ⟨hapart, hm, hlevel⟩ := h
  have hlen := (List.getElem?_eq_some_iff.1 hm).1
  have hfixed := b.after_fixed (s.1.walk.updates s.2 i)
  rcases module_step hapart hm e with ⟨gpio, rfl, hwalk, hwalk', hnext, hlevel'⟩ |
    ⟨hnot, hkept, hlevel'⟩
  · have hends : s.1.endsRun (.pass gpio) = false := by
      rw [endsRun, hwalk]
      exact decide_eq_false (by omega)
    have hbefore : s.1.walk.updates s.2 i = s.2 := by
      rw [hwalk]
      exact if_neg (Nat.lt_irrefl i)
    have hafter : (s.1.step (.pass gpio)).walk.updates s.2 i = s.2 + 1 := by
      rw [hwalk']
      exact if_pos (Nat.lt_succ_self i)
    rw [hbefore] at hnext hlevel hlevel' hfixed
    refine ⟨wiredApart_step hapart _, ?_, ?_⟩
    · rw [watch_fst, watch_snd, countRuns, hends, if_neg Bool.false_ne_true, hafter,
        Blink.after_succ]
      exact hnext
    · rw [watch_fst, watch_snd, countRuns, hends, if_neg Bool.false_ne_true, hafter,
        Blink.after_succ, hlevel', ← hfixed.1]
      exact Blink.level_update (hfixed.1 ▸ hlevel)
  · have hupdates : (s.1.step e).walk.updates (if s.1.endsRun e then s.2 + 1 else s.2) i =
        s.1.walk.updates s.2 i := by
      rcases s.1.walk_step e with ⟨hwalk, hends⟩ | ⟨hwalk, hwalk', hends⟩ |
        ⟨gpio, k, rfl, hwalk, hwalk', hends⟩ | ⟨k, hwalk, hk, hwalk', hends⟩
      · rw [hwalk, hends, if_neg Bool.false_ne_true]
      · rw [hwalk, hwalk', hends, if_neg Bool.false_ne_true]
        rfl
      · have hne : k ≠ i := fun heq => hnot gpio rfl (heq ▸ hwalk)
        rw [hwalk, hwalk', hends, if_neg Bool.false_ne_true, ServoWalk.updates, ServoWalk.updates]
        exact if_congr (by omega) rfl rfl
      · rw [hwalk, hwalk', hends, if_pos rfl]
        exact (if_pos (by omega)).symm
    refine ⟨wiredApart_step hapart _, ?_, ?_⟩
    · rw [watch_fst, watch_snd, countRuns, hupdates]
      exact hkept
    · rw [watch_fst, watch_snd, countRuns, hupdates, hlevel' b.blinkPin ?_]
      · exact hlevel
      · rw [ServoModule.outputs, hfixed.1]
        exact List.mem_singleton_self _

variable {gs : List (Stepgen fl)} {ms : List ServoModule}

/-- At every moment the pin of a blinker shows the state after its updates. -/
theorem level_blinkPin_run (hapart : WiredApart gs ms) (comms : RemoraComms) (es : List Event)
    {i : ℕ} {b : Blink} (hb : ms[i]? = some (.blink b)) (hfresh : b.Fresh) :
    (run step (start gs ms comms) es).level b.blinkPin =
      decide ((run step (start gs ms comms) es).walk.updates
        (run (watch step countRuns) (start gs ms comms, 0) es).2 i / b.half % 2 = 1) := by
  have hstart : Blinks i b (start gs ms comms, 0) := ⟨hapart, hb, hfresh.1.symm⟩
  have hblinks := (run_invariant (fun _ e h => h.step e) hstart es).level
  rw [run_watch_fst] at hblinks
  exact hblinks.trans (Blink.after_fresh hfresh _).1

end Wired
end Remora
