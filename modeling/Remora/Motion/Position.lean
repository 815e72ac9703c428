/-
# The position that the host hears of

A drive counts the rising edges on its step pin, up or down by its direction pin.
Whatever the two threads and the packets do, and wherever the base thread interrupts
the servo run, the drive of every joint is at the joint's `rawCount` (`Counted`): no
other writer touches its pins, and a run of the base thread makes the edges that it
counts.

A reply does not always say this position, since a joint that stands still writes
neither of the two buffers.  But one of the two always has it (`Known`): the one that
was active when the joint stepped last.  So of two replies with none between them, for
every joint, at least one says where its drive is at that moment (`one_of_two_replies`);
for another joint it may be the other one.
-/

import Remora.Motion.Feedback
import Remora.Motion.Wired

namespace Remora

open Basis

variable {fl : FloatUnit}

/-- What the pins apart say of one generator. -/
theorem WiredApart.of_append {pre post : List (Stepgen fl)} {g : Stepgen fl}
    {ms : List ServoModule} (h : WiredApart (pre ++ g :: post) ms) :
    Unshared g.stepPin pre ∧ Unshared g.stepPin post ∧ g.stepPin ≠ 6 ∧ g.stepPin ≠ 27 ∧
      g.stepPin ≠ g.directionPin ∧ ∀ m ∈ ms, g.stepPin ∉ m.outputs := by
  set pins : Stepgen fl → List ℕ := fun g => [g.stepPin, g.directionPin]
  have hsplit : wiredPins (pre ++ g :: post) ms = 6 :: 27 :: pre.flatMap pins ++
      g.stepPin :: (g.directionPin :: (post.flatMap pins ++ ms.flatMap ServoModule.outputs)) := by
    simp [wiredPins, scopePins, BASE_SLICE, SERVO_SLICE, pins]
  rw [WiredApart, hsplit, List.nodup_middle, List.nodup_cons] at h
  have hne : ∀ n, n ∈ 6 :: 27 :: pre.flatMap pins ++
      g.directionPin :: (post.flatMap pins ++ ms.flatMap ServoModule.outputs) → g.stepPin ≠ n :=
    fun n hn heq => h.1 (heq ▸ hn)
  refine ⟨fun g' hg' => ⟨(hne _ ?_).symm, (hne _ ?_).symm⟩,
    fun g' hg' => ⟨(hne _ ?_).symm, (hne _ ?_).symm⟩, hne _ ?_, hne _ ?_, hne _ ?_,
    fun m hm hpin => hne _ ?_ rfl⟩
  all_goals simp only [List.mem_append, List.mem_cons, List.mem_flatMap, pins]
  · exact Or.inl (Or.inr (Or.inr ⟨g', hg', by simp⟩))
  · exact Or.inl (Or.inr (Or.inr ⟨g', hg', by simp⟩))
  · exact Or.inr (Or.inr (Or.inl ⟨g', hg', by simp⟩))
  · exact Or.inr (Or.inr (Or.inl ⟨g', hg', by simp⟩))
  · exact Or.inl (Or.inl trivial)
  · exact Or.inl (Or.inr (Or.inl trivial))
  · exact Or.inr (Or.inl trivial)
  · exact Or.inr (Or.inr (Or.inr ⟨m, hm, hpin⟩))

theorem DistinctJoints.eq_of_jointNumber {gs : List (Stepgen fl)} (h : DistinctJoints gs)
    {g g' : Stepgen fl} (hg : g ∈ gs) (hg' : g' ∈ gs) (heq : g.jointNumber = g'.jointNumber) :
    g = g' := by
  have hfind := h.find?_eq hg
  rw [heq, h.find?_eq hg'] at hfind
  exact (Option.some.inj hfind).symm

/-- The signed edges of a step are its count. -/
theorem delta_eq_signedCount (e : Option Bool) :
    Stepgen.delta e = BitVec.ofInt 32 (signedCount e.toList) := by
  cases e with
  | none => rfl
  | some d => cases d <;> simp [Stepgen.delta]

namespace Wired

/-- The position of a drive that is wired to a step pin and a direction pin, after the
edges of an event. -/
def observe (s : Wired fl) (e : Event) (drive : ℕ → ℕ → ℤ) : ℕ → ℕ → ℤ := fun step direction =>
  drive step direction + signedCount (risingEdges step direction s.level (s.puts e))

/-- Every drive is where the count of its joint says, and its step pin is low. -/
structure Counted (s : Wired fl × (ℕ → ℕ → ℤ)) : Prop where
  apart : WiredApart s.1.shared.baseThread s.1.shared.servoThread
  low : ∀ g ∈ s.1.shared.baseThread, s.1.level g.stepPin = false
  count : ∀ g ∈ s.1.shared.baseThread,
    g.rawCount = BitVec.ofInt 32 (s.2 g.stepPin g.directionPin)

/-- What leaves the generators and their step pins alone keeps the drives where they are. -/
theorem Counted.of_untouched {s : Wired fl × (ℕ → ℕ → ℤ)} (h : Counted s) {e : Event}
    (hbase : (s.1.step e).shared.baseThread = s.1.shared.baseThread)
    (hputs : ∀ p ∈ s.1.puts e, ∀ g ∈ s.1.shared.baseThread, p.line ≠ g.stepPin) :
    Counted (watch step observe s e) where
  apart := wiredApart_step h.apart e
  low g hg := by
    rw [watch_fst, hbase] at hg
    exact (levels_of_untouched (fun p hp => hputs p hp g hg) _).trans (h.low g hg)
  count g hg := by
    rw [watch_fst, hbase] at hg
    rw [watch_snd, observe, risingEdges_of_untouched _ fun p hp => hputs p hp g hg,
      signedCount_nil, add_zero]
    exact h.count g hg

/-- **A run of the base thread** makes the edges that its generators count. -/
theorem Counted.baseTimer {s : Wired fl × (ℕ → ℕ → ℤ)} (h : Counted s) :
    Counted (watch step observe s .baseTimer) := by
  have hgens : ∀ g ∈ s.1.shared.baseThread,
      risingEdges g.stepPin g.directionPin s.1.level (s.1.puts .baseTimer) =
        (g.steps (g.command s.1.shared.rxPingPongBuffer.current)).toList ∧
      levels s.1.level (s.1.puts .baseTimer) g.stepPin = false := by
    intro g hg
    obtain ⟨pre, post, hsplit⟩ := List.append_of_mem hg
    obtain ⟨hpre, hpost, h6, -, hne, -⟩ := (hsplit ▸ h.apart).of_append
    have hrun := risingEdges_run h6 rfl rfl hpre hpost
      (fun g => g.command s.1.shared.rxPingPongBuffer.current)
      s.1.shared.txPingPongBuffer.current (h.low g hg)
    rw [← hsplit] at hrun
    simp only [if_neg hne, List.map_id'] at hrun
    exact hrun
  refine ⟨wiredApart_step h.apart _, fun g' hg' => ?_, fun g' hg' => ?_⟩
  · rw [watch_fst, baseThread_baseTimer] at hg'
    obtain ⟨g, hg, rfl⟩ := List.mem_map.1 hg'
    exact (hgens g hg).2
  · rw [watch_fst, baseThread_baseTimer] at hg'
    obtain ⟨g, hg, rfl⟩ := List.mem_map.1 hg'
    rw [Stepgen.next_rawCount, h.count g hg, delta_eq_signedCount, ← BitVec.ofInt_add, watch_snd,
      observe, Stepgen.next_stepPin, Stepgen.next_directionPin, (hgens g hg).1]

/-- **Every event keeps the drives where the counts say.** -/
theorem Counted.step {s : Wired fl × (ℕ → ℕ → ℤ)} (h : Counted s) (e : Event) :
    Counted (watch Wired.step observe s e) := by
  cases e with
  | udp d =>
      have hthreads := threads_udpDataCallback s.1.shared d
      exact h.of_untouched hthreads.1 fun p hp => by cases hp
  | baseTimer => exact h.baseTimer
  | servoTimer => exact h.of_untouched rfl fun p hp => by cases hp
  | pass gpio =>
      obtain ⟨hbase, -, hputs⟩ := s.1.threads_core1Step gpio
      refine h.of_untouched hbase fun p hp g hg heq => ?_
      obtain ⟨pre, post, hsplit⟩ := List.append_of_mem hg
      obtain ⟨-, -, -, h27, -, houtputs⟩ := (hsplit ▸ h.apart).of_append
      rcases hputs p hp with hline | ⟨m, hm, hline⟩
      · exact h27 (heq.symm.trans hline)
      · exact houtputs m hm (heq ▸ hline)

theorem counted_start {gs : List (Stepgen fl)} {ms : List ServoModule} (hapart : WiredApart gs ms)
    (hnew : ∀ g ∈ gs, g.rawCount = 0) (comms : RemoraComms) :
    Counted (start gs ms comms, fun _ _ => 0) :=
  ⟨hapart, fun _ _ => rfl, fun g hg => hnew g hg⟩

/-- The active buffer has the count of joint `j`. -/
def Shows (j : ℕ) (s : Wired fl) : Prop :=
  ∀ g ∈ s.shared.baseThread, g.jointNumber = j →
    s.shared.txPingPongBuffer.current.jointFeedback j = g.rawCount

/-- The inactive buffer has it. -/
def Keeps (j : ℕ) (s : Wired fl) : Prop :=
  ∀ g ∈ s.shared.baseThread, g.jointNumber = j →
    s.shared.txPingPongBuffer.alt.jointFeedback j = g.rawCount

variable {s : Wired fl} {j : ℕ} {e : Event}

/-- **What a reply does**: it says what the active buffer says, and the two change
places. -/
theorem tx_of_reply {packet : TxData} (h : s.reply e = some packet) :
    packet.jointFeedback = s.shared.txPingPongBuffer.current.jointFeedback ∧
      (s.step e).shared.txPingPongBuffer.current = s.shared.txPingPongBuffer.alt ∧
      (s.step e).shared.txPingPongBuffer.alt.jointFeedback =
        s.shared.txPingPongBuffer.current.jointFeedback ∧
      (s.step e).shared.baseThread = s.shared.baseThread := by
  have hheader : ∀ (t : TxData) (w : Word), (t.setHeader w).jointFeedback = t.jointFeedback :=
    fun t w => funext fun j => TxData.jointFeedback_setHeader t w j
  cases e with
  | udp d =>
      have hstep : (s.step (.udp d)).shared = (udpDataCallback s.shared d).1 := rfl
      rw [reply] at h
      rcases s.shared.udp_cases d with ⟨-, hcall⟩ | ⟨-, hcall⟩ | ⟨-, -, hcall⟩
      · rw [hcall] at h
        obtain rfl := Option.some.inj h
        rw [hstep, hcall]
        simp [hheader]
      · rw [hcall] at h
        obtain rfl := Option.some.inj h
        rw [hstep, hcall]
        simp [hheader]
      · rw [hcall] at h
        cases h
  | baseTimer => cases h
  | servoTimer => cases h
  | pass gpio => cases h

/-- **What a run of the base thread does to the feedback**: a joint that steps writes its
count into the active buffer, another leaves both as they are. -/
theorem tx_baseTimer (hjoints : DistinctJoints s.shared.baseThread) {g : Stepgen fl}
    (hg : g ∈ s.shared.baseThread) :
    let g' := g.next (g.command s.shared.rxPingPongBuffer.current)
    (s.step .baseTimer).shared.txPingPongBuffer.alt = s.shared.txPingPongBuffer.alt ∧
      ((s.step .baseTimer).shared.txPingPongBuffer.current.jointFeedback g.jointNumber =
          g'.rawCount ∨
        (s.step .baseTimer).shared.txPingPongBuffer.current.jointFeedback g.jointNumber =
          s.shared.txPingPongBuffer.current.jointFeedback g.jointNumber ∧
        g'.rawCount = g.rawCount) := by
  set a := g.command s.shared.rxPingPongBuffer.current with ha
  have hfeed := jointFeedback_baseRun (fun g => g.command s.shared.rxPingPongBuffer.current)
    hjoints.1 hg (hjoints.2 g hg) s.shared.txPingPongBuffer.current
  have htx : (s.step .baseTimer).shared.txPingPongBuffer = s.shared.txPingPongBuffer.setCurrent
      (baseRun (fun g => g.command s.shared.rxPingPongBuffer.current) s.shared.baseThread
        s.shared.txPingPongBuffer.current).2.1 := rfl
  rw [← ha] at hfeed
  rw [htx, PingPong.alt_setCurrent, PingPong.current_setCurrent, hfeed]
  refine ⟨rfl, ?_⟩
  split_ifs with hsteps
  · exact Or.inr ⟨rfl, by rw [Stepgen.next_rawCount, hsteps]; exact BitVec.add_zero _⟩
  · exact Or.inl rfl

/-- An event without a reply and without a run of the base thread leaves generators and
feedback as they are. -/
theorem tx_of_silent (h : s.reply e = none) (hbase : e ≠ .baseTimer) :
    (s.step e).shared.baseThread = s.shared.baseThread ∧
      (s.step e).shared.txPingPongBuffer.alt = s.shared.txPingPongBuffer.alt ∧
      ∀ j < JOINTS, (s.step e).shared.txPingPongBuffer.current.jointFeedback j =
        s.shared.txPingPongBuffer.current.jointFeedback j := by
  cases e with
  | udp d =>
      have hstep : (s.step (.udp d)).shared = (udpDataCallback s.shared d).1 := rfl
      rw [reply] at h
      rcases s.shared.udp_cases d with ⟨-, hcall⟩ | ⟨-, hcall⟩ | ⟨-, -, hcall⟩
      · rw [hcall] at h
        cases h
      · rw [hcall] at h
        cases h
      · rw [hstep, hcall]
        exact ⟨rfl, rfl, fun j _ => rfl⟩
  | baseTimer => exact absurd rfl hbase
  | servoTimer => exact ⟨rfl, rfl, fun j _ => rfl⟩
  | pass gpio =>
      obtain ⟨t, htx, hfeed⟩ := s.tx_core1Step gpio
      have hstep : (s.step (.pass gpio)).shared = (s.core1Step gpio).1 := rfl
      rw [hstep, htx, PingPong.alt_setCurrent, PingPong.current_setCurrent]
      exact ⟨(s.threads_core1Step gpio).1, rfl, hfeed⟩

theorem baseThread_step (s : Wired fl) (e : Event) :
    (s.step e).shared.baseThread = s.shared.baseThread ∨
      (s.step e).shared.baseThread = s.shared.baseThread.map fun g =>
        g.next (g.command s.shared.rxPingPongBuffer.current) := by
  by_cases hbase : e = .baseTimer
  · exact Or.inr (hbase ▸ s.baseThread_baseTimer)
  · cases hreply : s.reply e with
    | some packet => exact Or.inl (tx_of_reply hreply).2.2.2
    | none => exact Or.inl (tx_of_silent hreply hbase).1

/-- Until the next reply the active buffer goes on to have the count. -/
theorem Shows.step (hjoints : DistinctJoints s.shared.baseThread) (h : Shows j s)
    (hsilent : s.reply e = none) : Shows j (s.step e) := by
  intro g' hg' hj
  by_cases hbase : e = .baseTimer
  · subst hbase
    rw [baseThread_baseTimer] at hg'
    obtain ⟨g, hg, rfl⟩ := List.mem_map.1 hg'
    obtain rfl : g.jointNumber = j := hj
    rcases (tx_baseTimer hjoints hg).2 with hnew | ⟨hold, hcount⟩
    · exact hnew
    · rw [hold, hcount, h g hg rfl]
  · obtain ⟨hthread, -, hfeed⟩ := tx_of_silent hsilent hbase
    rw [hthread] at hg'
    subst hj
    rw [hfeed _ (hjoints.2 g' hg'), h g' hg' rfl]

/-- A run of the base thread writes the count into the active buffer, if it changes. -/
theorem Keeps.baseTimer (hjoints : DistinctJoints s.shared.baseThread) (h : Keeps j s) :
    Shows j (s.step .baseTimer) ∨ Keeps j (s.step .baseTimer) := by
  rw [Shows, Keeps, baseThread_baseTimer]
  by_cases hex : ∃ g ∈ s.shared.baseThread, g.jointNumber = j
  · obtain ⟨g, hg, rfl⟩ := hex
    have honly : ∀ g' ∈ s.shared.baseThread, g'.jointNumber = g.jointNumber → g' = g :=
      fun g' hg' heq => hjoints.eq_of_jointNumber hg' hg heq
    obtain ⟨halt, hnew | ⟨-, hcount⟩⟩ := tx_baseTimer hjoints hg
    · refine Or.inl (List.forall_mem_map.2 fun g' hg' hj => ?_)
      rw [honly g' hg' hj]
      exact hnew
    · refine Or.inr (List.forall_mem_map.2 fun g' hg' hj => ?_)
      rw [honly g' hg' hj, halt, hcount]
      exact h g hg rfl
  · exact Or.inl (List.forall_mem_map.2 fun g' hg' hj => absurd ⟨g', hg', hj⟩ hex)

/-- **One of the two buffers always has the count of a joint.** -/
structure Known (s : Wired fl) : Prop where
  joints : DistinctJoints s.shared.baseThread
  known : ∀ j, Shows j s ∨ Keeps j s

theorem Known.step (h : Known s) (e : Event) : Known (s.step e) := by
  cases hreply : s.reply e with
  | some packet =>
      obtain ⟨-, hcurrent, halt, hthread⟩ := tx_of_reply hreply
      refine ⟨hthread ▸ h.joints, fun j => ?_⟩
      rw [Shows, Keeps, hcurrent, halt, hthread]
      exact (h.known j).symm
  | none =>
      by_cases hbase : e = .baseTimer
      · subst hbase
        refine ⟨by rw [baseThread_baseTimer]; exact h.joints.map_next _, fun j => ?_⟩
        rcases h.known j with hshows | hkeeps
        · exact Or.inl (hshows.step h.joints hreply)
        · exact hkeeps.baseTimer h.joints
      · obtain ⟨hthread, halt, -⟩ := tx_of_silent hreply hbase
        refine ⟨hthread ▸ h.joints, fun j => (h.known j).imp
          (fun hshows => hshows.step h.joints hreply) fun hkeeps => ?_⟩
        rw [Keeps, halt, hthread]
        exact hkeeps

theorem known_start {gs : List (Stepgen fl)} (hjoints : DistinctJoints gs)
    (hnew : ∀ g ∈ gs, g.rawCount = 0) (ms : List ServoModule) (comms : RemoraComms) :
    Known (start gs ms comms) :=
  ⟨hjoints, fun j => Or.inl fun g hg _ => by rw [hnew g hg]; exact TxData.jointFeedback_zero j⟩

/-- The position of the drive that is wired to a step pin and a direction pin, after the
events `es`. -/
def drive (gs : List (Stepgen fl)) (ms : List ServoModule) (comms : RemoraComms)
    (es : List Event) : ℕ → ℕ → ℤ :=
  (run (watch step observe) (start gs ms comms, fun _ _ => 0) es).2

/-- The generators of a run have the joints and the pins that they start with. -/
theorem mem_baseThread_run {gs : List (Stepgen fl)} (ms : List ServoModule)
    (comms : RemoraComms) {g : Stepgen fl} (hg : g ∈ gs) (es : List Event) :
    ∃ g' ∈ (run step (start gs ms comms) es).shared.baseThread, g'.jointNumber = g.jointNumber ∧
      g'.stepPin = g.stepPin ∧ g'.directionPin = g.directionPin := by
  refine run_invariant (I := fun s : Wired fl => ∃ g' ∈ s.shared.baseThread,
    g'.jointNumber = g.jointNumber ∧ g'.stepPin = g.stepPin ∧ g'.directionPin = g.directionPin)
    ?_ ⟨g, hg, rfl, rfl, rfl⟩ es
  rintro s e ⟨g', hg', hpins⟩
  rcases s.baseThread_step e with hthread | hthread
  · exact ⟨g', hthread ▸ hg', hpins⟩
  · exact ⟨g'.next _, hthread ▸ List.mem_map_of_mem hg', hpins⟩

section

variable {gs : List (Stepgen fl)} {ms : List ServoModule} {comms : RemoraComms}
  (hjoints : DistinctJoints gs) (hnew : ∀ g ∈ gs, g.rawCount = 0) (hapart : WiredApart gs ms)

include hnew hapart in
/-- The generator of a joint has counted the edges on the pins. -/
theorem rawCount_eq_drive (es : List Event) {g : Stepgen fl} (hg : g ∈ gs) :
    ∃ g' ∈ (run step (start gs ms comms) es).shared.baseThread,
      g'.jointNumber = g.jointNumber ∧
      g'.rawCount = BitVec.ofInt 32 (drive gs ms comms es g.stepPin g.directionPin) := by
  have hcounted : Counted (run (watch step observe) (start gs ms comms, fun _ _ => 0) es) :=
    run_invariant (fun s e h => h.step e) (counted_start hapart hnew comms) es
  obtain ⟨g', hg', hj, hs, hd⟩ := mem_baseThread_run ms comms hg es
  have hcount := hcounted.count g' (by rwa [run_watch_fst])
  refine ⟨g', hg', hj, ?_⟩
  rw [hcount, hs, hd]
  rfl

include hnew hapart in
/-- A buffer that has the count says where the drive is. -/
theorem drive_of_shows {es : List Event} {g : Stepgen fl} (hg : g ∈ gs)
    (h : Shows g.jointNumber (run step (start gs ms comms) es)) :
    (run step (start gs ms comms) es).shared.txPingPongBuffer.current.jointFeedback g.jointNumber =
      BitVec.ofInt 32 (drive gs ms comms es g.stepPin g.directionPin) := by
  obtain ⟨g', hg', hj, hcount⟩ := rawCount_eq_drive hnew hapart es hg
  rw [h g' hg' hj, hcount]

include hjoints hnew hapart

/-- If the first of two replies does not say where the drive of a joint is, the second
does. -/
theorem first_or_second (before between : List Event) (e e' : Event) {first second : TxData}
    (hfirst : (run step (start gs ms comms) before).reply e = some first)
    (hbetween : Along step (fun s e => s.reply e = none)
      (run step (start gs ms comms) (before ++ [e])) between)
    (hsecond : (run step (start gs ms comms) (before ++ e :: between)).reply e' = some second)
    {g : Stepgen fl} (hg : g ∈ gs) :
    first.jointFeedback g.jointNumber =
      BitVec.ofInt 32 (drive gs ms comms before g.stepPin g.directionPin) ∨
    second.jointFeedback g.jointNumber =
      BitVec.ofInt 32 (drive gs ms comms (before ++ e :: between) g.stepPin g.directionPin) := by
  have hknown : Known (run step (start gs ms comms) before) :=
    run_invariant (fun s e h => h.step e) (known_start hjoints hnew ms comms) before
  rcases hknown.known g.jointNumber with hshows | hkeeps
  · refine Or.inl ?_
    rw [(tx_of_reply hfirst).1]
    exact drive_of_shows hnew hapart hg hshows
  · refine Or.inr ?_
    rw [(tx_of_reply hsecond).1]
    refine drive_of_shows hnew hapart hg ?_
    obtain ⟨-, hcurrent, -, hthread⟩ := tx_of_reply hfirst
    -- the swap makes the buffer that has the count the active one, and it stays so
    have hswap : Shows g.jointNumber (run step (start gs ms comms) (before ++ [e])) := by
      rw [run_append, run_cons, run_nil, Shows, hcurrent, hthread]
      exact hkeeps
    have hknown' : Known (run step (start gs ms comms) (before ++ [e])) :=
      run_invariant (fun s e h => h.step e) (known_start hjoints hnew ms comms) _
    have hend := run_invariant_of_along
      (I := fun s : Wired fl => Known s ∧ Shows g.jointNumber s)
      (fun s e h hsilent => ⟨h.1.step e, h.2.step h.1.joints hsilent⟩) ⟨hknown', hswap⟩ hbetween
    rw [← run_append, List.append_assoc, List.singleton_append] at hend
    exact hend.2

end

end Wired
end Remora
