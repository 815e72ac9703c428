/-
# Silence at the pins

What the watchdog does for the drives and the outputs when the host falls silent, in the
controller whose servo run may be cut between any two modules.

With regard to the command in force, the base thread, the watchdog and the state machine
a cut servo run is one pass of the controller, made when it begins (`simulates`): no
datagram changes the status that its end will test.  So the silence calms the machine
as it does the controller, and on an all-zero packet no step pin rises, and a whole servo
run leaves every output as for a 0 bit (`halts`).
-/

import Remora.Basis.Simulation
import Remora.Motion.Outputs
import Remora.Motion.Position
import Remora.Motion.Watchdog

namespace Remora

open Basis

variable {fl : FloatUnit}

namespace Controller

/-- Equal but for the packets to the host and the modules of the servo thread. -/
structure Alike (c c' : Controller fl) : Prop where
  rx : c.rxPingPongBuffer = c'.rxPingPongBuffer
  baseThread : c.baseThread = c'.baseThread
  execute : c.execute = c'.execute
  comms : c.comms = c'.comms
  currentState : c.currentState = c'.currentState

theorem Alike.trans {c c' c'' : Controller fl} (h : c.Alike c') (h' : c'.Alike c'') :
    c.Alike c'' where
  rx := h.rx.trans h'.rx
  baseThread := h.baseThread.trans h'.baseThread
  execute := h.execute.trans h'.execute
  comms := h.comms.trans h'.comms
  currentState := h.currentState.trans h'.currentState

theorem Alike.servoThreadRun {c c' : Controller fl} (h : c.Alike c') (gpio : ℕ → Bool) :
    (servoThreadRun c gpio).1.Alike (servoThreadRun c' gpio).1 := by
  rw [Remora.servoThreadRun, Remora.servoThreadRun, h.execute]
  split_ifs
  · exact ⟨h.rx, h.baseThread, rfl, congrArg RemoraComms.update h.comms, h.currentState⟩
  · exact h

/-- **No event looks at the rest.** -/
theorem Alike.step {c c' : Controller fl} (h : c.Alike c') (e : Event) :
    (c.step e).Alike (c'.step e) := by
  cases e with
  | udp d =>
      have hcomms := congrArg RemoraComms.dataReceived h.comms
      rw [Controller.step, Controller.step, udpDataCallback, udpDataCallback, h.rx]
      dsimp only
      split_ifs
      · exact ⟨rfl, h.baseThread, h.execute, hcomms, h.currentState⟩
      · exact ⟨rfl, h.baseThread, h.execute, hcomms, h.currentState⟩
      · exact ⟨rfl, h.baseThread, h.execute, h.comms, h.currentState⟩
  | baseTimer =>
      refine ⟨h.rx, ?_, h.execute, h.comms, h.currentState⟩
      simp only [Controller.step, baseTimerTick, thread_baseRun, getCurrentRxBuffer, h.rx,
        h.baseThread]
  | servoTimer => exact ⟨h.rx, h.baseThread, rfl, h.comms, h.currentState⟩
  | pass gpio =>
      have hrun := h.servoThreadRun gpio
      rw [Controller.step, Controller.step, core1Pass, core1Pass, h.currentState]
      cases c'.currentState with
      | ST_IDLE =>
          dsimp only
          rw [hrun.comms]
          split_ifs
          · exact ⟨hrun.rx, hrun.baseThread, hrun.execute, rfl, rfl⟩
          · exact hrun
      | ST_RUNNING =>
          dsimp only
          rw [hrun.comms]
          split_ifs
          · exact ⟨hrun.rx, hrun.baseThread, hrun.execute, rfl, rfl⟩
          · exact hrun
      | ST_STOP => exact hrun
      | ST_RESET =>
          exact ⟨congrArg (fun b => b.setCurrent RxData.zero) h.rx, h.baseThread, h.execute,
            h.comms, rfl⟩
      | ST_WDRESET => exact h

end Controller

namespace Wired

open Controller (Alike Unanswered Unwritten CompletesServoRun servoRuns)

/-- The controller once the servo run that is under way has ended. -/
def settled (s : Wired fl) : Controller fl :=
  match s.walk with
  | .out => s.shared
  | .next _ => { s.shared with execute := false }.settle

/-- The event of the controller that an event shows.  In a servo run it is none for a
step of core 1, and for a request of the next run, which the end of this one takes back. -/
def shows (s : Wired fl) (e : Event) : Option Event :=
  match s.walk, e with
  | .next _, .pass _ => none
  | .next _, .servoTimer => none
  | _, e => some e

/-- Outside the servo run core 1 makes a whole pass, unless it begins a run. -/
theorem step_of_not_runs {c : Controller fl} (h : ¬Runs c) (l gpio : ℕ → Bool) :
    step ⟨c, .out, l⟩ (.pass gpio) =
      ⟨(core1Pass c gpio).1, .out, levels l (core1Pass c gpio).2⟩ := by
  have hpass := run_pass c l gpio
  rwa [passSteps, if_neg h] at hpass

/-- **Each step shows a step of the controller**, or nothing. -/
theorem settled_step (s : Wired fl) (e : Event) :
    (s.step e).settled.Alike (run Controller.step s.settled (s.shows e).toList) := by
  obtain ⟨c, walk, l⟩ := s
  cases walk with
  | out =>
      cases e with
      | udp d => exact ⟨rfl, rfl, rfl, rfl, rfl⟩
      | baseTimer => exact ⟨rfl, rfl, rfl, rfl, rfl⟩
      | servoTimer => exact ⟨rfl, rfl, rfl, rfl, rfl⟩
      | pass gpio =>
          by_cases hruns : Runs c
          · rcases c.pass_cases gpio with ⟨hstate, -⟩ | ⟨hstate, -⟩ | ⟨-, -, hpass⟩
            · exact absurd hstate hruns.1
            · exact absurd hstate hruns.2.1
            · simp only [step, act, core1Step_of_runs hruns, shows, Option.toList_some, run_cons,
                run_nil, settled, Controller.step, hpass, servoThreadRun, hruns.2.2, if_true]
              exact ⟨rfl, rfl, rfl, rfl, rfl⟩
          · rw [step_of_not_runs hruns]
            exact ⟨rfl, rfl, rfl, rfl, rfl⟩
  | next k =>
      cases e with
      | udp d =>
          -- a datagram leaves the status, and with it the test at the end of the run
          simp only [step, act, shows, Option.toList_some, run_cons, run_nil, settled,
            Controller.step, Controller.settle, udpDataCallback]
          split_ifs
          · exact ⟨rfl, rfl, rfl, rfl, rfl⟩
          · exact ⟨rfl, rfl, rfl, rfl, rfl⟩
          · exact ⟨rfl, rfl, rfl, rfl, rfl⟩
      | baseTimer => exact ⟨rfl, rfl, rfl, rfl, rfl⟩
      | servoTimer => exact ⟨rfl, rfl, rfl, rfl, rfl⟩
      | pass gpio =>
          simp only [step, act, core1Step, shows, settled]
          cases c.servoThread[k]? with
          | some m => exact ⟨rfl, rfl, rfl, rfl, rfl⟩
          | none => exact ⟨rfl, rfl, rfl, rfl, rfl⟩

/-- **A run of the cut controller shows a run of the controller.** -/
theorem simulates :
    Simulates step Controller.step shows fun (s : Wired fl) c => s.settled.Alike c := by
  intro s c e h
  refine (s.settled_step e).trans ?_
  cases s.shows e with
  | none => exact h
  | some e => exact h.step e

variable {s : Wired fl} {c : Controller fl} {e : Event}

theorem eq_of_shows {d : Event} (h : s.shows e = some d) : d = e := by
  unfold shows at h
  split at h
  · cases h
  · cases h
  · exact (Option.some.inj h).symm

theorem settled_of_out (h : s.walk = .out) : s.settled = s.shared := by
  rw [settled, h]

theorem rx_settled (s : Wired fl) : s.settled.rxPingPongBuffer = s.shared.rxPingPongBuffer := by
  rw [settled]
  split <;> rfl

/-- The servo runs under way: one or none. -/
def inRun (s : Wired fl) : ℕ := if s.walk = .out then 0 else 1

theorem inRun_le (s : Wired fl) : s.inRun ≤ 1 := by
  rw [inRun]
  split_ifs
  · exact Nat.zero_le 1
  · exact Nat.le_refl 1

/-- The event begins a servo run. -/
def beginsRun (s : Wired fl) : Event → Bool
  | .pass _ => decide (s.walk = .out ∧ Runs s.shared)
  | _ => false

theorem runs_of_beginsRun (h : s.beginsRun e = true) : s.walk = .out ∧ Runs s.shared := by
  cases e with
  | pass gpio => exact of_decide_eq_true h
  | udp d => cases h
  | baseTimer => cases h
  | servoTimer => cases h

/-- What ends or is under way has begun or was under way. -/
theorem endsRun_add_inRun (s : Wired fl) (e : Event) :
    (s.endsRun e).toNat + (s.step e).inRun = (s.beginsRun e).toNat + s.inRun := by
  obtain ⟨c, walk, l⟩ := s
  cases e with
  | udp d => rfl
  | baseTimer => rfl
  | servoTimer => rfl
  | pass gpio =>
      cases walk with
      | out =>
          by_cases hruns : Runs c
          · simp [endsRun, beginsRun, inRun, step, act, core1Step_of_runs hruns, hruns]
          · simp [endsRun, beginsRun, inRun, step_of_not_runs hruns, hruns]
      | next k =>
          rw [step, act, core1Step]
          dsimp only
          cases hm : c.servoThread[k]? with
          | some m =>
              have hk := (List.getElem?_eq_some_iff.1 hm).1
              simp [endsRun, beginsRun, inRun, hk]
          | none =>
              have hk := List.getElem?_eq_none_iff.1 hm
              simp [endsRun, beginsRun, inRun, hk]

theorem countAlong_endsRun (s : Wired fl) (es : List Event) :
    countAlong step endsRun s es + (run step s es).inRun =
      countAlong step beginsRun s es + s.inRun := by
  induction es generalizing s with
  | nil => rfl
  | cons e es ih =>
      have hstep := s.endsRun_add_inRun e
      have hrest := ih (s.step e)
      rw [countAlong, countAlong, run_cons]
      omega

theorem not_beginsRun_of_shows (h : s.shows e = none) : s.beginsRun e = false := by
  obtain ⟨c, walk, l⟩ := s
  cases walk with
  | out => cases h
  | next k =>
      cases e with
      | pass gpio =>
          rw [beginsRun, decide_eq_false_iff_not]
          exact fun hruns => by cases hruns.1
      | udp d => cases h
      | baseTimer => cases h
      | servoTimer => rfl

/-- The controller completes a run when the run begins. -/
theorem completesServoRun_iff (h : s.settled.Alike c) (hshows : s.shows e = some e) :
    c.CompletesServoRun e ↔ s.beginsRun e = true := by
  obtain ⟨c', walk, l⟩ := s
  cases e with
  | udp d => exact ⟨False.elim, fun hbegins => by cases hbegins⟩
  | baseTimer => exact ⟨False.elim, fun hbegins => by cases hbegins⟩
  | servoTimer => exact ⟨False.elim, fun hbegins => by cases hbegins⟩
  | pass gpio =>
      cases walk with
      | next k => cases hshows
      | out =>
          rw [settled] at h
          rw [CompletesServoRun, beginsRun, decide_eq_true_iff, Runs, ← h.execute,
            ← h.currentState]
          constructor
          · rintro ⟨hexecute, hreset, hwd⟩
            exact ⟨rfl, hreset, hwd, hexecute⟩
          · rintro ⟨-, hreset, hwd, hexecute⟩
            exact ⟨hexecute, hreset, hwd⟩

/-- **The controller counts the runs that begin.** -/
theorem servoRuns_trace (h : s.settled.Alike c) (es : List Event) :
    c.servoRuns (trace step shows s es) = countAlong step beginsRun s es := by
  induction es generalizing s c with
  | nil => rfl
  | cons e es ih =>
      have hrest := ih (simulates s c e h)
      rw [trace, countAlong]
      cases hshows : s.shows e with
      | none =>
          rw [hshows] at hrest
          rw [not_beginsRun_of_shows hshows, Bool.toNat_false, Nat.zero_add]
          exact hrest
      | some d =>
          obtain rfl := eq_of_shows hshows
          rw [hshows] at hrest
          have hiff := completesServoRun_iff h hshows
          rw [Option.toList_some, List.singleton_append, servoRuns]
          cases hbegins : s.beginsRun d with
          | false =>
              rw [if_neg fun hcompletes => by rw [hiff.1 hcompletes] at hbegins; cases hbegins]
              exact congrArg (0 + ·) hrest
          | true =>
              rw [if_pos (hiff.2 hbegins)]
              exact congrArg (1 + ·) hrest

/-- An event that is no write leaves an all-zero packet in force. -/
theorem zero_step (h : s.shared.rxPingPongBuffer.current = RxData.zero)
    (he : s.shared.Unwritten e) : (s.step e).shared.rxPingPongBuffer.current = RxData.zero := by
  have hsettled : s.settled.rxPingPongBuffer.current = RxData.zero := by rw [rx_settled, h]
  rw [← rx_settled, (s.settled_step e).rx]
  cases hshows : s.shows e with
  | none => exact hsettled
  | some d =>
      obtain rfl := eq_of_shows hshows
      refine Controller.zero_step hsettled ?_
      cases d with
      | udp d =>
          rw [Unwritten, Controller.Writes, Controller.received, rx_settled]
          exact he
      | baseTimer => trivial
      | servoTimer => trivial
      | pass gpio => trivial

/-- **On an all-zero packet no step pin rises.** -/
theorem risingEdges_of_zero (hapart : WiredApart s.shared.baseThread s.shared.servoThread)
    (h : s.shared.rxPingPongBuffer.current = RxData.zero) (e : Event) {g : Stepgen fl}
    (hg : g ∈ s.shared.baseThread) :
    risingEdges g.stepPin g.directionPin s.level (s.puts e) = [] := by
  obtain ⟨pre, post, hsplit⟩ := List.append_of_mem hg
  obtain ⟨-, -, h6, h27, -, houtputs⟩ := (hsplit ▸ hapart).of_append
  cases e with
  | udp d => rfl
  | servoTimer => rfl
  | baseTimer =>
      have hnone : ∀ g ∈ s.shared.baseThread, g.command s.shared.rxPingPongBuffer.current = none :=
        fun g _ => h ▸ g.command_zero
      refine risingEdges_of_not_raised _ (fun p hp hlevel heq => h6 ?_) _
      rw [← heq]
      exact (baseRun_of_none hnone _).2 p hp hlevel
  | pass gpio =>
      refine risingEdges_of_untouched _ (fun p hp heq => ?_) _
      rcases (s.threads_core1Step gpio).2.2 p hp with hline | ⟨m, hm, hline⟩
      · exact h27 (heq.symm.trans hline)
      · exact houtputs m hm (heq ▸ hline)

theorem unanswered_of_shows {d : Event} (h : s.settled.Alike c) (hshows : s.shows e = some d)
    (he : s.shared.Unanswered e) : c.Unanswered d := by
  obtain rfl := eq_of_shows hshows
  cases d with
  | udp d =>
      rw [Unanswered, Controller.Reads, Controller.Writes, Controller.received, ← h.rx, rx_settled]
      exact he
  | baseTimer => trivial
  | servoTimer => trivial
  | pass gpio => trivial

theorem walk_of_endsRun (h : s.endsRun e = true) : s.walk ≠ .out ∧ (s.step e).walk = .out := by
  obtain ⟨k, hwalk, -, hout⟩ := exists_next_of_endsRun h
  exact ⟨by rw [hwalk]; exact nofun, hout⟩

/-- The runs that begin in a silence clear the status. -/
theorem silenced_of_beginsRun (h : s.settled.Alike c) (hguarded : c.Guarded) {quiet : List Event}
    (hquiet : Along step (fun s e => s.shared.Unanswered e) s quiet)
    (hruns : DATA_ERR_MAX.toNat + 2 ≤ countAlong step beginsRun s quiet) :
    (run Controller.step c (trace step shows s quiet)).Silenced := by
  have halong : Along Controller.step Unanswered c (trace step shows s quiet) :=
    simulates.along (fun _ _ _ _ h hshows he => unanswered_of_shows h hshows he) h hquiet
  obtain ⟨m, hm, hsilent⟩ := Controller.silent_of_servoRuns (n := DATA_ERR_MAX.toNat + 1) halong
    (by rw [servoRuns_trace h]; exact hruns)
  exact ⟨run_invariant Controller.guarded_step hguarded _,
    hsilent.status (Nat.lt_of_lt_of_le (by decide) hm), hsilent.1⟩

/-- **A silence ends in a servo run on an all-zero packet**, if `DATA_ERR_MAX + 4` servo
runs end in it. -/
theorem exists_zero_run (h : s.settled.Alike c) (hguarded : c.Guarded) {silence : List Event}
    (hsilence : Along step (fun s e => s.shared.Unanswered e) s silence)
    (hruns : DATA_ERR_MAX.toNat + 4 ≤ countAlong step endsRun s silence) :
    ∃ quiet first e rest, silence = quiet ++ (first ++ e :: rest) ∧
      (run step s quiet).walk = .out ∧
      (run step s quiet).shared.rxPingPongBuffer.current = RxData.zero ∧
      (run step s (quiet ++ first)).endsRun e = true := by
  -- the run that ends with `e` may have begun before the silence, the others have not
  obtain ⟨pre, e, post, rfl, he, hpre⟩ := exists_split_of_lt_countAlong
    (show DATA_ERR_MAX.toNat + 2 < countAlong step endsRun s silence by omega)
  rw [countAlong_append, countAlong, he, hpre, Bool.toNat_true] at hruns
  obtain ⟨hin, hout⟩ := walk_of_endsRun he
  obtain ⟨next, e', rest, rfl, he', hnext⟩ := exists_split_of_lt_countAlong
    (show 0 < countAlong step endsRun ((run step s pre).step e) post by omega)
  have hbegun := countAlong_endsRun s pre
  have hbegun' := countAlong_endsRun ((run step s pre).step e) next
  rw [inRun, if_neg hin] at hbegun
  rw [hnext, inRun, inRun, if_neg (walk_of_endsRun he').1, if_pos hout] at hbegun'
  have hle := s.inRun_le
  obtain ⟨wait, b, first, rfl, hb, -⟩ := exists_split_of_lt_countAlong
    (show 0 < countAlong step beginsRun ((run step s pre).step e) next by omega)
  have hsplit : pre ++ e :: (wait ++ b :: first ++ e' :: rest) =
      (pre ++ e :: wait) ++ (b :: first ++ e' :: rest) := by simp
  rw [hsplit] at hsilence
  have hstate : run step s (pre ++ e :: wait) = run step ((run step s pre).step e) wait := by
    rw [run_append, run_cons]
  rw [← hstate] at hb
  obtain ⟨hwalk, hreset, -⟩ := runs_of_beginsRun hb
  have hsilenced := silenced_of_beginsRun h hguarded (along_append.1 hsilence).1
    (by rw [countAlong_append]; omega)
  have hend := simulates.run h (pre ++ e :: wait)
  rw [settled_of_out hwalk] at hend
  refine ⟨pre ++ e :: wait, b :: first, e', rest, hsplit, hwalk, ?_, ?_⟩
  · rw [hend.rx]
    exact (hsilenced.calm_or_reset.resolve_right (hend.currentState ▸ hreset)).2
  · rw [run_append, hstate, ← run_append]
    exact he'

variable {gs : List (Stepgen fl)} {ms : List ServoModule}

/-- A run shows a run of the controller. -/
theorem settled_run (gs : List (Stepgen fl)) (ms : List ServoModule) (comms : RemoraComms)
    (es : List Event) : (run step (start gs ms comms) es).settled.Alike
      (run Controller.step (Controller.start gs ms comms) (trace step shows
        (start gs ms comms) es)) :=
  simulates.run ⟨rfl, rfl, rfl, rfl, rfl⟩ es

/-- Until a write, an all-zero packet stays in force. -/
theorem zero_run (h : s.shared.rxPingPongBuffer.current = RxData.zero) {es : List Event}
    (hes : Along step (fun s e => s.shared.Unwritten e) s es) :
    (run step s es).shared.rxPingPongBuffer.current = RxData.zero :=
  run_invariant_of_along (I := fun s : Wired fl => s.shared.rxPingPongBuffer.current = RxData.zero)
    (fun _ _ h he => zero_step h he) h hes

theorem commanded_of_zero (h : s.shared.rxPingPongBuffer.current = RxData.zero) {es : List Event}
    (hes : Along step (fun s e => s.shared.Unwritten e) s es) : Along step Commanded s es :=
  along_of_invariant (I := fun s : Wired fl => s.shared.rxPingPongBuffer.current = RxData.zero)
    (fun _ _ h he => zero_step h he) (fun _ _ h he => (zero_step h he).trans h.symm) h hes

theorem unwritten_of_unanswered {es : List Event}
    (h : Along step (fun s e => s.shared.Unanswered e) s es) :
    Along step (fun s e => s.shared.Unwritten e) s es := by
  refine along_of_invariant (I := fun _ => True) (fun _ _ _ _ => trivial) (fun s e _ he => ?_)
    trivial h
  cases e with
  | udp d => exact he.2
  | baseTimer => trivial
  | servoTimer => trivial
  | pass gpio => trivial

/-- **A silent host halts the board**: once `DATA_ERR_MAX + 4` servo runs have ended with
no read and no write, no step pin rises and every output is at its level for a 0 bit,
until the next write. -/
theorem halts (hapart : WiredApart gs ms) (comms : RemoraComms)
    (before silence rest : List Event)
    (hsilence : Along step (fun s e => s.shared.Unanswered e)
      (run step (start gs ms comms) before) silence)
    (hruns : DATA_ERR_MAX.toNat + 4 ≤
      countAlong step endsRun (run step (start gs ms comms) before) silence)
    (hrest : Along step (fun s e => s.shared.Unwritten e)
      (run step (start gs ms comms) (before ++ silence)) rest) :
    Along step
      (fun s e => ∀ g ∈ gs, risingEdges g.stepPin g.directionPin s.level (s.puts e) = [])
      (run step (start gs ms comms) (before ++ silence)) rest ∧
    ∀ d ∈ outputPins ms,
      (run step (start gs ms comms) (before ++ (silence ++ rest))).level d.pin = d.invert := by
  obtain ⟨quiet, first, e, last, rfl, hwalk, hzero, hends⟩ := exists_zero_run
    (settled_run gs ms comms before) (Controller.guarded_run gs ms comms _) hsilence hruns
  have hquiet := (along_append.1 (unwritten_of_unanswered hsilence)).2
  rw [← run_append] at hwalk hzero hquiet hends
  rw [← List.append_assoc, run_append] at hrest ⊢
  have hend : (run step (run step (start gs ms comms) (before ++ quiet))
      (first ++ e :: last)).shared.rxPingPongBuffer.current = RxData.zero :=
    zero_run hzero hquiet
  constructor
  · rw [along_iff_forall_split]
    rintro pre e' post rfl g hg
    have hzero' := zero_run hend (along_append.1 hrest).1
    rw [← run_append, ← run_append] at hzero' ⊢
    obtain ⟨g', hg', -, hstep, hdirection⟩ := mem_baseThread_run ms comms hg
      (before ++ quiet ++ (first ++ e :: last ++ pre))
    rw [← hstep, ← hdirection]
    exact risingEdges_of_zero (wiredApart_run hapart comms _) hzero' e' hg'
  · intro d hd
    have hcommanded := commanded_of_zero hzero (along_append.2 ⟨hquiet, hrest⟩)
    rw [List.append_assoc, List.cons_append] at hcommanded
    have hobeys := output_obeys hapart comms (before ++ quiet) first (last ++ rest) e hwalk
      hcommanded (by rw [List.append_assoc]; exact hends) hd
    rw [hzero, d.shown_zero] at hobeys
    simpa using hobeys

/-- A servo run of `smallServoThread`, and one more pass. -/
def servoRun : List Event := .servoTimer :: List.replicate 5 (.pass fun _ => false)

theorem unanswered_servoRun (s : Wired fl) (n : ℕ) :
    Along step (fun s e => s.shared.Unanswered e) s (List.replicate n servoRun).flatten := by
  refine along_iff_forall_split.2 fun pre e post hes => ?_
  have hmem : e ∈ (List.replicate n servoRun).flatten := by simp [hes]
  obtain ⟨es, hes, he⟩ := List.mem_flatten.1 hmem
  rw [List.eq_of_mem_replicate hes, servoRun] at he
  rcases List.mem_cons.1 he with rfl | he
  · trivial
  · rw [List.eq_of_mem_replicate he]
    trivial

/-- Output 0 has been set, and 44 servo runs later it is low again and joint 0 stands. -/
theorem halts_small :
    Along step
      (fun s e => ∀ g ∈ smallThread,
        risingEdges g.stepPin g.directionPin s.level (s.puts e) = [])
      (run step (start smallThread smallServoThread ⟨false, false, 0⟩)
        (.udp writeOutput0 :: servoRun ++ (List.replicate 44 servoRun).flatten)) [.baseTimer] ∧
    (run step (start smallThread smallServoThread ⟨false, false, 0⟩)
      (.udp writeOutput0 :: servoRun)).level 10 = true ∧
    (run step (start smallThread smallServoThread ⟨false, false, 0⟩)
      (.udp writeOutput0 :: servoRun ++ ((List.replicate 44 servoRun).flatten ++
        [.baseTimer]))).level 10 = false := by
  obtain ⟨hstill, hlevel⟩ := halts wiredApart_small ⟨false, false, 0⟩
    (.udp writeOutput0 :: servoRun) (List.replicate 44 servoRun).flatten [.baseTimer]
    (unanswered_servoRun _ _) (by decide +kernel) ⟨trivial, trivial⟩
  exact ⟨hstill, by decide +kernel,
    hlevel ⟨1, 10, 0, false⟩ ⟨List.mem_cons_self .., by decide⟩⟩

end Wired
end Remora
