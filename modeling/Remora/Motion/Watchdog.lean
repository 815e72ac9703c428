/-
# The watchdog covers live motion

The state machine of core 1, the watchdog in its servo thread and the packets of
core 0, in every order.  Two layers:

* `Guarded` is the invariant of the four pieces together.  It does not need the
  configuration, and it gives the first half of the contract: a command in force
  is seen by the watchdog, or the machine is about to clear it.
* after a silence of `DATA_ERR_MAX + 2` servo runs the status is clear
  (`Silent`), so the machine is in `ST_IDLE` on an all-zero packet one pass later,
  and stays on it until a write (`CoversMotion.stops`, `CoversMotion.still`).

On an all-zero packet no generator moves and no generator raises a pin, but
`pruThread::run` itself raises GPIO 6 in every run of the base thread, and lowers
GPIO 27 at the end of every servo run.  And what an output drives its pin to is what the
pin shows after the run only if no module behind it writes the pin (`HasLastWord`).
`coversMotion_iff` says that these are the only ways to see a step pin raised, or an
output at another level, after the silence.
-/

import Remora.Motion.Controller
import Remora.Motion.Dds

namespace Remora

open Basis

variable {fl : FloatUnit}

namespace Controller

/-- A command in force is covered: new data, a live status, or a reset pending. -/
def Covered (s : Controller fl) : Prop :=
  s.rxPingPongBuffer.current ≠ RxData.zero →
    s.comms.data = true ∨ s.comms.status = true ∨ s.currentState = .ST_RESET

/-- `ST_IDLE` on an all-zero packet. -/
def Calm (s : Controller fl) : Prop :=
  s.currentState = .ST_IDLE ∧ s.rxPingPongBuffer.current = RxData.zero

/-- The event is no read and no write. -/
def Unanswered (s : Controller fl) : Event → Prop
  | .udp d => ¬s.Reads d ∧ ¬s.Writes d
  | _ => True

/-- The event is no write. -/
def Unwritten (s : Controller fl) : Event → Prop
  | .udp d => ¬s.Writes d
  | _ => True

/-- The event completes a run of the servo thread. -/
def CompletesServoRun (s : Controller fl) : Event → Prop
  | .pass _ => s.execute = true ∧ s.currentState ≠ .ST_RESET ∧ s.currentState ≠ .ST_WDRESET
  | _ => False

instance (s : Controller fl) (e : Event) : Decidable (s.CompletesServoRun e) :=
  match e with
  | .pass _ => inferInstanceAs (Decidable (_ ∧ _))
  | .udp _ => inferInstanceAs (Decidable False)
  | .baseTimer => inferInstanceAs (Decidable False)
  | .servoTimer => inferInstanceAs (Decidable False)

/-- The servo runs that a run completes. -/
def servoRuns : Controller fl → List Event → ℕ
  | _, [] => 0
  | s, e :: es => (if s.CompletesServoRun e then 1 else 0) + servoRuns (s.step e) es

end Controller

/-- The passes of core 1 among the events. -/
def passes : List Event → ℕ
  | [] => 0
  | .pass _ :: es => passes es + 1
  | _ :: es => passes es

/-- No run of the base thread raises a step pin of `gs` or moves an accumulator,
and every servo run leaves the outputs of `ms` at their level for a 0 bit. -/
def Still (gs : List (Stepgen fl)) (ms : List ServoModule) (s : Controller fl) : Event → Prop
  | .baseTimer =>
      (∀ p ∈ (baseTimerTick s).2, p.level = true → ∀ g ∈ gs, p.line ≠ g.stepPin) ∧
      (s.step .baseTimer).baseThread.map Stepgen.DDSaccumulator =
        s.baseThread.map Stepgen.DDSaccumulator
  | .pass gpio => s.CompletesServoRun (.pass gpio) → ∀ d ∈ outputPins ms,
      ∀ l, levels l (core1Pass s gpio).2 d.pin = d.inverted false
  | _ => True

/-- **The contract of the watchdog**, for the modules `gs` and `ms`.  The silence is
`quiet`, in which the servo runs are counted, then `closing`: no read and no
write from the start of the first of the runs on. -/
structure CoversMotion (gs : List (Stepgen fl)) (ms : List ServoModule) : Prop where
  covered : ∀ comms es, (run Controller.step (Controller.start gs ms comms) es).Covered
  stops : ∀ comms before quiet closing,
    Along Controller.step Controller.Unanswered
      (run Controller.step (Controller.start gs ms comms) before) (quiet ++ closing) →
    DATA_ERR_MAX.toNat + 2 ≤
      (run Controller.step (Controller.start gs ms comms) before).servoRuns quiet →
    2 ≤ passes closing →
    (run Controller.step (Controller.start gs ms comms) (before ++ (quiet ++ closing))).Calm
  still : ∀ comms before quiet closing rest,
    Along Controller.step Controller.Unanswered
      (run Controller.step (Controller.start gs ms comms) before) (quiet ++ closing) →
    DATA_ERR_MAX.toNat + 2 ≤
      (run Controller.step (Controller.start gs ms comms) before).servoRuns quiet →
    (run Controller.step (Controller.start gs ms comms) (before ++ (quiet ++ closing))).Calm →
    Along Controller.step Controller.Unwritten
      (run Controller.step (Controller.start gs ms comms) (before ++ (quiet ++ closing))) rest →
    Along Controller.step (Still gs ms)
      (run Controller.step (Controller.start gs ms comms) (before ++ (quiet ++ closing))) rest

/-- An output has the last word on its pin in a servo run: the last module that writes
the pin is an output of the same level, or the pin is GPIO 27, which the thread itself
lowers at the end, and the level is low. -/
def HasLastWord (ms : List ServoModule) (d : DigitalPin) : Prop :=
  if d.pin = 27 then d.invert = false
  else ∃ pre d' post, ms = pre ++ .digitalPin d' :: post ∧ d'.mode ≠ 0 ∧ d'.pin = d.pin ∧
    d'.invert = d.invert ∧ ∀ m ∈ post, d.pin ∉ m.outputs

/-! What the pins show after a servo run. -/

theorem underScope_servo (ps : List Put) :
    underScope SERVO_SLICE ps = ⟨27, true⟩ :: (ps ++ [⟨27, false⟩]) := rfl

/-- GPIO 27 is low after every servo run. -/
theorem levels_underScope_27 (l : ℕ → Bool) (ps : List Put) :
    levels l (underScope SERVO_SLICE ps) 27 = false := by
  rw [underScope_servo, levels_cons, levels_append]
  have hlow : levels (levels (Put.apply l ⟨27, true⟩) ps) [⟨27, false⟩] 27 = false :=
    Put.apply_self (levels (Put.apply l ⟨27, true⟩) ps) ⟨27, false⟩
  exact hlow

/-- The marks leave every other pin to the modules. -/
theorem levels_underScope_of_ne (l : ℕ → Bool) (ps : List Put) {p : ℕ} (h : p ≠ 27) :
    levels l (underScope SERVO_SLICE ps) p = levels (Put.apply l ⟨27, true⟩) ps p := by
  rw [underScope_servo, levels_cons, levels_append]
  exact Put.apply_of_ne h.symm

/-- The modules behind the last writer of a pin leave it alone. -/
theorem levels_of_last {p : ℕ} (rx : RxData) (l : ℕ → Bool) (pre : List ServoModule)
    (w : ServoModule) {post : List ServoModule} (hpost : ∀ m ∈ post, p ∉ m.outputs) :
    levels l ((pre ++ w :: post).flatMap (ServoModule.puts rx)) p =
      levels (levels l (pre.flatMap (ServoModule.puts rx))) (w.puts rx) p := by
  rw [List.flatMap_append, List.flatMap_cons, levels_append, levels_append]
  refine levels_of_untouched (fun q hq heq => ?_) _
  obtain ⟨m, hm, hq⟩ := List.mem_flatMap.1 hq
  exact hpost m hm (heq ▸ ServoModule.line_mem_outputs hq)

theorem exists_last_writer {ms : List ServoModule} {m : ServoModule} {p : ℕ} (hm : m ∈ ms)
    (hp : p ∈ m.outputs) : ∃ pre w post, ms = pre ++ w :: post ∧ p ∈ w.outputs ∧
      ∀ m ∈ post, p ∉ m.outputs := by
  induction ms using List.reverseRecOn with
  | nil => cases hm
  | append_singleton ms a ih =>
      by_cases ha : p ∈ a.outputs
      · exact ⟨ms, a, [], rfl, ha, nofun⟩
      · have hms : m ∈ ms := by
          rcases List.mem_append.1 hm with hm | hm
          · exact hm
          · rw [List.mem_singleton.1 hm] at hp
            exact absurd hp ha
        obtain ⟨pre, w, post, rfl, hw, hpost⟩ := ih hms
        refine ⟨pre, w, post ++ [a], by simp, hw, fun x hx => ?_⟩
        rcases List.mem_append.1 hx with hx | hx
        · exact hpost x hx
        · rw [List.mem_singleton.1 hx]
          exact ha

namespace ServoModule

/-- A module after `n` updates. -/
theorem next_iterate (n : ℕ) : (∀ b : Blink, next^[n] (.blink b) = .blink (b.after n)) ∧
    ∀ d, next^[n] (.digitalPin d) = .digitalPin d := by
  induction n with
  | zero => exact ⟨fun _ => rfl, fun _ => rfl⟩
  | succ n ih =>
      constructor
      · intro b
        rw [Function.iterate_succ_apply', ih.1, Blink.after_succ]
        rfl
      · intro d
        rw [Function.iterate_succ_apply', ih.2]
        rfl

theorem outputs_next_iterate (m : ServoModule) (n : ℕ) : (next^[n] m).outputs = m.outputs := by
  induction n with
  | zero => rfl
  | succ n ih => rw [Function.iterate_succ_apply', outputs_next, ih]

end ServoModule

/-- The last word is not lost with an update. -/
theorem HasLastWord.map_next {ms : List ServoModule} {d : DigitalPin} (h : HasLastWord ms d) :
    HasLastWord (ms.map ServoModule.next) d := by
  rw [HasLastWord] at h ⊢
  split_ifs at h ⊢
  · exact h
  · obtain ⟨pre, d', post, rfl, hmode, hpin, hinvert, hpost⟩ := h
    refine ⟨pre.map ServoModule.next, d', post.map ServoModule.next, by simp [ServoModule.next],
      hmode, hpin, hinvert, fun m hm => ?_⟩
    obtain ⟨m', hm', rfl⟩ := List.mem_map.1 hm
    rw [ServoModule.outputs_next]
    exact hpost m' hm'

/-- **An output with the last word** is at its level for a 0 bit after the run. -/
theorem HasLastWord.level {ms : List ServoModule} {d : DigitalPin} (h : HasLastWord ms d)
    (l : ℕ → Bool) : levels l (underScope SERVO_SLICE
      (ms.flatMap (ServoModule.puts RxData.zero))) d.pin = d.inverted false := by
  rw [HasLastWord] at h
  split_ifs at h with h27
  · rw [h27, levels_underScope_27, d.inverted_false, h]
  · obtain ⟨pre, d', post, rfl, hmode, hpin, hinvert, hpost⟩ := h
    rw [levels_underScope_of_ne _ _ h27, levels_of_last _ _ _ _ hpost, ServoModule.puts,
      if_neg hmode, DigitalPin.shown_zero, ← hpin, d.inverted_false, hinvert]
    exact Put.apply_self _ ⟨d'.pin, d.invert⟩

/-- **An output without it** is at the other level after some run, however many have been. -/
theorem exists_level_of_not_hasLastWord {ms : List ServoModule} {d : DigitalPin}
    (hd : d ∈ outputPins ms) (h : ¬HasLastWord ms d) (k : ℕ) (l : ℕ → Bool) :
    ∃ n, levels l (underScope SERVO_SLICE ((ms.map ServoModule.next^[n + k]).flatMap
      (ServoModule.puts RxData.zero))) d.pin ≠ d.inverted false := by
  rw [HasLastWord] at h
  split_ifs at h with h27
  · refine ⟨0, ?_⟩
    rw [h27, levels_underScope_27, d.inverted_false]
    exact Ne.symm h
  · obtain ⟨hmem, hmode⟩ := hd
    obtain ⟨pre, w, post, rfl, hw, hpost⟩ := exists_last_writer hmem (p := d.pin) (by
      rw [ServoModule.outputs, if_neg hmode]
      exact List.mem_singleton_self _)
    have hlevel : ∀ n, levels l (underScope SERVO_SLICE (((pre ++ w :: post).map
        ServoModule.next^[n + k]).flatMap (ServoModule.puts RxData.zero))) d.pin =
        levels (levels (Put.apply l ⟨27, true⟩) ((pre.map ServoModule.next^[n + k]).flatMap
          (ServoModule.puts RxData.zero)))
          ((ServoModule.next^[n + k] w).puts RxData.zero) d.pin := by
      intro n
      rw [levels_underScope_of_ne _ _ h27, List.map_append, List.map_cons]
      refine levels_of_last _ _ _ _ fun m hm => ?_
      obtain ⟨m', hm', rfl⟩ := List.mem_map.1 hm
      rw [ServoModule.outputs_next_iterate]
      exact hpost m' hm'
    cases w with
    | blink b =>
        -- the blinker comes to the other level
        obtain ⟨n, hput⟩ := (b.after k).exists_put (!d.invert)
        refine ⟨n, ?_⟩
        have hpin : d.pin = b.blinkPin := List.mem_singleton.1 hw
        rw [hlevel, (ServoModule.next_iterate _).1, ServoModule.puts, Blink.after,
          Function.iterate_add_apply]
        rw [Blink.after, (b.after_fixed k).1, ← hpin] at hput
        rw [show (fun b : Blink => b.update.1)^[k] b = b.after k from rfl, hput, d.inverted_false]
        have hself : levels (levels (Put.apply l ⟨27, true⟩) ((pre.map
            ServoModule.next^[n + k]).flatMap (ServoModule.puts RxData.zero)))
            [⟨d.pin, !d.invert⟩] d.pin = !d.invert := Put.apply_self _ ⟨d.pin, !d.invert⟩
        rw [hself]
        exact Bool.not_ne_self _
    | digitalPin d' =>
        rw [ServoModule.outputs] at hw
        split_ifs at hw with hmode'
        · cases hw
        · have hpin : d.pin = d'.pin := List.mem_singleton.1 hw
          refine ⟨0, fun hsame => h ⟨pre, d', post, rfl, hmode', hpin.symm, ?_, hpost⟩⟩
          rw [hlevel, (ServoModule.next_iterate _).2, ServoModule.puts, if_neg hmode',
            DigitalPin.shown_zero, d.inverted_false, hpin] at hsame
          exact (Put.apply_self _ ⟨d'.pin, d'.invert⟩).symm.trans hsame

namespace Controller

/-- The watchdog and the state machine have seen the command in force, or will. -/
def Guarded (s : Controller fl) : Prop :=
  (s.currentState = .ST_IDLE ∧
    (s.rxPingPongBuffer.current = RxData.zero ∨ s.comms.data = true)) ∨
  (s.currentState = .ST_RUNNING ∧ s.comms.status = true) ∨
  s.currentState = .ST_RESET

theorem Guarded.covered {s : Controller fl} (h : s.Guarded) : s.Covered := by
  rintro hne
  rcases h with ⟨-, hz | hd⟩ | ⟨-, hs⟩ | hr
  · exact absurd hz hne
  · exact Or.inl hd
  · exact Or.inr (Or.inl hs)
  · exact Or.inr (Or.inr hr)

/-- Data that has just arrived guards every state but the two the machine never enters. -/
theorem Guarded.of_data {s t : Controller fl} (h : s.Guarded)
    (hstate : t.currentState = s.currentState) (hcomms : t.comms = s.comms.dataReceived) :
    t.Guarded := by
  rcases h with ⟨hi, -⟩ | ⟨hr, hs⟩ | hr
  · exact Or.inl ⟨hstate.trans hi, Or.inr (by rw [hcomms]; rfl)⟩
  · exact Or.inr (Or.inl ⟨hstate.trans hr, by rw [hcomms]; exact hs⟩)
  · exact Or.inr (Or.inr (hstate.trans hr))

/-- Steps that touch none of the four pieces. -/
theorem Guarded.of_eq {s t : Controller fl} (h : s.Guarded)
    (hstate : t.currentState = s.currentState) (hcomms : t.comms = s.comms)
    (hrx : t.rxPingPongBuffer.current = s.rxPingPongBuffer.current) : t.Guarded := by
  unfold Guarded
  rwa [hstate, hcomms, hrx]

/-- **Every step keeps the guard.** -/
theorem guarded_step (s : Controller fl) (e : Event) (h : s.Guarded) : (s.step e).Guarded := by
  cases e with
  | udp d =>
      rcases s.udp_cases d with ⟨-, hcall⟩ | ⟨-, hcall⟩ | ⟨-, -, hcall⟩
      · exact h.of_data (by simp [step, hcall]) (by simp [step, hcall])
      · exact h.of_data (by simp [step, hcall]) (by simp [step, hcall])
      · exact h.of_eq (by simp [step, hcall]) (by simp [step, hcall]) (by simp [step, hcall])
  | baseTimer => exact h.of_eq rfl rfl rfl
  | servoTimer => exact h.of_eq rfl rfl rfl
  | pass gpio =>
      rcases s.pass_cases gpio with ⟨-, hpass⟩ | ⟨-, hpass⟩ | ⟨hreset, -, hpass⟩
      · exact Or.inl ⟨by simp [step, hpass], Or.inl (by simp [step, hpass, resetRxBuffer])⟩
      · exact h.of_eq (by simp [step, hpass]) (by simp [step, hpass]) (by simp [step, hpass])
      · have hcomms := s.comms_servoThreadRun gpio
        simp only [step, hpass, Guarded, rx_servoThreadRun]
        rcases h with ⟨hi, hdata⟩ | ⟨hr, -⟩ | hr
        · cases hs : (servoThreadRun s gpio).1.comms.status with
          | true => simp [hi, State.after]
          | false =>
              refine Or.inl ⟨by simp [hi, State.after], hdata.imp id fun hd => ?_⟩
              -- the run, had there been one, would have found the data and set the status
              by_cases hx : s.execute
              · rw [hcomms, if_pos hx, RemoraComms.update_of_data hd] at hs
                exact absurd hs (by simp)
              · rw [hcomms, if_neg hx, hd]
        · cases hs : (servoThreadRun s gpio).1.comms.status <;> simp [hr, State.after]
        · exact absurd hr hreset

theorem guarded_run (gs : List (Stepgen fl)) (ms : List ServoModule) (comms : RemoraComms)
    (es : List Event) : (run step (start gs ms comms) es).Guarded :=
  run_invariant guarded_step (Or.inl ⟨rfl, Or.inl rfl⟩) es

/-- What an unanswered event does to the watchdog. -/
theorem comms_step {s : Controller fl} {e : Event} (h : s.Unanswered e) :
    (s.step e).comms = if s.CompletesServoRun e then s.comms.update else s.comms := by
  cases e with
  | udp d =>
      rcases s.udp_cases d with ⟨hr, -⟩ | ⟨hw, -⟩ | ⟨-, -, hcall⟩
      · exact absurd hr h.1
      · exact absurd hw h.2
      · simp [step, hcall, CompletesServoRun]
  | baseTimer => rfl
  | servoTimer => rfl
  | pass gpio =>
      rcases s.pass_cases gpio with ⟨hr, hpass⟩ | ⟨hw, hpass⟩ | ⟨hr, hw, hpass⟩
      · simp [step, hpass, CompletesServoRun, hr, resetRxBuffer]
      · simp [step, hpass, CompletesServoRun, hw]
      · simp [step, hpass, CompletesServoRun, hr, hw, s.comms_servoThreadRun gpio]

/-- Silence grows with the servo runs. -/
theorem silent_run {n : ℕ} {s : Controller fl} (hs : RemoraComms.Silent n s.comms)
    {es : List Event} (h : Along step Unanswered s es) :
    RemoraComms.Silent (n + s.servoRuns es) (run step s es).comms := by
  induction es generalizing n s with
  | nil => exact hs
  | cons e es ih =>
      have hcomms := comms_step h.1
      rw [servoRuns, run_cons, ← add_assoc]
      by_cases he : s.CompletesServoRun e
      · rw [if_pos he] at hcomms ⊢
        exact ih (hcomms ▸ hs.update) h.2
      · rw [if_neg he] at hcomms ⊢
        exact ih (hcomms.symm ▸ hs) h.2

/-- The first run of a silence may find data; the others count. -/
theorem silent_of_servoRuns {n : ℕ} {s : Controller fl} {es : List Event}
    (h : Along step Unanswered s es) (hn : n + 1 ≤ s.servoRuns es) :
    ∃ m, n ≤ m ∧ RemoraComms.Silent m (run step s es).comms := by
  induction es generalizing s with
  | nil => simp [servoRuns] at hn
  | cons e es ih =>
      have hcomms := comms_step h.1
      rw [servoRuns] at hn
      by_cases he : s.CompletesServoRun e
      · rw [if_pos he] at hcomms hn
        have hzero : RemoraComms.Silent 0 (s.step e).comms :=
          hcomms ▸ RemoraComms.silent_update s.comms
        refine ⟨0 + (s.step e).servoRuns es, by omega, silent_run hzero h.2⟩
      · rw [if_neg he] at hn
        exact ih h.2 (by omega)

/-- What the silence leaves: the guard, and a clear status for as long as it lasts. -/
structure Silenced (s : Controller fl) : Prop where
  guarded : s.Guarded
  status : s.comms.status = false
  data : s.comms.data = false

/-- A silenced machine is calm or about to be. -/
theorem Silenced.calm_or_reset {s : Controller fl} (h : s.Silenced) :
    s.Calm ∨ s.currentState = .ST_RESET := by
  rcases h.guarded with ⟨hi, hz | hd⟩ | ⟨-, hs⟩ | hr
  · exact Or.inl ⟨hi, hz⟩
  · exact absurd hd (by simp [h.data])
  · exact absurd hs (by simp [h.status])
  · exact Or.inr hr

theorem Silenced.step {s : Controller fl} (h : s.Silenced) {e : Event} (he : s.Unanswered e) :
    (s.step e).Silenced := by
  have hcomms := comms_step he
  refine ⟨guarded_step s e h.guarded, ?_, ?_⟩
  · rw [hcomms]
    split_ifs
    · exact RemoraComms.status_update_of_no_data h.data h.status
    · exact h.status
  · rw [hcomms]
    split_ifs
    · exact RemoraComms.data_update _
    · exact h.data

/-- Any unanswered event keeps a silenced machine calm, and a pass makes it so. -/
theorem Silenced.calm_step {s : Controller fl} (h : s.Silenced) {e : Event}
    (he : s.Unanswered e) (hs : s.Calm ∨ ∃ gpio, e = .pass gpio) : (s.step e).Calm := by
  have h' := h.step he
  rcases h'.calm_or_reset with hc | hr
  · exact hc
  · -- a step out of silence never enters `ST_RESET`: that takes a status still set
    exfalso
    cases e with
    | udp d =>
        have hc : s.Calm := hs.resolve_right (by simp)
        rcases s.udp_cases d with ⟨hread, -⟩ | ⟨hwrite, -⟩ | ⟨-, -, hcall⟩
        · exact he.1 hread
        · exact he.2 hwrite
        · simp [Controller.step, hcall, hc.1] at hr
    | baseTimer =>
        have hc : s.Calm := hs.resolve_right (by simp)
        simp [Controller.step, baseTimerTick, hc.1] at hr
    | servoTimer =>
        have hc : s.Calm := hs.resolve_right (by simp)
        simp [Controller.step, hc.1] at hr
    | pass gpio =>
        rcases s.pass_cases gpio with ⟨-, hpass⟩ | ⟨hw, hpass⟩ | ⟨hne, -, hpass⟩
        · simp [Controller.step, hpass] at hr
        · rw [Controller.step, hpass, hw] at hr
          exact absurd hr (by simp)
        · have hc : s.Calm := h.calm_or_reset.resolve_right hne
          have hcomms : (servoThreadRun s gpio).1.comms.status = false := by
            simpa [Controller.step, hpass] using h'.status
          simp [Controller.step, hpass, hc.1, hcomms, State.after] at hr

theorem Silenced.calm_run {s : Controller fl} (h : s.Silenced) {es : List Event}
    (hes : Along Controller.step Unanswered s es) (hs : s.Calm ∨ 1 ≤ passes es) :
    (run Controller.step s es).Calm := by
  induction es generalizing s with
  | nil => exact hs.resolve_right (by simp [passes])
  | cons e es ih =>
      refine ih (h.step hes.1) hes.2 ?_
      by_cases hpass : s.Calm ∨ ∃ gpio, e = .pass gpio
      · exact Or.inl (h.calm_step hes.1 hpass)
      · obtain ⟨hc, hpass⟩ := not_or.1 hpass
        refine Or.inr ?_
        cases e with
        | pass gpio => exact absurd ⟨gpio, rfl⟩ hpass
        | udp d => exact hs.resolve_left hc
        | baseTimer => exact hs.resolve_left hc
        | servoTimer => exact hs.resolve_left hc

/-- **The silence calms the machine.** -/
theorem calm_of_silence {s : Controller fl} (hg : s.Guarded) {quiet closing : List Event}
    (h : Along Controller.step Unanswered s (quiet ++ closing))
    (hruns : DATA_ERR_MAX.toNat + 2 ≤ s.servoRuns quiet) (hpasses : 2 ≤ passes closing) :
    (run Controller.step s (quiet ++ closing)).Calm := by
  obtain ⟨hquiet, hclosing⟩ := along_append.1 h
  obtain ⟨m, hm, hsilent⟩ := silent_of_servoRuns hquiet hruns
  have hm : 40 < m := lt_of_lt_of_le (by decide) hm
  rw [run_append]
  exact Silenced.calm_run ⟨run_invariant guarded_step hg quiet, hsilent.status hm, hsilent.1⟩
    hclosing (Or.inr (by omega))

/-- The modules of a state are those of the configuration: the same step pins, and the
outputs of the configuration have the last word on their pins. -/
structure Configured (gs : List (Stepgen fl)) (ms : List ServoModule) (s : Controller fl) :
    Prop where
  stepPins : s.baseThread.map Stepgen.stepPin = gs.map Stepgen.stepPin
  lastWord : ∀ d ∈ outputPins ms, HasLastWord s.servoThread d

theorem Configured.servoThreadRun {gs : List (Stepgen fl)} {ms : List ServoModule}
    {s : Controller fl} (h : Configured gs ms s) (gpio : ℕ → Bool) :
    Configured gs ms (servoThreadRun s gpio).1 := by
  refine ⟨by simpa using h.stepPins, fun d hd => ?_⟩
  unfold Remora.servoThreadRun
  split_ifs
  · dsimp only
    rw [modules_runServoModules]
    exact (h.lastWord d hd).map_next
  · exact h.lastWord d hd

theorem configured_step {gs : List (Stepgen fl)} {ms : List ServoModule} (s : Controller fl)
    (e : Event) (h : Configured gs ms s) : Configured gs ms (s.step e) := by
  cases e with
  | udp d =>
      rcases s.udp_cases d with ⟨-, hcall⟩ | ⟨-, hcall⟩ | ⟨-, -, hcall⟩ <;>
        exact ⟨by simpa [step, hcall] using h.stepPins, by simpa [step, hcall] using h.lastWord⟩
  | baseTimer =>
      refine ⟨?_, h.lastWord⟩
      rw [← h.stepPins]
      simp [step, baseTimerTick]
  | servoTimer => exact ⟨h.stepPins, h.lastWord⟩
  | pass gpio =>
      have hservo := h.servoThreadRun gpio
      rcases s.pass_cases gpio with ⟨-, hpass⟩ | ⟨-, hpass⟩ | ⟨-, -, hpass⟩
      · exact ⟨by simpa [step, hpass, resetRxBuffer] using h.stepPins,
          by simpa [step, hpass, resetRxBuffer] using h.lastWord⟩
      · exact ⟨by simpa [step, hpass] using h.stepPins, by simpa [step, hpass] using h.lastWord⟩
      · exact ⟨by simpa [step, hpass] using hservo.stepPins,
          by simpa [step, hpass] using hservo.lastWord⟩

/-- An event that is no write leaves an all-zero packet in force. -/
theorem zero_step {s : Controller fl} (h : s.rxPingPongBuffer.current = RxData.zero) {e : Event}
    (he : s.Unwritten e) : (s.step e).rxPingPongBuffer.current = RxData.zero := by
  cases e with
  | udp d =>
      rcases s.udp_cases d with ⟨-, hcall⟩ | ⟨hw, -⟩ | ⟨-, -, hcall⟩
      · simp [step, hcall, h]
      · exact absurd hw he
      · simp [step, hcall, h]
  | baseTimer => exact h
  | servoTimer => exact h
  | pass gpio =>
      rcases s.pass_cases gpio with ⟨-, hpass⟩ | ⟨-, hpass⟩ | ⟨-, -, hpass⟩
      · simp [step, hpass, resetRxBuffer]
      · simp [step, hpass, h]
      · simp [step, hpass, h]

/-- **On an all-zero packet nothing moves**, but for a step pin that is GPIO 6, and the
outputs with the last word are off. -/
theorem still_of_zero {gs : List (Stepgen fl)} {ms : List ServoModule} {s : Controller fl}
    (hconf : Configured gs ms s) (h6 : ∀ g ∈ gs, g.stepPin ≠ 6)
    (h : s.rxPingPongBuffer.current = RxData.zero) (e : Event) : Still gs ms s e := by
  cases e with
  | udp d => trivial
  | servoTimer => trivial
  | baseTimer =>
      have hnone : ∀ g ∈ s.baseThread, g.command s.rxPingPongBuffer.current = none :=
        fun g _ => h ▸ g.command_zero
      have hrun := baseRun_of_none hnone s.txPingPongBuffer.current
      refine ⟨fun p hp hlevel g hg => ?_, ?_⟩
      · rw [hrun.2 p hp hlevel]
        exact (h6 g hg).symm
      · exact congrArg (List.map Stepgen.DDSaccumulator) hrun.1
  | pass gpio =>
      rintro ⟨hx, hr, hw⟩ d hd
      rcases s.pass_cases gpio with ⟨hr', -⟩ | ⟨hw', -⟩ | ⟨-, -, hpass⟩
      · exact absurd hr' hr
      · exact absurd hw' hw
      · intro l
        rw [hpass, servoThreadRun, if_pos hx, getCurrentRxBuffer, h]
        dsimp only
        rw [puts_runServoModules]
        exact (hconf.lastWord d hd).level l

theorem still_along {gs : List (Stepgen fl)} {ms : List ServoModule} {s : Controller fl}
    (hconf : Configured gs ms s) (h6 : ∀ g ∈ gs, g.stepPin ≠ 6)
    (h : s.rxPingPongBuffer.current = RxData.zero) {es : List Event}
    (hes : Along step Unwritten s es) : Along step (Still gs ms) s es :=
  along_of_invariant
    (I := fun t => Configured gs ms t ∧ t.rxPingPongBuffer.current = RxData.zero)
    (fun t e ht he => ⟨configured_step t e ht.1, zero_step ht.2 he⟩)
    (fun _ e ht _ => still_of_zero ht.1 h6 ht.2 e) ⟨hconf, h⟩ hes

/-- `n` servo runs and nothing else. -/
def onlyServo : ℕ → List Event
  | 0 => []
  | n + 1 => .servoTimer :: .pass (fun _ => false) :: onlyServo n

theorem onlyServo_succ' (n : ℕ) :
    onlyServo (n + 1) = onlyServo n ++ [.servoTimer, .pass fun _ => false] := by
  induction n with
  | zero => rfl
  | succ n ih => exact congrArg (fun es => .servoTimer :: .pass (fun _ => false) :: es) ih

theorem unwritten_onlyServo (n : ℕ) (s : Controller fl) : Along step Unwritten s (onlyServo n) := by
  induction n generalizing s with
  | zero => trivial
  | succ n ih => exact ⟨trivial, trivial, ih _⟩

/-- A machine that no packet has reached, between two servo runs. -/
structure Resting (ms : List ServoModule) (s : Controller fl) : Prop where
  state : s.currentState = .ST_IDLE
  zero : s.rxPingPongBuffer.current = RxData.zero
  status : s.comms.status = false
  data : s.comms.data = false
  execute : s.execute = false
  servoThread : s.servoThread = ms

theorem resting_start (gs : List (Stepgen fl)) (ms : List ServoModule) :
    Resting ms (start gs ms ⟨false, false, 0⟩) := ⟨rfl, rfl, rfl, rfl, rfl, rfl⟩

/-- A pass that has no servo run to do. -/
theorem Resting.pass {ms : List ServoModule} {s : Controller fl} (h : Resting ms s)
    (gpio : ℕ → Bool) : s.step (.pass gpio) = s := by
  have hrun : servoThreadRun s gpio = (s, []) :=
    if_neg (by rw [h.execute]; exact Bool.false_ne_true)
  rw [step, core1Pass, h.state]
  dsimp only
  rw [hrun, RemoraComms.getStatus, h.status]
  rfl

/-- **A servo run at rest** completes, updates the modules and leaves the machine at rest. -/
theorem Resting.servoRun {ms : List ServoModule} {s : Controller fl} (h : Resting ms s)
    (gpio : ℕ → Bool) :
    (s.step .servoTimer).CompletesServoRun (.pass gpio) ∧
      (core1Pass (s.step .servoTimer) gpio).2 =
        underScope SERVO_SLICE (ms.flatMap (ServoModule.puts RxData.zero)) ∧
      Resting (ms.map ServoModule.next) ((s.step .servoTimer).step (.pass gpio)) := by
  have hstate : (s.step .servoTimer).currentState = .ST_IDLE := h.state
  have hstatus : s.comms.update.status = false :=
    RemoraComms.status_update_of_no_data h.data h.status
  have hrun : servoThreadRun (s.step .servoTimer) gpio =
      ({ s with
          comms := s.comms.update
          servoThread := ms.map ServoModule.next
          txPingPongBuffer := s.txPingPongBuffer.setCurrent (runServoModules RxData.zero gpio ms
            s.txPingPongBuffer.current).2.1
          execute := false },
        underScope SERVO_SLICE (ms.flatMap (ServoModule.puts RxData.zero))) := by
    rw [servoThreadRun, if_pos (c := (s.step .servoTimer).execute = true) rfl,
      ← modules_runServoModules RxData.zero gpio ms
      s.txPingPongBuffer.current, ← puts_runServoModules RxData.zero gpio ms
      s.txPingPongBuffer.current, ← h.zero, ← h.servoThread]
    rfl
  have hpass : core1Pass (s.step .servoTimer) gpio = servoThreadRun (s.step .servoTimer) gpio := by
    rw [core1Pass, hstate]
    dsimp only
    rw [hrun, RemoraComms.getStatus, hstatus]
    rfl
  refine ⟨⟨rfl, by rw [hstate]; decide, by rw [hstate]; decide⟩, by rw [hpass, hrun], ?_⟩
  rw [show (s.step .servoTimer).step (.pass gpio) = (core1Pass (s.step .servoTimer) gpio).1
    from rfl, hpass, hrun]
  exact ⟨h.state, h.zero, hstatus, RemoraComms.data_update _, rfl, rfl⟩

/-- Servo runs without data: each completes. -/
theorem Resting.onlyServo {ms : List ServoModule} {s : Controller fl} (h : Resting ms s) (n : ℕ) :
    Along step Unanswered s (onlyServo n) ∧ s.servoRuns (onlyServo n) = n ∧
      Resting (ms.map ServoModule.next^[n]) (run step s (onlyServo n)) := by
  induction n generalizing ms s with
  | zero =>
      refine ⟨trivial, rfl, ?_⟩
      rw [Function.iterate_zero, List.map_id]
      exact h
  | succ n ih =>
      obtain ⟨hruns, -, hrest⟩ := h.servoRun fun _ => false
      obtain ⟨halong, hn, hrest⟩ := ih hrest
      refine ⟨⟨trivial, trivial, halong⟩, ?_, ?_⟩
      · rw [Controller.onlyServo, servoRuns, servoRuns, if_pos hruns, hn,
          if_neg (by simp [CompletesServoRun])]
        omega
      · rw [List.map_map, ← Function.iterate_succ] at hrest
        exact hrest

/-- A silence from the start on, and `n` more servo runs. -/
theorem still_of_coversMotion {gs : List (Stepgen fl)} {ms : List ServoModule}
    (h : CoversMotion gs ms) : ∃ s : Controller fl,
      Resting (ms.map ServoModule.next^[DATA_ERR_MAX.toNat + 2]) s ∧
      ∀ rest, Along step Unwritten s rest → Along step (Still gs ms) s rest := by
  obtain ⟨halong, hruns, hrest⟩ := (resting_start gs ms).onlyServo (DATA_ERR_MAX.toNat + 2)
  set closing : List Event := [.pass fun _ => false, .pass fun _ => false]
  have hsilence : Along step Unanswered (run step (start gs ms ⟨false, false, 0⟩) [])
      (Controller.onlyServo (DATA_ERR_MAX.toNat + 2) ++ closing) :=
    along_append.2 ⟨halong, trivial, trivial, trivial⟩
  have hcalm := h.stops ⟨false, false, 0⟩ [] _ closing hsilence hruns.ge le_rfl
  have hstill := h.still ⟨false, false, 0⟩ []
    (Controller.onlyServo (DATA_ERR_MAX.toNat + 2)) closing
  refine ⟨run step (start gs ms ⟨false, false, 0⟩)
    ([] ++ (Controller.onlyServo (DATA_ERR_MAX.toNat + 2) ++ closing)), ?_,
    fun rest hunwritten => hstill rest hsilence hruns.ge hcalm hunwritten⟩
  rw [List.nil_append, run_append, run_cons, run_cons, run_nil, hrest.pass, hrest.pass]
  exact hrest

/-- GPIO 6 as step pin: after a silence from the start on, the next base run raises it. -/
theorem not_coversMotion_of_scope_pin {gs : List (Stepgen fl)} {ms : List ServoModule}
    {g : Stepgen fl} (hg : g ∈ gs) (h6 : g.stepPin = 6) : ¬CoversMotion gs ms := by
  intro h
  obtain ⟨s, -, hstill⟩ := still_of_coversMotion h
  obtain ⟨⟨hnone, -⟩, -⟩ := hstill [.baseTimer] ⟨trivial, trivial⟩
  refine hnone ⟨6, true⟩ ?_ rfl g hg h6.symm
  rw [baseTimerTick, puts_baseRun]
  exact List.mem_cons_self ..

/-- An output without the last word: it is seen at its other level after a servo run. -/
theorem not_coversMotion_of_last_word {gs : List (Stepgen fl)} {ms : List ServoModule}
    {d : DigitalPin} (hd : d ∈ outputPins ms) (h : ¬HasLastWord ms d) : ¬CoversMotion gs ms := by
  intro hcovers
  obtain ⟨s, hrest, hstill⟩ := still_of_coversMotion hcovers
  obtain ⟨n, hn⟩ := exists_level_of_not_hasLastWord hd h (DATA_ERR_MAX.toNat + 2) fun _ => false
  obtain ⟨-, -, hrestn⟩ := hrest.onlyServo n
  rw [List.map_map, ← Function.iterate_add] at hrestn
  obtain ⟨hruns, hputs, -⟩ := hrestn.servoRun fun _ => false
  have hlast := hstill (Controller.onlyServo (n + 1)) (by
    rw [onlyServo_succ', along_append]
    exact ⟨unwritten_onlyServo n s, trivial, trivial, trivial⟩)
  rw [onlyServo_succ', along_append] at hlast
  obtain ⟨-, -, hpass, -⟩ := hlast
  refine hn ?_
  rw [← hputs]
  exact hpass hruns d hd _

end Controller

end Remora
