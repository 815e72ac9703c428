/-
# A reset that comes late

`core1_entry` decides to clear the command in one pass of its state machine and
clears it in the next.  Here a pass is cut into the steps between which core 0 can
handle a datagram: the servo run, the test of `getStatus`, the choice of the buffer
in `ST_RESET`, and its bytes, last to first.  A pass that is not interrupted is a
pass of `Controller` (`run_pass`).

A write that arrives after the time-out has been noticed by the watchdog and before
the buffer is chosen is cleared by a reset that was decided before it; so is the
second of two writes that arrive while the buffer is being cleared, for it lands in
that buffer.
-/

import Remora.Motion.CommandInForce

namespace Remora

open Basis

variable {fl : FloatUnit}

/-- The next step of a pass. -/
inductive PassAt where
  /-- The start of a pass: a servo run, or the choice of a buffer. -/
  | enter
  /-- The test of `getStatus`. -/
  | test
  /-- `n` bytes of the buffer chosen are still to be cleared. -/
  | clear (pruRxData : Fin 2) (n : ℕ)
  deriving DecidableEq

/-- The controller between two steps of a pass. -/
structure Stepwise (fl : FloatUnit) where
  shared : Controller fl
  core1 : PassAt

/-- An event at one of the two cores.  A datagram has `BUFFER_SIZE` bytes. -/
inductive StepEvent where
  | udp (d : Datagram) (full : d.payload.length = BUFFER_SIZE)
  | baseTimer
  | servoTimer
  | core1 (gpio : ℕ → Bool)

/-- `rxBuffer[n] = 0` -/
def RxData.clearByte (r : RxData) (n : ℕ) : RxData :=
  ⟨fun i => if i.val = n then 0 else r.rxBuffer i⟩

/-- `pruRxData->rxBuffer[n] = 0` -/
def clearByte (b : RxPingPongBuffer) (pruRxData : Fin 2) (n : ℕ) : RxPingPongBuffer :=
  b.setAt pruRxData ((b.buffers pruRxData).clearByte n)

/-- The bytes of a datagram as a packet. -/
def Datagram.packet (d : Datagram) : RxData := ⟨fun i => d.get i⟩

instance : DecidableEq RxData := fun r r' =>
  decidable_of_iff (r.rxBuffer = r'.rxBuffer) ⟨congrArg RxData.mk, congrArg RxData.rxBuffer⟩

/-- No reset that was decided is still to clear the inactive buffer, or to choose
the buffer to clear. -/
def PassAt.Spares (shared : Controller fl) : PassAt → Prop
  | .enter => shared.currentState ≠ .ST_RESET
  | .test => shared.currentState = .ST_RUNNING → shared.comms.status = true
  | .clear pruRxData n => 0 < n → pruRxData = shared.rxPingPongBuffer.index

instance (shared : Controller fl) : DecidablePred (PassAt.Spares shared)
  | .enter => inferInstanceAs (Decidable (_ ≠ _))
  | .test => inferInstanceAs (Decidable (_ → _))
  | .clear _ _ => inferInstanceAs (Decidable (_ → _))

namespace Stepwise

/-- The next step of core 1. -/
def core1Step (s : Stepwise fl) (gpio : ℕ → Bool) : Stepwise fl :=
  match s.core1 with
  | .enter =>
      match s.shared.currentState with
      | .ST_IDLE | .ST_RUNNING => ⟨(servoThreadRun s.shared gpio).1, .test⟩
      | .ST_STOP => ⟨(servoThreadRun s.shared gpio).1, .enter⟩
      | .ST_RESET => ⟨s.shared, .clear s.shared.rxPingPongBuffer.index BUFFER_SIZE⟩
      | .ST_WDRESET => s
  | .test =>
      match s.shared.currentState with
      | .ST_IDLE =>
          ⟨if s.shared.comms.getStatus then { s.shared with currentState := .ST_RUNNING }
            else s.shared, .enter⟩
      | .ST_RUNNING =>
          ⟨if s.shared.comms.getStatus = false then { s.shared with currentState := .ST_RESET }
            else s.shared, .enter⟩
      | _ => ⟨s.shared, .enter⟩
  | .clear _ 0 => ⟨{ s.shared with currentState := .ST_IDLE }, .enter⟩
  | .clear pruRxData (n + 1) =>
      ⟨{ s.shared with rxPingPongBuffer := clearByte s.shared.rxPingPongBuffer pruRxData n },
        .clear pruRxData n⟩

/-- The state after an event. -/
def step (s : Stepwise fl) : StepEvent → Stepwise fl
  | .udp d _ => { s with shared := s.shared.step (.udp d) }
  | .baseTimer => { s with shared := s.shared.step .baseTimer }
  | .servoTimer => { s with shared := s.shared.step .servoTimer }
  | .core1 gpio => s.core1Step gpio

theorem core1Step_clear {s : Stepwise fl} {i : Fin 2} {n : ℕ} (hc : s.core1 = .clear i (n + 1))
    (gpio : ℕ → Bool) :
    s.core1Step gpio =
      ⟨{ s.shared with rxPingPongBuffer := clearByte s.shared.rxPingPongBuffer i n },
        .clear i n⟩ := by
  simp [core1Step, hc]

/-- The steps that a pass takes. -/
def passSteps : State → ℕ
  | .ST_IDLE | .ST_RUNNING => 2
  | .ST_STOP | .ST_WDRESET => 1
  | .ST_RESET => BUFFER_SIZE + 2

/-- The buffer `i` with its first `n` bytes cleared. -/
def clearBelow (b : RxPingPongBuffer) (i : Fin 2) (n : ℕ) : RxPingPongBuffer :=
  b.setAt i ⟨fun j => if j.val < n then 0 else (b.buffers i).rxBuffer j⟩

theorem clearBelow_clearByte (b : RxPingPongBuffer) (i : Fin 2) (n : ℕ) :
    clearBelow (clearByte b i n) i n = clearBelow b i (n + 1) := by
  simp only [clearBelow, clearByte, PingPong.setAt_setAt, PingPong.buffers_setAt_self,
    RxData.clearByte]
  congr 2
  funext j
  split_ifs <;> first | rfl | omega

/-- The loop of `ST_RESET`. -/
theorem run_clear (c : Controller fl) (gpio : ℕ → Bool) (i : Fin 2) (n : ℕ) :
    run step ⟨c, .clear i n⟩ (List.replicate n (.core1 gpio)) =
      ⟨{ c with rxPingPongBuffer := clearBelow c.rxPingPongBuffer i n }, .clear i 0⟩ := by
  induction n generalizing c with
  | zero => simp [clearBelow, PingPong.setAt]
  | succ n ih =>
      rw [List.replicate_succ, run_cons, step, core1Step_clear rfl, ih]
      simp only [clearBelow_clearByte]

/-- **A pass that is not interrupted** is a pass of the controller. -/
theorem run_pass (c : Controller fl) (gpio : ℕ → Bool) :
    run step ⟨c, .enter⟩ (List.replicate (passSteps c.currentState) (.core1 gpio)) =
      ⟨(core1Pass c gpio).1, .enter⟩ := by
  cases hs : c.currentState with
  | ST_IDLE => simp [passSteps, List.replicate, step, core1Step, core1Pass, hs]
  | ST_RUNNING => simp [passSteps, List.replicate, step, core1Step, core1Pass, hs]
  | ST_STOP => simp [passSteps, step, core1Step, core1Pass, hs]
  | ST_WDRESET => simp [passSteps, step, core1Step, core1Pass, hs]
  | ST_RESET =>
      have hchoose : step ⟨c, .enter⟩ (.core1 gpio) =
          ⟨c, .clear c.rxPingPongBuffer.index BUFFER_SIZE⟩ := by
        simp [step, core1Step, hs]
      have hzero : clearBelow c.rxPingPongBuffer c.rxPingPongBuffer.index BUFFER_SIZE =
          c.rxPingPongBuffer.setCurrent RxData.zero := by
        refine congrArg (c.rxPingPongBuffer.setAt _) (congrArg RxData.mk (funext fun j => ?_))
        exact if_pos j.isLt
      rw [passSteps, List.replicate_succ, run_cons, hchoose, List.replicate_succ', run_append,
        run_clear, hzero]
      simp [step, core1Step, core1Pass, hs, resetRxBuffer]

/-- The payload of the last write acknowledged, until `status` falls. -/
def acknowledged (s : Stepwise fl) (e : StepEvent) (last : Option RxData) : Option RxData :=
  match e with
  | .udp d _ => if s.shared.Writes d then some d.packet else last
  | _ =>
      if s.shared.comms.status = true ∧ (s.step e).shared.comms.status = false then none else last

/-- The active buffer keeps that payload. -/
def KeepsAcknowledged (s : Stepwise fl × Option RxData) (e : StepEvent) : Prop :=
  ∀ r, (watch step acknowledged s e).2 = some r →
    (s.1.step e).shared.rxPingPongBuffer.current = r

/-- A reset that was decided is still to clear the active buffer. -/
def Doomed (s : Stepwise fl) : Prop :=
  match s.core1 with
  | .enter => s.shared.currentState = .ST_RESET
  | .test => s.shared.currentState = .ST_RUNNING ∧ s.shared.comms.status = false
  | .clear pruRxData n => 0 < n ∧ pruRxData = s.shared.rxPingPongBuffer.index

/-- A write does not come when the watchdog has let go with the test or the choice
of a buffer still to come, nor when the buffer being cleared is the one that it
lands in. -/
def Spares (s : Stepwise fl) : StepEvent → Prop
  | .udp d _ => s.shared.Writes d → s.core1.Spares s.shared
  | _ => True

instance (s : Stepwise fl) : DecidablePred s.Spares
  | .udp _ _ => inferInstanceAs (Decidable (_ → _))
  | .baseTimer | .servoTimer | .core1 _ => isTrue trivial

/-- What a run keeps in which every write is spared. -/
structure Kept (s : Stepwise fl × Option RxData) : Prop where
  current : ∀ r, s.2 = some r → s.1.shared.rxPingPongBuffer.current = r
  spared : s.2 ≠ none → ¬s.1.Doomed
  running : s.1.core1 = .enter → s.1.shared.currentState = .ST_RUNNING →
    s.1.shared.comms.status = true
  test : s.1.core1 = .test → s.1.shared.currentState ≠ .ST_RESET

/-- The fields that matter, and what they say, are carried over. -/
theorem Kept.congr {s t : Stepwise fl} {a : Option RxData} (h : Kept (s, a))
    (hcore : t.core1 = s.core1) (hstate : t.shared.currentState = s.shared.currentState)
    (hstatus : t.shared.comms.status = s.shared.comms.status)
    (hindex : t.shared.rxPingPongBuffer.index = s.shared.rxPingPongBuffer.index)
    (hcurrent : t.shared.rxPingPongBuffer.current = s.shared.rxPingPongBuffer.current) :
    Kept (t, a) where
  current r hr := hcurrent.trans (h.current r hr)
  spared ha hd := h.spared ha (by simpa only [Doomed, hcore, hstate, hstatus, hindex] using hd)
  running hc hs := hstatus.trans (h.running (hcore ▸ hc) (hstate ▸ hs))
  test hc := hstate ▸ h.test (hcore ▸ hc)

/-- A datagram of `BUFFER_SIZE` bytes replaces the whole buffer. -/
theorem memcpy_of_full (r : RxData) {d : Datagram} (h : d.payload.length = BUFFER_SIZE) :
    r.memcpy d = d.packet := by
  refine congrArg RxData.mk (funext fun i => ?_)
  rw [dif_pos (by rw [h]; exact i.isLt), Datagram.get, List.getD_eq_getElem?_getD,
    List.getElem?_eq_getElem (by rw [h]; exact i.isLt), Option.getD_some]

/-- Only a servo run can end what a write has put in force. -/
theorem acknowledged_of_status {s : Stepwise fl} {e : StepEvent} (hne : ∀ d full, e ≠ .udp d full)
    (h : (s.step e).shared.comms.status = s.shared.comms.status) (a : Option RxData) :
    s.acknowledged e a = a := by
  cases e with
  | udp d full => exact absurd rfl (hne d full)
  | _ =>
      refine if_neg fun hfall => ?_
      exact absurd (hfall.1.symm.trans (h.symm.trans hfall.2)) (by decide)

/-- What a write does to the state. -/
theorem step_udp_of_writes {s : Stepwise fl} {d : Datagram} (hw : s.shared.Writes d)
    (full : d.payload.length = BUFFER_SIZE) :
    (s.step (.udp d full)).core1 = s.core1 ∧
    (s.step (.udp d full)).shared.currentState = s.shared.currentState ∧
    (s.step (.udp d full)).shared.comms.status = s.shared.comms.status ∧
    (s.step (.udp d full)).shared.rxPingPongBuffer.index = 1 - s.shared.rxPingPongBuffer.index ∧
    (s.step (.udp d full)).shared.rxPingPongBuffer.current = d.packet := by
  have hstep : s.step (.udp d full) = { s with shared := (udpDataCallback s.shared d).1 } := rfl
  rcases s.shared.udp_cases d with ⟨hr, -⟩ | ⟨-, hcall⟩ | ⟨-, hn, -⟩
  · exact absurd hw (Controller.not_writes_of_reads hr)
  · rw [hstep, hcall]
    exact ⟨rfl, rfl, rfl, rfl, (PingPong.alt_setAlt _ _).trans (memcpy_of_full _ full)⟩
  · exact absurd hw hn

/-- A write is spared exactly when no reset that was decided is then still to clear
the active buffer. -/
theorem spares_iff {s : Stepwise fl} {d : Datagram} (hw : s.shared.Writes d)
    {full : d.payload.length = BUFFER_SIZE} :
    s.Spares (.udp d full) ↔ ¬(s.step (.udp d full)).Doomed := by
  obtain ⟨hcore, hstate, hstatus, hindex, -⟩ := step_udp_of_writes hw full
  simp only [Spares, hw, true_implies, Doomed, hcore, hstate, hstatus, hindex]
  cases s.core1 with
  | enter => exact Iff.rfl
  | test => simp [PassAt.Spares]
  | clear i n => simp [PassAt.Spares, PingPong.eq_one_sub_iff]

/-- **A spared write is kept**, and what is not a write changes nothing. -/
theorem kept_udp {s : Stepwise fl} {a : Option RxData} (h : Kept (s, a)) {d : Datagram}
    {full : d.payload.length = BUFFER_SIZE} (hspares : s.Spares (.udp d full)) :
    Kept (watch step acknowledged (s, a) (.udp d full)) := by
  have hstep : s.step (.udp d full) = { s with shared := (udpDataCallback s.shared d).1 } := rfl
  simp only [watch, acknowledged]
  by_cases hw : s.shared.Writes d
  · obtain ⟨hcore, hstate, hstatus, -, hcurrent⟩ := step_udp_of_writes hw full
    rw [if_pos hw]
    refine ⟨fun r hr => ?_, fun _ => (spares_iff hw).1 hspares, fun hc hs => ?_, fun hc => ?_⟩
    · exact hcurrent.trans (Option.some.inj hr)
    · exact hstatus.trans (h.running (hcore.symm.trans hc) (hstate.symm.trans hs))
    · exact hstate ▸ h.test (hcore.symm.trans hc)
  · rw [if_neg hw, hstep]
    rcases s.shared.udp_cases d with ⟨-, hcall⟩ | ⟨hw', -⟩ | ⟨-, -, hcall⟩
    · rw [hcall]
      exact h.congr rfl rfl rfl (PingPong.index_setAlt _ _) (PingPong.current_setAlt _ _)
    · exact absurd hw' hw
    · rw [hcall]
      exact h.congr rfl rfl rfl (PingPong.index_setAlt _ _) (PingPong.current_setAlt _ _)

theorem acknowledged_core1 (s : Stepwise fl) (gpio : ℕ → Bool) (a : Option RxData) :
    s.acknowledged (.core1 gpio) a =
      if s.shared.comms.status = true ∧ (s.core1Step gpio).shared.comms.status = false then none
      else a := rfl

/-- A step that leaves the buffers alone keeps a write that is still in force. -/
theorem Kept.current_of_rx {s t : Stepwise fl} {a : Option RxData} (h : Kept (s, a)) {c : Prop}
    [Decidable c] (hrx : t.shared.rxPingPongBuffer = s.shared.rxPingPongBuffer) {r : RxData}
    (hr : (if c then none else a) = some r) : t.shared.rxPingPongBuffer.current = r := by
  rw [hrx]
  split_ifs at hr
  exact h.current r hr

/-- **A servo run** takes the write out of force when it lets the status fall. -/
theorem kept_servoRun {s : Stepwise fl} {a : Option RxData} (h : Kept (s, a)) {gpio : ℕ → Bool}
    (hc : s.core1 = .enter)
    (hs : s.shared.currentState = .ST_IDLE ∨ s.shared.currentState = .ST_RUNNING)
    (hstep : s.core1Step gpio = ⟨(servoThreadRun s.shared gpio).1, .test⟩) :
    Kept (s.core1Step gpio, s.acknowledged (.core1 gpio) a) := by
  have hstate := s.shared.currentState_servoThreadRun gpio
  rw [acknowledged_core1, hstep]
  refine ⟨fun r hr => h.current_of_rx (s.shared.rx_servoThreadRun gpio) hr, fun ha hd => ?_,
    fun hc' => ?_, fun _ => ?_⟩
  · have hrunning : s.shared.currentState = .ST_RUNNING := hstate.symm.trans hd.1
    exact ha (if_pos ⟨h.running hc hrunning, hd.2⟩)
  · cases hc'
  · dsimp only
    rw [hstate]
    rcases hs with hs | hs <;> rw [hs] <;> decide

/-- **A pass enters** with a servo run, or with the choice of a buffer. -/
theorem kept_enter {s : Stepwise fl} {a : Option RxData} (h : Kept (s, a)) (gpio : ℕ → Bool)
    (hc : s.core1 = .enter) : Kept (s.core1Step gpio, s.acknowledged (.core1 gpio) a) := by
  cases hs : s.shared.currentState with
  | ST_IDLE => exact kept_servoRun h hc (Or.inl hs) (by simp [core1Step, hc, hs])
  | ST_RUNNING => exact kept_servoRun h hc (Or.inr hs) (by simp [core1Step, hc, hs])
  | ST_STOP =>
      have hstep : s.core1Step gpio = ⟨(servoThreadRun s.shared gpio).1, .enter⟩ := by
        simp [core1Step, hc, hs]
      have hstate := (s.shared.currentState_servoThreadRun gpio).trans hs
      rw [acknowledged_core1, hstep]
      exact ⟨fun r hr => h.current_of_rx (s.shared.rx_servoThreadRun gpio) hr,
        fun _ hd => absurd (hstate.symm.trans hd) (by decide),
        fun _ hr => absurd (hstate.symm.trans hr) (by decide), nofun⟩
  | ST_RESET =>
      have hstep : s.core1Step gpio =
          ⟨s.shared, .clear s.shared.rxPingPongBuffer.index BUFFER_SIZE⟩ := by
        simp [core1Step, hc, hs]
      have ha : a = none := by
        by_contra ha
        exact h.spared ha (by simp [Doomed, hc, hs])
      rw [acknowledged_core1, hstep, ha, ite_self]
      exact ⟨nofun, fun hne => absurd rfl hne, nofun, nofun⟩
  | ST_WDRESET =>
      have hstep : s.core1Step gpio = s := by simp [core1Step, hc, hs]
      rw [acknowledged_core1, hstep, if_neg (by simp)]
      exact h

/-- **The test** decides a reset only when there is no write to keep. -/
theorem kept_test {s : Stepwise fl} {a : Option RxData} (h : Kept (s, a)) (gpio : ℕ → Bool)
    (hc : s.core1 = .test) : Kept (s.core1Step gpio, s.acknowledged (.core1 gpio) a) := by
  -- the state machine moves on, the rest stays
  have hmoved : ∀ t : Controller fl, s.core1Step gpio = ⟨t, .enter⟩ →
      t.rxPingPongBuffer = s.shared.rxPingPongBuffer → t.comms = s.shared.comms →
      (t.currentState = .ST_RESET → a = none) →
      (t.currentState = .ST_RUNNING → s.shared.comms.status = true) →
      Kept (s.core1Step gpio, s.acknowledged (.core1 gpio) a) := by
    intro t hstep hrx hcomms hreset hrunning
    rw [acknowledged_core1, hstep, if_neg (by simp [hcomms])]
    exact ⟨fun r hr => (congrArg _ hrx).trans (h.current r hr), fun ha hd => ha (hreset hd),
      fun _ hr => (congrArg _ hcomms).trans (hrunning hr),
      fun hc' => by cases hc'⟩
  have hstay : s.core1Step gpio = ⟨s.shared, .enter⟩ →
      (s.shared.currentState = .ST_RUNNING → s.shared.comms.status = true) →
      Kept (s.core1Step gpio, s.acknowledged (.core1 gpio) a) := fun hstep =>
    hmoved s.shared hstep rfl rfl fun hs => absurd hs (h.test hc)
  cases hs : s.shared.currentState with
  | ST_IDLE =>
      cases hstatus : s.shared.comms.status with
      | true =>
          exact hmoved { s.shared with currentState := .ST_RUNNING }
            (by simp [core1Step, hc, hs, RemoraComms.getStatus, hstatus]) rfl rfl (by simp)
            fun _ => hstatus
      | false =>
          exact hstay (by simp [core1Step, hc, hs, RemoraComms.getStatus, hstatus]) (by simp [hs])
  | ST_RUNNING =>
      cases hstatus : s.shared.comms.status with
      | true =>
          exact hstay (by simp [core1Step, hc, hs, RemoraComms.getStatus, hstatus]) fun _ => hstatus
      | false =>
          refine hmoved { s.shared with currentState := .ST_RESET }
            (by simp [core1Step, hc, hs, RemoraComms.getStatus, hstatus]) rfl rfl
            (fun _ => ?_) (by simp)
          by_contra ha
          exact h.spared ha (by simp [Doomed, hc, hs, hstatus])
  | ST_STOP => exact hstay (by simp [core1Step, hc, hs]) (by simp [hs])
  | ST_RESET => exact absurd hs (h.test hc)
  | ST_WDRESET => exact hstay (by simp [core1Step, hc, hs]) (by simp [hs])

/-- **A byte is cleared** in a buffer that is not the active one. -/
theorem kept_clear {s : Stepwise fl} {a : Option RxData} (h : Kept (s, a)) (gpio : ℕ → Bool)
    {i : Fin 2} {n : ℕ} (hc : s.core1 = .clear i n) :
    Kept (s.core1Step gpio, s.acknowledged (.core1 gpio) a) := by
  cases n with
  | zero =>
      have hstep : s.core1Step gpio = ⟨{ s.shared with currentState := .ST_IDLE }, .enter⟩ := by
        simp [core1Step, hc]
      rw [acknowledged_core1, hstep, if_neg (by simp)]
      exact ⟨h.current, nofun, nofun, nofun⟩
  | succ n =>
      have hstep := core1Step_clear hc gpio
      have hne : a ≠ none → i ≠ s.shared.rxPingPongBuffer.index := fun ha hi =>
        h.spared ha (by simp [Doomed, hc, hi])
      rw [acknowledged_core1, hstep, if_neg (by simp)]
      refine ⟨fun r hr => ?_, fun ha hd => hne ha hd.2, nofun, nofun⟩
      have ha : a ≠ none := by rw [show a = some r from hr]; simp
      exact (PingPong.current_setAt_of_ne _ _ (hne ha)).trans (h.current r hr)

/-- A step keeps the write in force, when it is no write that is not spared. -/
theorem kept_step {s : Stepwise fl × Option RxData} (h : Kept s) {e : StepEvent}
    (he : s.1.Spares e) : Kept (watch step acknowledged s e) := by
  obtain ⟨s, a⟩ := s
  have hquiet : ∀ e, (∀ d full, e ≠ .udp d full) →
      (s.step e).shared.comms.status = s.shared.comms.status → Kept (s.step e, a) →
      Kept (watch step acknowledged (s, a) e) := by
    intro e hne hstatus hkept
    simp only [watch, acknowledged_of_status hne hstatus]
    exact hkept
  cases e with
  | udp d full => exact kept_udp h he
  | baseTimer => exact hquiet _ (by simp) rfl (h.congr rfl rfl rfl rfl rfl)
  | servoTimer => exact hquiet _ (by simp) rfl (h.congr rfl rfl rfl rfl rfl)
  | core1 gpio =>
      cases hc : s.core1 with
      | enter => exact kept_enter h gpio hc
      | test => exact kept_test h gpio hc
      | clear i n => exact kept_clear h gpio hc

/-- `ST_IDLE`, with everything created and nothing received. -/
def start (baseThread : List (Stepgen fl)) (servoThread : List ServoModule) (comms : RemoraComms) :
    Stepwise fl :=
  ⟨Controller.start baseThread servoThread comms, .enter⟩

/-- **An acknowledged write is not wiped by an older time-out**, in every run in
which no write comes between a time-out and the end of its reset. -/
theorem keepsAcknowledged_along {baseThread : List (Stepgen fl)} {servoThread : List ServoModule}
    {comms : RemoraComms} {es : List StepEvent}
    (h : Along step Spares (start baseThread servoThread comms) es) :
    Along (watch step acknowledged) KeepsAcknowledged (start baseThread servoThread comms, none)
      es := by
  have hstart : Kept (start baseThread servoThread comms, none) :=
    ⟨nofun, fun hne => absurd rfl hne, nofun, nofun⟩
  rw [← along_watch step acknowledged Spares (_, none)] at h
  exact along_of_invariant (I := Kept) (fun _ _ hs he => kept_step hs he)
    (fun _ _ hs he => (kept_step hs he).current) hstart h

/-- The bytes of the active buffer still to be cleared are cleared, the first byte of
the write last. -/
theorem not_along_clear (gpio : ℕ → Bool) {r : RxData} (hr : r.rxBuffer.get 0 ≠ 0) (n : ℕ)
    {s : Stepwise fl} (hc : s.core1 = .clear s.shared.rxPingPongBuffer.index (n + 1)) :
    ¬Along (watch step acknowledged) KeepsAcknowledged (s, some r)
      (List.replicate (n + 1) (.core1 gpio)) := by
  induction n generalizing s with
  | zero =>
      rintro ⟨h, -⟩
      have hcleared := h r (by simp [watch, acknowledged_core1, core1Step_clear hc])
      rw [step, core1Step_clear hc] at hcleared
      have hbuffer : (s.shared.rxPingPongBuffer.current).clearByte 0 = r :=
        (PingPong.buffers_setAt_self _ _ _).symm.trans hcleared
      rw [← hbuffer] at hr
      exact hr rfl
  | succ n ih =>
      rintro ⟨-, h⟩
      rw [watch, acknowledged_core1, step, core1Step_clear hc, if_neg (by simp)] at h
      exact ih rfl h

/-- **A doomed write is wiped** when nothing comes to its aid. -/
theorem exists_wiped_of_doomed {s : Stepwise fl} (h : s.Doomed) {r : RxData}
    (hr : r.rxBuffer.get 0 ≠ 0) :
    ∃ es, ¬Along (watch step acknowledged) KeepsAcknowledged (s, some r) es := by
  -- `ST_RESET` chooses the active buffer
  have henter : ∀ s : Stepwise fl, s.core1 = .enter → s.shared.currentState = .ST_RESET →
      ∃ es, ¬Along (watch step acknowledged) KeepsAcknowledged (s, some r) es := by
    intro s hc hs
    refine ⟨.core1 (fun _ => false) :: List.replicate 68 (.core1 fun _ => false), ?_⟩
    rintro ⟨-, hes⟩
    rw [watch, acknowledged_core1, if_neg (by simp [core1Step, hc, hs])] at hes
    exact not_along_clear _ hr 67 (by simp [step, core1Step, hc, hs, BUFFER_SIZE]) hes
  unfold Doomed at h
  split at h
  · rename_i hc
    exact henter s hc h
  · rename_i hc
    have hreset : s.core1Step (fun _ => false) =
        ⟨{ s.shared with currentState := .ST_RESET }, .enter⟩ := by
      simp [core1Step, hc, h.1, h.2, RemoraComms.getStatus]
    obtain ⟨es, hes⟩ := henter (s.step (.core1 fun _ => false)) (congrArg core1 hreset)
      (congrArg (fun s => s.shared.currentState) hreset)
    refine ⟨.core1 (fun _ => false) :: es, fun hall => hes ?_⟩
    have htail := hall.2
    rwa [watch, acknowledged_core1, if_neg (by simp [hreset, h.2])] at htail
  · rename_i i n hc
    obtain ⟨n, rfl⟩ := Nat.exists_eq_succ_of_ne_zero h.1.ne'
    exact ⟨_, not_along_clear (fun _ => false) hr n (h.2 ▸ hc)⟩

/-- The header of a write does not start with a zero byte. -/
theorem get_packet_ne_zero {s : Controller fl} {d : Datagram} (hw : s.Writes d)
    (full : d.payload.length = BUFFER_SIZE) : d.packet.rxBuffer.get 0 ≠ 0 := by
  intro hzero
  rw [Controller.Writes, Controller.received, memcpy_of_full _ full] at hw
  have hbyte : byteOf PRU_WRITE 0 = d.packet.rxBuffer.get 0 := by
    rw [← hw, RxData.header, byteOf_leWord _ _ (by omega)]
  rw [hzero] at hbyte
  exact absurd hbyte (by decide)

/-- **Every write that is not spared can be wiped.** -/
theorem exists_wiped_of_not_spares {s : Stepwise fl} {a : Option RxData} {d : Datagram}
    {full : d.payload.length = BUFFER_SIZE} (h : ¬s.Spares (.udp d full)) :
    ∃ es, ¬Along (watch step acknowledged) KeepsAcknowledged (s, a) (.udp d full :: es) := by
  have hw : s.shared.Writes d := by
    by_contra hw
    exact h fun hw' => absurd hw' hw
  rw [spares_iff hw, not_not] at h
  obtain ⟨es, hes⟩ := exists_wiped_of_doomed h (get_packet_ne_zero hw full)
  refine ⟨es, fun hall => hes ?_⟩
  have htail := hall.2
  rwa [watch, acknowledged, if_pos hw] at htail

/-- A write of which every byte after the header is `b`. -/
def write (b : Byte) : StepEvent := .udp (writeOf b) (by simp [writeOf, BUFFER_SIZE])

/-- A write, the servo run that sees it, and a second write before the test. -/
theorem keepsAcknowledged_along_two :
    Along (watch step acknowledged) KeepsAcknowledged
      (start ([] : List (Stepgen (exactFloat fun _ => 0))) [] ⟨false, false, 0⟩, none)
      [write 1, .servoTimer, .core1 fun _ => false, write 2, .core1 fun _ => false] :=
  keepsAcknowledged_along (by decide +kernel)

/-- A write, then servo periods without one until the watchdog lets go; the test is
still to come. -/
def silence : List StepEvent :=
  write 1 ::
    (List.replicate 41 [.servoTimer, .core1 fun _ => false, .core1 fun _ => false]).flatten ++
      [.servoTimer, .core1 fun _ => false]

/-- A second write there is acknowledged, and the reset that follows clears it from
the last byte on. -/
theorem not_keepsAcknowledged_along :
    ¬Along (watch step acknowledged) KeepsAcknowledged
      (start ([] : List (Stepgen (exactFloat fun _ => 0))) [] ⟨false, false, 0⟩, none)
      (silence ++
        [write 2, .core1 fun _ => false, .core1 fun _ => false, .core1 fun _ => false]) := by
  rw [along_append]
  rintro ⟨-, -, -, -, h, -⟩
  have hbyte := congrArg (fun r => r.rxBuffer.get 67) (h (writeOf 2).packet (by decide +kernel))
  exact absurd hbyte (by decide +kernel)

end Stepwise
end Remora
