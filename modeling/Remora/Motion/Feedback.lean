/-
# Position feedback

`makePulses` writes `jointFeedback` only on a tick that steps, into whichever of
the two tx buffers is active, and every answered datagram swaps them.  So the
buffer sent next is the one sent two replies ago, plus the counts of the joints
that have stepped since the last reply; a joint that stands still between two
replies is sent with the count of two replies ago.

`Epoch` is what an observer of the steps has to know of a joint: the time between
two replies is an epoch, and in it the joint has stepped or not, with some net
count.  `Fed` ties the two buffers to it, and `freshReplies_iff` reads off when
every reply is fresh.
-/

import Remora.Motion.Controller
import Remora.Motion.Dds

namespace Remora

open Basis

variable {fl : FloatUnit}

/-- A datagram is answered with the current count of every joint. -/
def FreshReply (s : Controller fl) : Event → Prop
  | .udp d => ∀ reply ∈ (udpDataCallback s d).2, ∀ g ∈ s.baseThread,
      reply.jointFeedback g.jointNumber = g.rawCount
  | _ => True

/-- What an observer of the steps of a joint knows at a time: whether it has
stepped since the last reply, by how much, and by how much in the epoch before. -/
structure Epoch where
  stepped : Bool
  net : Word
  previous : Word

namespace Epoch

/-- Before the first reply and the first step. -/
def first : Epoch := ⟨false, 0, 0⟩

/-- One run of the base thread, in which the joint steps or does not. -/
def tick (e : Epoch) (step : Option Bool) : Epoch :=
  ⟨e.stepped || step.isSome, e.net + Stepgen.delta step, e.previous⟩

/-- A reply ends the epoch. -/
def reply (e : Epoch) : Epoch := ⟨false, 0, e.net⟩

/-- The joint has stepped since the last reply, or came out where it was in the
epoch before. -/
def Settled (e : Epoch) : Prop := e.stepped = true ∨ e.previous = 0

theorem tick_none (e : Epoch) : e.tick none = e := by
  simp [tick, Stepgen.delta]

end Epoch

namespace Controller

/-- The step that joint `j` makes in a run of the base thread, if any. -/
def jointStep (s : Controller fl) (j : ℕ) : Option Bool :=
  (s.baseThread.find? fun g => g.jointNumber = j).bind fun g =>
    g.steps (g.command s.rxPingPongBuffer.current)

/-- The observer's books, one epoch for each joint. -/
def observe (s : Controller fl) (e : Event) (books : ℕ → Epoch) : ℕ → Epoch :=
  match e with
  | .udp d => if s.Reads d ∨ s.Writes d then fun j => (books j).reply else books
  | .baseTimer => fun j => (books j).tick (s.jointStep j)
  | _ => books

/-- Every joint is settled when a datagram is answered. -/
def SettledReply (s : Controller fl × (ℕ → Epoch)) : Event → Prop
  | .udp d => s.1.Reads d ∨ s.1.Writes d →
      ∀ g ∈ s.1.baseThread, (s.2 g.jointNumber).Settled
  | _ => True

end Controller

/-- Distinct joints, all of them in the packet. -/
def DistinctJoints (gs : List (Stepgen fl)) : Prop :=
  (gs.Pairwise fun g g' => g.jointNumber ≠ g'.jointNumber) ∧ ∀ g ∈ gs, g.jointNumber < JOINTS

theorem DistinctJoints.map_next {gs : List (Stepgen fl)} (h : DistinctJoints gs)
    (cmd : Stepgen fl → Option Word) : DistinctJoints (gs.map fun g => g.next (cmd g)) := by
  constructor
  · simpa [List.pairwise_map] using h.1
  · simpa using h.2

/-- A generator is the one found for its joint. -/
theorem DistinctJoints.find?_eq {gs : List (Stepgen fl)} (h : DistinctJoints gs) {g : Stepgen fl}
    (hg : g ∈ gs) : gs.find? (fun g' => g'.jointNumber = g.jointNumber) = some g := by
  obtain ⟨pre, post, rfl⟩ := List.append_of_mem hg
  have hpre := (List.pairwise_append.1 h.1).2.2
  rw [List.find?_append, List.find?_eq_none.2 fun g' hg' => by
    simpa using hpre g' hg' g (List.mem_cons_self ..)]
  simp

/-- The two tx buffers and the count of a joint, as the observer's books have
them.  The inactive buffer is the last one sent, and it was fresh. -/
structure FedJoint (tx : TxPingPongBuffer) (g : Stepgen fl) (e : Epoch) : Prop where
  sent : tx.alt.jointFeedback g.jointNumber + e.net = g.rawCount
  idle : e.stepped = false → e.net = 0
  active : tx.current.jointFeedback g.jointNumber =
    if e.stepped then g.rawCount else tx.alt.jointFeedback g.jointNumber - e.previous

/-- **A joint is fresh exactly when it is settled.** -/
theorem FedJoint.fresh_iff {tx : TxPingPongBuffer} {g : Stepgen fl} {e : Epoch}
    (h : FedJoint tx g e) :
    tx.current.jointFeedback g.jointNumber = g.rawCount ↔ e.Settled := by
  rw [h.active, Epoch.Settled]
  cases hs : e.stepped with
  | true => simp
  | false =>
      have hsent : tx.alt.jointFeedback g.jointNumber = g.rawCount := by
        simpa [h.idle hs] using h.sent
      simp only [hsent, Bool.false_eq_true, if_false, false_or]
      constructor <;> intro h <;> bv_omega

/-- A fresh reply: the buffer sent is inactive now, with the count of this moment. -/
theorem FedJoint.reply {tx : TxPingPongBuffer} {g : Stepgen fl} {e : Epoch} (h : FedJoint tx g e)
    (hfresh : tx.current.jointFeedback g.jointNumber = g.rawCount) (w : Word) :
    FedJoint (tx.swap.setAlt (tx.current.setHeader w)) g e.reply := by
  have hbefore : g.rawCount - e.net = tx.alt.jointFeedback g.jointNumber := by
    rw [← h.sent, BitVec.add_sub_cancel]
  refine ⟨?_, fun _ => rfl, ?_⟩
  · simp [Epoch.reply, hfresh]
  · simp [Epoch.reply, hfresh, hbefore]

/-- A run of the base thread: a joint that steps writes its count. -/
theorem FedJoint.tick {tx : TxPingPongBuffer} {g : Stepgen fl} {e : Epoch} (h : FedJoint tx g e)
    {a : Option Word} {t : TxData}
    (ht : t.jointFeedback g.jointNumber =
      if g.steps a = none then tx.current.jointFeedback g.jointNumber else (g.next a).rawCount) :
    FedJoint (tx.setCurrent t) (g.next a) (e.tick (g.steps a)) := by
  cases hstep : g.steps a with
  | none =>
      rw [if_pos hstep] at ht
      refine ⟨?_, ?_, ?_⟩
      · simpa [Epoch.tick_none, hstep, Stepgen.delta] using h.sent
      · simpa [Epoch.tick_none] using h.idle
      · simpa [Epoch.tick_none, hstep, Stepgen.delta, ht] using h.active
  | some d =>
      rw [if_neg (by simp [hstep])] at ht
      refine ⟨?_, ?_, ?_⟩
      · simp [Epoch.tick, hstep, ← h.sent, BitVec.add_assoc]
      · simp [Epoch.tick]
      · simp [Epoch.tick, ht]

/-- The invariant of the observed controller. -/
structure Fed (s : Controller fl × (ℕ → Epoch)) : Prop where
  joints : DistinctJoints s.1.baseThread
  fed : ∀ g ∈ s.1.baseThread, FedJoint s.1.txPingPongBuffer g (s.2 g.jointNumber)

/-- A servo run writes the inputs only. -/
theorem FedJoint.servo {tx : TxPingPongBuffer} {g : Stepgen fl} {e : Epoch} (h : FedJoint tx g e)
    {t : TxData}
    (ht : t.jointFeedback g.jointNumber = tx.current.jointFeedback g.jointNumber) :
    FedJoint (tx.setCurrent t) g e :=
  ⟨by simpa using h.sent, h.idle, by simpa [ht] using h.active⟩

theorem Fed.servoThreadRun {s : Controller fl × (ℕ → Epoch)} (h : Fed s) (gpio : ℕ → Bool) :
    Fed ((servoThreadRun s.1 gpio).1, s.2) := by
  unfold Remora.servoThreadRun
  split_ifs
  · refine ⟨h.joints, fun g hg => (h.fed g hg).servo ?_⟩
    exact jointFeedback_runServoModules _ _ _ _ (h.joints.2 g hg)
  · exact h

/-- Under the invariant a reply is fresh exactly when every joint is settled. -/
theorem Fed.freshReply_iff {s : Controller fl × (ℕ → Epoch)} (h : Fed s) (e : Event) :
    FreshReply s.1 e ↔ Controller.SettledReply s e := by
  cases e with
  | udp d =>
      rw [FreshReply, Controller.SettledReply]
      rcases s.1.udp_cases d with ⟨hr, hcall⟩ | ⟨hw, hcall⟩ | ⟨hr, hw, hcall⟩
      · simpa [hcall, hr] using forall₂_congr fun g hg => (h.fed g hg).fresh_iff
      · simpa [hcall, hw] using forall₂_congr fun g hg => (h.fed g hg).fresh_iff
      · simp [hcall, hr, hw]
  | baseTimer => exact Iff.rfl
  | servoTimer => exact Iff.rfl
  | pass gpio => exact Iff.rfl

/-- What touches neither generators nor tx buffers keeps the invariant. -/
theorem Fed.of_eq {s : Controller fl × (ℕ → Epoch)} (h : Fed s) {t : Controller fl}
    (hbase : t.baseThread = s.1.baseThread) (htx : t.txPingPongBuffer = s.1.txPingPongBuffer) :
    Fed (t, s.2) := by
  constructor
  · exact hbase ▸ h.joints
  · intro g hg
    rw [htx]
    exact h.fed g (hbase ▸ hg)

/-- A fresh reply ends the epoch of every joint. -/
theorem Fed.reply {s : Controller fl × (ℕ → Epoch)} (h : Fed s)
    (hfresh : ∀ g ∈ s.1.baseThread,
      s.1.txPingPongBuffer.current.jointFeedback g.jointNumber = g.rawCount)
    (w : Word) {t : Controller fl} (hbase : t.baseThread = s.1.baseThread)
    (htx : t.txPingPongBuffer =
      s.1.txPingPongBuffer.swap.setAlt (s.1.txPingPongBuffer.current.setHeader w)) :
    Fed (t, fun j => (s.2 j).reply) := by
  constructor
  · exact hbase ▸ h.joints
  · intro g hg
    have hg' : g ∈ s.1.baseThread := hbase ▸ hg
    rw [htx]
    exact (h.fed g hg').reply (hfresh g hg') w

/-- A datagram that is answered freshly keeps the invariant. -/
theorem Fed.udp {s : Controller fl × (ℕ → Epoch)} (h : Fed s) {d : Datagram}
    (hfresh : FreshReply s.1 (.udp d)) :
    Fed (watch Controller.step Controller.observe s (.udp d)) := by
  rw [FreshReply] at hfresh
  rw [watch, Controller.observe, Controller.step]
  rcases s.1.udp_cases d with ⟨hr, hcall⟩ | ⟨hw, hcall⟩ | ⟨hr, hw, hcall⟩
  · simp only [hcall, Option.mem_some_iff, forall_eq', TxData.jointFeedback_setHeader] at hfresh
    rw [if_pos (Or.inl hr), hcall]
    exact h.reply hfresh PRU_DATA rfl rfl
  · simp only [hcall, Option.mem_some_iff, forall_eq', TxData.jointFeedback_setHeader] at hfresh
    rw [if_pos (Or.inr hw), hcall]
    exact h.reply hfresh PRU_ACKNOWLEDGE rfl rfl
  · rw [if_neg (not_or.2 ⟨hr, hw⟩), hcall]
    exact h.of_eq rfl rfl

/-- A run of the base thread keeps the invariant: joints that step write their count. -/
theorem Fed.baseTimer {s : Controller fl × (ℕ → Epoch)} (h : Fed s) :
    Fed (watch Controller.step Controller.observe s .baseTimer) := by
  have hjoints := h.joints
  refine ⟨?_, fun g' hg' => ?_⟩
  · simpa [Controller.step, baseTimerTick] using hjoints.map_next _
  · simp only [watch_fst, Controller.step, baseTimerTick, thread_baseRun, List.mem_map] at hg'
    obtain ⟨g, hg, rfl⟩ := hg'
    have hstep : s.1.jointStep g.jointNumber =
        g.steps (g.command s.1.rxPingPongBuffer.current) := by
      rw [Controller.jointStep, hjoints.find?_eq hg, Option.bind_some]
    have hfeed := jointFeedback_baseRun (fun g => g.command s.1.rxPingPongBuffer.current)
      hjoints.1 hg (hjoints.2 g hg) s.1.txPingPongBuffer.current
    simpa [Controller.step, baseTimerTick, Controller.observe, hstep, getCurrentRxBuffer,
      getCurrentTxBuffer] using (h.fed g hg).tick hfeed

/-- A pass of core 1 keeps the invariant. -/
theorem Fed.pass {s : Controller fl × (ℕ → Epoch)} (h : Fed s) (gpio : ℕ → Bool) :
    Fed (watch Controller.step Controller.observe s (.pass gpio)) := by
  change Fed ((core1Pass s.1 gpio).1, s.2)
  rcases s.1.pass_cases gpio with ⟨-, hpass⟩ | ⟨-, hpass⟩ | ⟨-, -, hpass⟩
  · rw [hpass]
    exact h.of_eq rfl rfl
  · rw [hpass]
    exact h
  · rw [hpass]
    exact (h.servoThreadRun gpio).of_eq rfl rfl

/-- **A step that answers freshly keeps the invariant.** -/
theorem Fed.step {s : Controller fl × (ℕ → Epoch)} (h : Fed s) {e : Event}
    (hfresh : FreshReply s.1 e) : Fed (watch Controller.step Controller.observe s e) := by
  cases e with
  | udp d => exact h.udp hfresh
  | baseTimer => exact h.baseTimer
  | servoTimer => exact ⟨h.joints, h.fed⟩
  | pass gpio => exact h.pass gpio

theorem fed_start {gs : List (Stepgen fl)} (hjoints : DistinctJoints gs)
    (hnew : ∀ g ∈ gs, g.rawCount = 0) (ms : List ServoModule) (comms : RemoraComms) :
    Fed (Controller.start gs ms comms, fun _ => Epoch.first) := by
  refine ⟨hjoints, fun g hg => ⟨?_, fun _ => rfl, ?_⟩⟩
  · simp [Controller.start, Epoch.first, hnew g hg]
  · simp [Controller.start, Epoch.first]

/-- **Every reply carries the current counts**, along a run of any length and
order, exactly when at every reply each joint has stepped since the last one or
came out where it was between the two before. -/
theorem freshReplies_iff {gs : List (Stepgen fl)} (hjoints : DistinctJoints gs)
    (hnew : ∀ g ∈ gs, g.rawCount = 0) (ms : List ServoModule) (comms : RemoraComms)
    (es : List Event) :
    Along Controller.step FreshReply (Controller.start gs ms comms) es ↔
      Along (watch Controller.step Controller.observe) Controller.SettledReply
        (Controller.start gs ms comms, fun _ => Epoch.first) es := by
  rw [← along_watch Controller.step Controller.observe FreshReply
    (Controller.start gs ms comms, fun _ => Epoch.first)]
  exact along_iff_along (I := Fed) (fun _ e h => h.freshReply_iff e)
    (fun _ _ h hfresh => h.step hfresh) (fed_start hjoints hnew ms comms) es

instance (e : Epoch) : Decidable e.Settled := inferInstanceAs (Decidable (_ ∨ _))

instance (s : Controller fl) (e : Event) : Decidable (FreshReply s e) :=
  match e with
  | .udp d => inferInstanceAs (Decidable (∀ reply ∈ (udpDataCallback s d).2, _))
  | .baseTimer => inferInstanceAs (Decidable True)
  | .servoTimer => inferInstanceAs (Decidable True)
  | .pass _ => inferInstanceAs (Decidable True)

instance (s : Controller fl × (ℕ → Epoch)) (e : Event) :
    Decidable (Controller.SettledReply s e) :=
  match e with
  | .udp _ => inferInstanceAs (Decidable (_ → _))
  | .baseTimer => inferInstanceAs (Decidable True)
  | .servoTimer => inferInstanceAs (Decidable True)
  | .pass _ => inferInstanceAs (Decidable True)

/-- A read of `BUFFER_SIZE` bytes. -/
def readRequest : Datagram where
  payload := [0x64, 0x61, 0x65, 0x72] ++ List.replicate 64 0
  fits := by simp [BUFFER_SIZE]

/-- A write of `BUFFER_SIZE` bytes: joint 0 enabled, at 40000 steps a second. -/
def writeJoint0 : Datagram where
  payload := [0x74, 0x69, 0x72, 0x77, 0x40, 0x9c, 0, 0] ++ List.replicate 36 0 ++ [1] ++
    List.replicate 23 0
  fits := by simp [BUFFER_SIZE]

theorem distinctJoints_default (fl : FloatUnit) : DistinctJoints (defaultThread fl) := by
  simp [DistinctJoints, defaultThread, Stepgen.new, JOINTS]

theorem rawCount_default (fl : FloatUnit) : ∀ g ∈ defaultThread fl, g.rawCount = 0 := by
  simp [defaultThread, Stepgen.new]

/-- A joint that steps between any two replies is always fresh. -/
theorem freshReplies_moving :
    Along Controller.step FreshReply
      (Controller.start (defaultThread (exactFloat fun _ => 0)) [] ⟨false, false, 0⟩)
      [.udp writeJoint0, .baseTimer, .udp readRequest, .baseTimer, .udp readRequest] :=
  (freshReplies_iff (distinctJoints_default _) (rawCount_default _) [] ⟨false, false, 0⟩ _).2
    (by decide +kernel)

/-- One step, a read, and a read while the joint stands still: the second reply
has the count from before the step. -/
theorem not_freshReplies_standing :
    ¬Along Controller.step FreshReply
      (Controller.start (defaultThread (exactFloat fun _ => 0)) [] ⟨false, false, 0⟩)
      [.udp writeJoint0, .baseTimer, .udp readRequest, .udp readRequest] := by
  decide +kernel

end Remora
