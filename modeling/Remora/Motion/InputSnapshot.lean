/-
# The inputs of a reply

The servo thread walks over its input pins, each takes the tx buffer that is active
when its turn comes (the fetch) and then writes its own bit into it; `udp_data_callback`
swaps the tx buffers and sends the one that was active.  Here a walk is cut at every
fetch and every write, and a datagram may fall between any two steps.  Runs are
numbered from 1, and what run `r` samples on the pin of bit `b` is `sample r b`.  The
sample and the write are one step: nothing that core 0 does depends on the sample.
A walk that is not interrupted is that of the servo thread (`run_walk`).

Which run has written which bit of which buffer last does not depend on the levels:
it is read off the order of the steps alone (`Schedule`).  Whether replies are
snapshots whatever the pins show is a property of the schedule
(`snapshot_along_iff`).
-/

import Remora.Motion.Controller

namespace Remora

open Basis

/-- Input pins with data bits of their own. -/
structure InputPins where
  pins : List DigitalPin
  input : ∀ d ∈ pins, d.mode = 0
  bit : ∀ d ∈ pins, d.bitNumber ≤ 31
  distinct : (pins.map DigitalPin.bitNumber).Nodup

/-- The second half of `DigitalPin::update` for an input whose pin shows `pinState`. -/
def DigitalPin.writeInput (d : DigitalPin) (txData : TxData) (pinState : Bool) : TxData :=
  if d.inverted pinState then txData.setInputs (txData.inputs ||| d.mask)
  else txData.setInputs (txData.inputs &&& ~~~d.mask)

/-- The next step of core 1. -/
inductive ServoAt where
  /-- In no servo run: the next step starts one. -/
  | out
  /-- In the walk, with these inputs still to come; at its end the run is completed. -/
  | walk (rest : List DigitalPin)
  /-- The input `d` has taken the buffer `txData`, and writes its bit next. -/
  | fetched (txData : Fin 2) (d : DigitalPin) (rest : List DigitalPin)

/-- A step of one of the two cores. -/
inductive InputEvent where
  /-- Core 0 answers a `PRU_READ`. -/
  | read
  /-- Core 0 answers a `PRU_WRITE`. -/
  | write
  /-- Core 1 takes its next step. -/
  | core1

/-- The tx buffers, the place of core 1, and the number of servo runs started. -/
structure InputCores where
  tx : TxPingPongBuffer
  core1 : ServoAt
  runs : ℕ

namespace InputCores

/-- Zeroed buffers, and no run started. -/
def start : InputCores := ⟨.both TxData.zero, .out, 0⟩

/-- The reply to a datagram, from the buffer that was active. -/
def reply (s : InputCores) : InputEvent → Option TxData
  | .read => some ((getCurrentTxBuffer s.tx).setHeader PRU_DATA)
  | .write => some ((getCurrentTxBuffer s.tx).setHeader PRU_ACKNOWLEDGE)
  | .core1 => none

/-- The next step of core 1. -/
def core1Step (pins : List DigitalPin) (sample : ℕ → ℕ → Bool) (s : InputCores) : InputCores :=
  match s.core1 with
  | .out => { s with core1 := .walk pins, runs := s.runs + 1 }
  | .walk [] => { s with core1 := .out }
  | .walk (d :: rest) => { s with core1 := .fetched s.tx.index d rest }
  | .fetched i d rest =>
      { s with
        tx := s.tx.setAt i (d.writeInput (s.tx.buffers i) (sample s.runs d.bitNumber))
        core1 := .walk rest }

/-- The state after a step. -/
def step (pins : List DigitalPin) (sample : ℕ → ℕ → Bool) (s : InputCores) :
    InputEvent → InputCores
  | .read =>
      { s with tx := (swapTxBuffers s.tx).setAlt ((getCurrentTxBuffer s.tx).setHeader PRU_DATA) }
  | .write =>
      { s with
        tx := (swapTxBuffers s.tx).setAlt ((getCurrentTxBuffer s.tx).setHeader PRU_ACKNOWLEDGE) }
  | .core1 => s.core1Step pins sample

end InputCores

/-- What the order of the steps alone says. -/
structure Schedule where
  /-- `currentTxBuffer` -/
  current : Fin 2
  core1 : ServoAt
  /-- The servo runs started. -/
  runs : ℕ
  /-- The latest run completed, `0` before the first. -/
  completed : ℕ
  /-- The latest run completed before the last reply. -/
  reported : ℕ
  /-- The run that has written a bit of a buffer last, `0` for none. -/
  writer : Fin 2 → ℕ → ℕ

namespace Schedule

/-- Before the first run and the first reply. -/
def start : Schedule := ⟨InputCores.start.tx.index, .out, 0, 0, 0, fun _ _ => 0⟩

/-- The schedule after a step. -/
def step (pins : List DigitalPin) (g : Schedule) : InputEvent → Schedule
  | .read | .write => { g with current := PingPong.other g.current, reported := g.completed }
  | .core1 =>
      match g.core1 with
      | .out => { g with core1 := .walk pins, runs := g.runs + 1 }
      | .walk [] => { g with core1 := .out, completed := g.runs }
      | .walk (d :: rest) => { g with core1 := .fetched g.current d rest }
      | .fetched i d rest =>
          { g with
            core1 := .walk rest
            writer := fun j b => if j = i ∧ b = d.bitNumber then g.runs else g.writer j b }

/-- Every input bit of the buffer about to be sent was written last by the latest
run completed, once there is one. -/
def Current (pins : List DigitalPin) (g : Schedule) : InputEvent → Prop
  | .core1 => True
  | _ => g.completed ≠ 0 → ∀ d ∈ pins, g.writer g.current d.bitNumber = g.completed

/-- Servo runs and datagrams keep apart: no datagram falls into a run, and a run has
been completed since the last reply. -/
def Apart (g : Schedule) : InputEvent → Prop
  | .core1 => True
  | _ => g.core1 = .out ∧ (g.completed ≠ 0 → g.reported < g.completed)

/-- The run under way has written the active buffer, as far as it has come; so has the
one completed since the last reply. -/
def Whole (pins : List DigitalPin) (g : Schedule) : Prop :=
  match g.core1 with
  | .out => g.reported < g.completed →
      ∀ d ∈ pins, g.writer g.current d.bitNumber = g.completed
  | .walk rest => ∀ d ∈ pins, d ∉ rest → g.writer g.current d.bitNumber = g.runs
  | .fetched i d rest => i = g.current ∧
      ∀ d' ∈ pins, d' ∉ d :: rest → g.writer g.current d'.bitNumber = g.runs

end Schedule

/-- **The inputs of a reply are one current snapshot.**  After the first completed
run every input bit of a reply is the level, inverted or not, that the latest
completed run has sampled, and no reply goes back behind the one before it. -/
def Snapshot (pins : List DigitalPin) (sample : ℕ → ℕ → Bool) (s : InputCores × Schedule)
    (e : InputEvent) : Prop :=
  ∀ reply ∈ s.1.reply e, s.2.completed ≠ 0 →
    (∀ d ∈ pins,
      reply.inputs.getLsbD d.bitNumber = d.inverted (sample s.2.completed d.bitNumber)) ∧
    s.2.reported ≤ s.2.completed

namespace DigitalPin

theorem update_of_input {d : DigitalPin} (hd : d.mode = 0) (rx : RxData) (tx : TxData)
    (gpio : ℕ → Bool) : d.update rx tx gpio = (d.writeInput tx (gpio d.pin), []) := by
  rw [update, if_pos hd, writeInput]
  split_ifs <;> rfl

theorem inputs_setInputs (tx : TxData) (w : Word) : (tx.setInputs w).inputs = w :=
  Octets.leWord_setWord _ _ (by decide)

theorem getLsbD_mask (d : DigitalPin) (b : ℕ) :
    d.mask.getLsbD b = (decide (b < 32) && decide (b = d.bitNumber)) := by
  rw [mask, BitVec.getLsbD_shiftLeft, BitVec.getLsbD_one]
  rcases Nat.lt_trichotomy b d.bitNumber with h | h | h
  · simp [h, Nat.ne_of_lt h]
  · simp [h]
  · have hne : b - d.bitNumber ≠ 0 := by omega
    simp [Nat.not_lt_of_gt h, (Nat.ne_of_lt h).symm, hne]

/-- **An input writes its own bit.** -/
theorem getLsbD_writeInput (d : DigitalPin) (tx : TxData) (pinState : Bool) {b : ℕ}
    (hb : b ≤ 31) :
    (d.writeInput tx pinState).inputs.getLsbD b =
      if b = d.bitNumber then d.inverted pinState else tx.inputs.getLsbD b := by
  have hlt : b < 32 := by omega
  unfold writeInput
  cases hstate : d.inverted pinState <;>
    simp only [Bool.false_eq_true, if_false, if_true, inputs_setInputs, BitVec.getLsbD_or,
      BitVec.getLsbD_and, BitVec.getLsbD_not, getLsbD_mask, hlt, decide_true, Bool.true_and] <;>
    split_ifs with h <;> simp [h]

end DigitalPin

namespace TxData

@[simp] theorem inputs_setHeader (t : TxData) (w : Word) : (t.setHeader w).inputs = t.inputs :=
  Octets.leWord_setWord_of_disjoint _ _ (by omega)

end TxData

namespace InputCores

/-- **A walk that is not interrupted** is the walk of the servo thread. -/
theorem run_walk {pins rest : List DigitalPin} (hrest : ∀ d ∈ rest, d.mode = 0)
    {sample : ℕ → ℕ → Bool} {r : ℕ} {gpio : ℕ → Bool}
    (hsample : ∀ d ∈ rest, sample r d.bitNumber = gpio d.pin) (rx : RxData)
    (tx : TxPingPongBuffer) :
    run (step pins sample) ⟨tx, .walk rest, r⟩ (List.replicate (2 * rest.length) .core1) =
      ⟨tx.setCurrent (runServoModules rx gpio (rest.map .digitalPin) tx.current).2.1,
        .walk [], r⟩ := by
  induction rest generalizing tx with
  | nil => simp [runServoModules, PingPong.setCurrent, PingPong.current]
  | cons d rest ih =>
      have hd := hrest d (List.mem_cons_self ..)
      have htwo : 2 * (d :: rest).length = 2 * rest.length + 1 + 1 := by
        rw [List.length_cons]
        omega
      rw [htwo, List.replicate_succ, List.replicate_succ, run_cons, run_cons]
      have hstep : step pins sample (step pins sample ⟨tx, .walk (d :: rest), r⟩ .core1) .core1 =
          ⟨tx.setCurrent (d.writeInput tx.current (gpio d.pin)), .walk rest, r⟩ := by
        rw [← hsample d (List.mem_cons_self ..)]
        rfl
      rw [hstep, ih (fun d hd => hrest d (List.mem_cons_of_mem _ hd))
        (fun d hd => hsample d (List.mem_cons_of_mem _ hd)), PingPong.current_setCurrent]
      simp only [List.map_cons, runServoModules, ServoModule.update, d.update_of_input hd,
        PingPong.setCurrent, Function.update_idem]

/-- A datagram swaps as `udp_data_callback` does, and gets the same reply. -/
theorem tx_step_read {fl : FloatUnit} {c : Controller fl} {d : Datagram} (h : c.Reads d)
    {s : InputCores} (hs : s.tx = c.txPingPongBuffer) (pins : List DigitalPin)
    (sample : ℕ → ℕ → Bool) :
    (udpDataCallback c d).2 = s.reply .read ∧
      (udpDataCallback c d).1.txPingPongBuffer = (s.step pins sample .read).tx := by
  rcases c.udp_cases d with ⟨-, hcall⟩ | ⟨hw, -⟩ | ⟨hr, -, -⟩
  · rw [hcall, reply, step, hs]
    exact ⟨rfl, rfl⟩
  · exact absurd hw (Controller.not_writes_of_reads h)
  · exact absurd h hr

theorem tx_step_write {fl : FloatUnit} {c : Controller fl} {d : Datagram} (h : c.Writes d)
    {s : InputCores} (hs : s.tx = c.txPingPongBuffer) (pins : List DigitalPin)
    (sample : ℕ → ℕ → Bool) :
    (udpDataCallback c d).2 = s.reply .write ∧
      (udpDataCallback c d).1.txPingPongBuffer = (s.step pins sample .write).tx := by
  rcases c.udp_cases d with ⟨hr, -⟩ | ⟨-, hcall⟩ | ⟨-, hw, -⟩
  · exact absurd h (Controller.not_writes_of_reads hr)
  · rw [hcall, reply, step, hs]
    exact ⟨rfl, rfl⟩
  · exact absurd h hw

end InputCores

namespace ServoAt

/-- The inputs that are still to be written in the walk. -/
def pending : ServoAt → List DigitalPin
  | .out => []
  | .walk rest => rest
  | .fetched _ d rest => d :: rest

end ServoAt

/-- The schedule says of the buffers where their input bits come from. -/
structure Sourced (pins : List DigitalPin) (sample : ℕ → ℕ → Bool) (s : InputCores)
    (g : Schedule) : Prop where
  core1 : g.core1 = s.core1
  runs : g.runs = s.runs
  current : g.current = s.tx.index
  pending : ∀ d ∈ s.core1.pending, d ∈ pins
  started : s.runs = 0 → s.core1.pending = []
  order : g.reported ≤ g.completed ∧ g.completed ≤ g.runs
  bits : ∀ i, ∀ d ∈ pins, (s.tx.buffers i).inputs.getLsbD d.bitNumber =
    (decide (g.writer i d.bitNumber ≠ 0) &&
      d.inverted (sample (g.writer i d.bitNumber) d.bitNumber))

theorem sourced_start (pins : List DigitalPin) (sample : ℕ → ℕ → Bool) :
    Sourced pins sample InputCores.start Schedule.start where
  core1 := rfl
  runs := rfl
  current := rfl
  pending := by simp [InputCores.start, ServoAt.pending]
  started := fun _ => rfl
  order := ⟨Nat.le_refl _, Nat.le_refl _⟩
  bits i d _ := by
    have hzero : TxData.zero.inputs = 0 := by decide
    simp [InputCores.start, Schedule.start, PingPong.both, hzero]

/-- A swap leaves the input bits where they are. -/
theorem inputs_swap (tx : TxPingPongBuffer) (w : Word) (i : Fin 2) :
    (((swapTxBuffers tx).setAlt ((getCurrentTxBuffer tx).setHeader w)).buffers i).inputs =
      (tx.buffers i).inputs := by
  have halt : (1 - tx.swap.index : Fin 2) = tx.index := PingPong.one_sub_one_sub _
  rw [swapTxBuffers, PingPong.setAlt, halt]
  dsimp only
  rcases eq_or_ne i tx.index with rfl | hi
  · rw [Function.update_self, TxData.inputs_setHeader]
    rfl
  · rw [Function.update_of_ne hi]
    rfl

theorem Sourced.datagram {pins : List DigitalPin} {sample : ℕ → ℕ → Bool} {s : InputCores}
    {g : Schedule} (h : Sourced pins sample s g) (w : Word) :
    Sourced pins sample
      { s with tx := (swapTxBuffers s.tx).setAlt ((getCurrentTxBuffer s.tx).setHeader w) }
      { g with current := PingPong.other g.current, reported := g.completed } where
  core1 := h.core1
  runs := h.runs
  current := congrArg PingPong.other h.current
  pending := h.pending
  started := h.started
  order := ⟨Nat.le_refl _, h.order.2⟩
  bits i d hd := (congrArg (·.getLsbD d.bitNumber) (inputs_swap s.tx w i)).trans (h.bits i d hd)

/-- The write of an input changes one bit of one buffer, its own. -/
theorem Sourced.bits_write {p : InputPins} {sample : ℕ → ℕ → Bool} {s : InputCores}
    {g : Schedule} (h : Sourced p.pins sample s g) {d d' : DigitalPin} (hd : d ∈ p.pins)
    (hd' : d' ∈ p.pins) (hruns : g.runs ≠ 0) (i j : Fin 2) :
    ((s.tx.setAt i (d.writeInput (s.tx.buffers i) (sample s.runs d.bitNumber))).buffers
        j).inputs.getLsbD d'.bitNumber =
      (decide ((if j = i ∧ d'.bitNumber = d.bitNumber then g.runs
          else g.writer j d'.bitNumber) ≠ 0) &&
        d'.inverted (sample (if j = i ∧ d'.bitNumber = d.bitNumber then g.runs
          else g.writer j d'.bitNumber) d'.bitNumber)) := by
  rcases eq_or_ne j i with rfl | hj
  · rw [PingPong.buffers_setAt_self, DigitalPin.getLsbD_writeInput _ _ _ (p.bit d' hd')]
    rcases eq_or_ne d'.bitNumber d.bitNumber with hb | hb
    · obtain rfl := List.inj_on_of_nodup_map p.distinct hd' hd hb
      simp [hruns, ← h.runs]
    · simp [hb, h.bits j d' hd']
  · have hbuffer : (s.tx.setAt i (d.writeInput (s.tx.buffers i)
        (sample s.runs d.bitNumber))).buffers j = s.tx.buffers j := Function.update_of_ne hj ..
    rw [hbuffer, h.bits j d' hd']
    simp [hj]

/-- **A step keeps the schedule in step**: only the write of an input changes a bit, its own. -/
theorem Sourced.step {p : InputPins} {sample : ℕ → ℕ → Bool} {s : InputCores} {g : Schedule}
    (h : Sourced p.pins sample s g) (e : InputEvent) :
    Sourced p.pins sample (s.step p.pins sample e) (g.step p.pins e) := by
  cases e with
  | read => exact h.datagram PRU_DATA
  | write => exact h.datagram PRU_ACKNOWLEDGE
  | core1 =>
      have hpending := h.pending
      have hstarted := h.started
      simp only [InputCores.step, InputCores.core1Step, Schedule.step, h.core1]
      cases hc : s.core1 with
      | out =>
          exact ⟨rfl, congrArg (· + 1) h.runs, h.current, fun d hd => hd, fun h0 => by simp at h0,
            ⟨h.order.1, Nat.le_succ_of_le h.order.2⟩, h.bits⟩
      | walk rest =>
          rw [hc] at hpending hstarted
          cases rest with
          | nil =>
              exact ⟨rfl, h.runs, h.current, by simp [ServoAt.pending], fun _ => rfl,
                ⟨h.order.1.trans h.order.2, Nat.le_refl _⟩, h.bits⟩
          | cons d rest =>
              exact ⟨by simp [h.current], h.runs, h.current, hpending, hstarted, h.order, h.bits⟩
      | fetched i d rest =>
          rw [hc] at hpending hstarted
          have hne : s.runs ≠ 0 := fun h0 => List.cons_ne_nil _ _ (hstarted h0)
          exact ⟨rfl, h.runs, h.current, fun d' hd' => hpending d' (List.mem_cons_of_mem _ hd'),
            fun h0 => absurd h0 hne, h.order, fun j d' hd' =>
              h.bits_write (hpending d (List.mem_cons_self ..)) hd' (h.runs ▸ hne) i j⟩

/-- The reply shows the bits of the buffer that was active. -/
theorem inputs_reply {s : InputCores} {e : InputEvent} {reply : TxData} (h : reply ∈ s.reply e) :
    reply.inputs = s.tx.current.inputs := by
  cases e with
  | read => rw [← Option.some.inj h, TxData.inputs_setHeader]; rfl
  | write => rw [← Option.some.inj h, TxData.inputs_setHeader]; rfl
  | core1 => cases h

/-- A reply from bits that the latest completed run has written is its snapshot. -/
theorem Sourced.snapshot {pins : List DigitalPin} {sample : ℕ → ℕ → Bool} {s : InputCores}
    {g : Schedule} (h : Sourced pins sample s g) {e : InputEvent} (hcurrent : g.Current pins e) :
    Snapshot pins sample (s, g) e := by
  intro reply hreply hcompleted
  refine ⟨fun d hd => ?_, h.order.1⟩
  have hwriter : g.writer s.tx.index d.bitNumber = g.completed := by
    rw [← h.current]
    cases e with
    | read => exact hcurrent hcompleted d hd
    | write => exact hcurrent hcompleted d hd
    | core1 => cases hreply
  have hbit := h.bits s.tx.index d hd
  rw [hwriter] at hbit
  rw [inputs_reply hreply]
  refine hbit.trans ?_
  simp [show g.completed ≠ 0 from hcompleted]

/-- What the pin of `d` shows when run `r` reads as `1` and every other as `0`. -/
def only (d : DigitalPin) (r : ℕ) (r' _ : ℕ) : Bool := d.inverted (decide (r' = r))

/-- Levels that tell run `r` from all others show who has written the bit. -/
theorem Sourced.writer_of_snapshot {pins : List DigitalPin} {s : InputCores} {g : Schedule}
    {d : DigitalPin} (hd : d ∈ pins) (h : Sourced pins (only d g.completed) s g) {e : InputEvent}
    (he : e ≠ .core1) (hcompleted : g.completed ≠ 0)
    (hsnap : Snapshot pins (only d g.completed) (s, g) e) :
    g.writer g.current d.bitNumber = g.completed := by
  have honly : ∀ r, d.inverted (only d g.completed r d.bitNumber) = decide (r = g.completed) := by
    intro r
    unfold only DigitalPin.inverted
    split_ifs <;> simp
  obtain ⟨reply, hreply⟩ : ∃ reply, reply ∈ s.reply e := by
    cases e with
    | read => exact ⟨_, rfl⟩
    | write => exact ⟨_, rfl⟩
    | core1 => exact absurd rfl he
  have hbit := (hsnap reply hreply hcompleted).1 d hd
  have hfrom := h.bits s.tx.index d hd
  rw [inputs_reply hreply] at hbit
  rw [honly] at hbit hfrom
  have hboth : g.writer s.tx.index d.bitNumber ≠ 0 ∧
      g.writer s.tx.index d.bitNumber = g.completed := by
    simpa using hfrom.symm.trans hbit
  rw [h.current]
  exact hboth.2

/-- Replies that are snapshots whatever the pins show come from a schedule whose
replies are current. -/
theorem current_along_of_snapshot {p : InputPins} {g : Schedule} {es : List InputEvent}
    (h : ∀ sample, ∃ s, Sourced p.pins sample s g ∧
      Along (watch (InputCores.step p.pins sample) fun _ e g => g.step p.pins e)
        (Snapshot p.pins sample) (s, g) es) :
    Along (Schedule.step p.pins) (Schedule.Current p.pins) g es := by
  induction es generalizing g with
  | nil => trivial
  | cons e es ih =>
      refine ⟨?_, ih fun sample => ?_⟩
      · have hwriter : e ≠ .core1 → g.completed ≠ 0 →
            ∀ d ∈ p.pins, g.writer g.current d.bitNumber = g.completed := by
          intro he hcompleted d hd
          obtain ⟨s, hsourced, hsnap, -⟩ := h (only d g.completed)
          exact hsourced.writer_of_snapshot hd he hcompleted hsnap
        cases e with
        | read => exact hwriter (by simp)
        | write => exact hwriter (by simp)
        | core1 => trivial
      · obtain ⟨s, hsourced, -, hrest⟩ := h sample
        exact ⟨_, hsourced.step e, hrest⟩

/-- **Every reply shows one current snapshot of the inputs**, whatever the pins show,
exactly for those orders of steps in which every input bit of the buffer sent has
been written last by the latest completed run. -/
theorem snapshot_along_iff (p : InputPins) (es : List InputEvent) :
    (∀ sample, Along (watch (InputCores.step p.pins sample) fun _ e g => g.step p.pins e)
        (Snapshot p.pins sample) (InputCores.start, Schedule.start) es) ↔
      Along (Schedule.step p.pins) (Schedule.Current p.pins) Schedule.start es := by
  constructor
  · exact fun h => current_along_of_snapshot fun sample =>
      ⟨_, sourced_start p.pins sample, h sample⟩
  · intro h sample
    refine along_of_invariant (I := fun s : InputCores × Schedule => Sourced p.pins sample s.1 s.2)
      (A := fun s e => s.2.Current p.pins e) (fun _ e hs _ => hs.step e)
      (fun _ _ hs hcurrent => hs.snapshot hcurrent) (sourced_start p.pins sample) ?_
    exact (along_watch_snd (InputCores.step p.pins sample) (Schedule.step p.pins)
      (Schedule.Current p.pins) (InputCores.start, Schedule.start) es).2 h

/-- A datagram outside the runs leaves nothing to be whole. -/
theorem Schedule.Whole.datagram {pins : List DigitalPin} {g : Schedule} (hout : g.core1 = .out) :
    Whole pins { g with current := PingPong.other g.current, reported := g.completed } := by
  simp only [Whole, hout]
  exact fun h => absurd h (Nat.lt_irrefl _)

theorem Schedule.Whole.step {pins : List DigitalPin} {g : Schedule} (h : g.Whole pins)
    {e : InputEvent} (he : g.Apart e) : (g.step pins e).Whole pins := by
  cases e with
  | read => exact Whole.datagram he.1
  | write => exact Whole.datagram he.1
  | core1 =>
      unfold Whole at h
      unfold Schedule.step
      cases hc : g.core1 with
      | out => exact fun d hd hnot => absurd hd hnot
      | walk rest =>
          rw [hc] at h
          cases rest with
          | nil => exact fun _ d hd => h d hd List.not_mem_nil
          | cons d rest => exact ⟨rfl, h⟩
      | fetched i d rest =>
          rw [hc] at h
          obtain ⟨rfl, h⟩ := h
          intro d' hd' hnot
          dsimp only
          rcases eq_or_ne d'.bitNumber d.bitNumber with hb | hb
          · rw [if_pos ⟨rfl, hb⟩]
          · rw [if_neg fun hboth => hb hboth.2]
            refine h d' hd' fun hmem => ?_
            rcases List.mem_cons.1 hmem with rfl | hmem
            · exact hb rfl
            · exact hnot hmem

/-- **It is enough that runs and datagrams keep apart**: no datagram in a servo run, and
a run completed between any two replies. -/
theorem current_along_of_apart (pins : List DigitalPin) {es : List InputEvent}
    (h : Along (Schedule.step pins) Schedule.Apart Schedule.start es) :
    Along (Schedule.step pins) (Schedule.Current pins) Schedule.start es := by
  have hstart : Schedule.start.Whole pins := fun hlt : 0 < 0 => absurd hlt (Nat.lt_irrefl 0)
  refine along_of_invariant (I := Schedule.Whole pins) (fun _ _ hg he => hg.step he) ?_ hstart h
  intro g e hg he
  have hcurrent : g.core1 = .out → (g.completed ≠ 0 → g.reported < g.completed) →
      g.completed ≠ 0 → ∀ d ∈ pins, g.writer g.current d.bitNumber = g.completed := by
    intro hout hlt hcompleted
    unfold Schedule.Whole at hg
    rw [hout] at hg
    exact hg (hlt hcompleted)
  cases e with
  | read => exact hcurrent he.1 he.2
  | write => exact hcurrent he.1 he.2
  | core1 => trivial

/-- One input on bit 0. -/
def oneInput : InputPins where
  pins := [⟨0, 11, 0, false⟩]
  input := by simp
  bit := by simp
  distinct := by simp

/-- Two reads after one run: the second is answered from a buffer that no run has written. -/
theorem not_snapshot_along :
    ¬∀ sample, Along (watch (InputCores.step oneInput.pins sample) fun _ e g =>
        g.step oneInput.pins e) (Snapshot oneInput.pins sample)
      (InputCores.start, Schedule.start)
      [.core1, .core1, .core1, .core1, .read, .read] := by
  intro h
  obtain ⟨-, -, -, -, -, hread, -⟩ := h fun _ _ => true
  have hbit := (hread _ rfl (by decide)).1 _ (List.mem_singleton_self _)
  exact absurd hbit (by decide)

end Remora
