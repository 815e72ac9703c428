/-
# A step on a partly cleared packet

`ST_RESET` clears the active buffer byte by byte, the last byte first, and the base
thread runs as an interrupt between any two of them.  `jointEnable` stands behind
the frequencies, so the loop has cleared it before it comes to the first of their
bytes: a joint that is still enabled has its whole frequency, and a joint whose
frequency is partly cleared is disabled.

`Clearing` is the invariant of the loop, and of what follows until a write swaps
the buffers.
-/

import Remora.Motion.LateReset

namespace Remora

open Basis

variable {fl : FloatUnit}

namespace RxData

/-- The packet with its bytes from `n` on cleared. -/
def clearedFrom (r : RxData) (n : ℕ) : RxData :=
  ⟨fun i => if n ≤ i.val then 0 else r.rxBuffer i⟩

@[simp] theorem clearedFrom_size (r : RxData) : r.clearedFrom BUFFER_SIZE = r :=
  congrArg RxData.mk (funext fun i => if_neg i.isLt.not_ge)

@[simp] theorem clearedFrom_zero (r : RxData) : r.clearedFrom 0 = zero :=
  congrArg RxData.mk (funext fun _ => if_pos (Nat.zero_le _))

theorem clearByte_clearedFrom (r : RxData) (n : ℕ) :
    (r.clearedFrom (n + 1)).clearByte n = r.clearedFrom n := by
  simp only [clearedFrom, clearByte]
  congr 1
  funext i
  split_ifs <;> first | rfl | omega

@[simp] theorem clearByte_zero (n : ℕ) : zero.clearByte n = zero :=
  congrArg RxData.mk (funext fun _ => ite_self _)

theorem get_clearedFrom (r : RxData) {n i : ℕ} (h : i < n) :
    (r.clearedFrom n).rxBuffer.get i = r.rxBuffer.get i := by
  unfold Octets.get clearedFrom
  split_ifs
  · exact if_neg h.not_ge
  · rfl

/-- Until the loop has passed `jointEnable` the frequencies are whole. -/
theorem jointFreqCmd_clearedFrom (r : RxData) {n j : ℕ} (hn : 44 < n) (hj : j < JOINTS) :
    (r.clearedFrom n).jointFreqCmd j = r.jointFreqCmd j :=
  leWord_congr fun i hi => r.get_clearedFrom (by simp only [JOINTS] at hj; omega)

/-- Then `jointEnable` is zero. -/
theorem jointEnable_clearedFrom (r : RxData) {n : ℕ} (hn : n ≤ 44) :
    (r.clearedFrom n).jointEnable = 0 := by
  unfold jointEnable clearedFrom Octets.get
  split_ifs
  · exact if_pos hn
  · rfl

end RxData

namespace Stepgen

/-- **Whole or off**: what `makePulses` finds in the packet `now`.  The joint is
enabled, as in the packet `before`, with the same frequency and so with the same
effect; or it is disabled, and nothing changes. -/
def WholeOrOff (g : Stepgen fl) (before now : RxData) (txData : TxData) : Prop :=
  (g.isEnabled now = true ∧ now.jointFreqCmd g.jointNumber = before.jointFreqCmd g.jointNumber ∧
    g.makePulses now txData = g.makePulses before txData) ∨
  (g.isEnabled now = false ∧ g.makePulses now txData = (g, txData, []))

/-- A disabled joint does nothing. -/
theorem makePulses_of_not_isEnabled {g : Stepgen fl} {rxData : RxData}
    (h : g.isEnabled rxData = false) (txData : TxData) :
    g.makePulses rxData txData = (g, txData, []) := by
  rw [makePulses, command, h]
  rfl

/-- Wherever the loop stands, the joint is whole or off. -/
theorem wholeOrOff_clearedFrom {g : Stepgen fl} (hj : g.jointNumber < JOINTS) (r : RxData) (n : ℕ)
    (txData : TxData) : g.WholeOrOff r (r.clearedFrom n) txData := by
  cases hen : g.isEnabled (r.clearedFrom n) with
  | false => exact Or.inr ⟨hen, makePulses_of_not_isEnabled hen txData⟩
  | true =>
      have hn : 44 < n := by
        by_contra hn
        rw [isEnabled, r.jointEnable_clearedFrom (not_lt.1 hn)] at hen
        simp at hen
      have hfreq := r.jointFreqCmd_clearedFrom hn hj
      have henable : (r.clearedFrom n).jointEnable = r.jointEnable := r.get_clearedFrom hn
      have hcommand : g.command (r.clearedFrom n) = g.command r := by
        rw [command, command, isEnabled, isEnabled, henable, hfreq]
      exact Or.inl ⟨hen, hfreq, congrArg (g.pulse txData) hcommand⟩

end Stepgen

namespace Stepwise

/-- The event swaps no rx buffers. -/
def Unswapped (s : Stepwise fl) : StepEvent → Prop
  | .udp d _ => ¬s.shared.Writes d
  | _ => True

/-- The loop is under way in the active buffer, which held `before`, or every byte
of that buffer is zero. -/
def Clearing (before : RxData) (s : Stepwise fl) : Prop :=
  (∃ n, s.core1 = .clear s.shared.rxPingPongBuffer.index n ∧
    s.shared.rxPingPongBuffer.current = before.clearedFrom n) ∨
  s.shared.rxPingPongBuffer.current = RxData.zero

/-- Steps that leave core 1 and the active buffer alone. -/
theorem Clearing.congr {before : RxData} {s t : Stepwise fl} (h : s.Clearing before)
    (hcore : t.core1 = s.core1)
    (hindex : t.shared.rxPingPongBuffer.index = s.shared.rxPingPongBuffer.index)
    (hcurrent : t.shared.rxPingPongBuffer.current = s.shared.rxPingPongBuffer.current) :
    t.Clearing before := by
  rcases h with ⟨n, hc, hn⟩ | hz
  · exact Or.inl ⟨n, by rw [hcore, hindex, hc], hcurrent.trans hn⟩
  · exact Or.inr (hcurrent.trans hz)

/-- Only the loop writes the buffers. -/
theorem rx_core1Step {s : Stepwise fl} (h : ∀ i n, s.core1 ≠ .clear i (n + 1))
    (gpio : ℕ → Bool) :
    (s.core1Step gpio).shared.rxPingPongBuffer = s.shared.rxPingPongBuffer := by
  unfold core1Step
  cases hc : s.core1 with
  | enter => cases s.shared.currentState <;> simp
  | test => cases s.shared.currentState <;> dsimp only <;> split_ifs <;> rfl
  | clear i n =>
      cases n with
      | zero => rfl
      | succ n => exact absurd hc (h i n)

/-- One byte of the loop. -/
theorem Clearing.byte {before : RxData} {s : Stepwise fl} (h : s.Clearing before) {i : Fin 2}
    {n : ℕ} (hc : s.core1 = .clear i (n + 1)) (gpio : ℕ → Bool) :
    (s.core1Step gpio).Clearing before := by
  rw [core1Step_clear hc gpio]
  rcases h with ⟨m, hm, hcurrent⟩ | hz
  · obtain ⟨rfl, rfl⟩ := PassAt.clear.inj (hc.symm.trans hm)
    refine Or.inl ⟨n, rfl, ?_⟩
    rw [← before.clearByte_clearedFrom n, ← hcurrent]
    exact PingPong.buffers_setAt_self _ _ _
  · refine Or.inr ?_
    rcases eq_or_ne i s.shared.rxPingPongBuffer.index with rfl | hi
    · refine (PingPong.buffers_setAt_self _ _ _).trans ?_
      rw [show s.shared.rxPingPongBuffer.buffers s.shared.rxPingPongBuffer.index = RxData.zero
        from hz, RxData.clearByte_zero]
    · exact (PingPong.current_setAt_of_ne _ _ hi).trans hz

/-- **Every step keeps the invariant** that swaps no rx buffers. -/
theorem Clearing.step {before : RxData} {s : Stepwise fl} (h : s.Clearing before) {e : StepEvent}
    (he : s.Unswapped e) : (s.step e).Clearing before := by
  cases e with
  | udp d full =>
      have hstep : s.step (.udp d full) = { s with shared := (udpDataCallback s.shared d).1 } := rfl
      rw [hstep]
      rcases s.shared.udp_cases d with ⟨-, hcall⟩ | ⟨hw, -⟩ | ⟨-, -, hcall⟩
      · exact h.congr rfl (by simp [hcall]) (by simp [hcall])
      · exact absurd hw he
      · exact h.congr rfl (by simp [hcall]) (by simp [hcall])
  | baseTimer => exact h.congr rfl rfl rfl
  | servoTimer => exact h.congr rfl rfl rfl
  | core1 gpio =>
      by_cases hloop : ∃ i n, s.core1 = .clear i (n + 1)
      · obtain ⟨i, n, hc⟩ := hloop
        exact h.byte hc gpio
      · -- not in the loop, or at its end: then every byte is zero
        have hrx := rx_core1Step (fun i n hc => hloop ⟨i, n, hc⟩) gpio
        refine Or.inr ((congrArg PingPong.current hrx).trans ?_)
        rcases h with ⟨n, hc, hn⟩ | hz
        · cases n with
          | zero => rw [hn, RxData.clearedFrom_zero]
          | succ n => exact absurd ⟨_, n, hc⟩ hloop
        · exact hz

theorem clearing_run {before : RxData} {s : Stepwise fl} (h : s.Clearing before)
    {es : List StepEvent} (hes : Along step Unswapped s es) : (run step s es).Clearing before := by
  induction es generalizing s with
  | nil => exact h
  | cons e es ih => exact ih (h.step hes.1) hes.2

/-- Under the invariant the active buffer is one that the loop goes through. -/
theorem Clearing.exists_clearedFrom {before : RxData} {s : Stepwise fl} (h : s.Clearing before) :
    ∃ n, s.shared.rxPingPongBuffer.current = before.clearedFrom n := by
  rcases h with ⟨n, -, hn⟩ | hz
  · exact ⟨n, hn⟩
  · exact ⟨0, by rw [hz, RxData.clearedFrom_zero]⟩

/-- **Clearing the command buffer is safe at every instant.**  From the start of the
loop, at every point that a run without a swap reaches, `makePulses` finds every
joint whole or off, whatever the buffers held. -/
theorem wholeOrOff_of_unswapped (c : Controller fl) {es : List StepEvent}
    (hes : Along step Unswapped ⟨c, .clear c.rxPingPongBuffer.index BUFFER_SIZE⟩ es)
    (g : Stepgen fl) (hj : g.jointNumber < JOINTS) (txData : TxData) :
    g.WholeOrOff (getCurrentRxBuffer c.rxPingPongBuffer)
      (getCurrentRxBuffer (run step ⟨c, .clear c.rxPingPongBuffer.index BUFFER_SIZE⟩
        es).shared.rxPingPongBuffer) txData := by
  have hstart : Clearing c.rxPingPongBuffer.current
      ⟨c, .clear c.rxPingPongBuffer.index BUFFER_SIZE⟩ :=
    Or.inl ⟨BUFFER_SIZE, rfl, (RxData.clearedFrom_size _).symm⟩
  obtain ⟨n, hn⟩ := (clearing_run hstart hes).exists_clearedFrom
  rw [getCurrentRxBuffer, getCurrentRxBuffer, hn]
  exact Stepgen.wholeOrOff_clearedFrom hj _ n txData

/-- The command of a controller that is about to reset: it enables joint 0. -/
def lastCommand : RxData := ⟨fun i => if i.val = 44 then 1 else 0xFF⟩

/-- Two bytes of `lastCommand` cleared, with a tick of the base timer between them. -/
theorem wholeOrOff_of_unswapped_two :
    (Stepgen.new PRU_BASEFREQ 0 8 9 STEPBIT : Stepgen (exactFloat fun _ => 0)).WholeOrOff
      lastCommand
      (getCurrentRxBuffer (run step
        (⟨⟨.both lastCommand, .both TxData.zero, [], [], false, ⟨false, false, 0⟩, .ST_RESET⟩,
          .clear 0 BUFFER_SIZE⟩ : Stepwise (exactFloat fun _ => 0))
        [.core1 fun _ => false, .baseTimer, .core1 fun _ => false]).shared.rxPingPongBuffer)
      TxData.zero := by
  have hes : Along step Unswapped
      (⟨⟨.both lastCommand, .both TxData.zero, [], [], false, ⟨false, false, 0⟩, .ST_RESET⟩,
        .clear 0 BUFFER_SIZE⟩ : Stepwise (exactFloat fun _ => 0))
      [.core1 fun _ => false, .baseTimer, .core1 fun _ => false] :=
    And.intro trivial (And.intro trivial (And.intro trivial trivial))
  exact wholeOrOff_of_unswapped _ hes _ (Nat.zero_lt_succ 5) TxData.zero

end Stepwise
end Remora
