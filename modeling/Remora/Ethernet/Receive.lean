/-
# Receiving through the driver

`getSn_RX_RSR`, `wiz_recv_data` and `wiz_recv_ignore` of `w5500.c`, and what uses
them: `recv_lwip` and `EthernetTasks`, statement by statement on the bus.

`Framing` takes the receive buffer for a queue of bytes.  Here it is a ring behind
registers that are read a byte at a time, while frames come in.  What the host knows
of a prompt chip at any moment is a `View`, which counts a `RECV` from its write on, and
the chip's turn can only lengthen it (`Shows.tick`).  `Sn_RX_RSR` is read twice, and what
is read twice alike has stood in the register in between (`rsrLoop_eq`); the one value
for which the driver does not read it again is zero, and that it can put together from
two lengths neither of which is zero.  Such a call finds nothing, and leaves everything
to the next.
-/

import Remora.Ethernet.W5500

namespace Remora

open Basis

namespace Driver

/-- The loop of `getSn_RX_RSR`, with the value of `val` before a round. -/
def rsrLoop (addrSel : Word) : ℕ → BitVec 16 → Driver (BitVec 16)
  | 0, _ => fun _ => none
  | fuel + 1, val => do
      let val1 ← getWord addrSel
      let val ← if val1 ≠ 0 then getWord addrSel else pure val
      if val = val1 then return val else rsrLoop addrSel fuel val

/-- `getSn_RX_RSR`.  Once nothing more happens, one round is like the next. -/
def getSnRxRsr (sn : ℕ) : Driver (BitVec 16) := fun b =>
  rsrLoop (Sn_RX_RSR sn) (b.todo.length + 1) 0 b

/-- The address of a pointer in the receive ring. -/
def rxAddress (sn : ℕ) (ptr : BitVec 16) : Word :=
  ptr.setWidth 32 <<< 8 + BitVec.ofNat 32 (WIZCHIP_RXBUF_BLOCK sn <<< 3)

/-- `wiz_recv_data` -/
def wizRecvData (sn : ℕ) (len : BitVec 16) : Driver (List Byte) :=
  if len = 0 then return []
  else do
    let ptr ← getWord (Sn_RX_RD sn)
    let wizdata ← wizchipReadBuf (rxAddress sn ptr) len.toNat
    setWord (Sn_RX_RD sn) (ptr + len)
    return wizdata

/-- `wiz_recv_ignore` -/
def wizRecvIgnore (sn : ℕ) (len : BitVec 16) : Driver Unit := do
  let ptr ← getWord (Sn_RX_RD sn)
  setWord (Sn_RX_RD sn) (ptr + len)

/-- `recv_lwip`: the bytes written from `buf` on, and the result. -/
def recvLwip (sn : ℕ) (len : BitVec 16) : Driver (List Byte × BitVec 16) := do
  let packLen ← getSnRxRsr sn
  if packLen > 0 then
    let head ← wizRecvData sn 2
    setSnCr sn Sn_CR_RECV
    -- the two bytes of the length, which counts itself
    let packLen := (head.getD 0 0).setWidth 16
    let packLen := packLen <<< 8 + (head.getD 1 0).setWidth 16
    let packLen := packLen - 2
    if packLen > len then
      wizRecvIgnore sn packLen
      setSnCr sn Sn_CR_RECV
      return ([], 0)
    else
      let buf ← wizRecvData sn packLen
      setSnCr sn Sn_CR_RECV
      return (buf, packLen)
  else return ([], packLen)

/-- `EthernetTasks`: the frames handed to `g_netif.input` so far, and the number of
bytes written into `pack`. -/
def ethernetTasks (input : List (List Byte)) (pbufAlloc : Bool) :
    Driver (List (List Byte) × ℕ) := do
  let packLen ← getSnRxRsr 0
  if packLen > 0 then
    let r ← recvLwip 0 packLen
    if r.2 ≠ 0 then return (if pbufAlloc then input ++ [r.1] else input, r.1.length)
    else return (input, r.1.length)
  else return (input, 0)

end Driver

/-- What the host knows of the chip: the bytes that wait, how many of them it has read
without a `RECV`, the frames taken in so far, and the transmit half, which is idle. -/
structure View where
  bytes : List Byte
  skip : ℕ
  received : List EthernetFrame
  tx : TxSocket

/-- Frames have come in. -/
def View.extend (v : View) (frames : List EthernetFrame) : View :=
  { v with bytes := v.bytes ++ records frames, received := v.received ++ frames }

/-- The host has read `n` of the bytes. -/
def View.ahead (v : View) (n : ℕ) : View := { v with skip := n }

/-- The host is through with `n` of the bytes. -/
def View.consume (v : View) (n : ℕ) : View := { v with bytes := v.bytes.drop n, skip := 0 }

/-- The transmit half is another. -/
def View.setTx (v : View) (tx : TxSocket) : View := { v with tx := tx }

/-- The host gives the bytes read back to the chip. -/
def View.release (v : View) : View := { v with bytes := v.bytes.drop v.skip, skip := 0 }

/-- The chip is prompt, and as the host knows it once a `RECV` that waits is processed. -/
structure Shows (b : Bus) (v : View) : Prop where
  pending : b.chip.rx.settled.pending = v.bytes
  rd : b.chip.rx.rd = b.chip.rx.settled.done + BitVec.ofNat 16 v.skip
  skip : v.skip ≤ v.bytes.length
  bound : v.bytes.length ≤ RX_MEMORY
  received : b.chip.rx.received = v.received
  tx : b.chip.tx = v.tx
  outcome : b.chip.outcome = 0
  idle : v.tx.sending = none
  behind : b.chip.Behind
  prompt : Prompt b.todo

@[simp] theorem View.extend_nil (v : View) : v.extend [] = v := by simp [extend]

theorem View.extend_extend (v : View) (frames frames' : List EthernetFrame) :
    (v.extend frames).extend frames' = v.extend (frames ++ frames') := by
  simp [extend]

theorem View.length_extend (v : View) (frames : List EthernetFrame) :
    v.bytes.length ≤ (v.extend frames).bytes.length := by
  simp [extend]

theorem View.release_ahead (v : View) {n : ℕ} (hn : n ≤ v.bytes.length)
    (frames frames' : List EthernetFrame) :
    (((v.extend frames).ahead n).extend frames').release =
      (v.consume n).extend (frames ++ frames') := by
  simp only [release, ahead, extend, consume, records_append, List.append_assoc,
    List.drop_append_of_le_length hn]

/-- From one moment to a later one, while `frames` come in: what is left of the schedule. -/
structure Passed (todo todo' : List (List ChipEvent)) (frames : List EthernetFrame) : Prop where
  length : todo'.length ≤ todo.length
  quiet : todo = [] → frames = []

namespace Passed

theorem refl (todo : List (List ChipEvent)) : Passed todo todo [] := ⟨Nat.le_refl _, fun _ => rfl⟩

theorem trans {todo todo' todo'' : List (List ChipEvent)} {frames frames' : List EthernetFrame}
    (h : Passed todo todo' frames) (h' : Passed todo' todo'' frames') :
    Passed todo todo'' (frames ++ frames') := by
  refine ⟨Nat.le_trans h'.length h.length, fun hquiet => ?_⟩
  have hlen := h.length
  rw [hquiet, List.length_nil, Nat.le_zero, List.length_eq_zero_iff] at hlen
  rw [h.quiet hquiet, h'.quiet hlen, List.nil_append]

theorem tick {b : Bus} {frames : List EthernetFrame}
    (h : Chip.Elapsed b.chip.settled b.tick.chip.settled frames) :
    Passed b.todo b.tick.todo frames := by
  refine ⟨by rw [Bus.length_todo_tick]; exact Nat.sub_le .., fun hquiet => ?_⟩
  have hreceived := h.received
  rw [Bus.tick_of_nil hquiet, Chip.settled_settled] at hreceived
  exact List.append_right_eq_self.1 hreceived.symm

end Passed

theorem Bus.elapsed_iterate_tick {b : Bus} (h : b.chip.Behind) (n : ℕ) :
    ∃ frames, Chip.Elapsed b.chip.settled (Bus.tick^[n] b).chip.settled frames ∧
      (Bus.tick^[n] b).chip.Behind ∧ Passed b.todo (Bus.tick^[n] b).todo frames := by
  induction n with
  | zero => exact ⟨[], Chip.Elapsed.refl _, h, Passed.refl _⟩
  | succ n ih =>
      obtain ⟨frames, helapsed, hbehind, hpassed⟩ := ih
      obtain ⟨frames', helapsed', hbehind'⟩ := Bus.elapsed_tick hbehind
      rw [Function.iterate_succ_apply']
      exact ⟨frames ++ frames', helapsed.trans helapsed', hbehind',
        hpassed.trans (Passed.tick helapsed')⟩

theorem Prompt.iterate_tick {b : Bus} (h : Prompt b.todo) (n : ℕ) :
    Prompt (Bus.tick^[n] b).todo := by
  induction n with
  | zero => exact h
  | succ n ih =>
      rw [Function.iterate_succ_apply']
      exact ih.tick

namespace Shows

variable {b : Bus} {v : View}

/-- The receive half, whatever happens to the other. -/
theorem later {b₂ b' : Bus} {c₁ : Chip} {frames : List EthernetFrame} (h : Shows b v)
    (hrx : c₁.rx = b.chip.rx) (h' : Chip.Elapsed c₁.settled b₂.chip.settled frames)
    (hbehind : b₂.chip.Behind) (hprompt : Prompt b'.todo) (hrx' : b'.chip.rx = b₂.chip.rx)
    (hidle : b'.chip.tx.sending = none) (houtcome : b'.chip.outcome = 0) :
    Shows b' ((v.setTx b'.chip.tx).extend frames) := by
  have hpending : b'.chip.rx.settled.pending = (v.extend frames).bytes := by
    have helapsed : b₂.chip.rx.settled.pending = c₁.rx.settled.pending ++ records frames :=
      h'.pending
    rw [hrx', helapsed, hrx, h.pending]
    rfl
  refine ⟨hpending, ?_, Nat.le_trans h.skip (v.length_extend frames), ?_, ?_, rfl, houtcome,
    hidle, ?_, hprompt⟩
  · have hdone : b₂.chip.rx.settled.done = c₁.rx.settled.done := h'.done
    have hrd : b₂.chip.rx.settled.rd = c₁.rx.settled.rd := h'.rd
    rw [b₂.chip.rx.settled_fixed.1, c₁.rx.settled_fixed.1] at hrd
    rw [hrx', hrd, hdone, hrx, h.rd]
    rfl
  · have hbound : c₁.settled.rx.pending.length ≤ RX_MEMORY := by
      rw [Chip.settled, hrx, h.pending]
      exact h.bound
    have hbound' : b₂.chip.rx.settled.pending.length ≤ RX_MEMORY := h'.bound hbound
    rwa [← hrx', hpending] at hbound'
  · have hreceived : b₂.chip.rx.settled.received = c₁.rx.settled.received ++ frames := h'.received
    rw [b₂.chip.rx.settled_fixed.2, c₁.rx.settled_fixed.2] at hreceived
    rw [hrx', hreceived, hrx, h.received]
    rfl
  · rw [Chip.Behind, hrx']
    exact hbehind

theorem elapsed {b' : Bus} {frames : List EthernetFrame} (h : Shows b v)
    (h' : Chip.Elapsed b.chip.settled b'.chip.settled frames) (hbehind : b'.chip.Behind)
    (hprompt : Prompt b'.todo) : Shows b' (v.extend frames) := by
  obtain ⟨htx, houtcome⟩ := h'.idle (h.tx.symm ▸ h.idle)
  have htx : b'.chip.tx = b.chip.tx := htx
  have houtcome : b'.chip.outcome = b.chip.outcome := houtcome
  have hlater := h.later rfl h' hbehind hprompt rfl (htx.symm ▸ h.tx.symm ▸ h.idle)
    (houtcome.trans h.outcome)
  rwa [htx, h.tx] at hlater

/-- **The chip's turn** lengthens the view. -/
theorem tick (h : Shows b v) :
    ∃ frames, Shows b.tick (v.extend frames) ∧ Passed b.todo b.tick.todo frames := by
  obtain ⟨frames, h', hbehind⟩ := Bus.elapsed_tick h.behind
  exact ⟨frames, h.elapsed h' hbehind h.prompt.tick, Passed.tick h'⟩

/-- Some turns of the chip. -/
theorem iterate_tick (h : Shows b v) (n : ℕ) :
    ∃ frames, Shows (Bus.tick^[n] b) (v.extend frames) ∧
      Passed b.todo (Bus.tick^[n] b).todo frames := by
  obtain ⟨frames, h', hbehind, hpassed⟩ := Bus.elapsed_iterate_tick h.behind n
  exact ⟨frames, h.elapsed h' hbehind (h.prompt.iterate_tick n), hpassed⟩

/-- `Sn_RX_RSR` is the number of bytes that wait, once no `RECV` does. -/
theorem toNat_rsr (h : Shows b v) (hrecv : b.chip.rx.recv = false) :
    b.chip.rx.rsr.toNat = v.bytes.length := by
  rw [RxSocket.toNat_rsr, ← h.pending, RxSocket.settled_of_not_recv hrecv]

end Shows

namespace Driver

variable {b : Bus} {v : View}

/-- What is put together from the bytes of a register at two moments. -/
def torn (v v' : BitVec 16) : BitVec 16 := highByte v ++ lowByte v'

theorem toNat_torn (v v' : BitVec 16) :
    (torn v v').toNat = v.toNat / 256 * 256 + v'.toNat % 256 := by
  rw [torn, ← Records.beHalf, Records.toNat_beHalf, toNat_highByte, toNat_lowByte]

/-- `Sn_RX_RSR` is read a byte at a time. -/
theorem getWord_rsr (b : Bus) :
    getWord (Sn_RX_RSR 0) b =
      some (torn b.tick.chip.rx.rsr b.tick.tick.chip.rx.rsr, b.tick.tick) :=
  getWord_sreg (by decide) b

/-- A round of the loop. -/
theorem rsrLoop_succ (fuel : ℕ) (val : BitVec 16) (b : Bus) :
    rsrLoop (Sn_RX_RSR 0) (fuel + 1) val b =
      if torn b.tick.chip.rx.rsr b.tick.tick.chip.rx.rsr ≠ 0 then
        if torn b.tick.tick.tick.chip.rx.rsr b.tick.tick.tick.tick.chip.rx.rsr =
            torn b.tick.chip.rx.rsr b.tick.tick.chip.rx.rsr then
          some (torn b.tick.tick.tick.chip.rx.rsr b.tick.tick.tick.tick.chip.rx.rsr,
            b.tick.tick.tick.tick)
        else rsrLoop (Sn_RX_RSR 0) fuel
          (torn b.tick.tick.tick.chip.rx.rsr b.tick.tick.tick.tick.chip.rx.rsr)
          b.tick.tick.tick.tick
      else if val = torn b.tick.chip.rx.rsr b.tick.tick.chip.rx.rsr then some (val, b.tick.tick)
      else rsrLoop (Sn_RX_RSR 0) fuel val b.tick.tick := by
  rw [rsrLoop, bind_of_eq_some (getWord_rsr b)]
  by_cases hne : torn b.tick.chip.rx.rsr b.tick.tick.chip.rx.rsr ≠ 0
  · rw [if_pos hne, if_pos hne, bind_of_eq_some (getWord_rsr b.tick.tick)]
    dsimp only
    split_ifs <;> rfl
  · rw [if_neg hne, if_neg hne, bind_of_eq_some (x := pure val) rfl]
    dsimp only
    split_ifs <;> rfl

/-- What a call of `getSn_RX_RSR` returns while `frames` come in: zero, if nothing
waited or something came in; or the number of bytes that waited at some moment. -/
def Counted (v : View) (frames : List EthernetFrame) (val : BitVec 16) : Prop :=
  val = 0 ∧ (v.bytes = [] ∨ frames ≠ []) ∨
    val ≠ 0 ∧ ∃ before after, frames = before ++ after ∧
      val.toNat = (v.extend before).bytes.length

theorem Counted.later {v : View} {frames frames' : List EthernetFrame} {val : BitVec 16}
    (h : Counted (v.extend frames) frames' val) : Counted v (frames ++ frames') val := by
  rcases h with ⟨hzero, hwait⟩ | ⟨hne, before, after, hsplit, hlen⟩
  · refine Or.inl ⟨hzero, ?_⟩
    by_cases hframes : frames = []
    · rw [hframes, View.extend_nil] at hwait
      rwa [hframes, List.nil_append]
    · exact Or.inr fun h => hframes (List.append_eq_nil_iff.1 h).1
  · refine Or.inr ⟨hne, frames ++ before, after, by rw [hsplit, List.append_assoc], ?_⟩
    rw [hlen, View.extend_extend]

/-- **The loop of `getSn_RX_RSR`** ends, and returns what it has read twice alike. -/
theorem rsrLoop_eq (h : Shows b v) {fuel : ℕ} (hfuel : b.todo.length < fuel)
    (val : BitVec 16) (hval : v.bytes = [] → val = 0) :
    ∃ r b' frames, rsrLoop (Sn_RX_RSR 0) fuel val b = some (r, b') ∧
      Shows b' (v.extend frames) ∧ Passed b.todo b'.todo frames ∧
      b'.todo.length ≤ b.todo.length - 1 ∧ Counted v frames r := by
  induction fuel generalizing b v val with
  | zero => exact absurd hfuel (Nat.not_lt_zero _)
  | succ fuel ih =>
      -- the lengths at the four moments at which a byte is read
      obtain ⟨f₁, h₁, hp₁⟩ := h.tick
      obtain ⟨f₂, h₂, hp₂⟩ := h₁.tick
      obtain ⟨f₃, h₃, hp₃⟩ := h₂.tick
      obtain ⟨f₄, h₄, hp₄⟩ := h₃.tick
      have hrsr₁ := h₁.toNat_rsr h.prompt.recv_tick
      have hrsr₂ := h₂.toNat_rsr h₁.prompt.recv_tick
      have hrsr₃ := h₃.toNat_rsr h₂.prompt.recv_tick
      have hrsr₄ := h₄.toNat_rsr h₃.prompt.recv_tick
      have hquiet₁ := hp₁.quiet
      have hle₁ := v.length_extend f₁
      have hle₂ := (v.extend f₁).length_extend f₂
      have hle₃ := ((v.extend f₁).extend f₂).length_extend f₃
      have hle₄ := (((v.extend f₁).extend f₂).extend f₃).length_extend f₄
      simp only [View.extend_extend, List.append_assoc] at h₂ h₃ h₄ hle₂ hle₃ hle₄ hrsr₂ hrsr₃ hrsr₄
      have hp₂ := hp₁.trans hp₂
      have hp₄ := hp₂.trans (hp₃.trans hp₄)
      rw [List.append_assoc] at hp₄
      have hfirst := toNat_torn b.tick.chip.rx.rsr b.tick.tick.chip.rx.rsr
      have hsecond := toNat_torn b.tick.tick.tick.chip.rx.rsr b.tick.tick.tick.tick.chip.rx.rsr
      rw [hrsr₁, hrsr₂] at hfirst
      rw [hrsr₃, hrsr₄] at hsecond
      have hquiet : b.todo = [] → torn b.tick.tick.tick.chip.rx.rsr
          b.tick.tick.tick.tick.chip.rx.rsr = torn b.tick.chip.rx.rsr b.tick.tick.chip.rx.rsr :=
        fun htodo => by simp only [Bus.tick_tick_of_nil htodo]
      have hexact : b.todo = [] →
          (torn b.tick.chip.rx.rsr b.tick.tick.chip.rx.rsr).toNat = v.bytes.length :=
        fun htodo => by
          rw [hquiet₁ htodo, View.extend_nil] at hrsr₁
          rw [Bus.tick_tick_of_nil htodo, toNat_torn, hrsr₁]
          omega
      have htodo₂ : b.tick.tick.todo.length ≤ b.todo.length - 1 := by
        simp only [Bus.length_todo_tick]
        omega
      have htodo₄ : b.tick.tick.tick.tick.todo.length ≤ b.todo.length - 1 := by
        simp only [Bus.length_todo_tick]
        omega
      set val₁ := torn b.tick.chip.rx.rsr b.tick.tick.chip.rx.rsr with hval₁
      set val₂ := torn b.tick.tick.tick.chip.rx.rsr b.tick.tick.tick.tick.chip.rx.rsr with hval₂
      have hzero : ∀ x : BitVec 16, x = 0 ↔ x.toNat = 0 := fun x =>
        ⟨fun hx => by rw [hx]; rfl, fun hx => BitVec.eq_of_toNat_eq hx⟩
      rw [rsrLoop_succ, ← hval₁, ← hval₂]
      split_ifs with hne hagree hagree
      · -- the high byte has not changed since the first moment, so the second is exact
        refine ⟨val₂, _, _, rfl, h₄, hp₄, htodo₄, Or.inr ⟨hagree.symm ▸ hne, f₁ ++ f₂, f₃ ++ f₄,
          by simp, ?_⟩⟩
        rw [hagree, hfirst]
        rw [hagree, hfirst] at hsecond
        omega
      · have htodo : b.todo ≠ [] := fun htodo => hagree (hquiet htodo)
        have hpos := List.length_pos_iff.2 htodo
        obtain ⟨r, b', frames, hrun, hshows, hpassed, hlen, hcounted⟩ :=
          ih h₄ (by omega) val₂ fun hnil => (hzero _).2 (by
            rw [hnil, List.length_nil] at hle₄ hsecond
            omega)
        rw [View.extend_extend] at hshows
        exact ⟨r, b', _, hrun, hshows, hp₄.trans hpassed, by omega, hcounted.later⟩
      · -- zero, and zero before: nothing waited, unless something has come in
        refine ⟨val, _, _, rfl, h₂, hp₂, htodo₂, Or.inl ⟨hagree.trans (not_not.1 hne), ?_⟩⟩
        by_cases hframes : f₁ ++ f₂ = []
        · obtain ⟨rfl, rfl⟩ := List.append_eq_nil_iff.1 hframes
          rw [(hzero _).1 (not_not.1 hne)] at hfirst
          simp only [List.append_nil, View.extend_nil] at hfirst
          exact Or.inl (List.length_eq_zero_iff.1 (by omega))
        · exact Or.inr hframes
      · have htodo : b.todo ≠ [] := fun htodo => by
          have hlen := hexact htodo
          rw [(hzero _).1 (not_not.1 hne)] at hlen
          exact hagree ((hval (List.length_eq_zero_iff.1 hlen.symm)).trans (not_not.1 hne).symm)
        have hpos := List.length_pos_iff.2 htodo
        obtain ⟨r, b', frames, hrun, hshows, hpassed, hlen, hcounted⟩ :=
          ih h₂ (by omega) val fun hnil => hval (by
            rw [hnil, List.length_nil] at hle₂
            exact List.length_eq_zero_iff.1 (by omega))
        rw [View.extend_extend] at hshows
        exact ⟨r, b', _, hrun, hshows, hp₂.trans hpassed, by omega, hcounted.later⟩

/-- **`getSn_RX_RSR`** -/
theorem getSnRxRsr_eq (h : Shows b v) :
    ∃ r b' frames, getSnRxRsr 0 b = some (r, b') ∧ Shows b' (v.extend frames) ∧
      Passed b.todo b'.todo frames ∧ b'.todo.length ≤ b.todo.length - 1 ∧ Counted v frames r :=
  rsrLoop_eq h (Nat.lt_succ_self _) 0 fun _ => rfl

/-- The chip does not touch `Sn_RX_RD`, nor what a `RECV` has told it. -/
theorem pointers_tick (b : Bus) :
    b.tick.chip.rx.rd = b.chip.rx.rd ∧
      b.tick.chip.rx.settled.done = b.chip.rx.settled.done := by
  have hstep : ∀ (c : Chip) (e : ChipEvent),
      (c.step e).rx.rd = c.rx.rd ∧ (c.step e).rx.settled.done = c.rx.settled.done := by
    intro c e
    cases e with
    | frame f =>
        rw [Chip.step]
        split_ifs
        · exact ⟨rfl, (congrArg RxSocket.done (c.rx.settled_arrive f)).trans rfl⟩
        · exact ⟨rfl, rfl⟩
    | accepted => exact ⟨rfl, rfl⟩
    | released =>
        exact ⟨c.rx.settled_fixed.1, congrArg RxSocket.done c.rx.settled_settled⟩
    | sent =>
        rw [Chip.step, Chip.finish]
        cases c.tx.sending <;> exact ⟨rfl, rfl⟩
  exact run_invariant (I := fun c => c.rx.rd = b.chip.rx.rd ∧
      c.rx.settled.done = b.chip.rx.settled.done)
    (fun c e h => ⟨(hstep c e).1.trans h.1, (hstep c e).2.trans h.2⟩) ⟨rfl, rfl⟩ _

theorem done_iterate_tick (n : ℕ) (b : Bus) :
    (Bus.tick^[n] b).chip.rx.settled.done = b.chip.rx.settled.done := by
  induction n generalizing b with
  | zero => rfl
  | succ n ih =>
      rw [Function.iterate_succ_apply, ih]
      exact (pointers_tick b).2

theorem getWord_rd (b : Bus) :
    getWord (Sn_RX_RD 0) b = some (b.chip.rx.rd, b.tick.tick) := by
  have hword : getWord (Sn_RX_RD 0) b =
      some (highByte b.tick.chip.rx.rd ++ lowByte b.tick.tick.chip.rx.rd, b.tick.tick) :=
    getWord_sreg (by decide) b
  rw [hword, (pointers_tick b.tick).1, (pointers_tick b).1, highByte_append_lowByte]

/-- `Sn_RX_RD` is written. -/
def setRd (c : Chip) (rd : BitVec 16) : Chip := { c with rx := { c.rx with rd := rd } }

/-- With no `RECV` waiting, the chip goes on whatever stands in `Sn_RX_RD`. -/
theorem step_setRd {c : Chip} (h : c.rx.recv = false) (rd : BitVec 16) (e : ChipEvent) :
    (setRd c rd).step e = setRd (c.step e) rd := by
  cases e with
  | frame f =>
      by_cases hroom : c.rx.HasRoom f
      · have hroom' : (setRd c rd).rx.HasRoom f := hroom
        rw [Chip.step, Chip.step, if_pos hroom, if_pos hroom']
        rfl
      · have hroom' : ¬(setRd c rd).rx.HasRoom f := hroom
        rw [Chip.step, Chip.step, if_neg hroom, if_neg hroom']
  | accepted => rfl
  | released =>
      have hsettled : c.settled = c :=
        congrArg (fun rx => { c with rx := rx }) (RxSocket.settled_of_not_recv h)
      have hsettled' : (setRd c rd).settled = setRd c rd :=
        congrArg (fun rx => { c with rx := rx })
          (RxSocket.settled_of_not_recv (s := { c.rx with rd := rd }) h)
      rw [Chip.step, Chip.step, hsettled, hsettled']
  | sent =>
      simp only [Chip.step, Chip.finish, setRd]
      cases c.tx.sending <;> rfl

theorem tick_setRd {chip : Chip} (h : chip.rx.recv = false) (todo : List (List ChipEvent))
    (rd : BitVec 16) :
    (Bus.mk (setRd chip rd) todo).tick =
      ⟨setRd (Bus.mk chip todo).tick.chip rd, (Bus.mk chip todo).tick.todo⟩ := by
  have hrun : ∀ (es : List ChipEvent) (c : Chip), c.rx.recv = false →
      run Chip.step (setRd c rd) es = setRd (run Chip.step c es) rd := by
    intro es
    induction es with
    | nil => exact fun _ _ => rfl
    | cons e es ih =>
        intro c hc
        rw [run_cons, step_setRd hc, ih _ (Chip.recv_step hc e), run_cons]
  exact congrArg (Bus.mk · todo.tail) (hrun _ chip h)

theorem setWord_rd (ptr : BitVec 16) {b : Bus} (h : Prompt b.todo) :
    setWord (Sn_RX_RD 0) ptr b = some ((), ⟨setRd b.tick.tick.chip ptr, b.tick.tick.todo⟩) := by
  obtain ⟨hhigh, hlow⟩ := ushiftRight_setWidth ptr
  have hfirst : wizchipWrite (Sn_RX_RD 0) ((ptr >>> 8).setWidth 8) b =
      some ((), ⟨setRd b.tick.chip (highByte ptr ++ lowByte b.tick.chip.rx.rd), b.tick.todo⟩) := by
    rw [hhigh]
    exact wizchipWrite_sreg (by decide) _ b
  have hsecond : ∀ b' : Bus, wizchipWrite (WIZCHIP_OFFSET_INC (Sn_RX_RD 0) 1) (ptr.setWidth 8) b' =
      some ((), ⟨setRd b'.tick.chip (highByte b'.tick.chip.rx.rd ++ lowByte ptr),
        b'.tick.todo⟩) := by
    intro b'
    rw [hlow, Sn_RX_RD, offsetInc_sreg]
    exact wizchipWrite_sreg (by decide) _ b'
  rw [setWord, bind_of_eq_some hfirst, hsecond, tick_setRd h.recv_tick]
  have hrd : (highByte (highByte ptr ++ lowByte b.tick.chip.rx.rd) ++ lowByte ptr) = ptr := by
    rw [highByte_append, highByte_append_lowByte]
  exact congrArg (fun rd => some ((), Bus.mk (setRd b.tick.tick.chip rd) b.tick.tick.todo)) hrd

/-- **A burst out of the receive ring** reads what waited when it began. -/
theorem readBytes_rx {d : SpiData} {ptr : BitVec 16} (hblock : d.block = 3)
    (hoffset : ∀ i, d.offset i = ptr + BitVec.ofNat 16 i) (h : Shows b v)
    (hptr : b.chip.rx.settled.done = ptr) {i n : ℕ} (hn : i + n ≤ v.bytes.length) :
    readBytes d i n b = some ((v.bytes.drop i).take n, Bus.tick^[n] b) := by
  induction n generalizing i b v with
  | zero => rfl
  | succ n ih =>
      obtain ⟨frames, h', -⟩ := h.tick
      have hdone : b.tick.chip.rx.settled.done = ptr := (pointers_tick b).2.trans hptr
      have hlen := v.length_extend frames
      have hcell : b.tick.chip.read d i = v.bytes[i] := by
        have hget := h'.pending
        have hdone' := hdone
        rw [h.prompt.settled_tick] at hget hdone'
        rw [RxSocket.pending, Ring.queue] at hget
        have hi : i < (b.tick.chip.rx.wr - b.tick.chip.rx.done).toNat := by
          rw [← RxSocket.rsr, h'.toNat_rsr h.prompt.recv_tick]
          omega
        have hread := congrArg (·[i]?) hget
        simp only [Ring.read, List.getElem?_map, List.getElem?_range hi, Option.map_some] at hread
        rw [View.extend, List.getElem?_append_left (by omega),
          List.getElem?_eq_getElem (by omega), Option.some_inj] at hread
        rw [Chip.read, if_neg (by omega), if_neg (by omega), if_pos hblock, hoffset, ← hread,
          hdone']
        rfl
      have htail := ih h' hdone (i := i + 1) (by omega)
      rw [readBytes]
      dsimp only
      rw [htail, Function.iterate_succ_apply, hcell]
      refine congrArg some (Prod.ext ?_ rfl)
      dsimp only
      rw [View.extend, List.drop_append_of_le_length (by omega),
        List.take_append_of_le_length (by rw [List.length_drop]; omega),
        List.drop_eq_getElem_cons (show i < v.bytes.length by omega), List.take_succ_cons]

/-- A pointer that is moved on is ahead of the last `RECV`. -/
theorem shows_setRd (h : Shows b v) (hrecv : b.chip.rx.recv = false) {n : ℕ}
    (hn : n ≤ v.bytes.length) :
    Shows ⟨setRd b.chip (b.chip.rx.settled.done + BitVec.ofNat 16 n), b.todo⟩ (v.ahead n) := by
  have hsettled := RxSocket.settled_of_not_recv hrecv
  have hmoved : ∀ rd, ({ b.chip.rx with rd := rd } : RxSocket).settled =
      { b.chip.rx with rd := rd } := fun rd => RxSocket.settled_of_not_recv hrecv
  have hpending := h.pending
  rw [hsettled] at hpending ⊢
  refine ⟨?_, ?_, hn, h.bound, h.received, h.tx, h.outcome, h.idle, ?_, h.prompt⟩
  · rw [setRd]
    dsimp only
    rw [hmoved]
    exact hpending
  · rw [setRd]
    dsimp only
    rw [hmoved]
    rfl
  · rw [Chip.Behind, setRd]
    dsimp only
    rw [hmoved]

/-- **`wiz_recv_data`** takes the bytes at the front. -/
theorem wizRecvData_eq (h : Shows b v) (hskip : v.skip = 0) {len : BitVec 16}
    (hlen : len.toNat ≤ v.bytes.length) :
    ∃ b' frames, wizRecvData 0 len b = some (v.bytes.take len.toNat, b') ∧
      Shows b' ((v.extend frames).ahead len.toNat) ∧ Passed b.todo b'.todo frames := by
  have hrd : b.chip.rx.rd = b.chip.rx.settled.done := by
    rw [h.rd, hskip]
    exact BitVec.add_zero _
  by_cases hzero : len = 0
  · refine ⟨b, [], ?_, ?_, Passed.refl _⟩
    · rw [wizRecvData, if_pos hzero, hzero]
      rfl
    · rw [View.extend_nil, hzero, View.ahead]
      exact ⟨h.pending, hrd.trans (BitVec.add_zero _).symm, Nat.zero_le _, h.bound, h.received,
        h.tx, h.outcome, h.idle, h.behind, h.prompt⟩
  · obtain ⟨frames, h₂, hp₂⟩ := h.iterate_tick 2
    have hblock32 : WIZCHIP_RXBUF_BLOCK 0 < 32 := by decide
    obtain ⟨hblock, hoffset⟩ := spiData_ring b.chip.rx.settled.done hblock32 (Or.inl rfl)
    have hlen₂ := v.length_extend frames
    have hburst : wizchipReadBuf (rxAddress 0 b.chip.rx.settled.done) len.toNat b.tick.tick =
        some (((v.extend frames).bytes.drop 0).take len.toNat, Bus.tick^[len.toNat] b.tick.tick) :=
      readBytes_rx hblock hoffset h₂ (done_iterate_tick 2 b) (by omega)
    have htake : ((v.extend frames).bytes.drop 0).take len.toNat = v.bytes.take len.toNat := by
      rw [List.drop_zero, View.extend, List.take_append_of_le_length hlen]
    obtain ⟨frames', h₃, hp₃⟩ := h₂.iterate_tick len.toNat
    obtain ⟨frames'', h₄, hp₄⟩ := h₃.iterate_tick 2
    have hrecv := h₃.prompt.tick.recv_tick
    rw [View.extend_extend, View.extend_extend] at h₄
    have hlen₄ := v.length_extend (frames ++ (frames' ++ frames''))
    have h₅ := shows_setRd h₄ hrecv (Nat.le_trans hlen hlen₄)
    rw [done_iterate_tick, done_iterate_tick, done_iterate_tick, BitVec.ofNat_toNat,
      BitVec.setWidth_eq] at h₅
    refine ⟨_, _, ?_, h₅, ?_⟩
    · rw [wizRecvData, if_neg hzero, bind_of_eq_some (getWord_rd b), hrd,
        bind_of_eq_some hburst, htake,
        bind_of_eq_some (setWord_rd (b := Bus.tick^[len.toNat] b.tick.tick) _ h₃.prompt)]
      rfl
    · exact hp₂.trans (hp₃.trans hp₄)

/-- **`RECV`** gives the bytes read back to the chip. -/
theorem setSnCr_recv (h : Shows b v) :
    ∃ b' frames, setSnCr 0 Sn_CR_RECV b = some ((), b') ∧
      Shows b' (v.extend frames).release ∧ Passed b.todo b'.todo frames := by
  obtain ⟨frames, h', hpassed⟩ := h.tick
  refine ⟨_, frames, wizchipWrite_sreg (by decide) _ b, ?_, hpassed⟩
  have hchip : b.tick.chip.setRegister 0x01 Sn_CR_RECV =
      { b.tick.chip with cr := Sn_CR_RECV, rx := { b.tick.chip.rx with recv := true } } := rfl
  have hsettled : ({ b.tick.chip.rx with recv := true } : RxSocket).settled =
      { b.tick.chip.rx with done := b.tick.chip.rx.rd, recv := false } := rfl
  have hbytes := h'.pending
  have hrd := h'.rd
  rw [h.prompt.settled_tick] at hbytes hrd
  have hdrop := Ring.queue_drop RX_MEMORY b.tick.chip.rx.mem b.tick.chip.rx.done b.tick.chip.rx.wr
    (v.extend frames).skip (by
      rw [← RxSocket.pending, hbytes]
      exact h'.skip)
  have hpending : ({ b.tick.chip.rx with done := b.tick.chip.rx.rd, recv := false } :
      RxSocket).pending = (v.extend frames).release.bytes := by
    rw [RxSocket.pending]
    dsimp only
    rw [hrd, hdrop, ← RxSocket.pending, hbytes, View.release]
  have hshorter : (v.extend frames).release.bytes.length ≤ (v.extend frames).bytes.length := by
    rw [View.release, List.length_drop]
    exact Nat.sub_le _ _
  rw [hchip]
  refine ⟨?_, ?_, Nat.zero_le _, Nat.le_trans hshorter h'.bound, h'.received, h'.tx, h'.outcome,
    h'.idle, ?_, h'.prompt⟩
  · dsimp only
    rw [hsettled]
    exact hpending
  · dsimp only
    rw [hsettled]
    exact (BitVec.add_zero _).symm
  · rw [Chip.Behind]
    dsimp only
    rw [hsettled, hpending]
    exact Nat.le_trans hshorter (Nat.le_of_eq (congrArg List.length hbytes).symm)

/-- Bytes are read, and given back. -/
theorem wizRecvData_recv (h : Shows b v) (hskip : v.skip = 0) {len : BitVec 16}
    (hlen : len.toNat ≤ v.bytes.length) :
    ∃ b' b'' frames, wizRecvData 0 len b = some (v.bytes.take len.toNat, b') ∧
      setSnCr 0 Sn_CR_RECV b' = some ((), b'') ∧
      Shows b'' ((v.consume len.toNat).extend frames) ∧ Passed b.todo b''.todo frames := by
  obtain ⟨b', frames, hdata, h', hpassed⟩ := wizRecvData_eq h hskip hlen
  obtain ⟨b'', frames', hrecv, h'', hpassed'⟩ := setSnCr_recv h'
  rw [v.release_ahead hlen] at h''
  exact ⟨b', b'', frames ++ frames', hdata, hrecv, h'', hpassed.trans hpassed'⟩

/-- **`recv_lwip` on a queue that starts with a record**: it takes the record, or finds
nothing because a frame has come in. -/
theorem recvLwip_eq (h : Shows b v) (hskip : v.skip = 0) {f : EthernetFrame}
    {rest : List EthernetFrame} (hbytes : v.bytes = records (f :: rest)) {len : BitVec 16}
    (hlen : f.bytes.length ≤ len.toNat) :
    ∃ r b' frames, recvLwip 0 len b = some (r, b') ∧ Passed b.todo b'.todo frames ∧
      (r = ([], 0) ∧ frames ≠ [] ∧ Shows b' (v.extend frames) ∨
        r = (f.bytes, BitVec.ofNat 16 f.bytes.length) ∧
          Shows b' ((v.consume (f.bytes.length + 2)).extend frames)) := by
  obtain ⟨packLen, b₁, f₁, hrsr, h₁, hp₁, -, hcounted⟩ := getSnRxRsr_eq h
  rw [recvLwip, bind_of_eq_some hrsr]
  have hrecord : v.bytes = Records.record f.bytes ++ records rest := by rw [hbytes, records_cons]
  rcases hcounted with ⟨rfl, hwait⟩ | ⟨hne, -⟩
  · have hnone : ¬(0 : BitVec 16) > 0 := by decide
    refine ⟨([], 0), b₁, f₁, by rw [if_neg hnone]; rfl, hp₁, Or.inl ⟨rfl, ?_, h₁⟩⟩
    refine hwait.resolve_left fun hnil => ?_
    rw [hnil, Records.record, Records.header] at hrecord
    cases hrecord
  · have hsize := f.fits
    have hpos : packLen > 0 := (BitVec.pos_iff_ne_zero _).2 hne
    -- the two bytes of the length
    have hfront : v.bytes.length = f.bytes.length + 2 + (records rest).length := by
      rw [hrecord, List.length_append, Records.length_record]
    have hle₁ := v.length_extend f₁
    obtain ⟨b₂, b₃, f₂, hhead, hrecv, h₃, hp₃⟩ :=
      wizRecvData_recv h₁ hskip (show (2 : BitVec 16).toNat ≤ (v.extend f₁).bytes.length by
        rw [show (2 : BitVec 16).toNat = 2 from rfl]
        omega)
    have htake : (v.extend f₁).bytes.take (2 : BitVec 16).toNat =
        [BitVec.ofNat 8 ((f.bytes.length + 2) / 256), BitVec.ofNat 8 (f.bytes.length + 2)] := by
      rw [View.extend, hrecord, Records.record, Records.header]
      rfl
    rw [htake] at hhead
    have hpack := Link.toNat_packLen (Records.toNat_beHalf_header
      (show f.bytes.length + 2 < 65536 by omega))
    set packLen' := ((BitVec.ofNat 8 ((f.bytes.length + 2) / 256)).setWidth 16 <<< 8 +
      (BitVec.ofNat 8 (f.bytes.length + 2)).setWidth 16 - 2 : BitVec 16) with hpackLen'
    have hpack' : packLen' = BitVec.ofNat 16 f.bytes.length := by
      rw [← hpack, BitVec.ofNat_toNat, BitVec.setWidth_eq]
    have hsmall : ¬packLen' > len := by
      rw [gt_iff_lt, BitVec.lt_def, hpack]
      omega
    -- the body
    have hdrop : (v.bytes.drop 2).take f.bytes.length = f.bytes := by
      rw [hrecord, Records.record, Records.header]
      simp
    have hle₂ := (v.consume 2).length_extend (f₁ ++ f₂)
    have hconsume : (v.extend f₁).consume 2 = (v.consume 2).extend f₁ := by
      simp only [View.consume, View.extend, List.drop_append_of_le_length
        (show 2 ≤ v.bytes.length by omega)]
    rw [show (2 : BitVec 16).toNat = 2 from rfl, hconsume, View.extend_extend] at h₃
    have hbody : packLen'.toNat ≤ ((v.consume 2).extend (f₁ ++ f₂)).bytes.length := by
      rw [hpack]
      simp only [View.extend, View.consume, List.length_append, List.length_drop]
      omega
    obtain ⟨b₄, b₅, f₃, hbuf, hrecv', h₅, hp₅⟩ := wizRecvData_recv h₃ rfl hbody
    have htake' : ((v.consume 2).extend (f₁ ++ f₂)).bytes.take packLen'.toNat = f.bytes := by
      rw [hpack, View.extend, View.consume, List.take_append_of_le_length (by
        rw [List.length_drop]
        omega), hdrop]
    rw [htake'] at hbuf
    refine ⟨(f.bytes, packLen'), b₅, f₁ ++ f₂ ++ f₃, ?_, (hp₁.trans hp₃).trans hp₅,
      Or.inr ⟨by rw [hpack'], ?_⟩⟩
    · rw [if_pos hpos, bind_of_eq_some hhead, bind_of_eq_some hrecv, List.getD_cons_zero,
        List.getD_cons_succ, List.getD_cons_zero, ← hpackLen', if_neg hsmall,
        bind_of_eq_some hbuf, bind_of_eq_some hrecv']
      rfl
    · have hdone : ((v.consume 2).extend (f₁ ++ f₂)).consume packLen'.toNat =
          (v.consume (f.bytes.length + 2)).extend (f₁ ++ f₂) := by
        simp only [View.consume, View.extend, hpack, List.drop_append_of_le_length
          (show f.bytes.length ≤ (v.bytes.drop 2).length by rw [List.length_drop]; omega),
          List.drop_drop, Nat.add_comm 2]
      rw [hdone, View.extend_extend] at h₅
      exact h₅

/-- The frames handed on when one has been read. -/
def handOn (input : List (List Byte)) (f : EthernetFrame) (pbufAlloc : Bool) : List (List Byte) :=
  if f.bytes ≠ [] ∧ pbufAlloc = true then input ++ [f.bytes] else input

theorem ofNat_length_ne_zero (f : EthernetFrame) :
    BitVec.ofNat 16 f.bytes.length ≠ 0 ↔ f.bytes ≠ [] := by
  have hsize := f.fits
  rw [ne_eq, ne_eq, ← List.length_eq_zero_iff, ← BitVec.toNat_inj, BitVec.toNat_ofNat,
    Nat.mod_eq_of_lt (by omega)]
  rfl

/-- **A call of `EthernetTasks`**, with `q` waiting: it takes the oldest frame, or it finds
nothing because nothing waits or a frame has come in. -/
theorem ethernetTasks_eq (h : Shows b v) (hskip : v.skip = 0) {q : List EthernetFrame}
    (hbytes : v.bytes = records q) (input : List (List Byte)) (pbufAlloc : Bool) :
    ∃ r b' frames, ethernetTasks input pbufAlloc b = some (r, b') ∧ Passed b.todo b'.todo frames ∧
      b'.todo.length ≤ b.todo.length - 1 ∧
      (r = (input, 0) ∧ (q = [] ∨ frames ≠ []) ∧ Shows b' (v.extend frames) ∨
        ∃ f rest, q ++ frames = f :: rest ∧ r = (handOn input f pbufAlloc, f.bytes.length) ∧
          Shows b' ⟨records rest, 0, v.received ++ frames, v.tx⟩) := by
  obtain ⟨packLen, b₁, f₁, hrsr, h₁, hp₁, htodo, hcounted⟩ := getSnRxRsr_eq h
  rw [ethernetTasks, bind_of_eq_some hrsr]
  rcases hcounted with ⟨rfl, hwait⟩ | ⟨hne, before, after, hsplit, hlen⟩
  · have hnone : ¬(0 : BitVec 16) > 0 := by decide
    refine ⟨(input, 0), b₁, f₁, by rw [if_neg hnone]; rfl, hp₁, htodo, Or.inl ⟨rfl, ?_, h₁⟩⟩
    refine hwait.imp_left fun hnil => ?_
    rw [hbytes] at hnil
    cases q with
    | nil => rfl
    | cons f rest =>
        rw [records_cons, Records.record, Records.header] at hnil
        cases hnil
  · -- a frame is among those that waited when the length was read
    have hpos : packLen > 0 := (BitVec.pos_iff_ne_zero _).2 hne
    have hread : (v.extend before).bytes = records (q ++ before) := by
      rw [View.extend, hbytes, records_append]
    rw [hread] at hlen
    cases hqueue : q ++ before with
    | nil =>
        rw [hqueue] at hlen
        exact absurd (BitVec.eq_of_toNat_eq hlen) hne
    | cons f rest =>
        have hbytes₁ : (v.extend f₁).bytes = records (f :: (rest ++ after)) := by
          rw [View.extend, hbytes, hsplit, ← records_append, ← List.append_assoc, hqueue]
          rfl
        have hfits : f.bytes.length ≤ packLen.toNat := by
          rw [hlen, hqueue, records_cons, List.length_append, Records.length_record]
          omega
        obtain ⟨r, b₂, f₂, hrecv, hp₂, htaken⟩ := recvLwip_eq h₁ hskip hbytes₁ hfits
        have htodo₂ := Nat.le_trans hp₂.length htodo
        rw [if_pos hpos, bind_of_eq_some hrecv]
        rcases htaken with ⟨rfl, hframes, h₂⟩ | ⟨rfl, h₂⟩
        · rw [View.extend_extend] at h₂
          exact ⟨(input, 0), b₂, f₁ ++ f₂, rfl, hp₁.trans hp₂, htodo₂,
            Or.inl ⟨rfl, Or.inr (List.append_ne_nil_of_right_ne_nil f₁ hframes), h₂⟩⟩
        · refine ⟨(handOn input f pbufAlloc, f.bytes.length), b₂, f₁ ++ f₂, ?_, hp₁.trans hp₂,
            htodo₂, Or.inr ⟨f, rest ++ after ++ f₂, ?_, rfl, ?_⟩⟩
          · rw [handOn]
            by_cases hnil : f.bytes = []
            · rw [if_neg fun hne => (ofNat_length_ne_zero f).1 hne hnil,
                if_neg fun hand => hand.1 hnil]
              rfl
            · rw [if_pos ((ofNat_length_ne_zero f).2 hnil)]
              cases pbufAlloc <;> simp [hnil] <;> rfl
          · rw [hsplit, List.append_assoc, ← List.append_assoc q, hqueue]
            simp
          · have hview : ((v.extend f₁).consume (f.bytes.length + 2)).extend f₂ =
                ⟨records (rest ++ after ++ f₂), 0, v.received ++ (f₁ ++ f₂), v.tx⟩ := by
              rw [View.consume, hbytes₁, records_cons, ← Records.length_record, List.drop_left,
                View.extend, View.extend, records_append _ f₂, List.append_assoc v.received]
            rw [hview] at h₂
            exact h₂

end Driver

end Remora
