/-
# Sending through the driver

`wiz_send_data` of `w5500.c`, `send_lwip` and `netif_output` of `w5x00_lwip.c`, statement
by statement on the bus.

A packet is gathered into `tx_frame`, padded to 60 bytes, copied behind `Sn_TX_WR` and
sent.  `send_lwip` then waits, first for the chip to take up the command, then for the
transmission to end; so the transmit half is idle between two calls, and nothing is ever
written into what the chip still sends.  Both loops end exactly when the chip does its
part (`sendLwip_eq`): nothing else, and no frame that comes in meanwhile, holds them up.
-/

import Remora.Ethernet.Receive

namespace Remora

open Basis

/-- The size of `tx_frame` in bytes. -/
def TX_FRAME : ℕ := 1542

/-- A `struct pbuf`; a chain is a list of them. -/
structure Pbuf where
  payload : List Byte
  /-- `tot_len`: the bytes from this one on to the end of the packet. -/
  totLen : ℕ

namespace Pbuf

/-- The bytes that the loop of `netif_output` copies. -/
def gather : List Pbuf → List Byte
  | [] => []
  | q :: chain =>
      if q.payload.length = q.totLen then q.payload else q.payload ++ gather chain

/-- The bytes of a chain. -/
def packet (chain : List Pbuf) : List Byte := chain.flatMap payload

/-- The total lengths of a chain are those of one packet. -/
def Chained : List Pbuf → Prop
  | [] => True
  | q :: chain => q.totLen = q.payload.length + (packet chain).length ∧ Chained chain

/-- **The loop copies the packet**: it stops early only where nothing is left. -/
theorem gather_eq {chain : List Pbuf} (h : Chained chain) : gather chain = packet chain := by
  induction chain with
  | nil => rfl
  | cons q chain ih =>
      obtain ⟨htot, hchain⟩ := h
      rw [gather, packet, List.flatMap_cons, ← packet]
      split_ifs with hlast
      · have hnil : packet chain = [] := List.length_eq_zero_iff.1 (by omega)
        rw [hnil, List.append_nil]
      · rw [ih hchain]

end Pbuf

/-- `tx_frame` when `bytes` have been copied into it. -/
def txFrame (bytes : List Byte) : List Byte := bytes ++ List.replicate (TX_FRAME - bytes.length) 0

/-- The length with which a packet is sent. -/
def sendLen (totLen : ℕ) : ℕ := if totLen < 60 then 60 else totLen

namespace Driver

/-- `getSn_IR` -/
def getSnIr (sn : ℕ) : Driver Byte := do
  let ir ← wizchipRead (Sn_IR sn)
  return ir &&& 0x1F

/-- `setSn_IR` -/
def setSnIr (sn : ℕ) (ir : Byte) : Driver Unit := wizchipWrite (Sn_IR sn) (ir &&& 0x1F)

/-- `getSn_TxMAX` -/
def getSnTxMax (sn : ℕ) : Driver (BitVec 16) := do
  let size ← wizchipRead (Sn_TXBUF_SIZE sn)
  return size.setWidth 16 <<< 10

/-- The address of a pointer in the transmit ring. -/
def txAddress (sn : ℕ) (ptr : BitVec 16) : Word :=
  ptr.setWidth 32 <<< 8 + BitVec.ofNat 32 (WIZCHIP_TXBUF_BLOCK sn <<< 3)

/-- `wiz_send_data`, `wizdata` being what is in memory from the pointer on. -/
def wizSendData (sn : ℕ) (wizdata : List Byte) (len : BitVec 16) : Driver Unit :=
  if len = 0 then return ()
  else do
    let ptr ← getWord (Sn_TX_WR sn)
    wizchipWriteBuf (txAddress sn ptr) (wizdata.take len.toNat)
    setWord (Sn_TX_WR sn) (ptr + len)

/-- The loop that waits for the command to be taken up. -/
def crLoop (sn : ℕ) : ℕ → Driver Unit
  | 0 => fun _ => none
  | fuel + 1 => do
      let cr ← wizchipRead (Sn_CR sn)
      if cr ≠ 0 then crLoop sn fuel else return ()

/-- The loop that waits for the transmission to end; `false` is a timeout. -/
def irLoop (sn : ℕ) : ℕ → Driver Bool
  | 0 => fun _ => none
  | fuel + 1 => do
      let irTemp ← getSnIr sn
      if irTemp &&& Sn_IR_SENDOK ≠ 0 then
        setSnIr sn Sn_IR_SENDOK
        return true
      else if irTemp &&& Sn_IR_TIMEOUT ≠ 0 then
        setSnIr sn Sn_IR_TIMEOUT
        return false
      else irLoop sn fuel

/-- `send_lwip` -/
def sendLwip (sn : ℕ) (buf : List Byte) (len : BitVec 16) : Driver Word := do
  let _tmp ← wizchipRead (Sn_SR sn)
  let freesize ← getSnTxMax sn
  let len := if len > freesize then freesize else len
  wizSendData sn buf len
  setSnCr sn Sn_CR_SEND
  fun b => crLoop sn (b.todo.length + 1) b
  let sendok ← fun b => irLoop sn (b.todo.length + 1) b
  return if sendok then len.setWidth 32 else -1

/-- `netif_output`, of a chain that fits into `tx_frame`. -/
def netifOutput (p : List Pbuf) : Driver Unit := do
  let bytes := Pbuf.gather p
  let _sendLen ← sendLwip 0 (txFrame bytes) (BitVec.ofNat 16 (sendLen bytes.length))
  return ()

end Driver

/-- A frame has been put behind `Sn_TX_WR`. -/
def TxSocket.load (tx : TxSocket) (frame : List Byte) : TxSocket :=
  { tx with
    mem := Ring.write TX_MEMORY tx.mem tx.wr frame
    wr := tx.wr + BitVec.ofNat 16 frame.length }

/-- A frame has been sent. -/
def TxSocket.deliver (tx : TxSocket) (frame : List Byte) : TxSocket where
  mem := Ring.write TX_MEMORY tx.mem tx.wr frame
  wr := tx.wr + BitVec.ofNat 16 frame.length
  rd := tx.wr + BitVec.ofNat 16 frame.length
  sending := none
  wire := tx.wire ++ [frame]

/-- Some turns of the chip, all at once: what happens is what is to come, and behind its end
nothing but a `RECV` that is processed. -/
theorem Bus.iterate_tick (n : ℕ) (b : Bus) :
    ∃ es, Bus.tick^[n] b = ⟨run Chip.step b.chip es, b.todo.drop n⟩ ∧
      ∀ e, e ≠ .released → (e ∈ es ↔ e ∈ (b.todo.take n).flatten) := by
  induction n generalizing b with
  | zero => exact ⟨[], by simp, by simp⟩
  | succ n ih =>
      obtain ⟨es, hes, hmem⟩ := ih b.tick
      refine ⟨b.todo.headD [.released] ++ es, ?_, fun e he => ?_⟩
      · rw [Function.iterate_succ_apply, hes, run_append, tick, List.drop_tail]
      · rw [List.mem_append, hmem e he, tick]
        cases b.todo with
        | nil => simp [he]
        | cons turn todo => simp

theorem Bus.todo_iterate_tick (n : ℕ) (b : Bus) : (Bus.tick^[n] b).todo = b.todo.drop n := by
  obtain ⟨es, hes, -⟩ := b.iterate_tick n
  rw [hes]

namespace Chip

theorem finish_of_idle {c : Chip} (h : c.tx.sending = none) : c.finish = c := by rw [finish, h]

theorem finish_of_sending {c : Chip} {wr : BitVec 16} (h : c.tx.sending = some wr) :
    c.finish =
      { c with
        tx := { c.tx with
          rd := wr
          sending := none
          wire := c.tx.wire ++ [Ring.queue TX_MEMORY c.tx.mem c.tx.rd wr] }
        ir := c.ir ||| Sn_IR_SENDOK } := by
  rw [finish, h]

theorem sending_finish (c : Chip) : c.finish.tx.sending = none := by
  cases hsending : c.tx.sending with
  | none => rw [finish_of_idle hsending, hsending]
  | some wr => rw [finish_of_sending hsending]

theorem outcome_finish {c : Chip} {wr : BitVec 16} (h : c.tx.sending = some wr)
    (houtcome : c.outcome = 0) : c.finish.outcome = Sn_IR_SENDOK := by
  rw [outcome] at houtcome
  rw [finish_of_sending h, outcome]
  dsimp only
  rw [BitVec.and_or_distrib_right, houtcome]
  decide

/-- What goes out is what has been put behind `Sn_TX_WR`. -/
theorem finish_load {c : Chip} {tx : TxSocket} {frame : List Byte}
    (h : c.tx = { tx.load frame with sending := some (tx.load frame).wr }) (htx : tx.rd = tx.wr)
    (hlen : frame.length ≤ TX_MEMORY) : c.finish.tx = tx.deliver frame := by
  have hsending : c.tx.sending = some (tx.load frame).wr := by rw [h]
  have hempty : Ring.queue TX_MEMORY tx.mem tx.wr tx.wr = [] := Ring.queue_self ..
  have hqueue := Ring.queue_write txFits tx.mem tx.wr tx.wr frame (by
    rwa [hempty, List.length_nil, Nat.zero_add])
  rw [hempty, List.nil_append] at hqueue
  rw [finish_of_sending hsending, h, TxSocket.load, TxSocket.deliver]
  dsimp only
  rw [htx, hqueue]

/-- A step ends a transmission, or leaves the transmit half alone. -/
theorem tx_step (c : Chip) (e : ChipEvent) :
    (e = .sent → (c.step e).tx = c.finish.tx ∧ (c.step e).outcome = c.finish.outcome) ∧
      (e ≠ .sent → (c.step e).tx = c.tx ∧ (c.step e).outcome = c.outcome) := by
  cases e with
  | frame f =>
      refine ⟨fun h => (by cases h), fun _ => ?_⟩
      rw [step]
      split_ifs
      · exact ⟨rfl, outcome_recv c.ir⟩
      · exact ⟨rfl, rfl⟩
  | accepted => exact ⟨fun h => (by cases h), fun _ => ⟨rfl, rfl⟩⟩
  | released => exact ⟨fun h => (by cases h), fun _ => ⟨rfl, rfl⟩⟩
  | sent => exact ⟨fun _ => ⟨rfl, rfl⟩, fun h => absurd rfl h⟩

/-- What `finish` does depends on nothing that a frame changes. -/
theorem finish_congr {c c' : Chip} (htx : c'.tx = c.tx) (houtcome : c'.outcome = c.outcome) :
    c'.finish.tx = c.finish.tx ∧ c'.finish.outcome = c.finish.outcome := by
  cases hsending : c.tx.sending with
  | none =>
      rw [finish_of_idle hsending, finish_of_idle (htx ▸ hsending)]
      exact ⟨htx, houtcome⟩
  | some wr =>
      rw [finish_of_sending hsending, finish_of_sending (htx ▸ hsending), htx]
      refine ⟨rfl, ?_⟩
      rw [outcome, outcome] at houtcome
      rw [outcome, outcome, BitVec.and_or_distrib_right, BitVec.and_or_distrib_right, houtcome]

/-- **A transmission ends** when the chip says so, and the transmit half changes at no
other time. -/
theorem tx_run (c : Chip) (es : List ChipEvent) :
    (.sent ∈ es → (run step c es).tx = c.finish.tx ∧ (run step c es).outcome = c.finish.outcome) ∧
      (.sent ∉ es → (run step c es).tx = c.tx ∧ (run step c es).outcome = c.outcome) := by
  induction es generalizing c with
  | nil => exact ⟨fun h => (by cases h), fun _ => ⟨rfl, rfl⟩⟩
  | cons e es ih =>
      obtain ⟨hin, hout⟩ := ih (c.step e)
      obtain ⟨hsent, hother⟩ := c.tx_step e
      rw [run_cons]
      constructor
      · intro hmem
        by_cases he : e = .sent
        · obtain ⟨htx, houtcome⟩ := hsent he
          obtain ⟨htx', houtcome'⟩ := finish_congr htx houtcome
          rw [finish_of_idle c.sending_finish] at htx' houtcome'
          by_cases hlater : .sent ∈ es
          · exact ⟨(hin hlater).1.trans htx', (hin hlater).2.trans houtcome'⟩
          · exact ⟨(hout hlater).1.trans htx, (hout hlater).2.trans houtcome⟩
        · have hlater : .sent ∈ es := (List.mem_cons.1 hmem).resolve_left (Ne.symm he)
          obtain ⟨htx, houtcome⟩ := hother he
          obtain ⟨htx', houtcome'⟩ := finish_congr htx houtcome
          exact ⟨(hin hlater).1.trans htx', (hin hlater).2.trans houtcome'⟩
      · intro hmem
        obtain ⟨he, hlater⟩ := not_or.1 (mt List.mem_cons.2 hmem)
        obtain ⟨htx, houtcome⟩ := hother (Ne.symm he)
        exact ⟨(hout hlater).1.trans htx, (hout hlater).2.trans houtcome⟩

/-- Where nothing is sent, nothing changes. -/
theorem tx_run_of_idle {c : Chip} (h : c.tx.sending = none) (es : List ChipEvent) :
    (run step c es).tx = c.tx ∧ (run step c es).outcome = c.outcome := by
  obtain ⟨hin, hout⟩ := c.tx_run es
  rw [finish_of_idle h] at hin
  by_cases hmem : .sent ∈ es
  · exact hin hmem
  · exact hout hmem

/-- **A command is taken up** when the chip says so. -/
theorem cr_run (c : Chip) (es : List ChipEvent) :
    (.accepted ∈ es → (run step c es).cr = 0) ∧
      (.accepted ∉ es → (run step c es).cr = c.cr) := by
  have hstep : ∀ (c : Chip) (e : ChipEvent), e ≠ .accepted → (c.step e).cr = c.cr := by
    intro c e he
    cases e with
    | frame f =>
        rw [step]
        split_ifs <;> rfl
    | accepted => exact absurd rfl he
    | released => rfl
    | sent =>
        rw [step, finish]
        cases c.tx.sending <;> rfl
  induction es generalizing c with
  | nil => exact ⟨fun h => (by cases h), fun _ => rfl⟩
  | cons e es ih =>
      obtain ⟨hin, hout⟩ := ih (c.step e)
      rw [run_cons]
      constructor
      · intro hmem
        by_cases hlater : .accepted ∈ es
        · exact hin hlater
        · obtain rfl : ChipEvent.accepted = e := (List.mem_cons.1 hmem).resolve_right hlater
          exact hout hlater
      · intro hmem
        obtain ⟨he, hlater⟩ := not_or.1 (mt List.mem_cons.2 hmem)
        exact (hout hlater).trans (hstep c e (Ne.symm he))

end Chip

namespace Shows

variable {b : Bus} {v : View}

/-- The host writes to the transmit half, which is idle. -/
theorem setTx (h : Shows b v) {tx : TxSocket} (htx : tx.sending = none) :
    ∃ frames, Shows ⟨{ b.tick.chip with tx := tx }, b.tick.todo⟩ ((v.setTx tx).extend frames) ∧
      Passed b.todo b.tick.todo frames := by
  obtain ⟨frames, h', hpassed⟩ := h.tick
  exact ⟨frames, ⟨h'.pending, h'.rd, h'.skip, h'.bound, h'.received, rfl, h'.outcome, htx,
    h'.behind, h'.prompt⟩, hpassed⟩

theorem tx_tick (h : Shows b v) : b.tick.chip.tx = v.tx := by
  obtain ⟨frames, h', -⟩ := h.tick
  exact h'.tx

end Shows

theorem Bus.todo_tick (b : Bus) : b.tick.todo = b.todo.drop 1 := List.drop_one.symm

namespace Driver

variable {b : Bus} {v : View}

theorem getWord_txWr (h : Shows b v) :
    getWord (Sn_TX_WR 0) b = some (v.tx.wr, b.tick.tick) := by
  obtain ⟨frames, h', -⟩ := h.tick
  have hword : getWord (Sn_TX_WR 0) b =
      some (highByte b.tick.chip.tx.wr ++ lowByte b.tick.tick.chip.tx.wr, b.tick.tick) :=
    getWord_sreg (by decide) b
  rw [hword, h.tx_tick, h'.tx_tick]
  exact congrArg (fun wr => some (wr, b.tick.tick)) (highByte_append_lowByte v.tx.wr)

/-- `setSn_TX_WR` -/
theorem setWord_txWr (h : Shows b v) (ptr : BitVec 16) :
    ∃ b' frames, setWord (Sn_TX_WR 0) ptr b = some ((), b') ∧
      Shows b' ((v.setTx { v.tx with wr := ptr }).extend frames) ∧
      Passed b.todo b'.todo frames ∧ b'.todo = b.todo.drop 2 := by
  obtain ⟨hhigh, hlow⟩ := ushiftRight_setWidth ptr
  obtain ⟨frames, h₁, hp₁⟩ :=
    h.setTx (show { v.tx with wr := highByte ptr ++ lowByte v.tx.wr }.sending = none from h.idle)
  set b₁ : Bus := ⟨{ b.tick.chip with tx := { v.tx with wr := highByte ptr ++ lowByte v.tx.wr } },
    b.tick.todo⟩ with hb₁
  have hfirst : wizchipWrite (Sn_TX_WR 0) ((ptr >>> 8).setWidth 8) b = some ((), b₁) := by
    rw [hhigh, hb₁, ← h.tx_tick]
    exact wizchipWrite_sreg (by decide) _ b
  obtain ⟨frames', h₂, hp₂⟩ := Shows.setTx (b := b₁) h₁
    (show { v.tx with wr := ptr }.sending = none from h.idle)
  have hsecond : wizchipWrite (WIZCHIP_OFFSET_INC (Sn_TX_WR 0) 1) (ptr.setWidth 8) b₁ =
      some ((), ⟨{ b₁.tick.chip with tx := { v.tx with wr := ptr } }, b₁.tick.todo⟩) := by
    have hwrite : wizchipWrite (sregAddress 0x25 0) (lowByte ptr) b₁ =
        some ((), ⟨{ b₁.tick.chip with
          tx := { b₁.tick.chip.tx with wr := highByte b₁.tick.chip.tx.wr ++ lowByte ptr } },
          b₁.tick.todo⟩) := wizchipWrite_sreg (by decide) _ b₁
    have htx : b₁.tick.chip.tx = { v.tx with wr := highByte ptr ++ lowByte v.tx.wr } :=
      Shows.tx_tick (b := b₁) h₁
    rw [hlow, Sn_TX_WR, offsetInc_sreg, hwrite, htx]
    dsimp only
    rw [highByte_append, highByte_append_lowByte]
  refine ⟨_, frames ++ frames', by rw [setWord, bind_of_eq_some hfirst, hsecond], ?_, ?_, ?_⟩
  · exact View.extend_extend (v.setTx { v.tx with wr := ptr }) frames frames' ▸ h₂
  · exact hp₁.trans hp₂
  · dsimp only
    rw [Bus.todo_tick, hb₁]
    dsimp only
    rw [Bus.todo_tick, List.drop_drop]

/-- **A burst into the transmit ring.** -/
theorem writeBytes_tx {d : SpiData} {ptr : BitVec 16} (hblock : d.block = 2)
    (hoffset : ∀ i, d.offset i = ptr + BitVec.ofNat 16 i) (h : Shows b v) (i : ℕ)
    (pBuf : List Byte) :
    ∃ b' frames, writeBytes d i pBuf b = some ((), b') ∧
      Shows b' ((v.setTx { v.tx with
        mem := Ring.write TX_MEMORY v.tx.mem (ptr + BitVec.ofNat 16 i) pBuf }).extend frames) ∧
      Passed b.todo b'.todo frames ∧ b'.todo = b.todo.drop pBuf.length := by
  induction pBuf generalizing b v i with
  | nil => exact ⟨b, [], rfl, by rw [View.extend_nil]; exact h, Passed.refl _, rfl⟩
  | cons wb pBuf ih =>
      obtain ⟨frames, h₁, hp₁⟩ := h.setTx (show { v.tx with
        mem := Function.update v.tx.mem (Ring.index TX_MEMORY (ptr + BitVec.ofNat 16 i) 0) wb
        }.sending = none from h.idle)
      obtain ⟨b', frames', hrun, h₂, hp₂, htodo⟩ := ih (b := ⟨{ b.tick.chip with tx := { v.tx with
        mem := Function.update v.tx.mem (Ring.index TX_MEMORY (ptr + BitVec.ofNat 16 i) 0) wb } },
        b.tick.todo⟩) h₁ (i + 1)
      refine ⟨b', frames ++ frames', ?_, ?_, hp₁.trans hp₂, ?_⟩
      · have hindex : Ring.index TX_MEMORY (ptr + BitVec.ofNat 16 i) 0 =
            (d.offset i).toNat % TX_MEMORY := by
          rw [Ring.index, hoffset]
          exact congrArg (fun p : BitVec 16 => p.toNat % TX_MEMORY) (BitVec.add_zero _)
        have hne : ¬d.block = 1 := by omega
        rw [writeBytes, ← hrun]
        dsimp only
        rw [Chip.write, if_neg hne, if_pos hblock, h.tx_tick, hindex]
      · have hnext : ptr + BitVec.ofNat 16 (i + 1) = ptr + BitVec.ofNat 16 i + 1 := by
          rw [BitVec.add_assoc]
          exact congrArg (ptr + ·) (BitVec.ofNat_add i 1)
        rw [hnext] at h₂
        rw [← View.extend_extend]
        exact h₂
      · rw [htodo]
        dsimp only
        rw [Bus.todo_tick, List.drop_drop, List.length_cons, Nat.add_comm]

theorem bind_of_eq_none {α β : Type} {x : Driver α} {b : Bus} (h : x b = none)
    (f : α → Driver β) : (x >>= f) b = none := by
  show (x b).bind _ = _
  rw [h]
  rfl

/-- **`wiz_send_data`** puts the bytes behind `Sn_TX_WR`. -/
theorem wizSendData_eq (h : Shows b v) {buf : List Byte} {len : BitVec 16} (hne : len ≠ 0)
    (hlen : len.toNat ≤ buf.length) :
    ∃ b' frames, wizSendData 0 buf len b = some ((), b') ∧
      Shows b' ((v.setTx (v.tx.load (buf.take len.toNat))).extend frames) ∧
      Passed b.todo b'.todo frames ∧ b'.todo = b.todo.drop (len.toNat + 4) := by
  obtain ⟨frames, h₂, hp₂⟩ := h.iterate_tick 2
  have hblock32 : WIZCHIP_TXBUF_BLOCK 0 < 32 := by decide
  obtain ⟨hblock, hoffset⟩ := spiData_ring v.tx.wr hblock32 (Or.inr rfl)
  obtain ⟨b₃, frames', hburst, h₃, hp₃, htodo₃⟩ :=
    writeBytes_tx hblock hoffset h₂ 0 (buf.take len.toNat)
  obtain ⟨b₄, frames'', hwr, h₄, hp₄, htodo₄⟩ := setWord_txWr h₃ (v.tx.wr + len)
  have hzero : v.tx.wr + BitVec.ofNat 16 0 = v.tx.wr := BitVec.add_zero _
  refine ⟨b₄, frames ++ (frames' ++ frames''), ?_, ?_, hp₂.trans (hp₃.trans hp₄), ?_⟩
  · have hdata : wizchipWriteBuf (txAddress 0 v.tx.wr) (buf.take len.toNat) b.tick.tick =
        some ((), b₃) := hburst
    rw [wizSendData, if_neg hne, bind_of_eq_some (getWord_txWr h), bind_of_eq_some hdata, hwr]
  · have hload : v.tx.load (buf.take len.toNat) = { v.tx with
        mem := Ring.write TX_MEMORY v.tx.mem v.tx.wr (buf.take len.toNat)
        wr := v.tx.wr + len } := by
      rw [TxSocket.load, List.length_take, Nat.min_eq_left hlen, BitVec.ofNat_toNat,
        BitVec.setWidth_eq]
    rw [hzero] at h₄
    rw [hload, ← View.extend_extend, ← View.extend_extend]
    exact h₄
  · rw [htodo₄, htodo₃, Bus.todo_iterate_tick, List.drop_drop, List.drop_drop, List.length_take,
      Nat.min_eq_left hlen]
    congr 1
    omega

/-- A command that is not taken up is waited for for ever. -/
theorem crLoop_eq_none (hcr : b.chip.cr ≠ 0) (h : .accepted ∉ b.todo.flatten) (fuel : ℕ) :
    crLoop 0 fuel b = none := by
  induction fuel generalizing b with
  | zero => rfl
  | succ fuel ih =>
      have hnot : .accepted ∉ b.todo.headD [.released] ∧ .accepted ∉ b.tick.todo.flatten := by
        rw [Bus.tick]
        cases htodo : b.todo with
        | nil => simp
        | cons es todo => simpa [htodo] using h
      have hcr' : b.tick.chip.cr ≠ 0 := ((Chip.cr_run b.chip _).2 hnot.1).symm ▸ hcr
      rw [crLoop, Sn_CR, bind_of_eq_some (wizchipRead_sreg (by decide) b)]
      exact (congrFun (if_pos hcr') b.tick).trans (ih hcr' hnot.2)

/-- **The loop on `Sn_CR`** ends when the command is taken up. -/
theorem crLoop_eq_some (hcr : b.chip.cr ≠ 0) (h : .accepted ∈ b.todo.flatten) {fuel : ℕ}
    (hfuel : b.todo.length < fuel) : ∃ k, crLoop 0 fuel b = some ((), Bus.tick^[k] b) := by
  induction fuel generalizing b with
  | zero => exact absurd hfuel (Nat.not_lt_zero _)
  | succ fuel ih =>
      rw [crLoop, Sn_CR, bind_of_eq_some (wizchipRead_sreg (by decide) b)]
      by_cases hcr' : b.tick.chip.cr = 0
      · exact ⟨1, congrFun (if_neg (not_not.2 hcr')) b.tick⟩
      · have hlater : .accepted ∉ b.todo.headD [.released] := fun hmem =>
          hcr' ((Chip.cr_run b.chip _).1 hmem)
        cases htodo : b.todo with
        | nil => simp [htodo] at h
        | cons es todo =>
            rw [htodo] at h hlater hfuel
            have hrest : b.tick.todo = todo := congrArg List.tail htodo
            obtain ⟨k, hk⟩ := ih hcr'
              (hrest.symm ▸ (List.mem_append.1 h).resolve_left hlater)
              (by rw [hrest]; exact Nat.lt_of_succ_lt_succ hfuel)
            exact ⟨k + 1, (congrFun (if_pos hcr') b.tick).trans hk⟩

/-- `Sn_IR_SENDOK` is cleared. -/
def clearSendok (c : Chip) : Chip := { c with ir := c.ir &&& ~~~(Sn_IR_SENDOK &&& 0x1F) }

theorem outcome_clearSendok {c : Chip} (h : c.outcome = Sn_IR_SENDOK) :
    (clearSendok c).outcome = 0 := by
  rw [Chip.outcome] at h
  rw [Chip.outcome, clearSendok]
  dsimp only
  rw [BitVec.and_assoc, BitVec.and_comm (~~~_), ← BitVec.and_assoc, h]
  rfl

/-- What the loop on `Sn_IR` tests. -/
theorem and_sendok (c : Chip) : c.ir &&& 0x1F &&& Sn_IR_SENDOK = c.outcome &&& Sn_IR_SENDOK ∧
    c.ir &&& 0x1F &&& Sn_IR_TIMEOUT = c.outcome &&& Sn_IR_TIMEOUT := by
  constructor <;> rw [Chip.outcome, BitVec.and_assoc, BitVec.and_assoc] <;> rfl

/-- A round that finds the transmission ended. -/
theorem irLoop_done (h : b.tick.chip.outcome = Sn_IR_SENDOK) (fuel : ℕ) :
    irLoop 0 (fuel + 1) b =
      some (true, ⟨clearSendok (Bus.tick^[2] b).chip, (Bus.tick^[2] b).todo⟩) := by
  have hir : b.tick.chip.ir &&& 0x1F &&& Sn_IR_SENDOK ≠ 0 := by
    rw [(and_sendok _).1, h]
    decide
  have hread : getSnIr 0 b = some (b.tick.chip.ir &&& 0x1F, b.tick) := by
    rw [getSnIr, Sn_IR, bind_of_eq_some (wizchipRead_sreg (by decide) b)]
    rfl
  rw [irLoop, bind_of_eq_some hread, if_pos hir]
  rfl

/-- A round that finds it still under way. -/
theorem irLoop_again (h : b.tick.chip.outcome = 0) (fuel : ℕ) :
    irLoop 0 (fuel + 1) b = irLoop 0 fuel b.tick := by
  have hsendok : b.tick.chip.ir &&& 0x1F &&& Sn_IR_SENDOK = 0 := by
    rw [(and_sendok _).1, h]
    decide
  have htimeout : b.tick.chip.ir &&& 0x1F &&& Sn_IR_TIMEOUT = 0 := by
    rw [(and_sendok _).2, h]
    decide
  have hread : getSnIr 0 b = some (b.tick.chip.ir &&& 0x1F, b.tick) := by
    rw [getSnIr, Sn_IR, bind_of_eq_some (wizchipRead_sreg (by decide) b)]
    rfl
  rw [irLoop, bind_of_eq_some hread, if_neg (not_not.2 hsendok), if_neg (not_not.2 htimeout)]

/-- A transmission that does not end is waited for for ever. -/
theorem irLoop_eq_none (houtcome : b.chip.outcome = 0) (h : .sent ∉ b.todo.flatten) (fuel : ℕ) :
    irLoop 0 fuel b = none := by
  induction fuel generalizing b with
  | zero => rfl
  | succ fuel ih =>
      have hnot : .sent ∉ b.todo.headD [.released] ∧ .sent ∉ b.tick.todo.flatten := by
        rw [Bus.tick]
        cases htodo : b.todo with
        | nil => simp
        | cons es todo => simpa [htodo] using h
      have houtcome' := ((Chip.tx_run b.chip _).2 hnot.1).2.trans houtcome
      rw [irLoop_again houtcome', ih houtcome' hnot.2]

/-- **The loop on `Sn_IR`** ends when the transmission does. -/
theorem irLoop_eq_some {wr : BitVec 16} (hsending : b.chip.tx.sending = some wr)
    (houtcome : b.chip.outcome = 0) (h : .sent ∈ b.todo.flatten) {fuel : ℕ}
    (hfuel : b.todo.length < fuel) :
    ∃ k, .sent ∈ (b.todo.take k).flatten ∧ irLoop 0 fuel b =
      some (true, ⟨clearSendok (Bus.tick^[k] b).chip, (Bus.tick^[k] b).todo⟩) := by
  induction fuel generalizing b with
  | zero => exact absurd hfuel (Nat.not_lt_zero _)
  | succ fuel ih =>
      cases htodo : b.todo with
      | nil => simp [htodo] at h
      | cons es todo =>
          rw [htodo] at h hfuel
          have hrest : b.tick.todo = todo := congrArg List.tail htodo
          have hchip : b.tick.chip = run Chip.step b.chip es := by
            rw [Bus.tick, htodo, List.headD_cons]
          obtain ⟨hin, hout⟩ := b.chip.tx_run es
          by_cases hnow : .sent ∈ es
          · refine ⟨2, by simp [hnow], irLoop_done ?_ fuel⟩
            rw [hchip, (hin hnow).2, Chip.outcome_finish hsending houtcome]
          · obtain ⟨htx, houtcome'⟩ := hout hnow
            rw [← hchip] at htx houtcome'
            obtain ⟨k, hmem, hk⟩ := ih (htx ▸ hsending) (houtcome'.trans houtcome)
              (hrest.symm ▸ (List.mem_append.1 h).resolve_left hnow)
              (by rw [hrest]; exact Nat.lt_of_succ_lt_succ hfuel)
            refine ⟨k + 1, ?_, ?_⟩
            · rw [hrest] at hmem
              rw [List.take_succ_cons, List.flatten_cons]
              exact List.mem_append_right es hmem
            · rw [irLoop_again (houtcome'.trans houtcome), hk, Function.iterate_succ_apply]

end Driver

/-- The chip takes up the command and ends the transmission. -/
def Served (todo : List (List ChipEvent)) : Prop :=
  .accepted ∈ todo.flatten ∧ .sent ∈ todo.flatten

namespace Driver

variable {b : Bus} {v : View}

/-- The two loops of `send_lwip`, one behind the other. -/
theorem loops_eq {wr : BitVec 16} (hcr : b.chip.cr ≠ 0) (hsending : b.chip.tx.sending = some wr)
    (houtcome : b.chip.outcome = 0) :
    (Served b.todo → ∃ b' k, crLoop 0 (b.todo.length + 1) b = some ((), b') ∧
      .sent ∈ (b.todo.take k).flatten ∧ irLoop 0 (b'.todo.length + 1) b' =
        some (true, ⟨clearSendok (Bus.tick^[k] b).chip, (Bus.tick^[k] b).todo⟩)) ∧
    (¬Served b.todo → crLoop 0 (b.todo.length + 1) b = none ∨
      ∃ b', crLoop 0 (b.todo.length + 1) b = some ((), b') ∧
        irLoop 0 (b'.todo.length + 1) b' = none) := by
  by_cases haccepted : .accepted ∈ b.todo.flatten
  · obtain ⟨k, hk⟩ := crLoop_eq_some hcr haccepted (Nat.lt_succ_self _)
    -- what has happened by the time the first loop is over
    have hsplit : (b.todo.take k).flatten ++ (b.todo.drop k).flatten = b.todo.flatten := by
      rw [← List.flatten_append, List.take_append_drop]
    obtain ⟨es, hes, hmem⟩ := b.iterate_tick k
    obtain ⟨hin, hout⟩ := b.chip.tx_run es
    have hchip : (Bus.tick^[k] b).chip = run Chip.step b.chip es := by rw [hes]
    have htodo : (Bus.tick^[k] b).todo = b.todo.drop k := b.todo_iterate_tick k
    rw [← hchip, hmem .sent (by simp)] at hin hout
    by_cases hnow : .sent ∈ (b.todo.take k).flatten
    · refine ⟨fun _ => ⟨_, 2 + k, hk, ?_, ?_⟩, fun hnot => absurd ⟨haccepted, ?_⟩ hnot⟩
      · rw [Nat.add_comm, List.take_add, List.flatten_append]
        exact List.mem_append_left _ hnow
      · rw [Function.iterate_add_apply]
        refine irLoop_done ?_ _
        obtain ⟨htx, hdone⟩ := hin hnow
        have hidle : (Bus.tick^[k] b).chip.tx.sending = none := by
          rw [htx, Chip.sending_finish]
        have hstill : (Bus.tick^[k] b).tick.chip.outcome = (Bus.tick^[k] b).chip.outcome :=
          (Chip.tx_run_of_idle hidle _).2
        rw [hstill, hdone, Chip.outcome_finish hsending houtcome]
      · rw [← hsplit]
        exact List.mem_append_left _ hnow
    · obtain ⟨htx, houtcome'⟩ := hout hnow
      constructor
      · rintro ⟨-, hsent⟩
        rw [← hsplit] at hsent
        have hlater := (List.mem_append.1 hsent).resolve_left hnow
        rw [← htodo] at hlater
        obtain ⟨j, hmem, hj⟩ := irLoop_eq_some (htx ▸ hsending) (houtcome'.trans houtcome) hlater
          (Nat.lt_succ_self _)
        refine ⟨_, j + k, hk, ?_, ?_⟩
        · rw [Nat.add_comm, List.take_add, List.flatten_append, ← htodo]
          exact List.mem_append_right _ hmem
        · rw [hj, Function.iterate_add_apply]
      · intro hnot
        refine Or.inr ⟨_, hk, irLoop_eq_none (houtcome'.trans houtcome) (fun hlater => hnot ?_) _⟩
        rw [htodo] at hlater
        refine ⟨haccepted, ?_⟩
        rw [← hsplit]
        exact List.mem_append_right _ hlater
  · exact ⟨fun h => absurd h.1 haccepted,
      fun _ => Or.inl (crLoop_eq_none hcr haccepted _)⟩

/-- **`send_lwip`** ends exactly when the chip does its part, and then the frame has gone
out, whole and unchanged. -/
theorem sendLwip_eq (h : Shows b v) (htx : v.tx.rd = v.tx.wr) {buf : List Byte}
    {len : BitVec 16} (hne : len ≠ 0) (hlen : len.toNat ≤ buf.length)
    (hmax : len.toNat ≤ TX_MEMORY) :
    (Served (b.todo.drop (len.toNat + 7)) → ∃ b' frames,
      sendLwip 0 buf len b = some (len.setWidth 32, b') ∧
      Shows b' ((v.setTx (v.tx.deliver (buf.take len.toNat))).extend frames) ∧
      Passed b.todo b'.todo frames) ∧
    (¬Served (b.todo.drop (len.toNat + 7)) → sendLwip 0 buf len b = none) := by
  have hdata : (buf.take len.toNat).length = len.toNat := by
    rw [List.length_take, Nat.min_eq_left hlen]
  obtain ⟨frames, h₂, hp₂⟩ := h.iterate_tick 2
  obtain ⟨b₃, frames', hsend, h₃, hp₃, htodo₃⟩ := wizSendData_eq h₂ hne hlen
  obtain ⟨frames'', h₄, hp₄⟩ := h₃.tick
  rw [View.extend_extend] at h₄
  have hfree : getSnTxMax 0 b.tick = some (BitVec.ofNat 16 TX_MEMORY, b.tick.tick) := by
    rw [getSnTxMax, Sn_TXBUF_SIZE, bind_of_eq_some (wizchipRead_sreg (by decide) b.tick)]
    rfl
  have hsend' : wizSendData 0 buf len b.tick.tick = some ((), b₃) := hsend
  have hfits : ¬len > BitVec.ofNat 16 TX_MEMORY := by
    rw [gt_iff_lt, BitVec.lt_def]
    exact Nat.not_lt.2 hmax
  -- the chip when the command has been written
  set b₄ : Bus := ⟨{ b₃.tick.chip with
    cr := Sn_CR_SEND, tx := { b₃.tick.chip.tx with sending := some b₃.tick.chip.tx.wr } },
    b₃.tick.todo⟩ with hb₄
  have hcommand : setSnCr 0 Sn_CR_SEND b₃ = some ((), b₄) := wizchipWrite_sreg (by decide) _ b₃
  have htodo₄ : b₄.todo = b.todo.drop (len.toNat + 7) := by
    rw [hb₄]
    dsimp only
    rw [Bus.todo_tick, htodo₃, Bus.todo_iterate_tick, List.drop_drop, List.drop_drop]
    congr 1
    omega
  have hrun : sendLwip 0 buf len b = ((fun b => crLoop 0 (b.todo.length + 1) b) >>= fun _ =>
      (fun b => irLoop 0 (b.todo.length + 1) b) >>= fun sendok =>
        pure (if sendok then len.setWidth 32 else -1) : Driver Word) b₄ := by
    rw [sendLwip, Sn_SR, bind_of_eq_some (wizchipRead_sreg (by decide) b), bind_of_eq_some hfree]
    rw [if_neg hfits, bind_of_eq_some hsend', bind_of_eq_some hcommand]
  have hcr : Sn_CR_SEND ≠ 0 := by decide
  obtain ⟨hserved, hnot⟩ := loops_eq (b := b₄) hcr rfl h₄.outcome
  rw [← htodo₄, hrun]
  constructor
  · intro hchip
    obtain ⟨b', k, hfirst, hsent, hsecond⟩ := hserved hchip
    have hprompt₄ : Prompt b₄.todo := h₄.prompt
    obtain ⟨frames₅, helapsed, hbehind, hp₅⟩ :=
      Bus.elapsed_iterate_tick (b := b₄) h₄.behind k
    obtain ⟨es, hes, hmem⟩ := b₄.iterate_tick k
    obtain ⟨htx₅, houtcome₅⟩ := (b₄.chip.tx_run es).1 ((hmem .sent (by simp)).2 hsent)
    have hchip₅ : run Chip.step b₄.chip es = (Bus.tick^[k] b₄).chip := by rw [hes]
    rw [hchip₅] at htx₅ houtcome₅
    rw [Chip.outcome_finish (c := b₄.chip) rfl h₄.outcome] at houtcome₅
    have hload : b₄.chip.tx = { v.tx.load (buf.take len.toNat) with
        sending := some (v.tx.load (buf.take len.toNat)).wr } := by
      rw [hb₄]
      dsimp only
      rw [h₄.tx]
      rfl
    have hdeliver : (Bus.tick^[k] b₄).chip.tx = v.tx.deliver (buf.take len.toNat) := by
      rw [htx₅, Chip.finish_load hload htx (Nat.le_trans (Nat.le_of_eq hdata) hmax)]
    refine ⟨⟨clearSendok (Bus.tick^[k] b₄).chip, (Bus.tick^[k] b₄).todo⟩,
      frames ++ (frames' ++ frames'' ++ frames₅), ?_, ?_, hp₂.trans ((hp₃.trans hp₄).trans hp₅)⟩
    · rw [bind_of_eq_some (x := fun b => crLoop 0 (b.todo.length + 1) b) hfirst,
        bind_of_eq_some (x := fun b => irLoop 0 (b.todo.length + 1) b) hsecond]
      rfl
    · have hidle : (clearSendok (Bus.tick^[k] b₄).chip).tx.sending = none :=
        congrArg TxSocket.sending hdeliver
      have hend : Shows ⟨clearSendok (Bus.tick^[k] b₄).chip, (Bus.tick^[k] b₄).todo⟩ _ :=
        h₄.later (by rfl) helapsed hbehind (hprompt₄.iterate_tick k) rfl hidle
          (outcome_clearSendok houtcome₅)
      have htx' : (clearSendok (Bus.tick^[k] b₄).chip).tx = v.tx.deliver (buf.take len.toNat) :=
        hdeliver
      dsimp only at hend
      rw [htx'] at hend
      rw [← View.extend_extend, ← View.extend_extend]
      exact hend
  · intro hchip
    rcases hnot hchip with hnone | ⟨b', hfirst, hnone⟩
    · exact bind_of_eq_none (x := fun b => crLoop 0 (b.todo.length + 1) b) hnone _
    · rw [bind_of_eq_some (x := fun b => crLoop 0 (b.todo.length + 1) b) hfirst]
      exact bind_of_eq_none (x := fun b => irLoop 0 (b.todo.length + 1) b) hnone _

end Driver

/-- A packet as it goes out: at least 60 bytes, the missing ones zero. -/
def paddedFrame (packet : List Byte) : List Byte := packet ++ List.replicate (60 - packet.length) 0

theorem length_paddedFrame (packet : List Byte) :
    (paddedFrame packet).length = sendLen packet.length := by
  rw [paddedFrame, List.length_append, List.length_replicate, sendLen]
  split_ifs <;> omega

/-- What is sent of `tx_frame`. -/
theorem take_txFrame {packet : List Byte} (h : packet.length ≤ TX_FRAME) :
    (txFrame packet).take (sendLen packet.length) = paddedFrame packet := by
  have hsize : 60 ≤ TX_FRAME := by decide
  have hle : packet.length ≤ sendLen packet.length := by
    rw [← length_paddedFrame, paddedFrame, List.length_append]
    exact Nat.le_add_right ..
  rw [txFrame, List.take_append, List.take_of_length_le hle, List.take_replicate, paddedFrame]
  refine congrArg (packet ++ List.replicate · 0) ?_
  rw [sendLen]
  split_ifs <;> omega

namespace Driver

variable {b : Bus} {v : View}

/-- **`netif_output`** sends the packet, padded, or waits for ever for the chip. -/
theorem netifOutput_eq (h : Shows b v) (htx : v.tx.rd = v.tx.wr) {p : List Pbuf}
    (hchain : Pbuf.Chained p) (hsize : (Pbuf.packet p).length ≤ TX_FRAME) :
    (Served (b.todo.drop (sendLen (Pbuf.packet p).length + 7)) → ∃ b' frames,
      netifOutput p b = some ((), b') ∧
      Shows b' ((v.setTx (v.tx.deliver (paddedFrame (Pbuf.packet p)))).extend frames) ∧
      Passed b.todo b'.todo frames) ∧
    (¬Served (b.todo.drop (sendLen (Pbuf.packet p).length + 7)) → netifOutput p b = none) := by
  have htx1542 : TX_FRAME = 1542 := rfl
  have hsend : 60 ≤ sendLen (Pbuf.packet p).length ∧ sendLen (Pbuf.packet p).length ≤ TX_FRAME := by
    rw [sendLen]
    split_ifs <;> omega
  have hnat : (BitVec.ofNat 16 (sendLen (Pbuf.packet p).length)).toNat =
      sendLen (Pbuf.packet p).length := by
    rw [BitVec.toNat_ofNat, Nat.mod_eq_of_lt (by omega)]
  have hne : BitVec.ofNat 16 (sendLen (Pbuf.packet p).length) ≠ 0 := fun hzero => by
    rw [hzero] at hnat
    have hpos : (0 : BitVec 16).toNat = 0 := rfl
    omega
  have hbuf : (txFrame (Pbuf.packet p)).length = TX_FRAME := by
    rw [txFrame, List.length_append, List.length_replicate, Nat.add_sub_cancel' hsize]
  have hmem : TX_FRAME ≤ TX_MEMORY := by decide
  obtain ⟨hserved, hnot⟩ := sendLwip_eq h htx hne
    (show _ ≤ (txFrame (Pbuf.packet p)).length by rw [hnat, hbuf]; exact hsend.2)
    (by rw [hnat]; exact Nat.le_trans hsend.2 hmem)
  rw [hnat] at hserved hnot
  rw [take_txFrame hsize] at hserved
  rw [netifOutput, Pbuf.gather_eq hchain]
  constructor
  · intro hchip
    obtain ⟨b', frames, hrun, hshows, hpassed⟩ := hserved hchip
    exact ⟨b', frames, by rw [bind_of_eq_some hrun]; rfl, hshows, hpassed⟩
  · intro hchip
    exact bind_of_eq_none (hnot hchip) _

end Driver

end Remora
