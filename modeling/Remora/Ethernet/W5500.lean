/-
# The W5500 behind its SPI bus

The chip, as `w5500.h` documents it, and the register access of `w5500.c`.

Socket 0 has a ring of 8 KB in each direction, with 16-bit pointers that run freely.
In the receive ring the chip writes at `Sn_RX_WR` and the host reads at `Sn_RX_RD`;
the command `RECV` tells the chip how far the host has come, and `Sn_RX_RSR` is what
lies in between.  In the transmit ring the host writes at `Sn_TX_WR`, and `SEND` sends
what lies between `Sn_TX_RD` and `Sn_TX_WR`.

The bus carries one byte at a time, and the chip does not wait for the host: frames
come in, a command is taken up, a `RECV` is processed, a transmission ends
(`ChipEvent`) before any byte of any access.  `todo` has what happens before each of the
bytes to come; when it is used up, nothing comes in any more.  A register of two bytes is
two accesses, so what the host puts together from them need never have stood in it
(`getSnRxRsr` reads such a register until it reads the same twice).

A `RECV` that has been written, and even one that has been taken up, is still to be
processed, and until then `Sn_RX_RSR` counts the bytes that the host has read.  The driver
does not wait for it.  So it relies on a chip that is `Prompt`: one that processes a
`RECV` before the next byte on the bus.  For a `SEND` the driver does wait, and here it
stands from its write on for what lies behind `Sn_TX_RD` then.

A loop of the driver that waits for the chip goes round until the chip has done
something; `none` stands for a loop that goes round for ever.
-/

import Remora.Basis.Ring
import Remora.Ethernet.Framing

namespace Remora

open Basis

/-- The transmit memory of the MACRAW socket in bytes, `memsize[0][0]` of
`wizchip_initialize`. -/
def TX_MEMORY : ℕ := 8 * 1024

/-- `Sn_CR_SEND` -/
def Sn_CR_SEND : Byte := 0x20

/-- `Sn_CR_RECV` -/
def Sn_CR_RECV : Byte := 0x40

/-- `SOCK_MACRAW` -/
def SOCK_MACRAW : Byte := 0x42

/-- `Sn_IR_SENDOK` -/
def Sn_IR_SENDOK : Byte := 0x10

/-- `Sn_IR_TIMEOUT` -/
def Sn_IR_TIMEOUT : Byte := 0x08

/-- `Sn_IR_RECV` -/
def Sn_IR_RECV : Byte := 0x04

/-- The receive half of the socket. -/
structure RxSocket where
  mem : ℕ → Byte
  /-- `Sn_RX_WR` -/
  wr : BitVec 16
  /-- `Sn_RX_RD` -/
  rd : BitVec 16
  /-- `Sn_RX_RD` at the last `RECV` that has been processed. -/
  done : BitVec 16
  /-- A `RECV` is still to be processed. -/
  recv : Bool
  /-- The frames that have been taken in, in their order. -/
  received : List EthernetFrame

/-- The transmit half of the socket. -/
structure TxSocket where
  mem : ℕ → Byte
  /-- `Sn_TX_WR` -/
  wr : BitVec 16
  /-- `Sn_TX_RD` -/
  rd : BitVec 16
  /-- Up to where a `SEND` that is under way sends. -/
  sending : Option (BitVec 16)
  /-- What has gone out on the wire, in its order. -/
  wire : List (List Byte)

/-- The chip, as far as socket 0 goes. -/
structure Chip where
  rx : RxSocket
  tx : TxSocket
  /-- `Sn_CR` -/
  cr : Byte
  /-- `Sn_IR` -/
  ir : Byte

/-- What the chip does on its own. -/
inductive ChipEvent where
  /-- A frame arrives; the chip drops one that it has no room for. -/
  | frame (f : EthernetFrame)
  /-- `Sn_CR` is cleared. -/
  | accepted
  /-- A `RECV` that waits is processed. -/
  | released
  /-- A transmission ends. -/
  | sent

namespace RxSocket

/-- What the host has not taken yet. -/
def pending (s : RxSocket) : List Byte := Ring.queue RX_MEMORY s.mem s.done s.wr

/-- `Sn_RX_RSR` -/
def rsr (s : RxSocket) : BitVec 16 := s.wr - s.done

/-- The chip has room for the record of the frame. -/
def HasRoom (s : RxSocket) (f : EthernetFrame) : Prop :=
  s.pending.length + (Records.record f.bytes).length ≤ RX_MEMORY

instance (s : RxSocket) (f : EthernetFrame) : Decidable (s.HasRoom f) :=
  inferInstanceAs (Decidable (_ ≤ _))

/-- A frame is taken in. -/
def arrive (s : RxSocket) (f : EthernetFrame) : RxSocket :=
  { s with
    mem := Ring.write RX_MEMORY s.mem s.wr (Records.record f.bytes)
    wr := s.wr + BitVec.ofNat 16 (Records.record f.bytes).length
    received := s.received ++ [f] }

/-- A `RECV` that waits is processed. -/
def settled (s : RxSocket) : RxSocket :=
  if s.recv then { s with done := s.rd, recv := false } else s

end RxSocket

namespace Chip

/-- A transmission ends. -/
def finish (c : Chip) : Chip :=
  match c.tx.sending with
  | some wr =>
      { c with
        tx := { c.tx with
          rd := wr
          sending := none
          wire := c.tx.wire ++ [Ring.queue TX_MEMORY c.tx.mem c.tx.rd wr] }
        ir := c.ir ||| Sn_IR_SENDOK }
  | none => c

/-- A `RECV` that waits is processed. -/
def settled (c : Chip) : Chip := { c with rx := c.rx.settled }

/-- What `Sn_IR` says about a transmission. -/
def outcome (c : Chip) : Byte := c.ir &&& (Sn_IR_SENDOK ||| Sn_IR_TIMEOUT)

/-- What the chip does on its own. -/
def step (c : Chip) : ChipEvent → Chip
  | .frame f =>
      if c.rx.HasRoom f then { c with rx := c.rx.arrive f, ir := c.ir ||| Sn_IR_RECV } else c
  | .accepted => { c with cr := 0 }
  | .released => c.settled
  | .sent => c.finish

/-- A command is written. -/
def command (c : Chip) (cr : Byte) : Chip :=
  if cr = Sn_CR_RECV then { c with cr := cr, rx := { c.rx with recv := true } }
  else if cr = Sn_CR_SEND then { c with cr := cr, tx := { c.tx with sending := some c.tx.wr } }
  else { c with cr := cr }

end Chip

/-- The high byte of a register of two. -/
def highByte (v : BitVec 16) : Byte := v.extractLsb' 8 8

/-- The low byte of a register of two. -/
def lowByte (v : BitVec 16) : Byte := v.extractLsb' 0 8

namespace Chip

/-- A byte of the registers of socket 0. -/
def register (c : Chip) (offset : ℕ) : Byte :=
  if offset = 0x01 then c.cr
  else if offset = 0x02 then c.ir
  else if offset = 0x03 then SOCK_MACRAW
  else if offset = 0x1F then BitVec.ofNat 8 (TX_MEMORY / 1024)
  else if offset = 0x24 then highByte c.tx.wr
  else if offset = 0x25 then lowByte c.tx.wr
  else if offset = 0x26 then highByte c.rx.rsr
  else if offset = 0x27 then lowByte c.rx.rsr
  else if offset = 0x28 then highByte c.rx.rd
  else if offset = 0x29 then lowByte c.rx.rd
  else 0

/-- A byte is written to the registers of socket 0.  In `Sn_IR` a 1 clears. -/
def setRegister (c : Chip) (offset : ℕ) (wb : Byte) : Chip :=
  if offset = 0x01 then c.command wb
  else if offset = 0x02 then { c with ir := c.ir &&& ~~~wb }
  else if offset = 0x24 then { c with tx := { c.tx with wr := wb ++ lowByte c.tx.wr } }
  else if offset = 0x25 then { c with tx := { c.tx with wr := highByte c.tx.wr ++ wb } }
  else if offset = 0x28 then { c with rx := { c.rx with rd := wb ++ lowByte c.rx.rd } }
  else if offset = 0x29 then { c with rx := { c.rx with rd := highByte c.rx.rd ++ wb } }
  else c

end Chip

/-- `spi_data`, the three bytes in front of every access. -/
structure SpiData where
  hi : Byte
  lo : Byte
  control : Byte

/-- `spi_data` of an address. -/
def spiData (addrSel : Word) : SpiData where
  hi := ((addrSel &&& 0x00FF0000) >>> 16).setWidth 8
  lo := ((addrSel &&& 0x0000FF00) >>> 8).setWidth 8
  control := (addrSel &&& 0x000000FF).setWidth 8

namespace SpiData

/-- The address of byte `i` of an access: it counts up by itself. -/
def offset (d : SpiData) (i : ℕ) : BitVec 16 := d.hi ++ d.lo + BitVec.ofNat 16 i

/-- The block: registers, transmit ring and receive ring of socket 0 are 1, 2 and 3. -/
def block (d : SpiData) : ℕ := (d.control >>> 3).toNat

end SpiData

namespace Chip

/-- Byte `i` of a read. -/
def read (c : Chip) (d : SpiData) (i : ℕ) : Byte :=
  if d.block = 1 then c.register (d.offset i).toNat
  else if d.block = 2 then c.tx.mem ((d.offset i).toNat % TX_MEMORY)
  else if d.block = 3 then c.rx.mem ((d.offset i).toNat % RX_MEMORY)
  else 0

/-- Byte `i` of a write. -/
def write (c : Chip) (d : SpiData) (i : ℕ) (wb : Byte) : Chip :=
  if d.block = 1 then c.setRegister (d.offset i).toNat wb
  else if d.block = 2 then
    { c with tx := { c.tx with
        mem := Function.update c.tx.mem ((d.offset i).toNat % TX_MEMORY) wb } }
  else if d.block = 3 then
    { c with rx := { c.rx with
        mem := Function.update c.rx.mem ((d.offset i).toNat % RX_MEMORY) wb } }
  else c

end Chip

/-- The chip, and what it will do before each of the bytes to come. -/
structure Bus where
  chip : Chip
  todo : List (List ChipEvent)

/-- The chip has its turn. -/
def Bus.tick (b : Bus) : Bus := ⟨run Chip.step b.chip (b.todo.headD [.released]), b.todo.tail⟩

/-- In each of its turns the chip processes a `RECV` that waits. -/
def Prompt (todo : List (List ChipEvent)) : Prop := ∀ turn ∈ todo, .released ∈ turn

/-- Code that runs on the host and uses the bus. -/
abbrev Driver (α : Type) := StateT Bus Option α

/-- `WIZCHIP_SREG_BLOCK` -/
def WIZCHIP_SREG_BLOCK (N : ℕ) : ℕ := 1 + 4 * N

/-- `WIZCHIP_TXBUF_BLOCK` -/
def WIZCHIP_TXBUF_BLOCK (N : ℕ) : ℕ := 2 + 4 * N

/-- `WIZCHIP_RXBUF_BLOCK` -/
def WIZCHIP_RXBUF_BLOCK (N : ℕ) : ℕ := 3 + 4 * N

/-- `WIZCHIP_OFFSET_INC` -/
def WIZCHIP_OFFSET_INC (ADDR : Word) (N : ℕ) : Word := ADDR + BitVec.ofNat 32 (N <<< 8)

/-- The address of a register of socket `N`. -/
def sregAddress (offset N : ℕ) : Word :=
  BitVec.ofNat 32 (offset <<< 8) + BitVec.ofNat 32 (WIZCHIP_SREG_BLOCK N <<< 3)

/-- `Sn_CR` -/
def Sn_CR (N : ℕ) : Word := sregAddress 0x0001 N

/-- `Sn_IR` -/
def Sn_IR (N : ℕ) : Word := sregAddress 0x0002 N

/-- `Sn_SR` -/
def Sn_SR (N : ℕ) : Word := sregAddress 0x0003 N

/-- `Sn_TXBUF_SIZE` -/
def Sn_TXBUF_SIZE (N : ℕ) : Word := sregAddress 0x001F N

/-- `Sn_TX_WR` -/
def Sn_TX_WR (N : ℕ) : Word := sregAddress 0x0024 N

/-- `Sn_RX_RSR` -/
def Sn_RX_RSR (N : ℕ) : Word := sregAddress 0x0026 N

/-- `Sn_RX_RD` -/
def Sn_RX_RD (N : ℕ) : Word := sregAddress 0x0028 N

/-- `_W5500_SPI_READ_ | _W5500_SPI_VDM_OP_` -/
def SPI_READ : Word := 0x00#32 <<< 2 ||| 0x00#32

/-- `_W5500_SPI_WRITE_ | _W5500_SPI_VDM_OP_` -/
def SPI_WRITE : Word := 0x01#32 <<< 2 ||| 0x00#32

namespace Driver

/-- `WIZCHIP_READ` -/
def wizchipRead (addrSel : Word) : Driver Byte := fun b =>
  let b := b.tick
  some (b.chip.read (spiData (addrSel ||| SPI_READ)) 0, b)

/-- `WIZCHIP_WRITE` -/
def wizchipWrite (addrSel : Word) (wb : Byte) : Driver Unit := fun b =>
  let b := b.tick
  some ((), { b with chip := b.chip.write (spiData (addrSel ||| SPI_WRITE)) 0 wb })

/-- The bytes of a read, from byte `i` on. -/
def readBytes (d : SpiData) (i : ℕ) : ℕ → Driver (List Byte)
  | 0 => return []
  | n + 1 => fun b =>
      let b := b.tick
      (readBytes d (i + 1) n b).map fun r => (b.chip.read d i :: r.1, r.2)

/-- `WIZCHIP_READ_BUF`: what is read into `pBuf`. -/
def wizchipReadBuf (addrSel : Word) (len : ℕ) : Driver (List Byte) :=
  readBytes (spiData (addrSel ||| SPI_READ)) 0 len

/-- The bytes of a write, from byte `i` on. -/
def writeBytes (d : SpiData) (i : ℕ) : List Byte → Driver Unit
  | [] => return ()
  | wb :: pBuf => fun b =>
      let b := b.tick
      writeBytes d (i + 1) pBuf { b with chip := b.chip.write d i wb }

/-- `WIZCHIP_WRITE_BUF` -/
def wizchipWriteBuf (addrSel : Word) (pBuf : List Byte) : Driver Unit :=
  writeBytes (spiData (addrSel ||| SPI_WRITE)) 0 pBuf

/-- A register of two bytes, the high one first. -/
def getWord (addrSel : Word) : Driver (BitVec 16) := do
  let hi ← wizchipRead addrSel
  let lo ← wizchipRead (WIZCHIP_OFFSET_INC addrSel 1)
  return (hi.setWidth 16 <<< 8) + lo.setWidth 16

/-- A register of two bytes is written, the high one first. -/
def setWord (addrSel : Word) (v : BitVec 16) : Driver Unit := do
  wizchipWrite addrSel ((v >>> 8).setWidth 8)
  wizchipWrite (WIZCHIP_OFFSET_INC addrSel 1) (v.setWidth 8)

/-- `setSn_CR` -/
def setSnCr (sn : ℕ) (cr : Byte) : Driver Unit := wizchipWrite (Sn_CR sn) cr

end Driver

/-! What the chip does on its own. -/

theorem rxFits : Ring.Fits RX_MEMORY 16 := ⟨by decide, by decide, by decide⟩

theorem txFits : Ring.Fits TX_MEMORY 16 := ⟨by decide, by decide, by decide⟩

/-- The records of some frames. -/
def records (frames : List EthernetFrame) : List Byte :=
  Records.stream (frames.map EthernetFrame.bytes)

@[simp] theorem records_nil : records [] = [] := rfl

@[simp] theorem records_append (frames frames' : List EthernetFrame) :
    records (frames ++ frames') = records frames ++ records frames' := by
  rw [records, List.map_append, Records.stream_append]
  rfl

theorem records_cons (f : EthernetFrame) (frames : List EthernetFrame) :
    records (f :: frames) = Records.record f.bytes ++ records frames := rfl

namespace RxSocket

theorem toNat_rsr (s : RxSocket) : s.rsr.toNat = s.pending.length :=
  (Ring.length_queue ..).symm

/-- What comes in is queued whole behind what is there. -/
theorem pending_arrive (s : RxSocket) {f : EthernetFrame} (h : s.HasRoom f) :
    (s.arrive f).pending = s.pending ++ records [f] := by
  have hqueue : (s.arrive f).pending = s.pending ++ Records.record f.bytes :=
    Ring.queue_write rxFits s.mem s.done s.wr (Records.record f.bytes) h
  rw [hqueue, records_cons, records_nil, List.append_nil]

theorem settled_of_not_recv {s : RxSocket} (h : s.recv = false) : s.settled = s :=
  if_neg (by rw [h]; exact Bool.false_ne_true)

theorem recv_settled (s : RxSocket) : s.settled.recv = false := by
  rw [settled]
  split_ifs with h
  · rfl
  · exact Bool.eq_false_iff.2 h

@[simp] theorem settled_settled (s : RxSocket) : s.settled.settled = s.settled :=
  settled_of_not_recv s.recv_settled

/-- Only the pointer of the chip changes. -/
theorem settled_fixed (s : RxSocket) : s.settled.rd = s.rd ∧ s.settled.received = s.received := by
  rw [settled]
  split_ifs <;> exact ⟨rfl, rfl⟩

theorem settled_arrive (s : RxSocket) (f : EthernetFrame) :
    (s.arrive f).settled = s.settled.arrive f := by
  cases hrecv : s.recv <;> simp [settled, arrive, hrecv]

end RxSocket

/-- From one chip to another while the host does nothing: `frames` are taken in, and a
transmission may end. -/
structure Chip.Elapsed (c c' : Chip) (frames : List EthernetFrame) : Prop where
  pending : c'.rx.pending = c.rx.pending ++ records frames
  received : c'.rx.received = c.rx.received ++ frames
  rd : c'.rx.rd = c.rx.rd
  done : c'.rx.done = c.rx.done
  bound : c.rx.pending.length ≤ RX_MEMORY → c'.rx.pending.length ≤ RX_MEMORY
  idle : c.tx.sending = none → c'.tx = c.tx ∧ c'.outcome = c.outcome

/-- A `RECV` that waits does not lengthen the queue. -/
def Chip.Behind (c : Chip) : Prop := c.rx.settled.pending.length ≤ c.rx.pending.length

namespace Chip

/-- A frame that has come in is nothing about a transmission. -/
theorem outcome_recv (ir : Byte) :
    (ir ||| Sn_IR_RECV) &&& (Sn_IR_SENDOK ||| Sn_IR_TIMEOUT) =
      ir &&& (Sn_IR_SENDOK ||| Sn_IR_TIMEOUT) := by
  have hbits : Sn_IR_RECV &&& (Sn_IR_SENDOK ||| Sn_IR_TIMEOUT) = 0#8 := by decide
  rw [BitVec.and_or_distrib_right, hbits, BitVec.or_zero]

theorem Elapsed.refl (c : Chip) : Elapsed c c [] :=
  ⟨by simp, by simp, rfl, rfl, id, fun _ => ⟨rfl, rfl⟩⟩

theorem Elapsed.trans {c c' c'' : Chip} {frames frames' : List EthernetFrame}
    (h : Elapsed c c' frames) (h' : Elapsed c' c'' frames') :
    Elapsed c c'' (frames ++ frames') := by
  refine ⟨?_, ?_, h'.rd.trans h.rd, h'.done.trans h.done, fun hb => h'.bound (h.bound hb), ?_⟩
  · rw [h'.pending, h.pending, records_append, List.append_assoc]
  · rw [h'.received, h.received, List.append_assoc]
  · intro hidle
    obtain ⟨htx, hir⟩ := h.idle hidle
    obtain ⟨htx', hir'⟩ := h'.idle (htx.symm ▸ hidle)
    exact ⟨htx'.trans htx, hir'.trans hir⟩

theorem settled_settled (c : Chip) : c.settled.settled = c.settled :=
  congrArg (fun rx => { c with rx := rx }) c.rx.settled_settled

/-- **One event**, seen with every `RECV` processed. -/
theorem elapsed_step {c : Chip} (h : c.Behind) (e : ChipEvent) :
    ∃ frames, Elapsed c.settled (c.step e).settled frames ∧ (c.step e).Behind := by
  cases e with
  | frame f =>
      rw [step]
      split_ifs with hroom
      · have hroom' : c.rx.settled.HasRoom f := Nat.le_trans (Nat.add_le_add_right h _) hroom
        have hpending := c.rx.settled.pending_arrive hroom'
        have hsettled := c.rx.settled_arrive f
        refine ⟨[f], ⟨?_, ?_, ?_, ?_, fun _ => ?_, fun _ => ⟨rfl, outcome_recv c.ir⟩⟩, ?_⟩
        · exact (congrArg RxSocket.pending hsettled).trans hpending
        · exact congrArg RxSocket.received hsettled
        · exact (congrArg RxSocket.rd hsettled).trans rfl
        · exact (congrArg RxSocket.done hsettled).trans rfl
        · rw [settled]
          dsimp only
          rw [hsettled, hpending, records_cons, records_nil, List.append_nil, List.length_append]
          exact hroom'
        · rw [Behind]
          dsimp only
          rw [hsettled, hpending, c.rx.pending_arrive hroom, List.length_append,
            List.length_append]
          exact Nat.add_le_add_right h _
      · exact ⟨[], Elapsed.refl _, h⟩
  | accepted => exact ⟨[], ⟨by simp [step, settled], by simp [step, settled], rfl, rfl, id,
      fun _ => ⟨rfl, rfl⟩⟩, h⟩
  | released =>
      have hbehind : c.settled.Behind := Nat.le_of_eq (by
        rw [settled]
        dsimp only
        rw [RxSocket.settled_settled])
      rw [step, settled_settled]
      exact ⟨[], Elapsed.refl _, hbehind⟩
  | sent =>
      rw [step, finish]
      cases hsending : c.tx.sending with
      | none => exact ⟨[], Elapsed.refl _, h⟩
      | some wr =>
          exact ⟨[], ⟨by simp [settled], by simp [settled], rfl, rfl, id,
            fun hidle => absurd (hsending.symm.trans hidle) (by simp)⟩, h⟩

theorem elapsed_run {c : Chip} (h : c.Behind) (es : List ChipEvent) :
    ∃ frames, Elapsed c.settled (run step c es).settled frames ∧ (run step c es).Behind := by
  induction es generalizing c with
  | nil => exact ⟨[], Elapsed.refl _, h⟩
  | cons e es ih =>
      obtain ⟨frames, helapsed, hbehind⟩ := elapsed_step h e
      obtain ⟨frames', helapsed', hbehind'⟩ := ih hbehind
      exact ⟨frames ++ frames', helapsed.trans helapsed', hbehind'⟩

/-- No event puts off a `RECV` that has been processed. -/
theorem recv_step {c : Chip} (h : c.rx.recv = false) (e : ChipEvent) :
    (c.step e).rx.recv = false := by
  cases e with
  | frame f =>
      rw [step]
      split_ifs <;> exact h
  | accepted => exact h
  | released => exact c.rx.recv_settled
  | sent =>
      rw [step, finish]
      cases c.tx.sending <;> exact h

theorem recv_run {c : Chip} (es : List ChipEvent) (h : c.rx.recv = false ∨ .released ∈ es) :
    (run step c es).rx.recv = false := by
  induction es generalizing c with
  | nil => exact h.resolve_right List.not_mem_nil
  | cons e es ih =>
      rw [run_cons]
      refine ih ?_
      rcases h with h | h
      · exact Or.inl (recv_step h e)
      · rcases List.mem_cons.1 h with rfl | h
        · exact Or.inl c.rx.recv_settled
        · exact Or.inr h

end Chip

/-- **The chip's turn.** -/
theorem Bus.elapsed_tick {b : Bus} (h : b.chip.Behind) :
    ∃ frames, Chip.Elapsed b.chip.settled b.tick.chip.settled frames ∧ b.tick.chip.Behind :=
  Chip.elapsed_run h _

/-- Nothing is left to come in. -/
theorem Bus.tick_of_nil {b : Bus} (h : b.todo = []) : b.tick = ⟨b.chip.settled, []⟩ := by
  obtain ⟨chip, todo⟩ := b
  obtain rfl : todo = [] := h
  rfl

theorem Bus.tick_tick_of_nil {b : Bus} (h : b.todo = []) : b.tick.tick = b.tick := by
  rw [tick_of_nil h, tick_of_nil rfl, Chip.settled_settled]

@[simp] theorem Bus.length_todo_tick (b : Bus) : b.tick.todo.length = b.todo.length - 1 :=
  List.length_tail

theorem Prompt.tick {b : Bus} (h : Prompt b.todo) : Prompt b.tick.todo :=
  fun turn hturn => h turn (List.mem_of_mem_tail hturn)

/-- After the turn of a prompt chip no `RECV` waits. -/
theorem Prompt.recv_tick {b : Bus} (h : Prompt b.todo) : b.tick.chip.rx.recv = false := by
  refine Chip.recv_run _ (Or.inr ?_)
  cases htodo : b.todo with
  | nil => exact List.mem_singleton_self _
  | cons turn todo => exact h turn (htodo ▸ List.mem_cons_self ..)

theorem Prompt.settled_tick {b : Bus} (h : Prompt b.todo) :
    b.tick.chip.rx.settled = b.tick.chip.rx := RxSocket.settled_of_not_recv h.recv_tick

/-! What the host reads and writes. -/

section

variable (hi lo : Byte) (v : BitVec 16)

/-- A word is put together from its bytes. -/
theorem shiftLeft_add_eq_append : (hi.setWidth 16 <<< 8) + lo.setWidth 16 = hi ++ lo := by
  have hhi := hi.isLt
  have hlo := lo.isLt
  refine BitVec.eq_of_toNat_eq ?_
  rw [← Records.beHalf, Records.toNat_beHalf, BitVec.toNat_add, BitVec.toNat_shiftLeft,
    BitVec.toNat_setWidth, BitVec.toNat_setWidth, Nat.shiftLeft_eq]
  omega

theorem highByte_append_lowByte : highByte v ++ lowByte v = v := by
  refine BitVec.eq_of_getLsbD_eq fun i hi => ?_
  simp only [highByte, lowByte, BitVec.getLsbD_append, BitVec.getLsbD_extractLsb']
  by_cases h : i < 8
  · simp [h]
  · simp [h, show 8 + (i - 8) = i by omega, show i - 8 < 8 by omega]

theorem toNat_highByte : (highByte v).toNat = v.toNat / 256 := by
  have hv := v.isLt
  rw [highByte, BitVec.extractLsb'_toNat, Nat.shiftRight_eq_div_pow]
  omega

theorem toNat_lowByte : (lowByte v).toNat = v.toNat % 256 := by
  rw [lowByte, BitVec.extractLsb'_toNat, Nat.shiftRight_zero]

/-- The bytes that `setWord` writes. -/
theorem ushiftRight_setWidth : (v >>> 8).setWidth 8 = highByte v ∧ v.setWidth 8 = lowByte v := by
  constructor
  · refine BitVec.eq_of_getLsbD_eq fun i hi => ?_
    simp [highByte, hi]
  · refine BitVec.eq_of_getLsbD_eq fun i hi => ?_
    simp [lowByte, hi]

theorem highByte_append : highByte (hi ++ lo) = hi := by
  refine BitVec.eq_of_getLsbD_eq fun i hi => ?_
  simp only [highByte, BitVec.getLsbD_extractLsb', BitVec.getLsbD_append]
  simp [hi]

end

/-- Each byte of `spi_data` is one of the address. -/
theorem spiData_eq (addrSel : Word) :
    spiData addrSel =
      ⟨addrSel.extractLsb' 16 8, addrSel.extractLsb' 8 8, addrSel.extractLsb' 0 8⟩ := by
  have hmask : ∀ k, ∀ mask : Word, (∀ i < 8, mask.getLsbD (k + i) = true) →
      ((addrSel &&& mask) >>> k).setWidth 8 = addrSel.extractLsb' k 8 := by
    intro k mask hmask
    refine BitVec.eq_of_getLsbD_eq fun i hi => ?_
    simp [hi, hmask i hi]
  have hlow := hmask 0 0x000000FF (by decide)
  rw [BitVec.ushiftRight_zero] at hlow
  rw [spiData, hmask 16 0x00FF0000 (by decide), hmask 8 0x0000FF00 (by decide), hlow]

/-- **The address of a place in a ring.**  The host puts the pointer and the block
together, and the chip takes them apart again. -/
theorem spiData_ring (ptr : BitVec 16) {block : ℕ} (hblock : block < 32) {op : Word}
    (hop : op = SPI_READ ∨ op = SPI_WRITE) :
    (spiData ((ptr.setWidth 32 <<< 8 + BitVec.ofNat 32 (block <<< 3)) ||| op)).block = block ∧
      ∀ i, (spiData ((ptr.setWidth 32 <<< 8 + BitVec.ofNat 32 (block <<< 3)) ||| op)).offset i =
        ptr + BitVec.ofNat 16 i := by
  have hptr := ptr.isLt
  set addrSel := (ptr.setWidth 32 <<< 8 + BitVec.ofNat 32 (block <<< 3)) ||| op with haddrSel
  -- the control bits are below the block
  obtain ⟨c, hc, hnat⟩ : ∃ c < 8, addrSel.toNat = 256 * ptr.toNat + 8 * block + c := by
    have hsum : (ptr.setWidth 32 <<< 8 + BitVec.ofNat 32 (block <<< 3)).toNat =
        2 ^ 3 * (32 * ptr.toNat + block) := by
      rw [BitVec.toNat_add, BitVec.toNat_shiftLeft, BitVec.toNat_setWidth, BitVec.toNat_ofNat,
        Nat.shiftLeft_eq, Nat.shiftLeft_eq]
      omega
    have hlt : op.toNat < 2 ^ 3 := by
      rcases hop with rfl | rfl <;> decide
    refine ⟨op.toNat, hlt, ?_⟩
    rw [haddrSel, BitVec.toNat_or, hsum, ← Nat.two_pow_add_eq_or_of_lt hlt]
    omega
  have hbyte : ∀ k, (addrSel.extractLsb' k 8).toNat = addrSel.toNat / 2 ^ k % 256 := fun k => by
    rw [BitVec.extractLsb'_toNat, Nat.shiftRight_eq_div_pow]
  have hwhole : addrSel.extractLsb' 16 8 ++ addrSel.extractLsb' 8 8 = ptr := by
    refine BitVec.eq_of_toNat_eq ?_
    rw [← Records.beHalf, Records.toNat_beHalf, hbyte, hbyte, hnat]
    omega
  rw [spiData_eq]
  constructor
  · rw [SpiData.block]
    dsimp only
    rw [BitVec.toNat_ushiftRight, Nat.shiftRight_eq_div_pow, hbyte, hnat]
    omega
  · intro i
    rw [SpiData.offset]
    dsimp only
    rw [hwhole]

/-- The address of a register, taken apart. -/
theorem spiData_sreg {offset : ℕ} (hoffset : offset < 65536) {op : Word}
    (hop : op = SPI_READ ∨ op = SPI_WRITE) :
    (spiData (sregAddress offset 0 ||| op)).block = 1 ∧
      ((spiData (sregAddress offset 0 ||| op)).offset 0).toNat = offset := by
  have haddress : sregAddress offset 0 =
      (BitVec.ofNat 16 offset).setWidth 32 <<< 8 + BitVec.ofNat 32 (1 <<< 3) := by
    refine congrArg (· + BitVec.ofNat 32 (1 <<< 3)) (BitVec.eq_of_toNat_eq ?_)
    rw [BitVec.toNat_shiftLeft, BitVec.toNat_setWidth, BitVec.toNat_ofNat, BitVec.toNat_ofNat,
      Nat.shiftLeft_eq, Nat.shiftLeft_eq]
    omega
  obtain ⟨hblock, hoff⟩ := spiData_ring (BitVec.ofNat 16 offset) (by decide : 1 < 32) hop
  rw [haddress]
  refine ⟨hblock, ?_⟩
  rw [hoff, BitVec.add_zero, BitVec.toNat_ofNat, Nat.mod_eq_of_lt hoffset]

theorem offsetInc_sreg (offset : ℕ) :
    WIZCHIP_OFFSET_INC (sregAddress offset 0) 1 = sregAddress (offset + 1) 0 := by
  refine BitVec.eq_of_toNat_eq ?_
  simp only [WIZCHIP_OFFSET_INC, sregAddress, BitVec.toNat_add, BitVec.toNat_ofNat,
    Nat.shiftLeft_eq]
  omega

namespace Driver

theorem bind_of_eq_some {α β : Type} {x : Driver α} {b b' : Bus} {a : α}
    (h : x b = some (a, b')) (f : α → Driver β) : (x >>= f) b = f a b' := by
  show (x b).bind _ = _
  rw [h]
  rfl

theorem wizchipRead_sreg {offset : ℕ} (hoffset : offset < 65536) (b : Bus) :
    wizchipRead (sregAddress offset 0) b = some (b.tick.chip.register offset, b.tick) := by
  obtain ⟨hblock, hoff⟩ := spiData_sreg hoffset (Or.inl rfl)
  rw [wizchipRead, Chip.read, if_pos hblock, hoff]

theorem wizchipWrite_sreg {offset : ℕ} (hoffset : offset < 65536) (wb : Byte) (b : Bus) :
    wizchipWrite (sregAddress offset 0) wb b =
      some ((), { b.tick with chip := b.tick.chip.setRegister offset wb }) := by
  obtain ⟨hblock, hoff⟩ := spiData_sreg hoffset (Or.inr rfl)
  rw [wizchipWrite, Chip.write, if_pos hblock, hoff]

/-- A register of two bytes is read as it stood at two moments. -/
theorem getWord_sreg {offset : ℕ} (hoffset : offset + 1 < 65536) (b : Bus) :
    getWord (sregAddress offset 0) b =
      some (b.tick.chip.register offset ++ b.tick.tick.chip.register (offset + 1),
        b.tick.tick) := by
  rw [getWord, bind_of_eq_some (wizchipRead_sreg (by omega) b), offsetInc_sreg,
    bind_of_eq_some (wizchipRead_sreg hoffset b.tick), shiftLeft_add_eq_append]
  rfl

end Driver

end Remora
