/-
# The command in force

The claim of the double buffer: what the threads execute is what one write
carried.  `udp_data_callback` copies a datagram over the inactive buffer and then
tests the header *in that buffer*, so the bytes a short datagram does not reach
are those of an older packet, header included.  An empty datagram is enough to
put an old command back in force: the buffer it lands in still holds the header
of a write.

`keepsCommand_udp_iff` says when this happens and when it does not: a call keeps the
command what a write carried exactly when a header that spells `PRU_WRITE` after
the copy comes with at least the `49` bytes of the command.
-/

import Remora.Motion.Controller

namespace Remora

open Basis

variable {fl : FloatUnit}

/-- Where `outputs`, the last field of a command, ends. -/
def COMMAND_END : ℕ := 49

/-- The datagram carries the header of a write. -/
def Datagram.CarriesWrite (d : Datagram) : Prop :=
  4 ≤ d.payload.length ∧ leWord d.get 0 = PRU_WRITE

/-- A call that swaps the rx buffers puts in force the datagram's own bytes, under
the datagram's own header; any other call leaves the packet in force, and the
index, as they are.  A run of the base thread never touches them. -/
def KeepsCommand (s : Controller fl) : Event → Prop
  | .udp d =>
      let s' := s.step (.udp d)
      (s'.rxPingPongBuffer.index ≠ s.rxPingPongBuffer.index →
        d.CarriesWrite ∧ ∀ i : Fin BUFFER_SIZE, 4 ≤ i.val → i.val < COMMAND_END →
          i.val < d.payload.length ∧ s'.rxPingPongBuffer.current.rxBuffer i = d.get i) ∧
      (s'.rxPingPongBuffer.index = s.rxPingPongBuffer.index →
        s'.rxPingPongBuffer.current = s.rxPingPongBuffer.current)
  | .baseTimer => (s.step .baseTimer).rxPingPongBuffer = s.rxPingPongBuffer
  | _ => True

/-- The first word of the inactive buffer under the bytes of a datagram: its own
bytes, then those an older packet left. -/
def headerOver (stale : RxData) (d : Datagram) : Word :=
  leWord (fun i => if i < d.payload.length then d.get i else stale.rxBuffer.get i) 0

theorem get_memcpy (r : RxData) (d : Datagram) (i : ℕ) :
    (r.memcpy d).rxBuffer.get i =
      if i < d.payload.length then d.get i else r.rxBuffer.get i := by
  have hfits := d.fits
  by_cases h : i < d.payload.length
  · simp [Octets.get, RxData.memcpy, Datagram.get, h, show i < BUFFER_SIZE by omega]
  · simp [Octets.get, RxData.memcpy, h]

theorem header_memcpy (r : RxData) (d : Datagram) : (r.memcpy d).header = headerOver r d :=
  leWord_congr fun _ _ => get_memcpy r d _

/-- From four bytes on the header is the datagram's own. -/
theorem headerOver_of_le (r : RxData) {d : Datagram} (h : 4 ≤ d.payload.length) :
    headerOver r d = leWord d.get 0 :=
  leWord_congr fun _ _ => if_pos (by omega)

/-- **A call keeps the command** exactly when what it handles as a write is long
enough to be a command. -/
theorem keepsCommand_udp_iff (s : Controller fl) (d : Datagram) :
    KeepsCommand s (.udp d) ↔
      (headerOver s.rxPingPongBuffer.alt d = PRU_WRITE → COMMAND_END ≤ d.payload.length) := by
  have hheader : (s.received d).header = headerOver s.rxPingPongBuffer.alt d := header_memcpy _ _
  rw [KeepsCommand, Controller.step]
  rcases s.udp_cases d with ⟨hr, hcall⟩ | ⟨hw, hcall⟩ | ⟨-, hw, hcall⟩
  · have hw : ¬headerOver s.rxPingPongBuffer.alt d = PRU_WRITE := by
      rw [← hheader]; exact Controller.not_writes_of_reads hr
    simp [hcall, hw]
  · have hover := hw
    rw [Controller.Writes, hheader] at hover
    have hswap : 1 - s.rxPingPongBuffer.index ≠ s.rxPingPongBuffer.index := PingPong.one_sub_ne _
    simp only [hcall, PingPong.index_swap, PingPong.index_setAlt, PingPong.current_swap,
      PingPong.alt_setAlt, ne_eq, hswap, not_false_eq_true, true_implies, false_implies, and_true,
      hover]
    constructor
    · rintro ⟨-, hbytes⟩
      exact (hbytes ⟨48, by decide⟩ (by decide) (by decide)).1
    · intro hlen
      have h4 : 4 ≤ d.payload.length := by simp only [COMMAND_END] at hlen; omega
      refine ⟨⟨h4, headerOver_of_le _ h4 ▸ hover⟩, fun i _ hi => ?_⟩
      have hi' : i.val < d.payload.length := by omega
      refine ⟨hi', ?_⟩
      have hget := get_memcpy s.rxPingPongBuffer.alt d i.val
      rwa [if_pos hi', Octets.get_of_lt _ i.isLt] at hget
  · rw [Controller.Writes, hheader] at hw
    simp [hcall, hw]

/-- **The command in force is exactly what a write carried**, along every sequence
of datagrams and base-thread runs, exactly when no datagram too short to be a
command is handled as a write. -/
theorem keepsCommand_along_iff (s : Controller fl) (es : List Event) :
    Along Controller.step KeepsCommand s es ↔
      Along Controller.step (fun s e => ∀ d, e = .udp d →
        headerOver s.rxPingPongBuffer.alt d = PRU_WRITE → COMMAND_END ≤ d.payload.length) s es := by
  refine along_iff_along (I := fun _ => True) (fun s e _ => ?_) (fun _ _ _ _ => trivial) trivial es
  cases e with
  | udp d => simp [keepsCommand_udp_iff]
  | baseTimer => simp [KeepsCommand, Controller.step, baseTimerTick]
  | servoTimer => simp [KeepsCommand]
  | pass gpio => simp [KeepsCommand]

/-- A write of which every byte after the header is `b`. -/
def writeOf (b : Byte) : Datagram where
  payload := [0x74, 0x69, 0x72, 0x77] ++ List.replicate 64 b
  fits := by simp [BUFFER_SIZE]

/-- Two writes, then an empty datagram: the first command is in force again. -/
theorem not_keepsCommand_along :
    ¬Along Controller.step KeepsCommand
      (Controller.start ([] : List (Stepgen (exactFloat fun _ => 0))) [] ⟨false, false, 0⟩)
      [.udp (writeOf 1), .udp (writeOf 2), .udp ⟨[], Nat.zero_le _⟩] := by
  rintro ⟨-, -, h, -⟩
  have := (keepsCommand_udp_iff _ _).1 h (by decide)
  exact absurd this (by decide)

end Remora
