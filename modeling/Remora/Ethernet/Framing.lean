/-
# Frames from the W5500

`EthernetTasks` of `remora.cpp` and `recv_lwip` of `w5x00_lwip.c`.  The receive
buffer of the MACRAW socket is a queue of bytes: the chip appends a record for
every frame that it has room for, `wiz_recv_data` takes bytes from the front,
`wiz_recv_ignore` skips them, and `RX_RSR` is the number of bytes queued.

`recv_lwip` bounds a frame by its parameter `len`, and `EthernetTasks` passes the
number of bytes queued, which no queued frame exceeds.  So the branch that drops
a frame is never taken (`recvLwip_of_next`), every call takes exactly one record
(`ethernetTasks_of_queue`), and a frame goes into `pack` whatever its length.
-/

import Remora.Basis.Records
import Remora.Basis.Run

namespace Remora

open Basis

/-- `ETHERNET_MTU`, the size of `pack` in bytes. -/
def ETHERNET_MTU : ℕ := 1500

/-- The receive memory of the MACRAW socket in bytes, `memsize[1][0]` of
`wizchip_initialize`. -/
def RX_MEMORY : ℕ := 8 * 1024

/-- An Ethernet frame, without its checksum. -/
structure EthernetFrame where
  bytes : List Byte
  fits : bytes.length ≤ 1514

/-- `getSn_RX_RSR` -/
def getSnRxRsr (rx : List Byte) : BitVec 16 := BitVec.ofNat 16 rx.length

/-- `wiz_recv_data`: the bytes taken, and the queue behind them. -/
def wizRecvData (rx : List Byte) (len : ℕ) : List Byte × List Byte := (rx.take len, rx.drop len)

/-- `wiz_recv_ignore`: the queue behind the bytes skipped. -/
def wizRecvIgnore (rx : List Byte) (len : ℕ) : List Byte := rx.drop len

/-- What `recv_lwip` leaves: the queue, the bytes written from `buf` on, and the result. -/
structure Received where
  rx : List Byte
  buf : List Byte
  packLen : BitVec 16

/-- `recv_lwip` -/
def recvLwip (rx : List Byte) (len : BitVec 16) : Received :=
  let packLen := getSnRxRsr rx
  if packLen > 0 then
    let (head, rx) := wizRecvData rx 2
    -- the two bytes of the length, which counts itself
    let packLen := (head.getD 0 0).setWidth 16
    let packLen := packLen <<< 8 + (head.getD 1 0).setWidth 16
    let packLen := packLen - 2
    if packLen > len then ⟨wizRecvIgnore rx packLen.toNat, [], 0⟩
    else
      let (buf, rx) := wizRecvData rx packLen.toNat
      ⟨rx, buf, packLen⟩
  else ⟨rx, [], packLen⟩

/-- The queue in the chip, and the frames handed to `g_netif.input`, in their order. -/
structure Link where
  rx : List Byte
  input : List (List Byte)

/-- `EthernetTasks`: the state, and the number of bytes written into `pack`.  When
`pbuf_alloc` finds no pbuf the frame is dropped. -/
def ethernetTasks (s : Link) (pbufAlloc : Bool) : Link × ℕ :=
  let packLen := getSnRxRsr s.rx
  if packLen > 0 then
    let r := recvLwip s.rx packLen
    if r.packLen ≠ 0 then
      (⟨r.rx, if pbufAlloc then s.input ++ [r.buf] else s.input⟩, r.buf.length)
    else (⟨r.rx, s.input⟩, r.buf.length)
  else (s, 0)

/-- What happens at the link. -/
inductive LinkEvent where
  /-- A frame arrives; the chip drops one that it has no room for. -/
  | frame (f : EthernetFrame)
  /-- `EthernetTasks` is called. -/
  | tasks (pbufAlloc : Bool)

namespace Link

/-- The chip has room for the record of the frame. -/
def HasRoom (s : Link) (f : EthernetFrame) : Prop :=
  s.rx.length + (Records.record f.bytes).length ≤ RX_MEMORY

instance (s : Link) (f : EthernetFrame) : Decidable (s.HasRoom f) :=
  inferInstanceAs (Decidable (_ ≤ _))

/-- The state after an event. -/
def step (s : Link) : LinkEvent → Link
  | .frame f => if s.HasRoom f then { s with rx := s.rx ++ Records.record f.bytes } else s
  | .tasks pbufAlloc => (ethernetTasks s pbufAlloc).1

/-- The frames that the chip has taken, and those of them not yet read. -/
structure Queued where
  arrived : List (List Byte)
  queue : List (List Byte)

/-- How an event changes the record of frames. -/
def record (s : Link) : LinkEvent → Queued → Queued
  | .frame f, g =>
      if s.HasRoom f then ⟨g.arrived ++ [f.bytes], g.queue ++ [f.bytes]⟩ else g
  | .tasks _, g => { g with queue := g.queue.tail }

/-- **Receive framing is exact and bounded.**  A call that finds data takes exactly
one record off the queue, the oldest; hands its frame to the stack unchanged or
drops it; keeps what is handed on, with what is still queued, in the order of
arrival, each frame once; and writes no more than `pack` holds. -/
def Exact (s : Link × Queued) : LinkEvent → Prop
  | .frame _ => True
  | .tasks pbufAlloc => s.1.rx ≠ [] → ∃ frame rest, s.2.queue = frame :: rest ∧
      (ethernetTasks s.1 pbufAlloc).1.rx = Records.stream rest ∧
      ((ethernetTasks s.1 pbufAlloc).1.input = s.1.input ++ [frame] ∨
        (ethernetTasks s.1 pbufAlloc).1.input = s.1.input) ∧
      ((ethernetTasks s.1 pbufAlloc).1.input ++ rest).Sublist s.2.arrived ∧
      (ethernetTasks s.1 pbufAlloc).2 ≤ ETHERNET_MTU

/-- The oldest frame in the chip is not longer than `ETHERNET_MTU`. -/
def Short (s : Link × Queued) : LinkEvent → Prop
  | .frame _ => True
  | .tasks _ => ∀ frame ∈ s.2.queue.head?, frame.length ≤ ETHERNET_MTU

/-- The queue in the chip is one of whole records. -/
structure Framed (s : Link × Queued) : Prop where
  rx : s.1.rx = Records.stream s.2.queue
  memory : s.1.rx.length ≤ RX_MEMORY
  order : (s.1.input ++ s.2.queue).Sublist s.2.arrived

theorem toNat_getSnRxRsr {rx : List Byte} (h : rx.length ≤ RX_MEMORY) :
    (getSnRxRsr rx).toNat = rx.length := by
  rw [getSnRxRsr, BitVec.toNat_ofNat, Nat.mod_eq_of_lt]
  exact Nat.lt_of_le_of_lt h (by decide)

/-- The length that `recv_lwip` computes is that of the body. -/
theorem toNat_packLen {hi lo : Byte} {n : ℕ} (h : (Records.beHalf hi lo).toNat = n + 2) :
    (hi.setWidth 16 <<< 8 + lo.setWidth 16 - 2 : BitVec 16).toNat = n := by
  have hhi := hi.isLt
  have hlo := lo.isLt
  rw [Records.toNat_beHalf] at h
  rw [BitVec.toNat_sub, BitVec.toNat_add, BitVec.toNat_shiftLeft, BitVec.toNat_setWidth,
    BitVec.toNat_setWidth, Nat.shiftLeft_eq, show (2 : BitVec 16).toNat = 2 from rfl]
  omega

/-- **`recv_lwip` on a queue that starts with a record**, bounded by the bytes queued. -/
theorem recvLwip_of_next {rx body rest : List Byte} (h : Records.next rx = some (body, rest))
    (hrx : rx.length ≤ RX_MEMORY) :
    recvLwip rx (getSnRxRsr rx) = ⟨rest, body, BitVec.ofNat 16 body.length⟩ := by
  obtain ⟨hi, lo, rfl, hn⟩ := Records.eq_of_next h
  have hrsr := toNat_getSnRxRsr hrx
  simp only [List.length_cons, List.length_append] at hrsr
  have hword : (hi.setWidth 16 <<< 8 + lo.setWidth 16 - 2 : BitVec 16) =
      BitVec.ofNat 16 body.length := by
    rw [← toNat_packLen hn, BitVec.ofNat_toNat, BitVec.setWidth_eq]
  have hlen : (BitVec.ofNat 16 body.length).toNat = body.length := by
    rw [← hword, toNat_packLen hn]
  have hpos : getSnRxRsr (hi :: lo :: (body ++ rest)) > 0 := by
    rw [gt_iff_lt, BitVec.lt_def, hrsr]
    exact Nat.zero_lt_succ _
  have hbound : ¬BitVec.ofNat 16 body.length > getSnRxRsr (hi :: lo :: (body ++ rest)) := by
    rw [gt_iff_lt, BitVec.lt_def, hrsr, hlen]
    omega
  simp only [recvLwip, hpos, if_true, wizRecvData, List.take_succ_cons, List.take_zero,
    List.drop_succ_cons, List.drop_zero, List.getD_cons_zero, List.getD_cons_succ, hword, hbound,
    if_false, hlen, List.take_left, List.drop_left]

/-- **A call takes one record.** -/
theorem ethernetTasks_of_queue {s : Link} {frame : List Byte} {rest : List (List Byte)}
    (h : s.rx = Records.stream (frame :: rest)) (hrx : s.rx.length ≤ RX_MEMORY) (pbufAlloc : Bool) :
    (ethernetTasks s pbufAlloc).1.rx = Records.stream rest ∧
    ((ethernetTasks s pbufAlloc).1.input = s.input ++ [frame] ∨
      (ethernetTasks s pbufAlloc).1.input = s.input) ∧
    (ethernetTasks s pbufAlloc).2 = frame.length := by
  have hsize : frame.length + 2 < 65536 := by
    rw [h, Records.stream_cons, List.length_append, Records.length_record] at hrx
    exact Nat.lt_of_le_of_lt (Nat.le_of_add_right_le hrx) (by decide)
  have hnext : Records.next s.rx = some (frame, Records.stream rest) := by
    rw [h, Records.next_stream_cons hsize]
  have hpos : getSnRxRsr s.rx > 0 := by
    rw [gt_iff_lt, BitVec.lt_def, toNat_getSnRxRsr hrx, h, Records.stream_cons,
      List.length_append, Records.length_record]
    exact Nat.lt_of_lt_of_le (Nat.zero_lt_succ _) (Nat.le_add_right _ _)
  simp only [ethernetTasks, hpos, if_true, recvLwip_of_next hnext hrx]
  split_ifs
  · exact ⟨rfl, Or.inl rfl, rfl⟩
  · exact ⟨rfl, Or.inr rfl, rfl⟩
  · exact ⟨rfl, Or.inr rfl, rfl⟩

/-- An empty queue is left alone. -/
theorem ethernetTasks_of_nil {s : Link} (h : s.rx = []) (pbufAlloc : Bool) :
    ethernetTasks s pbufAlloc = (s, 0) := by
  simp [ethernetTasks, getSnRxRsr, h]

/-- What is handed on stays in the order of arrival. -/
theorem Framed.sublist_rest {s : Link × Queued} (h : Framed s) {frame : List Byte}
    {rest : List (List Byte)} (hqueue : s.2.queue = frame :: rest) {input : List (List Byte)}
    (hinput : input = s.1.input ++ [frame] ∨ input = s.1.input) :
    (input ++ rest).Sublist s.2.arrived := by
  refine List.Sublist.trans ?_ (hqueue ▸ h.order)
  rcases hinput with rfl | rfl
  · rw [List.append_assoc, List.singleton_append]
  · exact (List.sublist_cons_self _ _).append_left _

theorem exact_iff {s : Link × Queued} (h : Framed s) (e : LinkEvent) : Exact s e ↔ Short s e := by
  cases e with
  | frame f => exact Iff.rfl
  | tasks pbufAlloc =>
      obtain ⟨s, g⟩ := s
      rw [Exact, Short]
      dsimp only
      cases hqueue : g.queue with
      | nil =>
          have hrx : s.rx = [] := by rw [h.rx, hqueue]; rfl
          exact iff_of_true (fun hne => absurd hrx hne) (by simp)
      | cons frame rest =>
          have hcall := ethernetTasks_of_queue (h.rx.trans (by rw [hqueue])) h.memory pbufAlloc
          obtain ⟨hrest, hinput, hwritten⟩ := hcall
          have hne : s.rx ≠ [] := by
            rw [h.rx, hqueue, Records.stream_cons]
            simp [Records.record, Records.header]
          constructor
          · intro hexact _ hhead
            obtain ⟨frame', rest', heq, -, -, -, hle⟩ := hexact hne
            obtain rfl := Option.some.inj hhead
            rwa [hwritten] at hle
          · intro hshort _
            exact ⟨frame, rest, rfl, hrest, hinput, h.sublist_rest hqueue hinput,
              Nat.le_trans (Nat.le_of_eq hwritten) (hshort frame rfl)⟩

/-- **Every event keeps the queue framed**: what is written too far is not in the chip. -/
theorem Framed.step {s : Link × Queued} (h : Framed s) (e : LinkEvent) :
    Framed (watch Link.step record s e) := by
  obtain ⟨s, g⟩ := s
  cases e with
  | frame f =>
      simp only [watch, Link.step, record]
      split_ifs with hroom
      · refine ⟨?_, ?_, ?_⟩
        · dsimp only
          rw [h.rx, Records.stream_append, Records.stream_cons, Records.stream_nil,
            List.append_nil]
        · rw [List.length_append]
          exact hroom
        · rw [← List.append_assoc]
          exact h.order.append (List.Sublist.refl _)
      · exact h
  | tasks pbufAlloc =>
      simp only [watch, Link.step, record]
      cases hqueue : g.queue with
      | nil =>
          rw [ethernetTasks_of_nil (by rw [h.rx, hqueue]; rfl), List.tail_nil, ← hqueue]
          exact h
      | cons frame rest =>
          obtain ⟨hrest, hinput, -⟩ :=
            ethernetTasks_of_queue (h.rx.trans (by rw [hqueue])) h.memory pbufAlloc
          refine ⟨hrest, ?_, h.sublist_rest hqueue hinput⟩
          have hle := h.memory
          rw [h.rx, hqueue, Records.stream_cons, List.length_append] at hle
          dsimp only
          rw [hrest]
          exact Nat.le_of_add_left_le hle

/-- **Receive framing is exact and bounded** along every run of arrivals and calls
exactly when no frame longer than `ETHERNET_MTU` is taken off the chip. -/
theorem exact_along_iff (es : List LinkEvent) :
    Along (watch step record) Exact (⟨[], []⟩, ⟨[], []⟩) es ↔
      Along (watch step record) Short (⟨[], []⟩, ⟨[], []⟩) es :=
  along_iff_along (fun _ e h => exact_iff h e) (fun _ e h _ => h.step e)
    ⟨rfl, Nat.zero_le _, List.Sublist.refl _⟩ es

/-- The first frame longer than `pack` overruns it. -/
theorem not_exact_of_long {f : EthernetFrame} (h : ETHERNET_MTU < f.bytes.length)
    (pbufAlloc : Bool) :
    ¬Along (watch step record) Exact (⟨[], []⟩, ⟨[], []⟩) [.frame f, .tasks pbufAlloc] := by
  rintro ⟨-, hcall, -⟩
  have hframed : Framed (⟨[], []⟩, ⟨[], []⟩) := ⟨rfl, Nat.zero_le _, List.Sublist.refl _⟩
  have hroom : HasRoom ⟨[], []⟩ f := by
    have := f.fits
    rw [HasRoom, Records.length_record]
    simp only [List.length_nil, RX_MEMORY]
    omega
  have hshort := (exact_iff (hframed.step (.frame f)) (.tasks pbufAlloc)).1 hcall
  have hle := hshort f.bytes (by simp [watch, record, hroom])
  exact Nat.not_lt.2 hle h

/-- A full-size frame, 14 bytes of header and 1500 of data. -/
theorem not_exact_along :
    ¬Along (watch step record) Exact (⟨[], []⟩, ⟨[], []⟩)
      [.frame ⟨List.replicate 1514 0, Nat.le_of_eq List.length_replicate⟩, .tasks true] :=
  not_exact_of_long (by rw [List.length_replicate]; decide) true

end Link
end Remora
