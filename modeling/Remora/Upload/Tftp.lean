/-
# The TFTP server

`tftpserver.cpp`.  A write request on port 69 opens a transfer on a port of its
own: it erases the upload region and points `Flash_Write_Address` at its start.
Every transfer has its own block counter in `tftp_connection_args`, but the
write address, like the region, is one for all of them.

The state is the flash, the file-level variables and the open transfers, each
known by its control block (`pcb`, numbered in the order `udp_new` hands them
out).  What a callback does to the outside is a list of `Effect`s in the order
of the source.  lwIP decides what can fail: its answers come with the datagram.

What a datagram does is said once each for port 69 (`handle_request_of_opens`,
`handle_request_of_not_opens`) and for the port of a transfer (`handle_data`,
`handle_data_of_not_reaches`).
-/

import Remora.Basis.Nor
import Remora.Configuration
import Mathlib.Logic.Function.Basic

namespace Remora

open Basis

/-- `struct pbuf`, the first of its chain: the `len` bytes of `payload`, the length
of the whole chain, and what memory holds past the payload. -/
structure PBuf where
  payload : List Byte
  totLen : ℕ
  beyond : ℕ → Byte

namespace PBuf

/-- `len` -/
def len (p : PBuf) : ℕ := p.payload.length

/-- Byte `i` from `payload` on. -/
def byte (p : PBuf) (i : ℕ) : Byte := p.payload.getD i (p.beyond i)

end PBuf

/-- `TFTP_WRQ` -/
def TFTP_WRQ : Byte := 2

/-- `IAP_tftp_decode_op` -/
def iapTftpDecodeOp (p : PBuf) : Byte := p.byte 1

/-- `IAP_tftp_extract_block`, from network byte order. -/
def iapTftpExtractBlock (p : PBuf) : ℕ := (p.byte 2).toNat * 256 + (p.byte 3).toNat

/-- `tftp_connection_args`, the fields that are read again. -/
structure TftpConnectionArgs where
  block : ℕ
  totBytes : ℕ
  deriving DecidableEq

/-- What a callback does, in its order, besides changing the state. -/
inductive Effect where
  | udpNew (pcb : ℕ)
  | udpRemove (pcb : ℕ)
  | pbufFree
  | resetCore1
  | flashRangeErase (address count : ℕ)
  | flashRangeProgram (address : ℕ) (data : ℕ → Byte) (count : ℕ)
  /-- A copy of `count` bytes into the 512 bytes of `data_buffer`. -/
  | overrun (count : ℕ)
  | ack (pcb block : ℕ)
  | newJson

/-- The server between two datagrams. -/
structure Server where
  flash : Flash
  flashWriteAddress : Word
  totalCount : Word
  nextPcb : ℕ
  transfers : ℕ → Option TftpConnectionArgs

/-- What lwIP answers during a write request. -/
structure Alloc where
  udpNew : Bool
  udpBind : Bool
  memMalloc : Bool
  pbufAlloc : Bool

/-- A datagram for the server: on port 69, or on the port of a transfer. -/
inductive Arrival where
  | request (p : PBuf) (alloc : Alloc)
  | data (pcb : ℕ) (p : PBuf) (pbufAlloc : Bool)

namespace Server

/-- `IAP_tftp_send_ack_packet` -/
def iapTftpSendAckPacket (pcb block : ℕ) (pbufAlloc : Bool) : List Effect :=
  if pbufAlloc then [.ack pcb block] else []

/-- `IAP_tftp_cleanup_wr` -/
def iapTftpCleanupWr (s : Server) (pcb : ℕ) : Server × List Effect :=
  ({ s with transfers := Function.update s.transfers pcb none }, [.udpRemove pcb])

/-- `IAP_tftp_process_write` -/
def iapTftpProcessWrite (s : Server) (pcb : ℕ) (alloc : Alloc) : Server × List Effect :=
  if alloc.memMalloc then
    ({ s with
        transfers := Function.update s.transfers pcb (some ⟨0, 0⟩)
        totalCount := 0
        flash := s.flash.erase JSON_UPLOAD_ADDRESS REGION_SIZE
        flashWriteAddress := BitVec.ofNat 32 JSON_UPLOAD_ADDRESS },
      [.resetCore1, .flashRangeErase JSON_UPLOAD_ADDRESS REGION_SIZE] ++
        iapTftpSendAckPacket pcb 0 alloc.pbufAlloc)
  else s.iapTftpCleanupWr pcb

/-- `IAP_tftp_recv_callback` -/
def iapTftpRecvCallback (s : Server) (p : PBuf) (alloc : Alloc) : Server × List Effect :=
  if alloc.udpNew then
    let pcb := s.nextPcb
    let s := { s with nextPcb := s.nextPcb + 1 }
    if alloc.udpBind then
      if iapTftpDecodeOp p ≠ TFTP_WRQ then (s, [.udpNew pcb, .udpRemove pcb, .pbufFree])
      else
        let r := s.iapTftpProcessWrite pcb alloc
        (r.1, .udpNew pcb :: r.2 ++ [.pbufFree])
    else (s, [.udpNew pcb])
  else (s, [])

/-- `data_buffer`, once the payload behind the header is copied into it. -/
def dataBuffer (p : PBuf) (i : ℕ) : Byte := p.payload.getD (TFTP_DATA_PKT_HDR_LEN + i) 0

/-- `IAP_wrq_recv_callback` up to the ACK: the flash and the counters. -/
def receiveBlock (s : Server) (args : TftpConnectionArgs) (p : PBuf) :
    Server × TftpConnectionArgs × List Effect :=
  let count := p.len - TFTP_DATA_PKT_HDR_LEN
  if p.len > TFTP_DATA_PKT_HDR_LEN ∧ iapTftpExtractBlock p = args.block + 1 then
    ({ s with
        totalCount := s.totalCount + BitVec.ofNat 32 count
        flash := s.flash.program s.flashWriteAddress.toNat (dataBuffer p) TFTP_DATA_LEN_MAX
        flashWriteAddress := s.flashWriteAddress + BitVec.ofNat 32 TFTP_DATA_LEN_MAX },
      ⟨args.block + 1, args.totBytes + count⟩,
      (if count > TFTP_DATA_LEN_MAX then [.overrun count] else []) ++
        [.flashRangeProgram s.flashWriteAddress.toNat (dataBuffer p) TFTP_DATA_LEN_MAX])
  else if iapTftpExtractBlock p = args.block + 1 then
    (s, { args with block := args.block + 1 }, [])
  else (s, args, [])

/-- `IAP_wrq_recv_callback` of the transfer on `pcb`. -/
def iapWrqRecvCallback (s : Server) (pcb : ℕ) (args : TftpConnectionArgs) (p : PBuf)
    (pbufAlloc : Bool) : Server × List Effect :=
  if p.len ≠ p.totLen then (s, [])
  else
    let r := s.receiveBlock args p
    let s := { r.1 with transfers := Function.update r.1.transfers pcb (some r.2.1) }
    let effects := r.2.2 ++ iapTftpSendAckPacket pcb r.2.1.block pbufAlloc
    if p.len < TFTP_DATA_PKT_LEN_MAX then
      let c := s.iapTftpCleanupWr pcb
      (c.1, effects ++ c.2 ++ [.pbufFree, .newJson])
    else (s, effects ++ [.pbufFree])

/-- A datagram.  One for a port that no transfer has is dropped by lwIP. -/
def handle (s : Server) : Arrival → Server × List Effect
  | .request p alloc => s.iapTftpRecvCallback p alloc
  | .data pcb p pbufAlloc =>
      match s.transfers pcb with
      | some args => s.iapWrqRecvCallback pcb args p pbufAlloc
      | none => (s, [])

/-- The state after a datagram. -/
def step (s : Server) (e : Arrival) : Server := (s.handle e).1

/-- The effects of a datagram. -/
def effects (s : Server) (e : Arrival) : List Effect := (s.handle e).2

/-- A server without open transfers. -/
def idle (flash : Flash) (flashWriteAddress totalCount : Word) (nextPcb : ℕ) : Server where
  flash := flash
  flashWriteAddress := flashWriteAddress
  totalCount := totalCount
  nextPcb := nextPcb
  transfers := fun _ => none

/-- After boot. -/
def boot (flash : Flash) : Server := idle flash 0 0 0

/-- The datagram opens a transfer: a write request for which lwIP has everything. -/
def Opens : Arrival → Prop
  | .request p alloc =>
      alloc.udpNew = true ∧ alloc.udpBind = true ∧ iapTftpDecodeOp p = TFTP_WRQ ∧
        alloc.memMalloc = true
  | .data .. => False

instance (e : Arrival) : Decidable (Opens e) :=
  match e with
  | .request .. => inferInstanceAs (Decidable (_ ∧ _))
  | .data .. => inferInstanceAs (Decidable False)

/-- The datagram reaches the transfer with counters `args`, in one pbuf. -/
def Reaches (s : Server) (pcb : ℕ) (p : PBuf) (args : TftpConnectionArgs) : Prop :=
  s.transfers pcb = some args ∧ p.len = p.totLen

/-- The datagram is the next block of its transfer, and not empty. -/
def NextBlock (args : TftpConnectionArgs) (p : PBuf) : Prop :=
  TFTP_DATA_PKT_HDR_LEN < p.len ∧ iapTftpExtractBlock p = args.block + 1

instance (args : TftpConnectionArgs) (p : PBuf) : Decidable (NextBlock args p) :=
  inferInstanceAs (Decidable (_ ∧ _))

/-- The datagram is programmed into flash. -/
def Programs (s : Server) : Arrival → Prop
  | .request .. => False
  | .data pcb p _ => ∃ args ∈ s.transfers pcb, p.len = p.totLen ∧ NextBlock args p

instance (s : Server) (e : Arrival) : Decidable (s.Programs e) :=
  match e with
  | .request .. => inferInstanceAs (Decidable False)
  | .data pcb _ _ => inferInstanceAs (Decidable (∃ args ∈ s.transfers pcb, _))

/-- The counters are those of the transfer. -/
theorem Reaches.unique {s : Server} {pcb : ℕ} {p : PBuf} {args args' : TftpConnectionArgs}
    (h : s.Reaches pcb p args) (h' : s.transfers pcb = some args') : args = args' :=
  Option.some.inj (h.1.symm.trans h')

theorem Reaches.programs_iff {s : Server} {pcb : ℕ} {p : PBuf} {args : TftpConnectionArgs}
    (h : s.Reaches pcb p args) (pbufAlloc : Bool) :
    s.Programs (.data pcb p pbufAlloc) ↔ NextBlock args p := by
  constructor
  · rintro ⟨args', hargs', -, hnext⟩
    exact h.unique hargs' ▸ hnext
  · exact fun hnext => ⟨args, h.1, h.2, hnext⟩

theorem handle_data_of_not_reaches {s : Server} {pcb : ℕ} {p : PBuf}
    (h : ∀ args, ¬s.Reaches pcb p args) (pbufAlloc : Bool) :
    s.handle (.data pcb p pbufAlloc) = (s, []) := by
  cases hargs : s.transfers pcb with
  | none => simp [handle, hargs]
  | some args =>
      have hlen : p.len ≠ p.totLen := fun hlen => h args ⟨hargs, hlen⟩
      simp [handle, hargs, iapWrqRecvCallback, hlen]

/-- **What a datagram of a transfer does.** -/
theorem handle_data {s : Server} {pcb : ℕ} {p : PBuf} {args : TftpConnectionArgs}
    (h : s.Reaches pcb p args) (pbufAlloc : Bool) :
    s.handle (.data pcb p pbufAlloc) =
      ({ (s.receiveBlock args p).1 with
          transfers := Function.update s.transfers pcb
            (if p.len < TFTP_DATA_PKT_LEN_MAX then none else some (s.receiveBlock args p).2.1) },
        (s.receiveBlock args p).2.2 ++
          iapTftpSendAckPacket pcb (s.receiveBlock args p).2.1.block pbufAlloc ++
          if p.len < TFTP_DATA_PKT_LEN_MAX then [.udpRemove pcb, .pbufFree, .newJson]
          else [.pbufFree]) := by
  have htransfers : (s.receiveBlock args p).1.transfers = s.transfers := by
    unfold receiveBlock
    split_ifs <;> rfl
  simp only [handle, h.1, iapWrqRecvCallback, h.2, ne_eq, not_true_eq_false, if_false,
    iapTftpCleanupWr, htransfers, Function.update_idem]
  split_ifs <;> simp

theorem receiveBlock_of_nextBlock (s : Server) {args : TftpConnectionArgs} {p : PBuf}
    (h : NextBlock args p) :
    s.receiveBlock args p =
      ({ s with
          totalCount := s.totalCount + BitVec.ofNat 32 (p.len - TFTP_DATA_PKT_HDR_LEN)
          flash := s.flash.program s.flashWriteAddress.toNat (dataBuffer p) TFTP_DATA_LEN_MAX
          flashWriteAddress := s.flashWriteAddress + BitVec.ofNat 32 TFTP_DATA_LEN_MAX },
        ⟨args.block + 1, args.totBytes + (p.len - TFTP_DATA_PKT_HDR_LEN)⟩,
        (if p.len - TFTP_DATA_PKT_HDR_LEN > TFTP_DATA_LEN_MAX then
            [.overrun (p.len - TFTP_DATA_PKT_HDR_LEN)] else []) ++
          [.flashRangeProgram s.flashWriteAddress.toNat (dataBuffer p) TFTP_DATA_LEN_MAX]) :=
  if_pos h

/-- A datagram that is not the next block changes at most the block counter. -/
theorem receiveBlock_of_not_nextBlock (s : Server) {args : TftpConnectionArgs} {p : PBuf}
    (h : ¬NextBlock args p) :
    s.receiveBlock args p =
      (s, if iapTftpExtractBlock p = args.block + 1 then { args with block := args.block + 1 }
        else args, []) := by
  rw [receiveBlock, if_neg (show ¬(_ ∧ _) from h)]
  split_ifs <;> rfl

/-- **What a write request does** when lwIP has everything. -/
theorem handle_request_of_opens {s : Server} {p : PBuf} {alloc : Alloc}
    (h : Opens (.request p alloc)) :
    s.handle (.request p alloc) =
      ({ flash := s.flash.erase JSON_UPLOAD_ADDRESS REGION_SIZE
         flashWriteAddress := BitVec.ofNat 32 JSON_UPLOAD_ADDRESS
         totalCount := 0
         nextPcb := s.nextPcb + 1
         transfers := Function.update s.transfers s.nextPcb (some ⟨0, 0⟩) },
        [.udpNew s.nextPcb, .resetCore1, .flashRangeErase JSON_UPLOAD_ADDRESS REGION_SIZE] ++
          iapTftpSendAckPacket s.nextPcb 0 alloc.pbufAlloc ++ [.pbufFree]) := by
  obtain ⟨hnew, hbind, hop, hmalloc⟩ := h
  simp [handle, iapTftpRecvCallback, iapTftpProcessWrite, hnew, hbind, hop, hmalloc]

/-- Every other datagram on port 69 leaves flash, write address and count as they
are, opens no transfer, and touches no flash. -/
theorem handle_request_of_not_opens {s : Server} {p : PBuf} {alloc : Alloc}
    (h : ¬Opens (.request p alloc)) :
    ∃ n transfers, (s.handle (.request p alloc)).1 =
        { s with nextPcb := n, transfers := transfers } ∧
      (∀ q args, transfers q = some args → s.transfers q = some args) ∧
      ∀ e ∈ (s.handle (.request p alloc)).2,
        e = .udpNew s.nextPcb ∨ e = .udpRemove s.nextPcb ∨ e = .pbufFree := by
  have hclosed : ∀ q args, Function.update s.transfers s.nextPcb none q = some args →
      s.transfers q = some args := by
    intro q args hq
    by_cases hqn : q = s.nextPcb
    · rw [hqn, Function.update_self] at hq
      exact absurd hq (by simp)
    · rwa [Function.update_of_ne hqn] at hq
  rcases alloc with ⟨hnew, hbind, hmalloc, hack⟩
  simp only [handle, iapTftpRecvCallback]
  cases hnew with
  | false => exact ⟨s.nextPcb, s.transfers, rfl, fun _ _ hq => hq, by simp⟩
  | true =>
      cases hbind with
      | false => exact ⟨s.nextPcb + 1, s.transfers, rfl, fun _ _ hq => hq, by simp⟩
      | true =>
          by_cases hop : iapTftpDecodeOp p = TFTP_WRQ
          · cases hmalloc with
            | true => exact absurd ⟨rfl, rfl, hop, rfl⟩ h
            | false =>
                refine ⟨s.nextPcb + 1, Function.update s.transfers s.nextPcb none, ?_, hclosed, ?_⟩
                · simp [hop, iapTftpProcessWrite, iapTftpCleanupWr]
                · simp [hop, iapTftpProcessWrite, iapTftpCleanupWr]
          · refine ⟨s.nextPcb + 1, s.transfers, ?_, fun _ _ hq => hq, ?_⟩
            · simp [hop]
            · simp [hop]

/-- A datagram on port 69 that opens no transfer leaves the closed ones closed. -/
theorem transfers_request {s : Server} {p : PBuf} {alloc : Alloc}
    (h : ¬Opens (.request p alloc)) {q : ℕ} (hq : s.transfers q = none) :
    (s.step (.request p alloc)).transfers q = none := by
  obtain ⟨n, transfers, hstate, hsub, -⟩ := handle_request_of_not_opens (s := s) h
  rw [step, hstate]
  by_contra hopen
  obtain ⟨args, hargs⟩ := Option.ne_none_iff_exists'.1 hopen
  exact absurd (hq.symm.trans (hsub q args hargs)) (by simp)

/-- A datagram on the port of a transfer leaves the closed ones closed. -/
theorem transfers_data {s : Server} {pcb q : ℕ} {p : PBuf} {pbufAlloc : Bool}
    (hq : s.transfers q = none) : (s.step (.data pcb p pbufAlloc)).transfers q = none := by
  by_cases hreach : ∃ args, s.Reaches pcb p args
  · obtain ⟨args, hreach⟩ := hreach
    have hne : q ≠ pcb := by
      rintro rfl
      exact absurd (hq.symm.trans hreach.1) (by simp)
    rw [step, handle_data hreach]
    exact (Function.update_of_ne hne ..).trans hq
  · rw [step, handle_data_of_not_reaches (not_exists.1 hreach), hq]

/-- A control block that `udp_new` has not handed out yet has no transfer. -/
def Fresh (s : Server) : Prop := ∀ q, s.nextPcb ≤ q → s.transfers q = none

/-- **A request that opens no transfer closes none either**: what it gives back is
the control block it has just taken. -/
theorem Fresh.transfers_request {s : Server} (h : s.Fresh) {p : PBuf} {alloc : Alloc}
    (hopen : ¬Opens (.request p alloc)) :
    (s.step (.request p alloc)).transfers = s.transfers ∧
      s.nextPcb ≤ (s.step (.request p alloc)).nextPcb := by
  have hnone : Function.update s.transfers s.nextPcb none = s.transfers := by
    rw [← h s.nextPcb (Nat.le_refl _), Function.update_eq_self]
  rcases alloc with ⟨hnew, hbind, hmalloc, hack⟩
  simp only [step, handle, iapTftpRecvCallback]
  cases hnew with
  | false => exact ⟨rfl, Nat.le_refl _⟩
  | true =>
      cases hbind with
      | false => exact ⟨rfl, Nat.le_succ _⟩
      | true =>
          by_cases hop : iapTftpDecodeOp p = TFTP_WRQ
          · cases hmalloc with
            | true => exact absurd ⟨rfl, rfl, hop, rfl⟩ hopen
            | false => simpa [hop, iapTftpProcessWrite, iapTftpCleanupWr] using hnone
          · simp [hop]

/-- Control blocks are handed out in their order. -/
theorem Fresh.step {s : Server} (h : s.Fresh) (a : Arrival) : (s.step a).Fresh := by
  cases a with
  | request p alloc =>
      by_cases hopen : Opens (.request p alloc)
      · rw [Server.step, handle_request_of_opens hopen]
        intro q hq
        have hlt : s.nextPcb < q := hq
        exact (Function.update_of_ne (Nat.ne_of_gt hlt) ..).trans (h q (Nat.le_of_lt hlt))
      · obtain ⟨htransfers, hle⟩ := h.transfers_request hopen
        exact fun q hq => htransfers ▸ h q (Nat.le_trans hle hq)
  | data pcb p pbufAlloc =>
      have hnext : (s.step (.data pcb p pbufAlloc)).nextPcb = s.nextPcb := by
        by_cases hreach : ∃ args, s.Reaches pcb p args
        · obtain ⟨args, hreach⟩ := hreach
          rw [Server.step, handle_data hreach, receiveBlock]
          split_ifs <;> rfl
        · rw [Server.step, handle_data_of_not_reaches (not_exists.1 hreach)]
      exact fun q hq => transfers_data (h q (hnext ▸ hq))

/-- The write address behind `n` blocks, as long as there are not too many. -/
theorem toNat_writeAddress {n : ℕ} (h : n ≤ 65535) :
    (BitVec.ofNat 32 (JSON_UPLOAD_ADDRESS + TFTP_DATA_LEN_MAX * n)).toNat =
      JSON_UPLOAD_ADDRESS + TFTP_DATA_LEN_MAX * n := by
  have hmul : TFTP_DATA_LEN_MAX * n ≤ 512 * 65535 := Nat.mul_le_mul_left _ h
  have haddr : JSON_UPLOAD_ADDRESS = 2031616 := rfl
  rw [BitVec.toNat_ofNat, Nat.mod_eq_of_lt (by omega)]

/-- A block moves the write address on by its length. -/
theorem writeAddress_succ (n : ℕ) :
    BitVec.ofNat 32 (JSON_UPLOAD_ADDRESS + TFTP_DATA_LEN_MAX * n) +
        BitVec.ofNat 32 TFTP_DATA_LEN_MAX =
      BitVec.ofNat 32 (JSON_UPLOAD_ADDRESS + TFTP_DATA_LEN_MAX * (n + 1)) := by
  rw [← BitVec.ofNat_add, Nat.mul_succ, Nat.add_assoc]

end Server
end Remora
