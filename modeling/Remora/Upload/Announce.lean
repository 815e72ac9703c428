/-
# What ends a transfer

`IAP_wrq_recv_callback` takes a datagram apart in three tests that know nothing of
each other: whether it is the next block with data, whether it is the next block
without, and whether it is shorter than a full packet.  The third ends the transfer
and sets `newJson`, so every short datagram does: a block that was there before, a
block that is not due yet, an error, a runt.  The opcode is not looked at, and a
block longer than a full packet is copied past the end of `data_buffer`.

`announcesComplete_iff` says which datagrams are treated as they should be.
-/

import Remora.Upload.Transfers

namespace Remora

open Basis

/-- `TFTP_DATA` -/
def TFTP_DATA : Byte := 3

namespace Server

/-- The datagram is a DATA packet with the block that is due. -/
def IsNextData (args : TftpConnectionArgs) (p : PBuf) : Prop :=
  TFTP_DATA_PKT_HDR_LEN ≤ p.len ∧ iapTftpDecodeOp p = TFTP_DATA ∧
    iapTftpExtractBlock p = args.block + 1

instance (args : TftpConnectionArgs) (p : PBuf) : Decidable (IsNextData args p) :=
  inferInstanceAs (Decidable (_ ∧ _))

/-- A configuration is announced only when complete. -/
structure AnnouncesComplete (s : Server) (pcb : ℕ) (args : TftpConnectionArgs) (p : PBuf)
    (pbufAlloc : Bool) : Prop where
  /-- The last block sets `newJson` and closes the transfer, and it alone. -/
  closes : .newJson ∈ s.effects (.data pcb p pbufAlloc) ∨
      (s.step (.data pcb p pbufAlloc)).transfers pcb = none →
    IsNextData args p ∧ p.len - TFTP_DATA_PKT_HDR_LEN < TFTP_DATA_LEN_MAX
  /-- The block that is due moves `args->block` on and reaches the flash, and it alone. -/
  advances : (∃ args', (s.step (.data pcb p pbufAlloc)).transfers pcb = some args' ∧
        args'.block ≠ args.block) ∨
      (s.step (.data pcb p pbufAlloc)).flash ≠ s.flash →
    IsNextData args p
  /-- Any other datagram leaves everything as it is. -/
  others : ¬IsNextData args p →
    .newJson ∉ s.effects (.data pcb p pbufAlloc) ∧
      (s.step (.data pcb p pbufAlloc)).transfers = s.transfers ∧
      (s.step (.data pcb p pbufAlloc)).flash = s.flash
  /-- Nothing is copied past `data_buffer`, over what stands behind it. -/
  inside : ∀ n, .overrun n ∉ s.effects (.data pcb p pbufAlloc)

/-- The block that is due, in a DATA packet of no more than the full length; or a
datagram of at least the full length that is not due; or one in several pbufs. -/
def Proper (args : TftpConnectionArgs) (p : PBuf) : Prop :=
  p.len ≠ p.totLen ∨ (IsNextData args p ∧ p.len ≤ TFTP_DATA_PKT_LEN_MAX) ∨
    (iapTftpExtractBlock p ≠ args.block + 1 ∧ TFTP_DATA_PKT_LEN_MAX ≤ p.len)

instance (args : TftpConnectionArgs) (p : PBuf) : Decidable (Proper args p) :=
  inferInstanceAs (Decidable (_ ∨ _))

section

variable {s : Server} {pcb : ℕ} {p : PBuf} {args : TftpConnectionArgs}

/-- The transfer that a datagram leaves. -/
theorem transfers_step_self (h : s.Reaches pcb p args) (pbufAlloc : Bool) :
    (s.step (.data pcb p pbufAlloc)).transfers pcb =
      if p.len < TFTP_DATA_PKT_LEN_MAX then none else some (s.receiveBlock args p).2.1 := by
  rw [step, handle_data h]
  exact Function.update_self ..

/-- A datagram that is not the next block leaves the flash alone. -/
theorem flash_step_of_not_nextBlock (h : s.Reaches pcb p args) (hnext : ¬NextBlock args p)
    (pbufAlloc : Bool) : (s.step (.data pcb p pbufAlloc)).flash = s.flash := by
  rw [step, handle_data h, receiveBlock_of_not_nextBlock s hnext]

/-- The copy passes the end of `data_buffer` for a next block of more than the full
length. -/
theorem not_overrun_mem_iff (h : s.Reaches pcb p args) (pbufAlloc : Bool) :
    (∀ n, .overrun n ∉ s.effects (.data pcb p pbufAlloc)) ↔
      (NextBlock args p → p.len ≤ TFTP_DATA_PKT_LEN_MAX) := by
  have hmax : TFTP_DATA_PKT_LEN_MAX = TFTP_DATA_PKT_HDR_LEN + TFTP_DATA_LEN_MAX := rfl
  by_cases hnext : NextBlock args p
  · have hplace := program_mem_iff h hnext pbufAlloc s.flashWriteAddress.toNat
    have hprogram : ∃ data, .flashRangeProgram s.flashWriteAddress.toNat data TFTP_DATA_LEN_MAX ∈
        s.effects (.data pcb p pbufAlloc) := by
      refine ⟨dataBuffer p, ?_⟩
      rw [effects, handle_data h, receiveBlock_of_nextBlock s hnext]
      simp
    simpa [hprogram, hnext] using hplace
  · simp only [hnext, false_implies, iff_true]
    intro n
    rw [effects, handle_data h, receiveBlock_of_not_nextBlock s hnext, iapTftpSendAckPacket]
    split_ifs <;> simp

/-- A datagram in several pbufs is not looked at. -/
theorem announcesComplete_of_chain (hlen : p.len ≠ p.totLen) (hargs : s.transfers pcb = some args)
    (pbufAlloc : Bool) : s.AnnouncesComplete pcb args p pbufAlloc := by
  have hreach : ∀ args, ¬s.Reaches pcb p args := fun _ h => hlen h.2
  have hhandle := handle_data_of_not_reaches hreach pbufAlloc
  refine ⟨?_, ?_, fun _ => ?_, fun n => ?_⟩
  · simp [effects, step, hhandle, hargs]
  · simp [step, hhandle, hargs]
  · simp [effects, step, hhandle]
  · simp [effects, hhandle]

/-- The block that is due is what closes, advances and programs. -/
theorem announcesComplete_of_nextData (h : s.Reaches pcb p args) (hnext : IsNextData args p)
    (hlen : p.len ≤ TFTP_DATA_PKT_LEN_MAX) (pbufAlloc : Bool) :
    s.AnnouncesComplete pcb args p pbufAlloc := by
  have hmax : TFTP_DATA_PKT_LEN_MAX = TFTP_DATA_PKT_HDR_LEN + TFTP_DATA_LEN_MAX := rfl
  have hhdr := hnext.1
  refine ⟨fun hclosed => ⟨hnext, ?_⟩, fun _ => hnext, fun hn => absurd hnext hn,
    (not_overrun_mem_iff h pbufAlloc).2 fun _ => hlen⟩
  rw [newJson_mem_iff h, transfers_step_self h] at hclosed
  have hshort : p.len < TFTP_DATA_PKT_LEN_MAX := by simpa using hclosed
  omega

/-- A full packet that is not due changes nothing. -/
theorem announcesComplete_of_stale (h : s.Reaches pcb p args)
    (hblock : iapTftpExtractBlock p ≠ args.block + 1) (hlen : TFTP_DATA_PKT_LEN_MAX ≤ p.len)
    (pbufAlloc : Bool) : s.AnnouncesComplete pcb args p pbufAlloc := by
  have hnext : ¬NextBlock args p := fun hn => hblock hn.2
  have hshort : ¬p.len < TFTP_DATA_PKT_LEN_MAX := Nat.not_lt.2 hlen
  have hflash := flash_step_of_not_nextBlock h hnext pbufAlloc
  have hnew : .newJson ∉ s.effects (.data pcb p pbufAlloc) := by
    rwa [newJson_mem_iff h]
  have htransfers : (s.step (.data pcb p pbufAlloc)).transfers = s.transfers := by
    rw [step, handle_data h, receiveBlock_of_not_nextBlock s hnext, if_neg hblock, if_neg hshort,
      ← h.1]
    exact Function.update_eq_self pcb s.transfers
  refine ⟨fun hclosed => ?_, fun hadvanced => ?_, fun _ => ⟨hnew, htransfers, hflash⟩,
    (not_overrun_mem_iff h pbufAlloc).2 fun hn => absurd hn hnext⟩
  · rcases hclosed with hmem | hclosed
    · exact absurd hmem hnew
    · rw [htransfers, h.1] at hclosed
      cases hclosed
  · rcases hadvanced with ⟨args', hargs', hne⟩ | hne
    · rw [htransfers] at hargs'
      exact absurd (congrArg _ (h.unique hargs').symm) hne
    · exact absurd hflash hne

/-- The block that is due is not copied past the buffer. -/
theorem AnnouncesComplete.len_le {pbufAlloc : Bool} (h : s.AnnouncesComplete pcb args p pbufAlloc)
    (hreach : s.Reaches pcb p args) (hnext : IsNextData args p) :
    p.len ≤ TFTP_DATA_PKT_LEN_MAX := by
  have hmax : TFTP_DATA_PKT_LEN_MAX = TFTP_DATA_PKT_HDR_LEN + TFTP_DATA_LEN_MAX := rfl
  have hinside := (not_overrun_mem_iff hreach pbufAlloc).1 h.inside
  by_contra hlong
  have hhdr : TFTP_DATA_PKT_HDR_LEN < p.len := by omega
  exact hlong (hinside ⟨hhdr, hnext.2.2⟩)

/-- What is not the block that is due neither ends the transfer nor counts. -/
theorem AnnouncesComplete.stale {pbufAlloc : Bool} (h : s.AnnouncesComplete pcb args p pbufAlloc)
    (hreach : s.Reaches pcb p args) (hnext : ¬IsNextData args p) :
    iapTftpExtractBlock p ≠ args.block + 1 ∧ TFTP_DATA_PKT_LEN_MAX ≤ p.len := by
  have hmax : TFTP_DATA_PKT_LEN_MAX = TFTP_DATA_PKT_HDR_LEN + TFTP_DATA_LEN_MAX := rfl
  have hdata : 0 < TFTP_DATA_LEN_MAX := by decide
  obtain ⟨hnew, htransfers, -⟩ := h.others hnext
  rw [newJson_mem_iff hreach, Nat.not_lt] at hnew
  refine ⟨fun hblock => ?_, hnew⟩
  have hhdr : TFTP_DATA_PKT_HDR_LEN < p.len := by omega
  have hself := transfers_step_self hreach pbufAlloc
  rw [htransfers, hreach.1, if_neg (Nat.not_lt.2 hnew),
    receiveBlock_of_nextBlock s ⟨hhdr, hblock⟩, Option.some_inj] at hself
  have hcount := congrArg TftpConnectionArgs.block hself
  exact absurd hcount (Nat.ne_of_lt (Nat.lt_succ_self _))

/-- **A configuration is announced only when complete** exactly when the datagram is
a proper one. -/
theorem announcesComplete_iff (hargs : s.transfers pcb = some args) (pbufAlloc : Bool) :
    s.AnnouncesComplete pcb args p pbufAlloc ↔ Proper args p := by
  by_cases hlen : p.len = p.totLen
  · have hreach : s.Reaches pcb p args := ⟨hargs, hlen⟩
    constructor
    · intro h
      by_cases hnext : IsNextData args p
      · exact Or.inr (Or.inl ⟨hnext, h.len_le hreach hnext⟩)
      · exact Or.inr (Or.inr (h.stale hreach hnext))
    · rintro (hchain | ⟨hnext, hle⟩ | ⟨hblock, hle⟩)
      · exact absurd hlen hchain
      · exact announcesComplete_of_nextData hreach hnext hle pbufAlloc
      · exact announcesComplete_of_stale hreach hblock hle pbufAlloc
  · exact iff_of_true (announcesComplete_of_chain hlen hargs pbufAlloc) (Or.inl hlen)

end

/-- The first block, when it is the last as well. -/
theorem announcesComplete_last_block :
    ((boot fun _ => 0xFF).step wrq).AnnouncesComplete 0 ⟨0, 0⟩
      ⟨[0, 3, 0, 1, 0x7B], 5, fun _ => 0⟩ true :=
  (announcesComplete_iff rfl true).2 (by decide)

/-- An ERROR packet closes the transfer. -/
theorem not_announcesComplete_error :
    ¬((boot fun _ => 0xFF).step wrq).AnnouncesComplete 0 ⟨0, 0⟩
      ⟨[0, 5, 0, 0], 4, fun _ => 0⟩ true := by
  intro h
  have hnext := (h.closes (Or.inr rfl)).1
  exact absurd hnext (by decide)

end Server
end Remora
