/-
# The upload region

A write request erases the upload region and every block programmed moves the
write address on by 512; nothing stops it at the end.  `Counted` ties the address
to the number of blocks since the last request, so the 65th block is programmed
at `JSON_STORAGE_ADDRESS`, into the stored configuration.  A datagram with more
than 512 bytes of data, programmed as one block, is copied past the end of
`data_buffer`; what happens then is outside the model, and counts as not contained.
-/

import Remora.Basis.Run
import Remora.Upload.Tftp

namespace Remora

open Basis

/-- A flash operation inside the upload region.  A copy past the end of
`data_buffer` is never inside. -/
def Effect.Inside : Effect → Prop
  | .flashRangeErase address count =>
      JSON_UPLOAD_ADDRESS ≤ address ∧ address + count ≤ JSON_UPLOAD_ADDRESS + REGION_SIZE
  | .flashRangeProgram address _ count =>
      JSON_UPLOAD_ADDRESS ≤ address ∧ address + count ≤ JSON_UPLOAD_ADDRESS + REGION_SIZE
  | .overrun _ => False
  | _ => True

instance (e : Effect) : Decidable e.Inside := by
  unfold Effect.Inside
  split <;> infer_instance

namespace Server

/-- A datagram touches no flash outside the upload region. -/
def Contained (s : Server) (e : Arrival) : Prop :=
  (∀ effect ∈ s.effects e, effect.Inside) ∧
    ∀ i, ¬(JSON_UPLOAD_ADDRESS ≤ i ∧ i < JSON_UPLOAD_ADDRESS + REGION_SIZE) →
      (s.step e).flash i = s.flash i

/-- The blocks programmed since the last write request. -/
def countBlocks (s : Server) (e : Arrival) (n : ℕ) : ℕ :=
  if Opens e then 0 else if s.Programs e then n + 1 else n

/-- The datagram, if it is programmed, is at most the 64th since the last write
request and has at most 512 bytes of data. -/
def Fits (s : Server × ℕ) : Arrival → Prop
  | .request .. => True
  | .data pcb p pbufAlloc => s.1.Programs (.data pcb p pbufAlloc) →
      s.2 < REGION_SIZE / TFTP_DATA_LEN_MAX ∧ p.len ≤ TFTP_DATA_PKT_LEN_MAX

/-- The write address is that of the next block, once a transfer is open. -/
def Counted (s : Server × ℕ) : Prop :=
  (∀ pcb, s.1.transfers pcb = none) ∨
    s.1.flashWriteAddress = BitVec.ofNat 32 (JSON_UPLOAD_ADDRESS + TFTP_DATA_LEN_MAX * s.2) ∧
      s.2 ≤ REGION_SIZE / TFTP_DATA_LEN_MAX

/-- The flash operations of a next block: one, at the write address. -/
theorem inside_handle_data_iff {s : Server} {pcb : ℕ} {p : PBuf} {args : TftpConnectionArgs}
    (h : s.Reaches pcb p args) (hnext : NextBlock args p) (pbufAlloc : Bool) :
    (∀ effect ∈ s.effects (.data pcb p pbufAlloc), effect.Inside) ↔
      p.len ≤ TFTP_DATA_PKT_LEN_MAX ∧ JSON_UPLOAD_ADDRESS ≤ s.flashWriteAddress.toNat ∧
        s.flashWriteAddress.toNat + TFTP_DATA_LEN_MAX ≤ JSON_UPLOAD_ADDRESS + REGION_SIZE := by
  have hack : ∀ k, ∀ effect ∈ iapTftpSendAckPacket pcb k pbufAlloc, effect.Inside := by
    intro k effect he
    unfold iapTftpSendAckPacket at he
    split_ifs at he <;> simp_all [Effect.Inside]
  have htail : ∀ effect ∈ (if p.len < TFTP_DATA_PKT_LEN_MAX then
      [Effect.udpRemove pcb, .pbufFree, .newJson] else [.pbufFree]), effect.Inside := by
    split_ifs <;> simp [Effect.Inside]
  rw [effects, handle_data h, receiveBlock_of_nextBlock s hnext]
  simp only [List.forall_mem_append]
  have hover : (∀ effect ∈ (if p.len - TFTP_DATA_PKT_HDR_LEN > TFTP_DATA_LEN_MAX then
      [Effect.overrun (p.len - TFTP_DATA_PKT_HDR_LEN)] else []), effect.Inside) ↔
      p.len ≤ TFTP_DATA_PKT_LEN_MAX := by
    have hmax : TFTP_DATA_PKT_LEN_MAX = TFTP_DATA_PKT_HDR_LEN + TFTP_DATA_LEN_MAX := rfl
    split_ifs with hlen
    · simp only [List.mem_singleton, forall_eq, Effect.Inside, false_iff]
      omega
    · simp only [List.not_mem_nil, false_implies, implies_true, true_iff]
      omega
  rw [hover, List.forall_mem_singleton]
  exact ⟨fun h => h.1.1, fun h => ⟨⟨h, hack _⟩, htail⟩⟩

/-- A program operation inside the region leaves the rest of the flash alone. -/
theorem program_inside (f data : ℕ → Byte) {a n i : ℕ}
    (ha : JSON_UPLOAD_ADDRESS ≤ a ∧ a + n ≤ JSON_UPLOAD_ADDRESS + REGION_SIZE)
    (hi : ¬(JSON_UPLOAD_ADDRESS ≤ i ∧ i < JSON_UPLOAD_ADDRESS + REGION_SIZE)) :
    Flash.program f a data n i = f i := Flash.program_outside f data (by omega)

/-- Port 69 never touches flash outside the region. -/
theorem contained_request (s : Server) (p : PBuf) (alloc : Alloc) :
    s.Contained (.request p alloc) := by
  by_cases hopen : Opens (.request p alloc)
  · rw [Contained, effects, step, handle_request_of_opens hopen]
    refine ⟨?_, fun i hi => Flash.erase_outside _ hi⟩
    simp only [List.forall_mem_append, iapTftpSendAckPacket]
    split_ifs <;> simp [Effect.Inside]
  · obtain ⟨n, transfers, hstate, -, heffects⟩ := handle_request_of_not_opens (s := s) hopen
    refine ⟨fun effect he => ?_, fun i _ => by rw [step, hstate]⟩
    rcases heffects effect he with rfl | rfl | rfl <;> trivial

/-- A datagram that is not programmed touches no flash. -/
theorem contained_of_not_programs {s : Server} {pcb : ℕ} {p : PBuf} {pbufAlloc : Bool}
    (h : ¬s.Programs (.data pcb p pbufAlloc)) :
    s.Contained (.data pcb p pbufAlloc) ∧
      (s.step (.data pcb p pbufAlloc)).flashWriteAddress = s.flashWriteAddress := by
  by_cases hreach : ∃ args, s.Reaches pcb p args
  · obtain ⟨args, hreach⟩ := hreach
    rw [hreach.programs_iff] at h
    rw [Contained, effects, step, handle_data hreach, receiveBlock_of_not_nextBlock s h]
    refine ⟨⟨?_, fun i _ => rfl⟩, rfl⟩
    simp only [List.forall_mem_append, iapTftpSendAckPacket]
    split_ifs <;> simp [Effect.Inside]
  · rw [Contained, effects, step, handle_data_of_not_reaches (not_exists.1 hreach)]
    exact ⟨⟨by simp, fun i _ => rfl⟩, rfl⟩

/-- **A datagram is contained exactly when it fits.** -/
theorem contained_iff {s : Server × ℕ} (h : Counted s) (e : Arrival) :
    s.1.Contained e ↔ Fits s e := by
  cases e with
  | request p alloc => exact iff_of_true (contained_request s.1 p alloc) trivial
  | data pcb p pbufAlloc =>
      by_cases hprog : s.1.Programs (.data pcb p pbufAlloc)
      · obtain ⟨args, hargs, hlen, hnext⟩ := hprog
        have hreach : s.1.Reaches pcb p args := ⟨hargs, hlen⟩
        obtain ⟨haddr, hle⟩ := h.resolve_left fun hnone => by simp [hnone pcb] at hargs
        have hword : s.1.flashWriteAddress.toNat =
            JSON_UPLOAD_ADDRESS + TFTP_DATA_LEN_MAX * s.2 := by
          rw [haddr, toNat_writeAddress (le_trans hle (by decide))]
        have hinside := inside_handle_data_iff hreach hnext pbufAlloc
        rw [hword] at hinside
        rw [Contained, hinside, Fits, hreach.programs_iff]
        constructor
        · rintro ⟨⟨hmax, -, hend⟩, -⟩ -
          have hsize : REGION_SIZE = TFTP_DATA_LEN_MAX * (REGION_SIZE / TFTP_DATA_LEN_MAX) := rfl
          refine ⟨?_, hmax⟩
          by_contra hn
          have := Nat.mul_le_mul_left TFTP_DATA_LEN_MAX (not_lt.1 hn)
          have : 0 < TFTP_DATA_LEN_MAX := by decide
          omega
        · intro hfits
          obtain ⟨hn, hmax⟩ := hfits hnext
          have hsize : TFTP_DATA_LEN_MAX * (REGION_SIZE / TFTP_DATA_LEN_MAX) = REGION_SIZE := rfl
          have hend := Nat.mul_le_mul_left TFTP_DATA_LEN_MAX (Nat.succ_le_of_lt hn)
          rw [Nat.mul_succ] at hend
          have hregion : JSON_UPLOAD_ADDRESS ≤ JSON_UPLOAD_ADDRESS + TFTP_DATA_LEN_MAX * s.2 ∧
              JSON_UPLOAD_ADDRESS + TFTP_DATA_LEN_MAX * s.2 + TFTP_DATA_LEN_MAX ≤
                JSON_UPLOAD_ADDRESS + REGION_SIZE := by omega
          refine ⟨⟨hmax, hregion⟩, fun i hi => ?_⟩
          rw [step, handle_data hreach, receiveBlock_of_nextBlock _ hnext]
          exact program_inside _ _ (hword ▸ hregion) hi
      · exact iff_of_true (contained_of_not_programs hprog).1 fun h => absurd h hprog

/-- A contained datagram keeps the count. -/
theorem counted_step {s : Server × ℕ} (h : Counted s) {e : Arrival} (he : s.1.Contained e) :
    Counted (watch step countBlocks s e) := by
  rw [contained_iff h] at he
  unfold Counted
  rw [watch_fst, watch_snd, countBlocks]
  cases e with
  | request p alloc =>
      by_cases hopen : Opens (.request p alloc)
      · rw [if_pos hopen, step, handle_request_of_opens hopen]
        exact Or.inr ⟨rfl, Nat.zero_le _⟩
      · rw [if_neg hopen, if_neg (show ¬s.1.Programs (.request p alloc) from id)]
        obtain ⟨n, transfers, hstate, -, -⟩ := handle_request_of_not_opens (s := s.1) hopen
        have haddr : (s.1.step (.request p alloc)).flashWriteAddress = s.1.flashWriteAddress := by
          rw [step, hstate]
        rw [haddr]
        exact h.imp_left fun hnone pcb => transfers_request hopen (hnone pcb)
  | data pcb p pbufAlloc =>
      rw [if_neg (show ¬Opens (.data pcb p pbufAlloc) from id)]
      by_cases hprog : s.1.Programs (.data pcb p pbufAlloc)
      · obtain ⟨hn, -⟩ := he hprog
        rw [if_pos hprog]
        obtain ⟨args, hargs, hlen, hnext⟩ := hprog
        obtain ⟨haddr, -⟩ := h.resolve_left fun hnone => by simp [hnone pcb] at hargs
        rw [step, handle_data ⟨hargs, hlen⟩, receiveBlock_of_nextBlock _ hnext]
        refine Or.inr ⟨?_, hn⟩
        rw [haddr, writeAddress_succ]
      · rw [if_neg hprog, (contained_of_not_programs hprog).2]
        exact h.imp_left fun hnone q => transfers_data (hnone q)

/-- **An upload never leaves the upload region**, over every sequence of datagrams,
exactly when no more than 64 blocks are programmed between two write requests,
none of more than 512 bytes. -/
theorem contained_along_iff (flash : Flash) (es : List Arrival) :
    Along step Contained (boot flash) es ↔
      Along (watch step countBlocks) Fits (boot flash, 0) es := by
  rw [← along_watch step countBlocks Contained (boot flash, 0)]
  exact along_iff_along (I := Counted) (fun _ e h => contained_iff h e)
    (fun _ _ h he => counted_step h he) (Or.inl fun _ => rfl) es

/-- A write request, for which lwIP has everything. -/
def wrq : Arrival := .request ⟨[0, 2, 0x61, 0], 4, fun _ => 0⟩ ⟨true, true, true, true⟩

/-- Block `k`, full of `b`, for the transfer on `pcb`. -/
def fullBlock (pcb k : ℕ) (b : Byte) : Arrival :=
  .data pcb ⟨[0, 3, BitVec.ofNat 8 (k / 256), BitVec.ofNat 8 k] ++ List.replicate 512 b, 516,
    fun _ => 0⟩ true

/-- A file of 65 blocks: the last one is programmed into the stored configuration. -/
theorem not_contained_65 :
    ¬Along step Contained (boot fun _ => 0xFF)
      (wrq :: (List.range 65).map fun k => fullBlock 0 (k + 1) 0) := by
  intro h
  have hlast := along_iff_forall_split.1 h
    (wrq :: (List.range 64).map fun k => fullBlock 0 (k + 1) 0) (fullBlock 0 65 0) [] rfl
  exact absurd hlast.1 (by decide +kernel)

end Server
end Remora
