/-
# Transfers side by side

Port 69 takes write requests while a transfer is open, from another client or
from the same one that repeats its request, and each opens a transfer of its own.
All of them share one write address and one region.

An observer keeps a list of the blocks programmed since the region was last
erased: which transfer, which block, where (`record`, read off the effects).  The
write address counts the blocks on that list, whoever sent them; so a block goes
where it belongs exactly when the list is as long as its own transfer's counter,
and a transfer that ends finds its own blocks only when the list has no others
(`separate_along_iff`).
-/

import Remora.Upload.Region

namespace Remora

open Basis

/-- A block programmed: of which transfer, its number, and where. -/
structure Entry where
  pcb : ℕ
  block : ℕ
  address : ℕ

/-- Where block `k` belongs. -/
def addressOf (k : ℕ) : ℕ := JSON_UPLOAD_ADDRESS + TFTP_DATA_LEN_MAX * (k - 1)

namespace Server

/-- The list after an effect of block `block` on `pcb`. -/
def enter (pcb block : ℕ) (log : List Entry) : Effect → List Entry
  | .flashRangeErase .. => []
  | .flashRangeProgram address _ _ => log ++ [⟨pcb, block, address⟩]
  | _ => log

/-- The blocks programmed since the last erase. -/
def record (s : Server) (e : Arrival) (log : List Entry) : List Entry :=
  match e with
  | .request .. => (s.effects e).foldl (enter 0 0) log
  | .data pcb p _ => (s.effects e).foldl (enter pcb (iapTftpExtractBlock p)) log

/-- A block that is programmed goes where it belongs, and a transfer that ends
finds blocks of its own only, where they belong. -/
def Separate (s : Server × List Entry) : Arrival → Prop
  | .request .. => True
  | .data pcb p pbufAlloc =>
      (s.1.Programs (.data pcb p pbufAlloc) →
        (∃ data, .flashRangeProgram (addressOf (iapTftpExtractBlock p)) data TFTP_DATA_LEN_MAX ∈
          s.1.effects (.data pcb p pbufAlloc)) ∧
        ∀ n, .overrun n ∉ s.1.effects (.data pcb p pbufAlloc)) ∧
      (.newJson ∈ s.1.effects (.data pcb p pbufAlloc) →
        ∀ entry ∈ s.1.record (.data pcb p pbufAlloc) s.2,
          entry.pcb = pcb ∧ entry.address = addressOf entry.block)

/-- The transfer has been alone since the last erase, as far as its blocks can
tell: as many are programmed as it has sent, and at its end none is another's. -/
def Alone (s : Server × List Entry) : Arrival → Prop
  | .request .. => True
  | .data pcb p _ => ∀ args, s.1.Reaches pcb p args →
      (NextBlock args p → s.2.length = args.block ∧ p.len ≤ TFTP_DATA_PKT_LEN_MAX) ∧
      (p.len < TFTP_DATA_PKT_LEN_MAX → ∀ entry ∈ s.2, entry.pcb = pcb)

/-- The write address counts the blocks on the list, once a transfer is open, and
every block is where it belongs. -/
structure Listed (s : Server × List Entry) : Prop where
  address : s.1.flashWriteAddress =
    BitVec.ofNat 32 (JSON_UPLOAD_ADDRESS + TFTP_DATA_LEN_MAX * s.2.length)
  length : s.2.length ≤ 65535
  placed : ∀ entry ∈ s.2, entry.address = addressOf entry.block

theorem Listed.toNat_address {s : Server × List Entry} (h : Listed s) :
    s.1.flashWriteAddress.toNat = JSON_UPLOAD_ADDRESS + TFTP_DATA_LEN_MAX * s.2.length := by
  rw [h.address, toNat_writeAddress h.length]

theorem extractBlock_lt (p : PBuf) : iapTftpExtractBlock p < 65536 := by
  have h2 := (p.byte 2).isLt
  have h3 := (p.byte 3).isLt
  unfold iapTftpExtractBlock
  omega

theorem foldl_enter_ack (pcb block : ℕ) (log : List Entry) (q k : ℕ) (pbufAlloc : Bool) :
    (iapTftpSendAckPacket q k pbufAlloc).foldl (enter pcb block) log = log := by
  unfold iapTftpSendAckPacket
  split_ifs <;> rfl

/-- A request empties the list when it opens a transfer, and leaves it otherwise. -/
theorem record_request (s : Server) (p : PBuf) (alloc : Alloc) (log : List Entry) :
    s.record (.request p alloc) log = if Opens (.request p alloc) then [] else log := by
  by_cases hopen : Opens (.request p alloc)
  · rw [if_pos hopen, record, effects, handle_request_of_opens hopen, List.foldl_append,
      List.foldl_append, foldl_enter_ack]
    rfl
  · obtain ⟨-, -, -, -, heffects⟩ := handle_request_of_not_opens (s := s) hopen
    rw [if_neg hopen, record, effects]
    generalize (s.handle (.request p alloc)).2 = es at heffects
    induction es generalizing log with
    | nil => rfl
    | cons e es ih =>
        have he := heffects e (List.mem_cons_self ..)
        have hlog : enter 0 0 log e = log := by rcases he with rfl | rfl | rfl <;> rfl
        rw [List.foldl_cons, hlog]
        exact ih _ fun e he => heffects e (List.mem_cons_of_mem _ he)

/-- A block that is programmed is put on the list. -/
theorem record_data {s : Server} {pcb : ℕ} {p : PBuf} {args : TftpConnectionArgs}
    (h : s.Reaches pcb p args) (pbufAlloc : Bool) (log : List Entry) :
    s.record (.data pcb p pbufAlloc) log =
      if NextBlock args p then
        log ++ [⟨pcb, iapTftpExtractBlock p, s.flashWriteAddress.toNat⟩] else log := by
  have htail : ∀ log, (if p.len < TFTP_DATA_PKT_LEN_MAX then
      [Effect.udpRemove pcb, .pbufFree, .newJson] else [.pbufFree]).foldl
        (enter pcb (iapTftpExtractBlock p)) log = log := by
    intro log
    split_ifs <;> rfl
  have hover : ∀ log, (if p.len - TFTP_DATA_PKT_HDR_LEN > TFTP_DATA_LEN_MAX then
      [Effect.overrun (p.len - TFTP_DATA_PKT_HDR_LEN)] else []).foldl
        (enter pcb (iapTftpExtractBlock p)) log = log := by
    intro log
    split_ifs <;> rfl
  rw [record, effects, handle_data h]
  by_cases hnext : NextBlock args p
  · rw [if_pos hnext, receiveBlock_of_nextBlock s hnext, List.foldl_append, List.foldl_append,
      foldl_enter_ack, htail, List.foldl_append, hover]
    rfl
  · rw [if_neg hnext, receiveBlock_of_not_nextBlock s hnext, List.foldl_append,
      List.foldl_append, foldl_enter_ack, htail]
    rfl

/-- A transfer ends on a short datagram, whatever else it is. -/
theorem newJson_mem_iff {s : Server} {pcb : ℕ} {p : PBuf} {args : TftpConnectionArgs}
    (h : s.Reaches pcb p args) (pbufAlloc : Bool) :
    .newJson ∈ s.effects (.data pcb p pbufAlloc) ↔ p.len < TFTP_DATA_PKT_LEN_MAX := by
  have hack : ∀ k, Effect.newJson ∉ iapTftpSendAckPacket pcb k pbufAlloc := by
    intro k
    unfold iapTftpSendAckPacket
    split_ifs <;> simp
  have hblock : Effect.newJson ∉ (s.receiveBlock args p).2.2 := by
    unfold receiveBlock
    split_ifs <;> simp
  rw [effects, handle_data h]
  simp only [List.mem_append, hack, hblock, false_or]
  split_ifs with hlen <;> simp [hlen]

/-- A block is programmed once, at the write address, and copied past the buffer
when it is too long. -/
theorem program_mem_iff {s : Server} {pcb : ℕ} {p : PBuf} {args : TftpConnectionArgs}
    (h : s.Reaches pcb p args) (hnext : NextBlock args p) (pbufAlloc : Bool) (address : ℕ) :
    ((∃ data, .flashRangeProgram address data TFTP_DATA_LEN_MAX ∈
        s.effects (.data pcb p pbufAlloc)) ∧
      ∀ n, .overrun n ∉ s.effects (.data pcb p pbufAlloc)) ↔
    address = s.flashWriteAddress.toNat ∧ p.len ≤ TFTP_DATA_PKT_LEN_MAX := by
  have hmax : TFTP_DATA_PKT_LEN_MAX = TFTP_DATA_PKT_HDR_LEN + TFTP_DATA_LEN_MAX := rfl
  rw [effects, handle_data h, receiveBlock_of_nextBlock s hnext]
  simp only [iapTftpSendAckPacket]
  by_cases hover : p.len - TFTP_DATA_PKT_HDR_LEN > TFTP_DATA_LEN_MAX
  · have hlen : ¬p.len ≤ TFTP_DATA_PKT_LEN_MAX := by omega
    simp only [hover, hlen, if_true, and_false, iff_false, not_and, not_forall, not_not]
    exact fun _ => ⟨p.len - TFTP_DATA_PKT_HDR_LEN, by simp⟩
  · have hlen : p.len ≤ TFTP_DATA_PKT_LEN_MAX := by omega
    simp only [hover, hlen, if_false, List.nil_append, and_true]
    constructor
    · rintro ⟨⟨data, hmem⟩, -⟩
      simp only [List.cons_append, List.nil_append, List.mem_cons, List.mem_append] at hmem
      rcases hmem with hmem | hmem | hmem
      · exact (Effect.flashRangeProgram.inj hmem).1
      · split_ifs at hmem <;> simp at hmem
      · split_ifs at hmem <;> simp at hmem
    · rintro rfl
      refine ⟨⟨dataBuffer p, by simp⟩, fun n hn => ?_⟩
      simp only [List.cons_append, List.nil_append, List.mem_cons, List.mem_append] at hn
      rcases hn with hn | hn | hn
      · exact absurd hn (by simp)
      · split_ifs at hn <;> simp at hn
      · split_ifs at hn <;> simp at hn

/-- **A datagram keeps the transfers apart exactly when its transfer is alone.** -/
theorem separate_iff {s : Server × List Entry}
    (h : (∀ pcb, s.1.transfers pcb = none) ∨ Listed s) (e : Arrival) :
    Separate s e ↔ Alone s e := by
  cases e with
  | request p alloc => exact Iff.rfl
  | data pcb p pbufAlloc =>
      by_cases hreach : ∃ args, s.1.Reaches pcb p args
      · obtain ⟨args, hreach⟩ := hreach
        have hlisted := h.resolve_left fun hnone => by
          have := hreach.1
          simp [hnone pcb] at this
        have hone : Alone s (.data pcb p pbufAlloc) ↔
            (NextBlock args p → s.2.length = args.block ∧ p.len ≤ TFTP_DATA_PKT_LEN_MAX) ∧
            (p.len < TFTP_DATA_PKT_LEN_MAX → ∀ entry ∈ s.2, entry.pcb = pcb) := by
          constructor
          · exact fun h => h args hreach
          · intro h args' hreach'
            exact hreach.unique hreach'.1 ▸ h
        have hplace : NextBlock args p →
            (addressOf (iapTftpExtractBlock p) = s.1.flashWriteAddress.toNat ↔
              s.2.length = args.block) := by
          rintro ⟨-, hblock⟩
          rw [hlisted.toNat_address, addressOf, hblock, Nat.add_sub_cancel, Nat.add_left_cancel_iff,
            Nat.mul_right_inj (by decide), eq_comm]
        rw [hone, Separate, hreach.programs_iff, newJson_mem_iff hreach, record_data hreach]
        by_cases hnext : NextBlock args p
        · rw [program_mem_iff hreach hnext, hplace hnext]
          simp only [hnext, true_implies, if_true, List.forall_mem_append,
            List.forall_mem_singleton]
          refine and_congr_right fun hfirst => forall_congr' fun _ => ?_
          have hown := (hplace hnext).2 hfirst.1
          constructor
          · exact fun h entry he => (h.1 entry he).1
          · exact fun h => ⟨fun entry he => ⟨h entry he, hlisted.placed entry he⟩, trivial,
              hown.symm⟩
        · simp only [hnext, false_implies, true_and, if_false]
          refine forall_congr' fun _ => forall₂_congr fun entry he => ?_
          exact and_iff_left (hlisted.placed entry he)
      · rw [Separate, Alone, record, effects, handle_data_of_not_reaches (not_exists.1 hreach)]
        have hprog : ¬s.1.Programs (.data pcb p pbufAlloc) := by
          rintro ⟨args, hargs, hlen, -⟩
          exact hreach ⟨args, hargs, hlen⟩
        simp only [hprog, false_implies, true_and, List.not_mem_nil, true_iff]
        exact fun args hargs => absurd ⟨args, hargs⟩ hreach

/-- With the same write address the same list is kept. -/
theorem Listed.of_eq {s t : Server × List Entry} (h : Listed s)
    (haddr : t.1.flashWriteAddress = s.1.flashWriteAddress) (hlist : t.2 = s.2) : Listed t where
  address := by rw [haddr, hlist, h.address]
  length := hlist ▸ h.length
  placed := hlist ▸ h.placed

/-- A request that opens a transfer starts a new list. -/
theorem listed_of_opens (s : Server × List Entry) {p : PBuf} {alloc : Alloc}
    (hopen : Opens (.request p alloc)) : Listed (watch step record s (.request p alloc)) := by
  rw [watch, record_request, if_pos hopen, step, handle_request_of_opens hopen]
  refine ⟨?_, Nat.zero_le _, by simp⟩
  dsimp only
  rw [List.length_nil, Nat.mul_zero, Nat.add_zero]

/-- The next block of a transfer that has been alone goes to the end of the list. -/
theorem Listed.next {s : Server × List Entry} (h : Listed s) {pcb : ℕ} {p : PBuf}
    {args : TftpConnectionArgs} (hreach : s.1.Reaches pcb p args) (hnext : NextBlock args p)
    (hlen : s.2.length = args.block) (pbufAlloc : Bool) :
    Listed (watch step record s (.data pcb p pbufAlloc)) := by
  have hblock := extractBlock_lt p
  have hnum := hnext.2
  rw [watch, record_data hreach, if_pos hnext, step, handle_data hreach,
    receiveBlock_of_nextBlock _ hnext]
  refine ⟨?_, ?_, ?_⟩
  · dsimp only
    rw [List.length_append, List.length_singleton, h.address, writeAddress_succ]
  · dsimp only
    rw [List.length_append, List.length_singleton]
    omega
  · rw [List.forall_mem_append, List.forall_mem_singleton]
    refine ⟨h.placed, ?_⟩
    rw [h.toNat_address, addressOf, hnum, Nat.add_sub_cancel, hlen]

/-- A datagram of a transfer that is not its next block leaves the list alone. -/
theorem Listed.other {s : Server × List Entry} (h : Listed s) {pcb : ℕ} {p : PBuf}
    {pbufAlloc : Bool} (hprog : ¬s.1.Programs (.data pcb p pbufAlloc)) :
    Listed (watch step record s (.data pcb p pbufAlloc)) := by
  refine h.of_eq (contained_of_not_programs hprog).2 ?_
  rw [watch_snd]
  by_cases hreach : ∃ args, s.1.Reaches pcb p args
  · obtain ⟨args, hreach⟩ := hreach
    rw [hreach.programs_iff] at hprog
    rw [record_data hreach, if_neg hprog]
  · rw [record, effects, handle_data_of_not_reaches (not_exists.1 hreach)]
    rfl

/-- **A datagram that keeps the transfers apart keeps the list.** -/
theorem listed_step {s : Server × List Entry}
    (h : (∀ pcb, s.1.transfers pcb = none) ∨ Listed s) {e : Arrival} (he : Separate s e) :
    (∀ pcb, (watch step record s e).1.transfers pcb = none) ∨ Listed (watch step record s e) := by
  rw [separate_iff h] at he
  cases e with
  | request p alloc =>
      by_cases hopen : Opens (.request p alloc)
      · exact Or.inr (listed_of_opens s hopen)
      · obtain ⟨n, transfers, hstate, -, -⟩ := handle_request_of_not_opens (s := s.1) hopen
        refine h.imp (fun hnone pcb => transfers_request hopen (hnone pcb)) fun hlisted => ?_
        refine hlisted.of_eq ?_ ?_
        · rw [watch_fst, step, hstate]
        · rw [watch_snd, record_request, if_neg hopen]
  | data pcb p pbufAlloc =>
      refine h.imp (fun hnone q => transfers_data (hnone q)) fun hlisted => ?_
      by_cases hprog : s.1.Programs (.data pcb p pbufAlloc)
      · obtain ⟨args, hargs, hlen, hnext⟩ := hprog
        exact hlisted.next ⟨hargs, hlen⟩ hnext ((he args ⟨hargs, hlen⟩).1 hnext).1 pbufAlloc
      · exact hlisted.other hprog

/-- **Transfers do not corrupt each other**, over every interleaving of requests and
data, exactly when each block finds as many blocks programmed since the last
request as its own transfer has sent, and each transfer that ends finds no other's. -/
theorem separate_along_iff (flash : Flash) (es : List Arrival) :
    Along (watch step record) Separate (boot flash, []) es ↔
      Along (watch step record) Alone (boot flash, []) es :=
  along_iff_along (fun _ e h => separate_iff h e) (fun _ _ h he => listed_step h he)
    (Or.inl fun _ => rfl) es

/-- A request repeated between two blocks: the second block of the first transfer
is programmed where the first belongs. -/
theorem not_separate_repeated_request :
    ¬Along (watch step record) Separate (boot fun _ => 0xFF, [])
      [wrq, fullBlock 0 1 0, wrq, fullBlock 0 2 0] := by
  rintro ⟨-, -, -, ⟨hplace, -⟩, -⟩
  have hreach : Reaches (run step (boot fun _ => 0xFF) [wrq, fullBlock 0 1 0, wrq]) 0
      ⟨[0, 3, 0, 2] ++ List.replicate 512 0, 516, fun _ => 0⟩ ⟨1, 512⟩ :=
    ⟨by decide +kernel, by decide +kernel⟩
  have hnext : NextBlock ⟨1, 512⟩ ⟨[0, 3, 0, 2] ++ List.replicate 512 0, 516, fun _ => 0⟩ := by
    decide +kernel
  have haddress := ((program_mem_iff hreach hnext true _).1
    (hplace ((hreach.programs_iff true).2 hnext))).1
  exact absurd haddress (by decide +kernel)

end Server
end Remora
