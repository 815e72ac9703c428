/-
# A write over an unreliable network

A client that follows the protocol and the server, with a network between them
that loses, repeats, delays and reorders.  Packets are never taken out of the
network: what was sent once can be delivered at any later time, any number of
times, or never.  The client sends block `k + 1` only once it has heard the ACK of
block `k`, and any block it may send it may send again.

`Serving` is the state of an open transfer with `b` blocks accepted: the region
holds the first `b` blocks and is erased behind them, no ACK in the network is for
a later block, and no DATA is for a block later than `b + 1`.  A delivery to it
has three outcomes, the next block, the last block, and an older block again; each
keeps the promise (`Keeps`), and the first and the last lead to a state with the
invariant, the second to a closed transfer.
-/

import Remora.Basis.Run
import Remora.Upload.Transfers

namespace Remora

open Basis

/-- Block `k` of a file; blocks are numbered from 1. -/
def blockOf (file : List Byte) (k : ℕ) : List Byte :=
  (file.drop (TFTP_DATA_LEN_MAX * (k - 1))).take TFTP_DATA_LEN_MAX

/-- The number of the last block, the first one that is not full. -/
def lastBlock (file : List Byte) : ℕ := file.length / TFTP_DATA_LEN_MAX + 1

/-- The DATA packet of block `k`, in one pbuf. -/
def dataPacket (file : List Byte) (k : ℕ) (beyond : ℕ → Byte) : PBuf where
  payload := [0, 3, BitVec.ofNat 8 (k / 256), BitVec.ofNat 8 k] ++ blockOf file k
  totLen := TFTP_DATA_PKT_HDR_LEN + (blockOf file k).length
  beyond := beyond

/-- Client, server and the packets between them. -/
structure Network where
  server : Server
  pcb : ℕ
  /-- The addresses that the server has programmed. -/
  programmed : List ℕ
  /-- The ACKs that the server has sent. -/
  acks : List ℕ
  /-- The ACKs that the client has heard. -/
  heard : List ℕ
  /-- The blocks that the client has sent. -/
  sent : List ℕ

/-- The client sends a block, or the network delivers a packet. -/
inductive NetworkEvent where
  | send (k : ℕ)
  | deliverData (k : ℕ) (beyond : ℕ → Byte)
  | deliverAck (k : ℕ)

/-- The ACKs among the effects. -/
def acksOf (pcb : ℕ) : List Effect → List ℕ :=
  List.filterMap fun
    | .ack q k => if q = pcb then some k else none
    | _ => none

/-- The addresses programmed among the effects. -/
def programmedAt : List Effect → List ℕ :=
  List.filterMap fun
    | .flashRangeProgram address _ _ => some address
    | _ => none

namespace Network

/-- What the server does in an event. -/
def response (file : List Byte) (n : Network) : NetworkEvent → List Effect
  | .deliverData k beyond =>
      if k ∈ n.sent then n.server.effects (.data n.pcb (dataPacket file k beyond) true) else []
  | _ => []

/-- An event that cannot happen changes nothing. -/
def step (file : List Byte) (n : Network) (e : NetworkEvent) : Network :=
  match e with
  | .send k =>
      if 1 ≤ k ∧ k ≤ lastBlock file ∧ k - 1 ∈ n.heard then { n with sent := k :: n.sent } else n
  | .deliverAck k => if k ∈ n.acks then { n with heard := k :: n.heard } else n
  | .deliverData k beyond =>
      if k ∈ n.sent then
        { n with
          server := n.server.step (.data n.pcb (dataPacket file k beyond) true)
          programmed := n.programmed ++ programmedAt (n.response file e)
          acks := n.acks ++ acksOf n.pcb (n.response file e) }
      else n

/-- A server without open transfers has just been handed a write request. -/
def start (s : Server) (request : PBuf) : Network where
  server := s.step (.request request ⟨true, true, true, true⟩)
  pcb := s.nextPcb
  programmed := []
  acks := acksOf s.nextPcb (s.effects (.request request ⟨true, true, true, true⟩))
  heard := []
  sent := []

/-- Block `k` is programmed, and stands in the region. -/
def Programmed (file : List Byte) (n : Network) (k : ℕ) : Prop :=
  addressOf k ∈ n.programmed ∧ ∀ i < TFTP_DATA_LEN_MAX,
    n.server.flash (addressOf k + i) = file.getD (TFTP_DATA_LEN_MAX * (k - 1) + i) 0

/-- The upload region holds the file, zeros to the end of its last 512-byte block,
and erased bytes behind it. -/
def Holds (file : List Byte) (flash : Flash) : Prop :=
  ∀ i < REGION_SIZE, flash (JSON_UPLOAD_ADDRESS + i) =
    if i < TFTP_DATA_LEN_MAX * ((file.length + (TFTP_DATA_LEN_MAX - 1)) / TFTP_DATA_LEN_MAX) then
      file.getD i 0
    else 0xFF

/-- **The promise of the server**: at the end of the transfer the file is stored
and the last block acknowledged, and no block is acknowledged that is not
programmed, but an empty last one. -/
def Keeps (file : List Byte) (n : Network) (e : NetworkEvent) : Prop :=
  (.newJson ∈ n.response file e →
    Holds file (n.step file e).server.flash ∧
      acksOf n.pcb (n.response file e) = [lastBlock file]) ∧
  ∀ k ∈ acksOf n.pcb (n.response file e), 1 ≤ k →
    Programmed file (n.step file e) k ∨ k = lastBlock file ∧ blockOf file k = []

/-- An open transfer with `b` blocks accepted. -/
structure Serving (file : List Byte) (n : Network) (b : ℕ) : Prop where
  more : b < lastBlock file
  args : ∃ totBytes, n.server.transfers n.pcb = some ⟨b, totBytes⟩
  address : n.server.flashWriteAddress =
    BitVec.ofNat 32 (JSON_UPLOAD_ADDRESS + TFTP_DATA_LEN_MAX * b)
  flash : ∀ i < REGION_SIZE, n.server.flash (JSON_UPLOAD_ADDRESS + i) =
    if i < TFTP_DATA_LEN_MAX * b then file.getD i 0 else 0xFF
  programmed : ∀ k, 1 ≤ k → k ≤ b → addressOf k ∈ n.programmed
  acks : ∀ k ∈ n.acks, k ≤ b
  heard : ∀ k ∈ n.heard, k ≤ b
  sent : ∀ k ∈ n.sent, 1 ≤ k ∧ k ≤ b + 1 ∧ k ≤ lastBlock file

/-- The transfer is open, or closed for good. -/
def Sane (file : List Byte) (n : Network) : Prop :=
  (∃ b, Serving file n b) ∨ n.server.transfers n.pcb = none

end Network

section Blocks

variable {file : List Byte} {k : ℕ}

/-- Byte `i` of block `k`. -/
theorem getD_blockOf {i : ℕ} (hi : i < TFTP_DATA_LEN_MAX) :
    (blockOf file k).getD i 0 = file.getD (TFTP_DATA_LEN_MAX * (k - 1) + i) 0 := by
  rw [blockOf, List.getD_eq_getElem?_getD, List.getD_eq_getElem?_getD, List.getElem?_take_of_lt hi,
    List.getElem?_drop]

variable (file) in
/-- Every block before the last is full. -/
theorem length_blockOf_of_lt (hk : 1 ≤ k) (h : k < lastBlock file) :
    (blockOf file k).length = TFTP_DATA_LEN_MAX := by
  simp only [lastBlock, TFTP_DATA_LEN_MAX] at h
  simp only [blockOf, List.length_take, List.length_drop, TFTP_DATA_LEN_MAX]
  omega

variable (file) in
/-- The last block is not full. -/
theorem length_blockOf_last :
    (blockOf file (lastBlock file)).length = file.length % TFTP_DATA_LEN_MAX := by
  simp only [lastBlock, blockOf, List.length_take, List.length_drop, TFTP_DATA_LEN_MAX]
  omega

variable (file k) in
theorem len_dataPacket (beyond : ℕ → Byte) :
    (dataPacket file k beyond).len = TFTP_DATA_PKT_HDR_LEN + (blockOf file k).length := by
  simp [PBuf.len, dataPacket, TFTP_DATA_PKT_HDR_LEN]
  omega

variable (file k) in
/-- A packet that is not full carries a block that is not. -/
theorem len_dataPacket_lt_iff (beyond : ℕ → Byte) :
    (dataPacket file k beyond).len < TFTP_DATA_PKT_LEN_MAX ↔
      (blockOf file k).length < TFTP_DATA_LEN_MAX := by
  rw [len_dataPacket, show TFTP_DATA_PKT_LEN_MAX = TFTP_DATA_PKT_HDR_LEN + TFTP_DATA_LEN_MAX from
    rfl, Nat.add_lt_add_iff_left]

variable (file) in
/-- The block number survives the network byte order. -/
theorem extractBlock_dataPacket (beyond : ℕ → Byte) (hk : k < 65536) :
    iapTftpExtractBlock (dataPacket file k beyond) = k := by
  have h2 : (dataPacket file k beyond).byte 2 = BitVec.ofNat 8 (k / 256) := rfl
  have h3 : (dataPacket file k beyond).byte 3 = BitVec.ofNat 8 k := rfl
  rw [iapTftpExtractBlock, h2, h3, BitVec.toNat_ofNat, BitVec.toNat_ofNat]
  omega

/-- What is programmed for block `k`. -/
theorem dataBuffer_dataPacket (beyond : ℕ → Byte) {i : ℕ} (hi : i < TFTP_DATA_LEN_MAX) :
    Server.dataBuffer (dataPacket file k beyond) i =
      file.getD (TFTP_DATA_LEN_MAX * (k - 1) + i) 0 := by
  have hbuffer : Server.dataBuffer (dataPacket file k beyond) i = (blockOf file k).getD i 0 := by
    rw [Server.dataBuffer, Nat.add_comm]
    rfl
  rw [hbuffer, getD_blockOf hi]

/-- A file that fits the region has few blocks. -/
theorem lastBlock_le (h : file.length ≤ REGION_SIZE) : lastBlock file ≤ 65 := by
  simp only [REGION_SIZE, FLASH_SECTOR_SIZE] at h
  simp only [lastBlock, TFTP_DATA_LEN_MAX]
  omega

end Blocks

namespace Network

variable {file : List Byte} {n : Network} {b : ℕ}

variable (file) in
theorem deliver_of_sent {k : ℕ} (h : k ∈ n.sent) (beyond : ℕ → Byte) :
    n.step file (.deliverData k beyond) =
        { n with
          server := n.server.step (.data n.pcb (dataPacket file k beyond) true)
          programmed := n.programmed ++ programmedAt (n.response file (.deliverData k beyond))
          acks := n.acks ++ acksOf n.pcb (n.response file (.deliverData k beyond)) } ∧
      n.response file (.deliverData k beyond) =
        n.server.effects (.data n.pcb (dataPacket file k beyond) true) :=
  ⟨if_pos h, if_pos h⟩

variable (file) in
/-- A delivery to a closed transfer is dropped. -/
theorem deliver_closed (h : n.server.transfers n.pcb = none) (k : ℕ) (beyond : ℕ → Byte) :
    n.response file (.deliverData k beyond) = [] ∧
      (n.step file (.deliverData k beyond)).server.transfers n.pcb = none := by
  have hreach : ∀ args, ¬n.server.Reaches n.pcb (dataPacket file k beyond) args := by
    rintro args ⟨hargs, -⟩
    rw [h] at hargs
    exact absurd hargs (by simp)
  by_cases hsent : k ∈ n.sent
  · obtain ⟨hstep, hresponse⟩ := deliver_of_sent file hsent beyond
    rw [hstep, hresponse, Server.effects, Server.step, Server.handle_data_of_not_reaches hreach]
    exact ⟨rfl, h⟩
  · rw [response, step, if_neg hsent, if_neg hsent]
    exact ⟨rfl, h⟩

/-- Nothing of the server in the event: the promise is kept. -/
theorem keeps_of_response_nil {e : NetworkEvent} (h : n.response file e = []) :
    n.Keeps file e := by
  rw [Keeps, h]
  exact ⟨by simp, by simp [acksOf]⟩

theorem Serving.toNat_address (h : Serving file n b) (hfile : file.length ≤ REGION_SIZE) :
    n.server.flashWriteAddress.toNat = JSON_UPLOAD_ADDRESS + TFTP_DATA_LEN_MAX * b := by
  have hb := lt_of_lt_of_le h.more (lastBlock_le hfile)
  rw [h.address, Server.toNat_writeAddress (by omega)]

theorem Serving.reaches (h : Serving file n b) (k : ℕ) (beyond : ℕ → Byte) :
    ∃ totBytes, n.server.Reaches n.pcb (dataPacket file k beyond) ⟨b, totBytes⟩ := by
  obtain ⟨totBytes, hargs⟩ := h.args
  exact ⟨totBytes, hargs, len_dataPacket file k beyond⟩

/-- The blocks accepted stand in the region. -/
theorem Serving.programmed_of_le (h : Serving file n b) (hfile : file.length ≤ REGION_SIZE)
    {k : ℕ} (hk : 1 ≤ k) (hkb : k ≤ b) : Programmed file n k := by
  refine ⟨h.programmed k hk hkb, fun i hi => ?_⟩
  have hmore := h.more
  simp only [lastBlock, TFTP_DATA_LEN_MAX, REGION_SIZE, FLASH_SECTOR_SIZE] at hmore hfile hi
  have hflash := h.flash (TFTP_DATA_LEN_MAX * (k - 1) + i)
    (by simp only [TFTP_DATA_LEN_MAX, REGION_SIZE, FLASH_SECTOR_SIZE]; omega)
  rw [if_pos (by simp only [TFTP_DATA_LEN_MAX]; omega)] at hflash
  rw [addressOf, Nat.add_assoc, hflash]

/-- The region once block `b + 1` is programmed. -/
theorem Serving.flash_program (h : Serving file n b) (hfile : file.length ≤ REGION_SIZE)
    (beyond : ℕ → Byte) {i : ℕ} (hi : i < REGION_SIZE) :
    n.server.flash.program n.server.flashWriteAddress.toNat
        (Server.dataBuffer (dataPacket file (b + 1) beyond)) TFTP_DATA_LEN_MAX
        (JSON_UPLOAD_ADDRESS + i) =
      if i < TFTP_DATA_LEN_MAX * (b + 1) then file.getD i 0 else 0xFF := by
  rw [h.toNat_address hfile]
  have hflash := h.flash i hi
  by_cases hin : TFTP_DATA_LEN_MAX * b ≤ i ∧ i < TFTP_DATA_LEN_MAX * b + TFTP_DATA_LEN_MAX
  · rw [if_neg (by omega)] at hflash
    rw [Flash.program_erased _ _ (by omega) hflash,
      show JSON_UPLOAD_ADDRESS + i - (JSON_UPLOAD_ADDRESS + TFTP_DATA_LEN_MAX * b) =
        i - TFTP_DATA_LEN_MAX * b by omega,
      dataBuffer_dataPacket beyond (by omega), Nat.add_sub_cancel,
      show TFTP_DATA_LEN_MAX * b + (i - TFTP_DATA_LEN_MAX * b) = i by omega,
      if_pos (by rw [Nat.mul_succ]; omega)]
  · rw [Flash.program_outside _ _ (by omega), hflash]
    exact if_congr (by rw [Nat.mul_succ]; omega) rfl rfl

/-- The server's answer to a next block that is not empty. -/
theorem Serving.handle_next (h : Serving file n b) (hfile : file.length ≤ REGION_SIZE)
    (hne : blockOf file (b + 1) ≠ []) (beyond : ℕ → Byte) :
    ∃ totalCount totBytes,
      n.server.handle (.data n.pcb (dataPacket file (b + 1) beyond) true) =
        ({ flash := n.server.flash.program n.server.flashWriteAddress.toNat
             (Server.dataBuffer (dataPacket file (b + 1) beyond)) TFTP_DATA_LEN_MAX
           flashWriteAddress := n.server.flashWriteAddress + BitVec.ofNat 32 TFTP_DATA_LEN_MAX
           totalCount := totalCount
           nextPcb := n.server.nextPcb
           transfers := Function.update n.server.transfers n.pcb
             (if b + 1 < lastBlock file then some ⟨b + 1, totBytes⟩ else none) },
          [.flashRangeProgram (addressOf (b + 1))
            (Server.dataBuffer (dataPacket file (b + 1) beyond)) TFTP_DATA_LEN_MAX,
            .ack n.pcb (b + 1)] ++
            if b + 1 < lastBlock file then [.pbufFree]
            else [.udpRemove n.pcb, .pbufFree, .newJson]) := by
  have hlast := lastBlock_le hfile
  have hmore := h.more
  obtain ⟨totBytes, hreach⟩ := h.reaches (b + 1) beyond
  have hlen := len_dataPacket file (b + 1) beyond
  have hnext : Server.NextBlock ⟨b, totBytes⟩ (dataPacket file (b + 1) beyond) := by
    refine ⟨?_, extractBlock_dataPacket file beyond (by omega)⟩
    rw [hlen]
    exact Nat.lt_add_of_pos_right (List.length_pos_iff.2 hne)
  have hmax : (dataPacket file (b + 1) beyond).len < TFTP_DATA_PKT_LEN_MAX ↔
      ¬b + 1 < lastBlock file := by
    rw [len_dataPacket_lt_iff]
    by_cases hb : b + 1 < lastBlock file
    · simp [hb, length_blockOf_of_lt file (by omega) hb]
    · have hb' : b + 1 = lastBlock file := by omega
      simp only [hb', lt_irrefl, not_false_eq_true, iff_true, length_blockOf_last]
      exact Nat.mod_lt _ (by decide)
  have hover : ¬(dataPacket file (b + 1) beyond).len - TFTP_DATA_PKT_HDR_LEN >
      TFTP_DATA_LEN_MAX := by
    rw [hlen, Nat.add_sub_cancel_left, blockOf, gt_iff_lt, not_lt]
    exact List.length_take_le _ _
  have haddress : n.server.flashWriteAddress.toNat = addressOf (b + 1) := by
    rw [h.toNat_address hfile, addressOf, Nat.add_sub_cancel]
  refine ⟨n.server.totalCount +
      BitVec.ofNat 32 ((dataPacket file (b + 1) beyond).len - TFTP_DATA_PKT_HDR_LEN),
    totBytes + ((dataPacket file (b + 1) beyond).len - TFTP_DATA_PKT_HDR_LEN), ?_⟩
  rw [Server.handle_data hreach, Server.receiveBlock_of_nextBlock _ hnext, if_neg hover]
  simp only [hmax, ite_not, haddress, Server.iapTftpSendAckPacket, if_true, List.nil_append,
    List.cons_append]

/-- The server's answer to a block that is not the next, or is empty. -/
theorem Serving.handle_other (h : Serving file n b) {k : ℕ} (hk : k < 65536)
    (hother : k = b + 1 → blockOf file k = []) (beyond : ℕ → Byte) :
    ∃ totBytes, n.server.handle (.data n.pcb (dataPacket file k beyond) true) =
      ({ n.server with
          transfers := Function.update n.server.transfers n.pcb
            (if (blockOf file k).length < TFTP_DATA_LEN_MAX then none
              else some ⟨if k = b + 1 then b + 1 else b, totBytes⟩) },
        .ack n.pcb (if k = b + 1 then b + 1 else b) ::
          if (blockOf file k).length < TFTP_DATA_LEN_MAX then
            [.udpRemove n.pcb, .pbufFree, .newJson]
          else [.pbufFree]) := by
  obtain ⟨totBytes, hreach⟩ := h.reaches k beyond
  have hlen := len_dataPacket file k beyond
  have hblock := extractBlock_dataPacket file beyond hk
  have hnext : ¬Server.NextBlock ⟨b, totBytes⟩ (dataPacket file k beyond) := by
    rintro ⟨hpos, hnum⟩
    rw [hlen, hother (hblock.symm.trans hnum)] at hpos
    exact absurd hpos (by simp)
  have hmax := len_dataPacket_lt_iff file k beyond
  refine ⟨totBytes, ?_⟩
  rw [Server.handle_data hreach, Server.receiveBlock_of_not_nextBlock _ hnext]
  simp only [hmax, hblock, Server.iapTftpSendAckPacket, if_true, List.nil_append]
  split_ifs <;> rfl

/-- **The next full block**: programmed, acknowledged, and the transfer goes on. -/
theorem Serving.deliver_next (h : Serving file n b) (hfile : file.length ≤ REGION_SIZE)
    (hsent : b + 1 ∈ n.sent) (hb : b + 1 < lastBlock file) (beyond : ℕ → Byte) :
    n.Keeps file (.deliverData (b + 1) beyond) ∧
      Serving file (n.step file (.deliverData (b + 1) beyond)) (b + 1) := by
  have hne : blockOf file (b + 1) ≠ [] := by
    rw [← List.length_pos_iff, length_blockOf_of_lt file (by omega) hb]
    decide
  obtain ⟨totalCount, totBytes, hhandle⟩ := h.handle_next hfile hne beyond
  rw [if_pos hb, if_pos hb] at hhandle
  obtain ⟨hstep, hresponse⟩ := deliver_of_sent file hsent beyond
  rw [Server.effects, hhandle] at hresponse
  have hserving : Serving file (n.step file (.deliverData (b + 1) beyond)) (b + 1) := by
    rw [hstep, hresponse, Server.step, hhandle]
    refine ⟨hb, ⟨totBytes, Function.update_self ..⟩, ?_, ?_, ?_, ?_, ?_, ?_⟩
    · dsimp only
      rw [h.address, Server.writeAddress_succ]
    · exact fun i hi => h.flash_program hfile beyond hi
    · intro k hk hkb
      rw [List.mem_append]
      rcases Nat.lt_or_ge k (b + 1) with hlt | hge
      · exact Or.inl (h.programmed k hk (by omega))
      · obtain rfl : k = b + 1 := by omega
        exact Or.inr (by simp [programmedAt])
    · intro k hk
      rcases List.mem_append.1 hk with hk | hk
      · exact Nat.le_succ_of_le (h.acks k hk)
      · simp [acksOf] at hk
        omega
    · exact fun k hk => Nat.le_succ_of_le (h.heard k hk)
    · intro k hk
      obtain ⟨h1, h2, h3⟩ := h.sent k hk
      exact ⟨h1, by omega, h3⟩
  refine ⟨⟨?_, ?_⟩, hserving⟩
  · rw [hresponse]
    simp
  · rw [hresponse]
    intro k hk h1
    have hkb : k = b + 1 := by simpa [acksOf] using hk
    exact Or.inl (hserving.programmed_of_le hfile h1 (by omega))

/-- **An empty last block**, when the length of the file is a multiple of 512:
nothing is left to program, it is acknowledged, and the transfer is closed. -/
theorem Serving.deliver_last_empty (h : Serving file n b) (hfile : file.length ≤ REGION_SIZE)
    (hsent : b + 1 ∈ n.sent) (hb : b + 1 = lastBlock file) (hne : blockOf file (b + 1) = [])
    (beyond : ℕ → Byte) :
    n.Keeps file (.deliverData (b + 1) beyond) ∧
      (n.step file (.deliverData (b + 1) beyond)).server.transfers n.pcb = none := by
  obtain ⟨hstep, hresponse⟩ := deliver_of_sent file hsent beyond
  have hlast := length_blockOf_last file
  have hbound := lastBlock_le hfile
  have hquot : b = file.length / TFTP_DATA_LEN_MAX := Nat.succ.inj hb
  obtain ⟨totBytes, hhandle⟩ := h.handle_other (k := b + 1) (by omega) (fun _ => hne) beyond
  have hshort : (blockOf file (b + 1)).length < TFTP_DATA_LEN_MAX := by rw [hne]; decide
  rw [if_pos hshort, if_pos hshort, if_pos rfl] at hhandle
  rw [Server.effects, hhandle] at hresponse
  rw [Keeps, hstep, hresponse, Server.step, hhandle]
  refine ⟨⟨fun _ => ⟨fun i hi => ?_, by simp [acksOf, hb]⟩, fun k hk _ => ?_⟩,
    Function.update_self ..⟩
  · rw [← hb, hne, List.length_nil] at hlast
    refine (h.flash i hi).trans (if_congr ?_ rfl rfl)
    simp only [TFTP_DATA_LEN_MAX] at hlast hquot ⊢
    omega
  · have hkb : k = b + 1 := by simpa [acksOf] using hk
    exact Or.inr ⟨hkb.trans hb, hkb ▸ hne⟩

/-- **A last block with data**: programmed and acknowledged, and the transfer is closed. -/
theorem Serving.deliver_last_data (h : Serving file n b) (hfile : file.length ≤ REGION_SIZE)
    (hsent : b + 1 ∈ n.sent) (hb : b + 1 = lastBlock file) (hne : blockOf file (b + 1) ≠ [])
    (beyond : ℕ → Byte) :
    n.Keeps file (.deliverData (b + 1) beyond) ∧
      (n.step file (.deliverData (b + 1) beyond)).server.transfers n.pcb = none := by
  obtain ⟨hstep, hresponse⟩ := deliver_of_sent file hsent beyond
  have hquot : b = file.length / TFTP_DATA_LEN_MAX := Nat.succ.inj hb
  obtain ⟨totalCount, totBytes, hhandle⟩ := h.handle_next hfile hne beyond
  have hnot : ¬b + 1 < lastBlock file := by omega
  rw [if_neg hnot, if_neg hnot] at hhandle
  rw [Server.effects, hhandle] at hresponse
  have hpos : 0 < file.length % TFTP_DATA_LEN_MAX := by
    rw [← length_blockOf_last file, ← hb]
    exact List.length_pos_iff.2 hne
  have hend : ∀ i < REGION_SIZE, (n.step file (.deliverData (b + 1) beyond)).server.flash
      (JSON_UPLOAD_ADDRESS + i) =
        if i < TFTP_DATA_LEN_MAX * (b + 1) then file.getD i 0 else 0xFF := by
    intro i hi
    rw [hstep, Server.step, hhandle]
    exact h.flash_program hfile beyond hi
  have hclosed : (n.step file (.deliverData (b + 1) beyond)).server.transfers n.pcb = none := by
    rw [hstep, Server.step, hhandle]
    exact Function.update_self ..
  simp only [TFTP_DATA_LEN_MAX, REGION_SIZE, FLASH_SECTOR_SIZE] at hquot hpos hfile
  refine ⟨⟨fun _ => ⟨fun i hi => ?_, ?_⟩, fun k hk _ => Or.inl ?_⟩, hclosed⟩
  · rw [hend i hi]
    refine if_congr ?_ rfl rfl
    simp only [TFTP_DATA_LEN_MAX]
    omega
  · rw [hresponse, ← hb]
    simp [acksOf]
  · obtain rfl : k = b + 1 := by simpa [hresponse, acksOf] using hk
    refine ⟨?_, fun i hi => ?_⟩
    · rw [hstep, hresponse]
      simp [programmedAt]
    · simp only [TFTP_DATA_LEN_MAX] at hi
      rw [addressOf, Nat.add_assoc, hend _ (by
        simp only [TFTP_DATA_LEN_MAX, REGION_SIZE, FLASH_SECTOR_SIZE]; omega),
        if_pos (by simp only [TFTP_DATA_LEN_MAX]; omega)]

/-- **An older block again**: the last one accepted is acknowledged again. -/
theorem Serving.deliver_old (h : Serving file n b) (hfile : file.length ≤ REGION_SIZE) {k : ℕ}
    (hsent : k ∈ n.sent) (hk : k ≤ b) (beyond : ℕ → Byte) :
    n.Keeps file (.deliverData k beyond) ∧
      Serving file (n.step file (.deliverData k beyond)) b := by
  obtain ⟨hstep, hresponse⟩ := deliver_of_sent file hsent beyond
  have hbound := lastBlock_le hfile
  have hmore := h.more
  have hfull := length_blockOf_of_lt file (h.sent k hsent).1 (by omega)
  have hlong : ¬(blockOf file k).length < TFTP_DATA_LEN_MAX := by rw [hfull]; exact lt_irrefl _
  have hold : ¬k = b + 1 := by omega
  obtain ⟨totBytes, hhandle⟩ := h.handle_other (k := k) (by omega) (fun h => absurd h hold) beyond
  rw [if_neg hlong, if_neg hlong, if_neg hold] at hhandle
  rw [Server.effects, hhandle] at hresponse
  have hserving : Serving file (n.step file (.deliverData k beyond)) b := by
    rw [hstep, hresponse, Server.step, hhandle]
    refine ⟨h.more, ⟨totBytes, Function.update_self ..⟩, h.address, h.flash, ?_, ?_, h.heard,
      h.sent⟩
    · exact fun k hk hkb => List.mem_append_left _ (h.programmed k hk hkb)
    · intro k hk
      rcases List.mem_append.1 hk with hk | hk
      · exact h.acks k hk
      · simp [acksOf] at hk
        omega
  refine ⟨⟨?_, ?_⟩, hserving⟩
  · rw [hresponse]
    simp
  · rw [hresponse]
    intro k hk h1
    obtain rfl : k = b := by simpa [acksOf] using hk
    exact Or.inl (hserving.programmed_of_le hfile h1 le_rfl)

/-- A block of an open transfer is its next, its last, or an older one. -/
theorem Serving.deliver (h : Serving file n b) (hfile : file.length ≤ REGION_SIZE) {k : ℕ}
    (hsent : k ∈ n.sent) (beyond : ℕ → Byte) :
    n.Keeps file (.deliverData k beyond) ∧ Sane file (n.step file (.deliverData k beyond)) := by
  obtain ⟨-, hkb, hlast⟩ := h.sent k hsent
  rcases Nat.lt_or_ge b k with hbk | hkb'
  · obtain rfl : k = b + 1 := by omega
    rcases Nat.lt_or_eq_of_le hlast with hlt | heq
    · exact (h.deliver_next hfile hsent hlt beyond).imp id fun h => Or.inl ⟨_, h⟩
    · have hend : n.Keeps file (.deliverData (b + 1) beyond) ∧
          (n.step file (.deliverData (b + 1) beyond)).server.transfers n.pcb = none := by
        by_cases hne : blockOf file (b + 1) = []
        · exact h.deliver_last_empty hfile hsent heq hne beyond
        · exact h.deliver_last_data hfile hsent heq hne beyond
      refine hend.imp id fun hclosed => Or.inr ?_
      rwa [(deliver_of_sent file hsent beyond).1] at hclosed ⊢
  · exact (h.deliver_old hfile hsent hkb' beyond).imp id fun h => Or.inl ⟨_, h⟩

/-- A block sent again or for the first time is no later than the next. -/
theorem sane_send (h : Sane file n) (k : ℕ) : Sane file (n.step file (.send k)) := by
  rw [step]
  split_ifs with hk
  · refine h.imp_left ?_
    rintro ⟨b, hb⟩
    refine ⟨b, { hb with sent := fun j hj => ?_ }⟩
    rcases List.mem_cons.1 hj with rfl | hj
    · have := hb.heard _ hk.2.2
      exact ⟨hk.1, by omega, hk.2.1⟩
    · exact hb.sent j hj
  · exact h

/-- An ACK heard is for no later block than the last accepted. -/
theorem sane_deliverAck (h : Sane file n) (k : ℕ) : Sane file (n.step file (.deliverAck k)) := by
  rw [step]
  split_ifs with hk
  · refine h.imp_left ?_
    rintro ⟨b, hb⟩
    refine ⟨b, { hb with heard := fun j hj => ?_ }⟩
    rcases List.mem_cons.1 hj with rfl | hj
    · exact hb.acks _ hk
    · exact hb.heard j hj
  · exact h

/-- **Every event keeps the promise and the invariant.** -/
theorem sane_step (hfile : file.length ≤ REGION_SIZE) (h : Sane file n) (e : NetworkEvent) :
    n.Keeps file e ∧ Sane file (n.step file e) := by
  cases e with
  | send k => exact ⟨keeps_of_response_nil rfl, sane_send h k⟩
  | deliverAck k => exact ⟨keeps_of_response_nil rfl, sane_deliverAck h k⟩
  | deliverData k beyond =>
      by_cases hsent : k ∈ n.sent
      · rcases h with ⟨b, hb⟩ | hclosed
        · exact hb.deliver hfile hsent beyond
        · obtain ⟨hresponse, hclosed'⟩ := deliver_closed file hclosed k beyond
          refine ⟨keeps_of_response_nil hresponse, Or.inr ?_⟩
          rwa [(deliver_of_sent file hsent beyond).1] at hclosed' ⊢
      · have hstep : n.step file (.deliverData k beyond) = n := if_neg hsent
        exact ⟨keeps_of_response_nil (if_neg hsent), hstep.symm ▸ h⟩

/-- The write request leaves an open transfer with no block accepted. -/
theorem serving_start (file : List Byte) {s : Server} {request : PBuf}
    (hop : iapTftpDecodeOp request = TFTP_WRQ) : Serving file (start s request) 0 := by
  have hopens : Server.Opens (.request request ⟨true, true, true, true⟩) := ⟨rfl, rfl, hop, rfl⟩
  have hhandle := Server.handle_request_of_opens (s := s) hopens
  rw [start, Server.step, Server.effects, hhandle]
  refine ⟨Nat.succ_pos _, ⟨0, Function.update_self ..⟩, rfl, ?_, ?_, ?_, ?_, ?_⟩
  · intro i hi
    rw [if_neg (by simp)]
    exact Flash.erase_inside _ (by omega)
  · intro k hk hk'
    omega
  · intro k hk
    simp [acksOf, Server.iapTftpSendAckPacket] at hk
    omega
  · simp
  · simp

/-- **A write over an unreliable network stores the file.**  The server may be in
any state without open transfers before the request, and every loss, repetition,
delay and reordering is a run. -/
theorem keeps_along (file : List Byte) (hfile : file.length ≤ REGION_SIZE) (flash : Flash)
    (flashWriteAddress totalCount : Word) (nextPcb : ℕ) (request : PBuf)
    (hop : iapTftpDecodeOp request = TFTP_WRQ) (es : List NetworkEvent) :
    Along (step file) (Keeps file)
      (start (Server.idle flash flashWriteAddress totalCount nextPcb) request) es := by
  have hstart :=
    serving_start (s := Server.idle flash flashWriteAddress totalCount nextPcb) file hop
  exact along_of_invariant (I := Sane file)
    (fun _ e h _ => (sane_step hfile h e).2) (fun _ e h _ => (sane_step hfile h e).1)
    (Or.inl ⟨0, hstart⟩) (along_of_forall (A := fun _ => True) fun _ _ => trivial)

/-- The ACK of the request, then the only block, sent once and delivered twice. -/
def threeBytes : List NetworkEvent :=
  [.deliverAck 0, .send 1, .deliverData 1 (fun _ => 0), .deliverData 1 fun _ => 0]

/-- A file of three bytes is stored by a run in which its only block arrives twice. -/
theorem keeps_three_bytes :
    Along (step [1, 2, 3]) (Keeps [1, 2, 3])
        (start (Server.idle (fun _ => 0) 0 0 0) ⟨[0, 2, 0x61, 0], 4, fun _ => 0⟩) threeBytes ∧
      (run (step [1, 2, 3])
        (start (Server.idle (fun _ => 0) 0 0 0) ⟨[0, 2, 0x61, 0], 4, fun _ => 0⟩)
        threeBytes).server.transfers 0 = none :=
  ⟨keeps_along [1, 2, 3] (by decide) (fun _ => 0) 0 0 0 _ (by decide) _, by decide +kernel⟩

end Network
end Remora
