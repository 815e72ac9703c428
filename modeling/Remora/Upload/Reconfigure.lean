/-
# From the uploader to the next boot

A configuration on its way into the board: the script builds the image, a client
sends it block by block over a network that loses, repeats, delays and reorders, the
TFTP server programs it, `main` checks it, stores it and starts a reboot, and the
next boot reads it.  All the while the controller goes on with its own events, and
`main` comes round to `if (newJson)` at any time.

`Phase` says how far an upload has come: the server is receiving, or everything is
stored, or the reboot has been started, or the upload has failed.  Each event leaves the
phase or leads to the next (`phase_step`), so a reboot has always the configuration before
it (`boots_config`).

An upload fails only where `main` has checked another since the start, so that the
checksum goes on from it, or where the configuration has less than 252 bytes, for which
`moveJson` has no array.  Otherwise three events lead on from every block
(`Receiving.run_nextBlock`), and the upload can always be brought to its end
(`can_reboot`).
-/

import Remora.Upload.FailedUpload
import Remora.Upload.Network
import Remora.Upload.Uploader

namespace Remora

open Basis

variable {fl : FloatUnit}

/-- The board, the client, and the packets between them. -/
structure Session (fl : FloatUnit) where
  board : Board fl
  pcb : ℕ
  /-- The ACKs that the server has sent. -/
  acks : List ℕ
  /-- The ACKs that the client has heard. -/
  heard : List ℕ
  /-- The blocks that the client has sent. -/
  sent : List ℕ

/-- The client sends a block, the network delivers a packet, the controller does
something, or `main` comes to `if (newJson)`. -/
inductive SessionEvent where
  | send (k : ℕ)
  | deliverData (k : ℕ) (beyond : ℕ → Byte)
  | deliverAck (k : ℕ)
  | control (e : Event)
  | check

namespace Session

/-- What the server sends when block `k` arrives. -/
def reply (file : List Byte) (u : Session fl) (k : ℕ) (beyond : ℕ → Byte) : List ℕ :=
  if u.board.ended then []
  else acksOf u.pcb (u.board.server.effects (.data u.pcb (dataPacket file k beyond) true))

/-- An event that cannot happen changes nothing. -/
def step (file : List Byte) (u : Session fl) : SessionEvent → Session fl
  | .send k =>
      if 1 ≤ k ∧ k ≤ lastBlock file ∧ k - 1 ∈ u.heard then { u with sent := k :: u.sent } else u
  | .deliverAck k => if k ∈ u.acks then { u with heard := k :: u.heard } else u
  | .deliverData k beyond =>
      if k ∈ u.sent then
        { u with
          board := u.board.step (.tftp (.data u.pcb (dataPacket file k beyond) true))
          acks := u.acks ++ u.reply file k beyond }
      else u
  | .control e => { u with board := u.board.step (.control e) }
  | .check => { u with board := u.board.step .check }

/-- The board has just been handed a write request. -/
def start (s : Board fl) (request : PBuf) : Session fl where
  board := s.step (.tftp (.request request ⟨true, true, true, true⟩))
  pcb := s.server.nextPcb
  acks := acksOf s.server.nextPcb (s.server.effects (.request request ⟨true, true, true, true⟩))
  heard := []
  sent := []

/-- The transfer alone. -/
def network (u : Session fl) (programmed : List ℕ) : Network where
  server := u.board.server
  pcb := u.pcb
  programmed := programmed
  acks := u.acks
  heard := u.heard
  sent := u.sent

/-- `b` blocks are accepted, and the last of them acknowledged. -/
structure Receiving (config : List Byte) (crc : Word) (u : Session fl) (b : ℕ) : Prop where
  ended : u.board.ended = false
  checker : u.board.checker = ⟨crc, false⟩
  serving : ∃ programmed,
    Network.Serving (UploadConfig.image config) (u.network programmed) b
  ack : b ∈ u.acks

/-- The transfer is closed, and its image waits for `checkJson`. -/
structure Stored (config : List Byte) (crc : Word) (u : Session fl) : Prop where
  ended : u.board.ended = false
  checker : u.board.checker = ⟨crc, true⟩
  closed : u.board.server.transfers u.pcb = none
  holds : UploadConfig.Holds u.board.server.flash config
  ack : lastBlock (UploadConfig.image config) ∈ u.acks

/-- The reboot is started, and the next boot reads what it should. -/
structure Rebooting (config : List Byte) (u : Session fl) : Prop where
  rebooting : u.board.rebooting = true
  long : 252 ≤ config.length
  loaded : jsonFromFlash u.board.server.flash [] = config
  ack : lastBlock (UploadConfig.image config) ∈ u.acks

/-- The transfer is closed, and there is no reboot. -/
structure Failed (config : List Byte) (crc : Word) (u : Session fl) : Prop where
  rebooting : u.board.rebooting = false
  newJson : u.board.checker.newJson = false
  closed : u.board.server.transfers u.pcb = none
  reason : crc ≠ 0 ∨ config.length < 252

/-- How far the upload of `config` has come, to a board whose checksum stood at `crc`. -/
inductive Phase (config : List Byte) (crc : Word) (u : Session fl) : Prop
  | receiving (b : ℕ) (h : Receiving config crc u b)
  | stored (h : Stored config crc u)
  | rebooting (h : Rebooting config u)
  | failed (h : Failed config crc u)

variable {config : List Byte} {crc : Word} {u : Session fl}

/-- What the server has stored is the image. -/
theorem holds_of_stored {flash : Flash}
    (hfit : METADATA_LEN + (config.length + 3) / 4 * 4 ≤ REGION_SIZE)
    (h : Network.Holds (UploadConfig.image config) flash) : UploadConfig.Holds flash config := by
  intro i hi
  have hlen := UploadConfig.length_image config
  rw [h i (by omega), if_pos]
  simp only [TFTP_DATA_LEN_MAX]
  omega

/-- While a block can reach the server, its delivery is one of the transfer alone. -/
theorem network_deliverData (hended : u.board.ended = false) (programmed : List ℕ) {k : ℕ}
    (hsent : k ∈ u.sent) (beyond : ℕ → Byte) :
    (u.step (UploadConfig.image config) (.deliverData k beyond)).network
        (((u.network programmed).step (UploadConfig.image config)
          (.deliverData k beyond)).programmed) =
      (u.network programmed).step (UploadConfig.image config) (.deliverData k beyond) := by
  have hsent' : k ∈ (u.network programmed).sent := hsent
  rw [(Network.deliver_of_sent (UploadConfig.image config) hsent' beyond).1,
    (Network.deliver_of_sent (UploadConfig.image config) hsent' beyond).2]
  simp only [step, if_pos hsent, network, reply, Board.step, hended, Bool.false_eq_true, if_false,
    Board.receive]

/-- The acknowledgement of a block that does not end the transfer names the block
that the transfer is at. -/
theorem ack_of_open {s : Server} {pcb b : ℕ} {p : PBuf} {args args' : TftpConnectionArgs}
    (h : s.Reaches pcb p args) (hopen : (s.step (.data pcb p true)).transfers pcb = some args')
    (hb : args'.block = b) :
    p.len ≥ TFTP_DATA_PKT_LEN_MAX ∧ b ∈ acksOf pcb (s.effects (.data pcb p true)) := by
  rw [Server.step, Server.handle_data h] at hopen
  simp only [Function.update_self] at hopen
  split_ifs at hopen with hlen
  rw [Option.some_inj] at hopen
  rw [Server.effects, Server.handle_data h, hopen, hb]
  exact ⟨Nat.not_lt.1 hlen, by simp [acksOf, Server.iapTftpSendAckPacket]⟩

/-- **A block that reaches an open transfer** leaves it open and is acknowledged, or
ends it with everything stored. -/
theorem serving_deliver {file : List Byte} {n : Network} {b k : ℕ}
    (h : Network.Serving file n b) (hfile : file.length ≤ REGION_SIZE) (hsent : k ∈ n.sent)
    (beyond : ℕ → Byte) :
    (.newJson ∉ n.response file (.deliverData k beyond) ∧
      ∃ b', Network.Serving file (n.step file (.deliverData k beyond)) b' ∧
        b' ∈ (n.step file (.deliverData k beyond)).acks) ∨
    (.newJson ∈ n.response file (.deliverData k beyond) ∧
      (n.step file (.deliverData k beyond)).server.transfers n.pcb = none ∧
      Network.Holds file (n.step file (.deliverData k beyond)).server.flash ∧
      lastBlock file ∈ (n.step file (.deliverData k beyond)).acks) := by
  obtain ⟨hkeeps, hsane⟩ := h.deliver hfile hsent beyond
  obtain ⟨totBytes, hreach⟩ := h.reaches k beyond
  obtain ⟨hstep, hresponse⟩ := Network.deliver_of_sent file hsent beyond
  have hnew := Server.newJson_mem_iff hreach true
  rcases hsane with ⟨b', hserving⟩ | hclosed
  · left
    obtain ⟨totBytes', hopen⟩ := hserving.args
    rw [hstep] at hopen
    obtain ⟨hlen, hack⟩ := ack_of_open hreach hopen rfl
    refine ⟨by rw [hresponse, hnew]; omega, b', hserving, ?_⟩
    rw [hstep, hresponse]
    exact List.mem_append_right _ hack
  · right
    rw [hstep] at hclosed
    have hshort : (dataPacket file k beyond).len < TFTP_DATA_PKT_LEN_MAX := by
      by_contra hlong
      dsimp only at hclosed
      rw [Server.step, Server.handle_data hreach, if_neg hlong] at hclosed
      simp at hclosed
    have hmem := hresponse ▸ hnew.2 hshort
    obtain ⟨hholds, hacks⟩ := hkeeps.1 hmem
    refine ⟨hmem, by rw [hstep]; exact hclosed, hholds, ?_⟩
    rw [hstep]
    exact List.mem_append_right _ (by rw [hacks]; exact List.mem_singleton_self _)

/-- The number of blocks is that of the transfer. -/
theorem serving_unique {file : List Byte} {n : Network} {b b' : ℕ}
    (h : Network.Serving file n b) (h' : Network.Serving file n b') : b = b' := by
  obtain ⟨totBytes, hargs⟩ := h.args
  obtain ⟨totBytes', hargs'⟩ := h'.args
  exact congrArg TftpConnectionArgs.block (Option.some.inj (hargs.symm.trans hargs'))

/-- An event that the server has no part in leaves the transfer where it is. -/
theorem serving_of_sane {file : List Byte} {n n' : Network} {b : ℕ}
    (h : Network.Serving file n b) (h' : Network.Sane file n') (hserver : n'.server = n.server)
    (hpcb : n'.pcb = n.pcb) : Network.Serving file n' b := by
  obtain ⟨totBytes, hargs⟩ := h.args
  rw [← hserver, ← hpcb] at hargs
  rcases h' with ⟨b', hserving⟩ | hclosed
  · obtain ⟨totBytes', hargs'⟩ := hserving.args
    obtain rfl : b = b' :=
      congrArg TftpConnectionArgs.block (Option.some.inj (hargs.symm.trans hargs'))
    exact hserving
  · exact absurd (hclosed.symm.trans hargs) (by simp)

/-- After block `b + 1` a transfer that is still open is at block `b + 1`. -/
theorem serving_next {file : List Byte} {n : Network} {b b' : ℕ}
    (h : Network.Serving file n b) (hfile : file.length ≤ REGION_SIZE) (hsent : b + 1 ∈ n.sent)
    (beyond : ℕ → Byte)
    (h' : Network.Serving file (n.step file (.deliverData (b + 1) beyond)) b') : b' = b + 1 := by
  rcases Nat.lt_or_eq_of_le h.more with hlt | hlast
  · exact serving_unique h' (h.deliver_next hfile hsent hlt beyond).2
  · exfalso
    have hclosed : (n.step file (.deliverData (b + 1) beyond)).server.transfers n.pcb = none := by
      by_cases hne : blockOf file (b + 1) = []
      · exact (h.deliver_last_empty hfile hsent hlast hne beyond).2
      · exact (h.deliver_last_data hfile hsent hlast hne beyond).2
    obtain ⟨totBytes, hargs⟩ := h'.args
    rw [(Network.deliver_of_sent file hsent beyond).1] at hclosed hargs
    exact absurd (hclosed.symm.trans hargs) (by simp)

/-- The checker after a datagram. -/
theorem checker_receive (s : Board fl) (a : Arrival) :
    (s.receive a).checker =
      ⟨s.checker.crc32, s.checker.newJson || setsNewJson (s.server.effects a)⟩ := rfl

/-- What the client does or hears leaves the upload where it is. -/
theorem Receiving.client {u' : Session fl} {b : ℕ} (h : Receiving config crc u b)
    (hboard : u'.board = u.board) (hpcb : u'.pcb = u.pcb) (hacks : u'.acks = u.acks)
    (hsane : ∀ programmed, Network.Sane (UploadConfig.image config) (u.network programmed) →
      Network.Sane (UploadConfig.image config) (u'.network programmed)) :
    Receiving config crc u' b := by
  obtain ⟨programmed, hserving⟩ := h.serving
  exact ⟨hboard ▸ h.ended, hboard ▸ h.checker, ⟨programmed, serving_of_sane hserving
    (hsane programmed (Or.inl ⟨b, hserving⟩)) (congrArg Board.server hboard) hpcb⟩, hacks ▸ h.ack⟩

/-- The client sends a block. -/
theorem Receiving.send {b : ℕ} (h : Receiving config crc u b) (k : ℕ) :
    Receiving config crc (u.step (UploadConfig.image config) (.send k)) b := by
  by_cases hk : 1 ≤ k ∧ k ≤ lastBlock (UploadConfig.image config) ∧ k - 1 ∈ u.heard
  · rw [step, if_pos hk]
    refine h.client rfl rfl rfl fun programmed hsane => ?_
    have hnetwork : (u.network programmed).step (UploadConfig.image config) (.send k) =
        network { u with sent := k :: u.sent } programmed := if_pos hk
    exact hnetwork ▸ Network.sane_send hsane k
  · rwa [step, if_neg hk]

/-- The client hears an ACK. -/
theorem Receiving.deliverAck {b : ℕ} (h : Receiving config crc u b) (k : ℕ) :
    Receiving config crc (u.step (UploadConfig.image config) (.deliverAck k)) b := by
  by_cases hk : k ∈ u.acks
  · rw [step, if_pos hk]
    refine h.client rfl rfl rfl fun programmed hsane => ?_
    have hnetwork : (u.network programmed).step (UploadConfig.image config) (.deliverAck k) =
        network { u with heard := k :: u.heard } programmed := if_pos hk
    exact hnetwork ▸ Network.sane_deliverAck hsane k
  · rwa [step, if_neg hk]

/-- **A block arrives**: the upload goes on, with the next block if it was that one,
or everything is stored. -/
theorem Receiving.deliverData (hfit : METADATA_LEN + (config.length + 3) / 4 * 4 ≤ REGION_SIZE)
    {b : ℕ} (h : Receiving config crc u b) {k : ℕ} (hsent : k ∈ u.sent) (beyond : ℕ → Byte) :
    (∃ b', Receiving config crc (u.step (UploadConfig.image config) (.deliverData k beyond)) b' ∧
      (k = b + 1 → b' = b + 1)) ∨
    Stored config crc (u.step (UploadConfig.image config) (.deliverData k beyond)) := by
  obtain ⟨programmed, hserving⟩ := h.serving
  have hfile : (UploadConfig.image config).length ≤ REGION_SIZE := by
    rwa [UploadConfig.length_image]
  have hnetwork : (u.step (UploadConfig.image config) (.deliverData k beyond)).network _ = _ :=
    network_deliverData h.ended programmed hsent beyond
  have hresponse : (u.network programmed).response (UploadConfig.image config)
      (.deliverData k beyond) = u.board.server.effects
        (.data u.pcb (dataPacket (UploadConfig.image config) k beyond) true) :=
    (Network.deliver_of_sent (n := u.network programmed) _ hsent beyond).2
  have hboard : (u.step (UploadConfig.image config) (.deliverData k beyond)).board =
      u.board.receive (.data u.pcb (dataPacket (UploadConfig.image config) k beyond) true) := by
    simp only [step, if_pos hsent, Board.step, h.ended, Bool.false_eq_true, if_false]
  have hended : (u.step (UploadConfig.image config) (.deliverData k beyond)).board.ended =
      false := by rw [hboard]; exact h.ended
  rcases serving_deliver hserving hfile hsent beyond with
    ⟨hnew, b', hserving', hack⟩ | ⟨hnew, hclosed, hholds, hack⟩
  · left
    refine ⟨b', ⟨hended, ?_, ⟨_, hnetwork.symm ▸ hserving'⟩, ?_⟩, ?_⟩
    · rw [hresponse] at hnew
      rw [hboard, checker_receive, h.checker,
        Bool.eq_false_iff.2 fun hset => hnew ((setsNewJson_iff _).1 hset)]
      rfl
    · rw [← hnetwork] at hack
      exact hack
    · rintro rfl
      exact serving_next hserving hfile hsent beyond hserving'
  · right
    rw [← hnetwork] at hclosed hholds hack
    refine ⟨hended, ?_, ?_, holds_of_stored hfit hholds, hack⟩
    · rw [hresponse] at hnew
      rw [hboard, checker_receive, h.checker, (setsNewJson_iff _).2 hnew]
      rfl
    · have hpcb : (u.step (UploadConfig.image config) (.deliverData k beyond)).pcb = u.pcb := by
        simp only [step, if_pos hsent]
      rw [hpcb]
      exact hclosed

/-- A block that arrives once the transfer is closed is dropped. -/
theorem deliverData_of_closed (h : u.board.server.transfers u.pcb = none) (file : List Byte) (k : ℕ)
    (beyond : ℕ → Byte) : u.step file (.deliverData k beyond) = u := by
  have hdropped := Server.handle_data_of_not_reaches (p := dataPacket file k beyond)
    (fun args hreach => absurd (h.symm.trans hreach.1) (by simp)) true
  have hreceive : u.board.receive (.data u.pcb (dataPacket file k beyond) true) = u.board := by
    simp [Board.receive, Server.step, Server.effects, hdropped, setsNewJson, resetsCore1]
  have hboard : u.board.step (.tftp (.data u.pcb (dataPacket file k beyond) true)) = u.board := by
    rw [Board.step, hreceive, ite_self]
  have hreply : u.reply file k beyond = [] := by
    rw [reply, Server.effects, hdropped]
    exact ite_self _
  rw [step, hboard, hreply, List.append_nil]
  exact ite_self _

/-- **`main` comes to `if (newJson)`** with the image stored: the reboot is started with
the configuration in its place, or the upload fails. -/
theorem Stored.check (hfit : METADATA_LEN + (config.length + 3) / 4 * 4 ≤ REGION_SIZE)
    (h : Stored config crc u) :
    Rebooting config (u.step (UploadConfig.image config) .check) ∨
      Failed config crc (u.step (UploadConfig.image config) .check) := by
  have hnew : u.board.checker.newJson = true := by rw [h.checker]
  have hreboot := Board.rebooting_of_not_ended h.ended
  have hlen := UploadConfig.jsonLength_of_holds hfit h.holds
  obtain ⟨hnew', htransfers, -, -, hreboots⟩ := u.board.checkNewJson_eq hnew
  have hboard : u.step (UploadConfig.image config) .check =
      { u with board := u.board.checkNewJson } := by
    simp only [step, Board.step, h.ended, Bool.false_eq_true, if_false]
  rw [hboard]
  cases hdone : u.board.checkNewJson.rebooting with
  | true =>
      have hlong : 252 ≤ config.length := hlen ▸ ((hreboots hreboot).1 hdone).2.1
      refine Or.inl ⟨hdone, hlong, ?_, h.ack⟩
      rw [Board.flash_checkNewJson hnew hreboot hdone]
      exact UploadConfig.loaded_of_holds hfit h.holds hlong
  | false =>
      refine Or.inr ⟨hdone, hnew', (congrFun htransfers _).trans h.closed, ?_⟩
      by_contra hgood
      obtain ⟨hcrc, hlong⟩ := not_or.1 hgood
      have haccepted : u.board.Accepted := by
        rw [← Board.accepted_iff, h.checker, not_not.1 hcrc,
          (UploadConfig.image_accepted hfit h.holds true).1]
        decide
      have hregion : REGION_SIZE = 32768 := rfl
      have hstorable : u.board.Storable := by
        rw [Board.Storable, hlen]
        omega
      exact absurd (hdone.symm.trans ((hreboots hreboot).2 ⟨haccepted, hstorable⟩)) (by decide)

/-- Nothing was checked before, and the file is long enough: it does not fail. -/
theorem Stored.reboots (hfit : METADATA_LEN + (config.length + 3) / 4 * 4 ≤ REGION_SIZE)
    (hlong : 252 ≤ config.length) (h : Stored config 0 u) :
    Rebooting config (u.step (UploadConfig.image config) .check) := by
  refine (h.check hfit).resolve_right fun hfailed => ?_
  rcases hfailed.reason with hcrc | hshort
  · exact hcrc rfl
  · omega

/-- With nothing to check, `main` goes on. -/
theorem check_of_idle (h : u.board.checker.newJson = false) (file : List Byte) :
    u.step file .check = u := by
  have hcheck : u.board.checkNewJson = u.board :=
    if_neg (by rw [h]; exact Bool.false_ne_true)
  rw [step, Board.step, hcheck, ite_self]

/-- What the controller does touches neither the flash nor the checker. -/
theorem control_eq (u : Session fl) (file : List Byte) (e : Event) :
    ∃ controller, u.step file (.control e) =
      { u with board := { u.board with controller := controller } } := by
  simp only [step, Board.step]
  split_ifs
  · exact ⟨_, rfl⟩
  · exact ⟨_, rfl⟩
  · exact ⟨_, rfl⟩

/-- **Every event leaves the phase or leads to the next.** -/
theorem phase_step (hfit : METADATA_LEN + (config.length + 3) / 4 * 4 ≤ REGION_SIZE)
    (h : Phase config crc u) (e : SessionEvent) :
    Phase config crc (u.step (UploadConfig.image config) e) := by
  cases h with
  | receiving b h =>
      cases e with
      | send k => exact .receiving b (h.send k)
      | deliverAck k => exact .receiving b (h.deliverAck k)
      | deliverData k beyond =>
          by_cases hsent : k ∈ u.sent
          · rcases h.deliverData hfit hsent beyond with ⟨b', h', -⟩ | h'
            · exact .receiving b' h'
            · exact .stored h'
          · rw [step, if_neg hsent]
            exact .receiving b h
      | control e =>
          obtain ⟨controller, hstep⟩ := u.control_eq (UploadConfig.image config) e
          rw [hstep]
          exact .receiving b ⟨h.ended, h.checker, h.serving, h.ack⟩
      | check =>
          rw [check_of_idle (by rw [h.checker])]
          exact .receiving b h
  | stored h =>
      cases e with
      | send k =>
          rw [step]
          split_ifs
          · exact .stored ⟨h.ended, h.checker, h.closed, h.holds, h.ack⟩
          · exact .stored h
      | deliverAck k =>
          rw [step]
          split_ifs
          · exact .stored ⟨h.ended, h.checker, h.closed, h.holds, h.ack⟩
          · exact .stored h
      | deliverData k beyond =>
          rw [deliverData_of_closed h.closed]
          exact .stored h
      | control e =>
          obtain ⟨controller, hstep⟩ := u.control_eq (UploadConfig.image config) e
          rw [hstep]
          exact .stored ⟨h.ended, h.checker, h.closed, h.holds, h.ack⟩
      | check =>
          rcases h.check hfit with h' | h'
          · exact .rebooting h'
          · exact .failed h'
  | rebooting h =>
      have hboard : ∀ e, u.board.step e = u.board := fun e =>
        if_pos (by rw [Board.ended, h.rebooting, Bool.true_or])
      cases e with
      | send k =>
          rw [step]
          split_ifs
          · exact .rebooting ⟨h.rebooting, h.long, h.loaded, h.ack⟩
          · exact .rebooting h
      | deliverAck k =>
          rw [step]
          split_ifs
          · exact .rebooting ⟨h.rebooting, h.long, h.loaded, h.ack⟩
          · exact .rebooting h
      | deliverData k beyond =>
          rw [step, hboard]
          split_ifs
          · exact .rebooting ⟨h.rebooting, h.long, h.loaded, List.mem_append_left _ h.ack⟩
          · exact .rebooting h
      | control e =>
          rw [step, hboard]
          exact .rebooting h
      | check =>
          rw [step, hboard]
          exact .rebooting h
  | failed h =>
      cases e with
      | send k =>
          rw [step]
          split_ifs
          · exact .failed ⟨h.rebooting, h.newJson, h.closed, h.reason⟩
          · exact .failed h
      | deliverAck k =>
          rw [step]
          split_ifs
          · exact .failed ⟨h.rebooting, h.newJson, h.closed, h.reason⟩
          · exact .failed h
      | deliverData k beyond =>
          rw [deliverData_of_closed h.closed]
          exact .failed h
      | control e =>
          obtain ⟨controller, hstep⟩ := u.control_eq (UploadConfig.image config) e
          rw [hstep]
          exact .failed ⟨h.rebooting, h.newJson, h.closed, h.reason⟩
      | check =>
          rw [check_of_idle h.newJson]
          exact .failed h

/-- **The write request begins the upload**, on a board that waits for no other. -/
theorem receiving_start (config : List Byte) {s : Board fl} (hnew : s.checker.newJson = false)
    (hended : s.ended = false) {request : PBuf} (hop : iapTftpDecodeOp request = TFTP_WRQ) :
    Receiving config s.checker.crc32 (start s request) 0 := by
  have hopens : Server.Opens (.request request ⟨true, true, true, true⟩) := ⟨rfl, rfl, hop, rfl⟩
  have hboard : (start s request).board =
      s.receive (.request request ⟨true, true, true, true⟩) := by
    simp only [start, Board.step, hended, Bool.false_eq_true, if_false]
  have hserving := Network.serving_start (s := s.server) (UploadConfig.image config) hop
  have hnetwork : (start s request).network [] = Network.start s.server request := by
    simp only [network, hboard]
    rfl
  refine ⟨by rw [hboard]; exact hended, ?_, ⟨[], hnetwork ▸ hserving⟩, ?_⟩
  · rw [hboard, checker_receive, hnew]
    simp [Server.effects, Server.handle_request_of_opens hopens, setsNewJson,
      Server.iapTftpSendAckPacket]
  · simp [start, Server.effects, Server.handle_request_of_opens hopens, acksOf,
      Server.iapTftpSendAckPacket]

/-- The ACK of block `b`, then block `b + 1`. -/
def nextBlock (b : ℕ) : List SessionEvent :=
  [.deliverAck b, .send (b + 1), .deliverData (b + 1) fun _ => 0]

/-- **Three events lead on from every block.** -/
theorem Receiving.run_nextBlock
    (hfit : METADATA_LEN + (config.length + 3) / 4 * 4 ≤ REGION_SIZE) {b : ℕ}
    (h : Receiving config crc u b) :
    Receiving config crc (run (step (UploadConfig.image config)) u (nextBlock b)) (b + 1) ∨
      Stored config crc (run (step (UploadConfig.image config)) u (nextBlock b)) := by
  have hmore := h.serving.choose_spec.more
  set file := UploadConfig.image config with hfile
  have hheard : b ∈ (u.step file (.deliverAck b)).heard := by
    rw [step, if_pos h.ack]
    exact List.mem_cons_self ..
  have hsent : b + 1 ∈ ((u.step file (.deliverAck b)).step file (.send (b + 1))).sent := by
    rw [step, if_pos ⟨Nat.succ_pos b, hmore, hheard⟩]
    exact List.mem_cons_self ..
  rcases ((h.deliverAck b).send (b + 1)).deliverData hfit hsent (fun _ => 0) with
    ⟨b', h', hb⟩ | h'
  · exact Or.inl (hb rfl ▸ h')
  · exact Or.inr h'

/-- From block `b` on, the rest of the blocks and one pass of `main` end the upload. -/
theorem Receiving.exists_run (hfit : METADATA_LEN + (config.length + 3) / 4 * 4 ≤ REGION_SIZE)
    (hlong : 252 ≤ config.length) {b d : ℕ} (h : Receiving config 0 u b)
    (hd : b + d = lastBlock (UploadConfig.image config)) :
    ∃ es, es.length ≤ 3 * d + 1 ∧
      (run (step (UploadConfig.image config)) u es).board.rebooting = true := by
  induction d generalizing b u with
  | zero =>
      have hmore := h.serving.choose_spec.more
      omega
  | succ d ih =>
      rcases h.run_nextBlock hfit with h' | h'
      · obtain ⟨es, hlen, hreboot⟩ := ih h' (by omega)
        refine ⟨nextBlock b ++ es, ?_, by rwa [run_append]⟩
        rw [List.length_append, nextBlock]
        simp only [List.length_cons, List.length_nil]
        omega
      · refine ⟨nextBlock b ++ [.check], ?_, ?_⟩
        · rw [List.length_append, nextBlock]
          simp only [List.length_cons, List.length_nil]
          omega
        · rw [run_append, run_cons, run_nil]
          exact (h'.reboots hfit hlong).rebooting

section

variable (hfit : METADATA_LEN + (config.length + 3) / 4 * 4 ≤ REGION_SIZE) (s : Board fl)
  (hnew : s.checker.newJson = false) (hended : s.ended = false) (request : PBuf)
  (hop : iapTftpDecodeOp request = TFTP_WRQ) (es : List SessionEvent)
include hfit hnew hended hop

theorem phase_run :
    Phase config s.checker.crc32
      (run (step (UploadConfig.image config)) (start s request) es) :=
  run_invariant (I := Phase config s.checker.crc32) (fun _ e h => phase_step hfit h e)
    (.receiving 0 (receiving_start config hnew hended hop)) es

/-- A run that has come to the reboot. -/
theorem rebooting_run
    (hdone : (run (step (UploadConfig.image config)) (start s request) es).board.rebooting =
      true) :
    Rebooting config (run (step (UploadConfig.image config)) (start s request) es) := by
  have hnot : ∀ u : Session fl, u.board.ended = false → u.board.rebooting ≠ true := fun u h =>
    Bool.eq_false_iff.1 (Board.rebooting_of_not_ended h)
  cases phase_run hfit s hnew hended request hop es with
  | receiving b h => exact absurd hdone (hnot _ h.ended)
  | stored h => exact absurd hdone (hnot _ h.ended)
  | rebooting h => exact h
  | failed h => exact absurd (h.rebooting.symm.trans hdone) (by decide)

/-- **The next boot reads the configuration that was uploaded**: in every run, once a
reboot is started, the last block has been acknowledged and `jsonFromFlash` finds the
file that the script was given, which has 252 bytes at least. -/
theorem boots_config
    (hdone : (run (step (UploadConfig.image config)) (start s request) es).board.rebooting =
      true) :
    252 ≤ config.length ∧
      jsonFromFlash (run (step (UploadConfig.image config)) (start s request)
        es).board.server.flash [] = config ∧
      lastBlock (UploadConfig.image config) ∈
        (run (step (UploadConfig.image config)) (start s request) es).acks :=
  have h := rebooting_run hfit s hnew hended request hop es hdone
  ⟨h.long, h.loaded, h.ack⟩

/-- **An upload can always be brought to its end**, on a board that has checked no other:
whatever has been lost or sent twice, from every state that a run leads to a few more
events, three for each block and one, lead to the reboot. -/
theorem can_reboot (hcrc : s.checker.crc32 = 0) (hlong : 252 ≤ config.length) :
    ∃ es', es'.length ≤ 3 * lastBlock (UploadConfig.image config) + 1 ∧
      (run (step (UploadConfig.image config)) (start s request) (es ++ es')).board.rebooting =
        true := by
  have hphase := phase_run hfit s hnew hended request hop es
  rw [hcrc] at hphase
  simp only [run_append]
  cases hphase with
  | receiving b h =>
      have hmore := h.serving.choose_spec.more
      obtain ⟨es', hlen, hdone⟩ :=
        h.exists_run hfit hlong (d := lastBlock (UploadConfig.image config) - b) (by omega)
      exact ⟨es', by omega, hdone⟩
  | stored h => exact ⟨[.check], by simp, (h.reboots hfit hlong).rebooting⟩
  | rebooting h => exact ⟨[], Nat.zero_le _, h.rebooting⟩
  | failed h =>
      rcases h.reason with hcrc | hshort
      · exact absurd rfl hcrc
      · omega

end

/-- A board that has just been launched, with erased flash and no modules. -/
def launched : Board (exactFloat fun _ => 0) :=
  .launch (.start [] [] ⟨false, false, 0⟩) fun _ => 0xFF

/-- A configuration of 252 blanks reaches the next boot. -/
theorem boots_blanks :
    ∃ es, jsonFromFlash (run (step (UploadConfig.image (List.replicate 252 0x20)))
        (start launched ⟨[0, 2, 0x61, 0], 4, fun _ => 0⟩) es).board.server.flash [] =
      List.replicate 252 0x20 := by
  have hfit : METADATA_LEN + ((List.replicate 252 (0x20 : Byte)).length + 3) / 4 * 4 ≤
      REGION_SIZE := by decide +kernel
  have hop : iapTftpDecodeOp ⟨[0, 2, 0x61, 0], 4, fun _ => 0⟩ = TFTP_WRQ := by decide
  have hstart : Receiving (List.replicate 252 0x20) 0
      (start launched ⟨[0, 2, 0x61, 0], 4, fun _ => 0⟩) 0 :=
    receiving_start _ (s := launched) rfl rfl hop
  obtain ⟨es, -, hdone⟩ := hstart.exists_run hfit (by rw [List.length_replicate])
    (Nat.zero_add _)
  exact ⟨es, (boots_config hfit launched rfl rfl _ hop es hdone).2.1⟩

/-- The upload of 252 blanks, after its first block has been sent twice. -/
theorem can_reboot_blanks :
    ∃ es', es'.length ≤ 3 * lastBlock (UploadConfig.image (List.replicate 252 0x20)) + 1 ∧
      (run (step (UploadConfig.image (List.replicate 252 0x20)))
        (start launched ⟨[0, 2, 0x61, 0], 4, fun _ => 0⟩)
        (nextBlock 0 ++ nextBlock 0 ++ es')).board.rebooting = true :=
  can_reboot (by decide +kernel) launched rfl rfl _ (by decide) _ rfl (by decide +kernel)

end Session
end Remora
