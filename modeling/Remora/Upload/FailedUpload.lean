/-
# A failed upload

The life of the board from the launch of core 1 to a reboot: `main` on core 0, with
the datagrams that `EthernetTasks` hands to the UDP callback and to the TFTP server,
and core 1 as long as it runs.  Four things that the parts know apart come together:
whether core 1 runs, whether a transfer is open, `newJson`, and whether a reboot has
been started.

A write request stops core 1, and only a reboot starts it again.  An upload that is
accepted ends in one, unless `moveJson` stores past `data`, over the frames to which it
and `main` return.  An upload that `checkJson` rejects clears `newJson` and does nothing
else: core 0 goes on answering reads and writes, and no thread runs.
-/

import Remora.Motion.Controller
import Remora.Upload.MoveJson
import Remora.Upload.Transfers

namespace Remora

open Basis

variable {fl : FloatUnit}

/-- The board.  The flash is the server's. -/
structure Board (fl : FloatUnit) where
  controller : Controller fl
  server : Server
  checker : Checker
  core1Running : Bool
  rebooting : Bool
  /-- `moveJson` has stored past `data`: `main` does not get to the reboot. -/
  overrun : Bool

/-- What happens next. -/
inductive BoardEvent where
  /-- A datagram for the controller, or a step of core 1. -/
  | control (e : Event)
  /-- A datagram for the TFTP server. -/
  | tftp (a : Arrival)
  /-- `if (newJson)` in `main`. -/
  | check

/-- The event takes place on core 0. -/
def Event.onCore0 : Event → Bool
  | .udp _ => true
  | _ => false

/-- `multicore_reset_core1` is among the effects. -/
def resetsCore1 (effects : List Effect) : Bool :=
  effects.any fun | .resetCore1 => true | _ => false

/-- `newJson = true` is among the effects. -/
def setsNewJson (effects : List Effect) : Bool :=
  effects.any fun | .newJson => true | _ => false

/-- A test that only one effect passes asks whether it is there. -/
theorem any_iff_mem {p : Effect → Bool} {e : Effect} (h : ∀ e', p e' = true ↔ e' = e)
    (effects : List Effect) : effects.any p ↔ e ∈ effects := by
  rw [List.any_eq_true]
  constructor
  · rintro ⟨e', he', hp⟩
    exact (h e').1 hp ▸ he'
  · exact fun he => ⟨e, he, (h e).2 rfl⟩

theorem resetsCore1_iff (effects : List Effect) : resetsCore1 effects ↔ .resetCore1 ∈ effects :=
  any_iff_mem (fun e => by cases e <;> simp) effects

theorem setsNewJson_iff (effects : List Effect) : setsNewJson effects ↔ .newJson ∈ effects :=
  any_iff_mem (fun e => by cases e <;> simp) effects

namespace Board

/-- After `multicore_launch_core1`. -/
def launch (controller : Controller fl) (flash : Flash) : Board fl where
  controller := controller
  server := .boot flash
  checker := ⟨0, false⟩
  core1Running := true
  rebooting := false
  overrun := false

/-- `if (newJson) { if (checkJson() > 0) { moveJson(); watchdog_reboot(…); … } }` -/
def checkNewJson (s : Board fl) : Board fl :=
  if s.checker.newJson then
    let r := checkJson s.checker s.server.flash
    let s := { s with checker := r.1 }
    if r.2 > 0 then
      let moved := moveJson s.server.flash
      { s with server := { s.server with flash := moved.flash },
               rebooting := moved.InsideData
               overrun := ¬moved.InsideData }
    else s
  else s

/-- A datagram for the TFTP server. -/
def receive (s : Board fl) (a : Arrival) : Board fl :=
  { s with
    server := s.server.step a
    checker :=
      { s.checker with newJson := s.checker.newJson || setsNewJson (s.server.effects a) }
    core1Running := s.core1Running && !resetsCore1 (s.server.effects a) }

/-- Core 0 does not come back to its loop: it waits for the reboot, or has lost its
stack. -/
def ended (s : Board fl) : Bool := s.rebooting || s.overrun

/-- The state after an event. -/
def step (s : Board fl) (e : BoardEvent) : Board fl :=
  if s.ended then s
  else match e with
    | .control e =>
        if e.onCore0 || s.core1Running then { s with controller := s.controller.step e } else s
    | .tftp a => s.receive a
    | .check => s.checkNewJson

/-- No transfer is in progress. -/
def Quiet (s : Board fl) : Prop := ∀ pcb, s.server.transfers pcb = none

/-- With no upload under way, none waiting to be checked, and no reboot started,
core 1 runs. -/
def Working (s : Board fl) : Prop :=
  s.Quiet → s.checker.newJson = false → s.rebooting = false → s.core1Running = true

/-- `checkJson` finds nothing wrong: the length field is within the bound, and the
checksum, carried on from what was checked before, is the one stored. -/
def Accepted (s : Board fl) : Prop :=
  LengthOk s.server.flash ∧
    Crc32.update Crc32.generateTable s.checker.crc32 (looked s.server.flash) =
      (metadata s.server.flash).crc32

/-- The length of the file is one for which `moveJson` has an array of the right size. -/
def Storable (s : Board fl) : Prop :=
  252 ≤ (metadata s.server.flash).jsonLength.toNat ∧
    (metadata s.server.flash).jsonLength.toNat % 65536 < 65276

/-- What is checked with no transfer open is accepted, and can be stored. -/
def ChecksGood (s : Board fl) (e : BoardEvent) : Prop :=
  e = .check → s.ended = false → s.checker.newJson = true → s.Quiet → s.Accepted ∧ s.Storable

/-- Core 1 is stopped as soon as an upload begins. -/
structure Alive (s : Board fl) : Prop where
  fresh : s.server.Fresh
  working : s.Working
  running : s.core1Running = true → s.Quiet ∧ s.checker.newJson = false

theorem alive_launch (controller : Controller fl) (flash : Flash) :
    Alive (launch controller flash) :=
  ⟨fun _ _ => rfl, fun _ _ _ => rfl, fun _ => ⟨fun _ => rfl, rfl⟩⟩

theorem accepted_iff (s : Board fl) : (checkJson s.checker s.server.flash).2 > 0 ↔ s.Accepted := by
  rw [checkJson_eq, Accepted]
  by_cases hlen : LengthOk s.server.flash
  · by_cases hcrc : Crc32.update Crc32.generateTable s.checker.crc32 (looked s.server.flash) =
        (metadata s.server.flash).crc32
    · simp [hlen, hcrc]
    · simp [hlen, hcrc]
  · simp [hlen]

theorem newJson_checkJson (s : Checker) (flash : Flash) :
    (checkJson s flash).1.newJson = false := by
  rw [checkJson_eq]
  split_ifs <;> rfl

/-- **What a check does.** -/
theorem checkNewJson_eq (s : Board fl) (h : s.checker.newJson = true) :
    s.checkNewJson.checker.newJson = false ∧ s.checkNewJson.server.transfers = s.server.transfers ∧
      s.checkNewJson.server.nextPcb = s.server.nextPcb ∧
      s.checkNewJson.core1Running = s.core1Running ∧
      (s.rebooting = false → (s.checkNewJson.rebooting = true ↔ s.Accepted ∧ s.Storable)) := by
  rw [checkNewJson, if_pos h, Storable, ← inside_moveJson_iff, ← accepted_iff]
  dsimp only
  split_ifs with haccepted
  · simp [newJson_checkJson, haccepted]
  · simp +contextual [newJson_checkJson, haccepted]

/-- A reboot finds in flash what `moveJson` has left there. -/
theorem flash_checkNewJson {s : Board fl} (h : s.checker.newJson = true)
    (hreboot : s.rebooting = false) (hdone : s.checkNewJson.rebooting = true) :
    s.checkNewJson.server.flash = (moveJson s.server.flash).flash := by
  have haccepted := (s.accepted_iff).2 ((s.checkNewJson_eq h).2.2.2.2 hreboot |>.1 hdone).1
  rw [checkNewJson, if_pos h]
  dsimp only
  rw [if_pos haccepted]

/-- A request that opens a transfer stops core 1. -/
theorem receive_of_opens (s : Board fl) {p : PBuf} {alloc : Alloc}
    (h : Server.Opens (.request p alloc)) :
    ¬(s.receive (.request p alloc)).Quiet ∧
      (s.receive (.request p alloc)).core1Running = false := by
  constructor
  · intro hquiet
    have hclosed := hquiet s.server.nextPcb
    simp [receive, Server.step, Server.handle_request_of_opens h] at hclosed
  · simp [receive, resetsCore1, Server.effects, Server.handle_request_of_opens h]

/-- Any other request changes nothing here. -/
theorem receive_of_not_opens {s : Board fl} (hs : s.server.Fresh) {p : PBuf} {alloc : Alloc}
    (h : ¬Server.Opens (.request p alloc)) :
    (s.receive (.request p alloc)).server.transfers = s.server.transfers ∧
      (s.receive (.request p alloc)).checker.newJson = s.checker.newJson ∧
      (s.receive (.request p alloc)).core1Running = s.core1Running := by
  obtain ⟨-, -, -, -, heffects⟩ := Server.handle_request_of_not_opens (s := s.server) h
  have hnew : setsNewJson (s.server.effects (.request p alloc)) = false :=
    Bool.eq_false_iff.2 fun hset => by
      rcases heffects _ ((setsNewJson_iff _).1 hset) with he | he | he <;> cases he
  have hreset : resetsCore1 (s.server.effects (.request p alloc)) = false :=
    Bool.eq_false_iff.2 fun hstop => by
      rcases heffects _ ((resetsCore1_iff _).1 hstop) with he | he | he <;> cases he
  exact ⟨(hs.transfers_request h).1, by simp [receive, hnew], by simp [receive, hreset]⟩

/-- No datagram of a transfer stops core 1. -/
theorem not_resetCore1_data (s : Server) (pcb : ℕ) (p : PBuf) (pbufAlloc : Bool) :
    .resetCore1 ∉ s.effects (.data pcb p pbufAlloc) := by
  by_cases hreach : ∃ args, s.Reaches pcb p args
  · obtain ⟨args, hreach⟩ := hreach
    rw [Server.effects, Server.handle_data hreach]
    unfold Server.receiveBlock Server.iapTftpSendAckPacket
    split_ifs <;> simp
  · simp [Server.effects, Server.handle_data_of_not_reaches (not_exists.1 hreach)]

/-- A datagram of a transfer leaves the transfer open, or sets `newJson`; any other
is dropped. -/
theorem receive_data (s : Board fl) (pcb : ℕ) (p : PBuf) (pbufAlloc : Bool) :
    (s.receive (.data pcb p pbufAlloc)).core1Running = s.core1Running ∧
      (s.receive (.data pcb p pbufAlloc) = s ∨
      ¬s.Quiet ∧ ((s.receive (.data pcb p pbufAlloc)).checker.newJson = true ∨
        ¬(s.receive (.data pcb p pbufAlloc)).Quiet)) := by
  have hreset : resetsCore1 (s.server.effects (.data pcb p pbufAlloc)) = false :=
    Bool.eq_false_iff.2 fun hstop => not_resetCore1_data _ _ _ _ ((resetsCore1_iff _).1 hstop)
  refine ⟨by simp [receive, hreset], ?_⟩
  by_cases hreach : ∃ args, s.server.Reaches pcb p args
  · obtain ⟨args, hreach⟩ := hreach
    refine Or.inr ⟨fun hquiet => absurd (hquiet pcb) (by simp [hreach.1]), ?_⟩
    by_cases hlen : p.len < TFTP_DATA_PKT_LEN_MAX
    · have hnew := (setsNewJson_iff _).2 ((Server.newJson_mem_iff hreach pbufAlloc).2 hlen)
      exact Or.inl (by simp [receive, hnew])
    · refine Or.inr fun hquiet => ?_
      have hclosed := hquiet pcb
      simp [receive, Server.step, Server.handle_data hreach, hlen] at hclosed
  · have hdropped := Server.handle_data_of_not_reaches (not_exists.1 hreach) pbufAlloc
    refine Or.inl ?_
    simp [receive, Server.step, Server.effects, hdropped, setsNewJson, resetsCore1]

theorem rebooting_of_not_ended {s : Board fl} (h : s.ended = false) : s.rebooting = false :=
  (Bool.or_eq_false_iff.1 h).1

/-- **A datagram for the server** leaves the board working. -/
theorem alive_receive {s : Board fl} (h : Alive s) (hreboot : s.rebooting = false) (a : Arrival) :
    Alive (s.receive a) := by
  have hfresh := h.fresh.step a
  cases a with
  | request p alloc =>
      by_cases hopen : Server.Opens (.request p alloc)
      · obtain ⟨hbusy, hstopped⟩ := s.receive_of_opens hopen
        exact ⟨hfresh, fun hquiet => absurd hquiet hbusy, fun hrun =>
          absurd (hstopped.symm.trans hrun) (by decide)⟩
      · obtain ⟨htransfers, hnew, hrunning⟩ := receive_of_not_opens h.fresh hopen
        refine ⟨hfresh, fun hquiet hnew' _ => ?_, fun hrun => ?_⟩
        · rw [hrunning]
          exact h.working (fun pcb => htransfers ▸ hquiet pcb) (hnew ▸ hnew') hreboot
        · obtain ⟨hquiet, hfalse⟩ := h.running (hrunning ▸ hrun)
          exact ⟨fun pcb => by rw [htransfers]; exact hquiet pcb, hnew.trans hfalse⟩
  | data pcb p pbufAlloc =>
      obtain ⟨hrunning, hsame | ⟨hbusy, hafter⟩⟩ := s.receive_data pcb p pbufAlloc
      · rw [hsame]
        exact h
      · have hstopped : s.core1Running ≠ true := fun hrun => hbusy (h.running hrun).1
        refine ⟨hfresh, fun hquiet hnew' _ => ?_, fun hrun => absurd (hrunning ▸ hrun) hstopped⟩
        rcases hafter with hnew | hopen
        · exact absurd (hnew.symm.trans hnew') (by decide)
        · exact absurd hquiet hopen

/-- **A check** leaves the board working exactly when it ends in a reboot, or the last
upload is still under way. -/
theorem working_check_iff {s : Board fl} (h : Alive s) (hreboot : s.rebooting = false) :
    s.checkNewJson.Working ↔
      (s.checker.newJson = true → s.Quiet → s.Accepted ∧ s.Storable) := by
  by_cases hnew : s.checker.newJson = true
  · obtain ⟨hfalse, htransfers, -, hrunning, hreboots⟩ := s.checkNewJson_eq hnew
    have hstopped : s.core1Running = false := by
      by_contra hrun
      exact absurd ((h.running (by simpa using hrun)).2.symm.trans hnew) (by decide)
    have hquiet : s.checkNewJson.Quiet ↔ s.Quiet := by rw [Quiet, Quiet, htransfers]
    rw [Working, hquiet, hrunning, hstopped, ← hreboots hreboot]
    simp [hfalse, hnew]
  · rw [checkNewJson, if_neg hnew]
    exact ⟨fun _ hn => absurd hn hnew, fun _ => h.working⟩

theorem working_step_iff {s : Board fl} (h : Alive s) (e : BoardEvent) :
    (s.step e).Working ↔ s.ChecksGood e := by
  cases hended : s.ended with
  | true => simp [step, hended, ChecksGood, h.working]
  | false =>
      have hreboot := rebooting_of_not_ended hended
      unfold step
      rw [if_neg (by simp [hended])]
      cases e with
      | control e =>
          refine iff_of_true ?_ (by simp [ChecksGood])
          dsimp only
          split_ifs <;> exact h.working
      | tftp a => exact iff_of_true (alive_receive h hreboot a).working (by simp [ChecksGood])
      | check => simp [working_check_iff h hreboot, ChecksGood, hended]

/-- Core 1 stays stopped, and what a step leaves working stays alive. -/
theorem alive_step {s : Board fl} (h : Alive s) {e : BoardEvent} (hworking : (s.step e).Working) :
    Alive (s.step e) := by
  cases hended : s.ended with
  | true =>
      unfold step
      rw [if_pos hended]
      exact h
  | false =>
      have hreboot := rebooting_of_not_ended hended
      unfold step at hworking ⊢
      rw [if_neg (by simp [hended])] at hworking ⊢
      cases e with
      | control e =>
          dsimp only
          split_ifs <;> exact ⟨h.fresh, h.working, h.running⟩
      | tftp a => exact alive_receive h hreboot a
      | check =>
          by_cases hnew : s.checker.newJson = true
          · obtain ⟨hfalse, htransfers, hnext, hrunning, -⟩ := s.checkNewJson_eq hnew
            refine ⟨fun q hq => ?_, hworking, fun hrun => ?_⟩
            · exact (congrFun htransfers q).trans (h.fresh q (hnext ▸ hq))
            · exact ⟨fun pcb => (congrFun htransfers pcb).trans
                ((h.running (hrunning ▸ hrun)).1 pcb), hfalse⟩
          · dsimp only
            rw [checkNewJson, if_neg hnew]
            exact h

/-- **The controller keeps working**, whatever arrives and whenever the main loop
comes round, exactly when every upload that is checked with no transfer open is
accepted and has a length that can be stored. -/
theorem working_along_iff (controller : Controller fl) (flash : Flash) (es : List BoardEvent) :
    Along step (fun s e => (s.step e).Working) (launch controller flash) es ↔
      Along step ChecksGood (launch controller flash) es :=
  along_iff_along (I := Alive) (fun _ e h => working_step_iff h e) (fun _ _ h hw => alive_step h hw)
    (alive_launch controller flash) es

/-- An upload of one block, whose checksum is not the one stored with it. -/
theorem not_working_along :
    ¬Along step (fun s e => (s.step e).Working)
      (launch (.start ([] : List (Stepgen (exactFloat fun _ => 0))) [] ⟨false, false, 0⟩)
        fun _ => 0xFF)
      [.tftp Server.wrq, .tftp (.data 0 ⟨[0, 3, 0, 1, 1], 5, fun _ => 0⟩ true), .check] := by
  rintro ⟨-, -, h, -⟩
  have hrunning := h (fun pcb => ?_) (by decide +kernel) (by decide +kernel)
  · exact absurd hrunning (by decide +kernel)
  · by_cases hp : pcb = 0
    · rw [hp]; rfl
    · exact (Function.update_of_ne hp ..).trans
        ((Function.update_of_ne hp ..).trans (Function.update_of_ne hp ..))

end Board
end Remora
