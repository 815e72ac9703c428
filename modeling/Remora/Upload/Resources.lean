/-
# What the TFTP server gives back

A receive callback owns the pbuf it is given, and a write request takes a control
block from lwIP.  The ledger of a run is read off the effects: the pbufs that a
callback frees are counted, the control blocks taken and not removed are kept in
a list.

A control block is lost in one way only, a port that lwIP cannot bind
(`returnsPcbs_iff`).  A pbuf is lost there, where `udp_new` has no control block
left, and where a transfer receives a chain of pbufs (`freesPbuf_iff`).
-/

import Remora.Basis.Run
import Remora.Upload.Tftp

namespace Remora

open Basis

namespace Effect

/-- The pbuf of the callback is freed. -/
def isPbufFree : Effect → Bool
  | .pbufFree => true
  | _ => false

/-- The control blocks held after an effect. -/
def ledger (held : List ℕ) : Effect → List ℕ
  | .udpNew pcb => pcb :: held
  | .udpRemove pcb => held.filter (· ≠ pcb)
  | _ => held

/-- The effect is none of the ledger's. -/
def Quiet (e : Effect) : Prop := e.isPbufFree = false ∧ ∀ held, ledger held e = held

end Effect

namespace Server

/-- The control blocks taken from lwIP and not removed, after a datagram. -/
def holds (s : Server) (e : Arrival) (held : List ℕ) : List ℕ :=
  (s.effects e).foldl Effect.ledger held

/-- lwIP hands the datagram to a callback: on port 69, or on the port of a transfer. -/
def Received (s : Server) : Arrival → Prop
  | .request .. => True
  | .data pcb .. => s.transfers pcb ≠ none

/-- The callback frees its pbuf exactly once. -/
def FreesPbuf (s : Server) (e : Arrival) : Prop :=
  s.Received e → (s.effects e).countP Effect.isPbufFree = 1

/-- Afterwards every control block held belongs to a transfer in progress. -/
def ReturnsPcbs (s : Server × List ℕ) (e : Arrival) : Prop :=
  ∀ pcb ∈ s.1.holds e s.2, (s.1.step e).transfers pcb ≠ none

/-- **Every network resource is returned** by the callback of a datagram. -/
def Returns (s : Server × List ℕ) (e : Arrival) : Prop := s.1.FreesPbuf e ∧ ReturnsPcbs s e

/-- lwIP has a control block for a request and binds it, and a datagram that reaches
a transfer is in one pbuf. -/
def Supplied (s : Server) : Arrival → Prop
  | .request _ alloc => alloc.udpNew = true ∧ alloc.udpBind = true
  | .data pcb p _ => s.transfers pcb ≠ none → p.len = p.totLen

/-- lwIP binds every control block that it hands out. -/
def Binds : Arrival → Prop
  | .request _ alloc => alloc.udpNew = true → alloc.udpBind = true
  | .data .. => True

theorem Supplied.binds {s : Server} {e : Arrival} (h : s.Supplied e) : Binds e := by
  cases e with
  | request p alloc => exact fun _ => h.2
  | data pcb p pbufAlloc => trivial

theorem quiet_ack {pcb block : ℕ} {pbufAlloc : Bool} {e : Effect}
    (he : e ∈ iapTftpSendAckPacket pcb block pbufAlloc) : e.Quiet := by
  rw [iapTftpSendAckPacket] at he
  split_ifs at he
  · rw [List.mem_singleton.1 he]
    exact ⟨rfl, fun _ => rfl⟩
  · exact absurd he List.not_mem_nil

theorem quiet_receiveBlock {s : Server} {args : TftpConnectionArgs} {p : PBuf} {e : Effect}
    (he : e ∈ (s.receiveBlock args p).2.2) : e.Quiet := by
  by_cases hnext : NextBlock args p
  · rw [receiveBlock_of_nextBlock s hnext] at he
    rcases List.mem_append.1 he with he | he
    · split_ifs at he
      · rw [List.mem_singleton.1 he]
        exact ⟨rfl, fun _ => rfl⟩
      · exact absurd he List.not_mem_nil
    · rw [List.mem_singleton.1 he]
      exact ⟨rfl, fun _ => rfl⟩
  · rw [receiveBlock_of_not_nextBlock s hnext] at he
    exact absurd he List.not_mem_nil

/-- Quiet effects free nothing. -/
theorem countP_of_quiet {es : List Effect} (h : ∀ e ∈ es, e.Quiet) :
    es.countP Effect.isPbufFree = 0 :=
  List.countP_eq_zero.2 fun e he => by rw [(h e he).1]; exact Bool.false_ne_true

/-- Quiet effects take and give back nothing. -/
theorem foldl_of_quiet {es : List Effect} (h : ∀ e ∈ es, e.Quiet) (held : List ℕ) :
    es.foldl Effect.ledger held = held := by
  induction es with
  | nil => rfl
  | cons e es ih =>
      rw [List.foldl_cons, (h e (List.mem_cons_self ..)).2]
      exact ih fun f hf => h f (List.mem_cons_of_mem _ hf)

/-- What a request leaves: nothing was to be had, the control block could not be bound,
a transfer has been opened, or the control block has been removed again. -/
inductive RequestOutcome (s : Server) (p : PBuf) (alloc : Alloc) : Prop
  | refused (hnew : alloc.udpNew = false) (heffects : s.effects (.request p alloc) = [])
      (htransfers : (s.step (.request p alloc)).transfers = s.transfers)
  | unbound (hnew : alloc.udpNew = true) (hbind : alloc.udpBind = false)
      (heffects : s.effects (.request p alloc) = [.udpNew s.nextPcb])
      (htransfers : (s.step (.request p alloc)).transfers = s.transfers)
  | opened (hnew : alloc.udpNew = true) (hbind : alloc.udpBind = true) (quiet : List Effect)
      (hquiet : ∀ e ∈ quiet, e.Quiet)
      (heffects : s.effects (.request p alloc) = .udpNew s.nextPcb :: quiet ++ [.pbufFree])
      (htransfers : (s.step (.request p alloc)).transfers =
        Function.update s.transfers s.nextPcb (some ⟨0, 0⟩))
  | removed (hnew : alloc.udpNew = true) (hbind : alloc.udpBind = true)
      (heffects : s.effects (.request p alloc) =
        [.udpNew s.nextPcb, .udpRemove s.nextPcb, .pbufFree])
      (htransfers : ∀ q ≠ s.nextPcb,
        (s.step (.request p alloc)).transfers q = s.transfers q)

theorem requestOutcome (s : Server) (p : PBuf) (alloc : Alloc) : RequestOutcome s p alloc := by
  by_cases hopens : Opens (.request p alloc)
  · refine .opened hopens.1 hopens.2.1 ([.resetCore1, .flashRangeErase JSON_UPLOAD_ADDRESS
      REGION_SIZE] ++ iapTftpSendAckPacket s.nextPcb 0 alloc.pbufAlloc) ?_ ?_ ?_
    · intro e he
      rcases List.mem_append.1 he with he | he
      · simp only [List.mem_cons, List.not_mem_nil, or_false] at he
        rcases he with rfl | rfl <;> exact ⟨rfl, fun _ => rfl⟩
      · exact quiet_ack he
    · rw [effects, handle_request_of_opens hopens]
      rfl
    · rw [step, handle_request_of_opens hopens]
  · rcases alloc with ⟨hnew, hbind, hmalloc, hack⟩
    cases hnew with
    | false => exact .refused rfl rfl rfl
    | true =>
        cases hbind with
        | false => exact .unbound rfl rfl rfl rfl
        | true =>
            by_cases hop : iapTftpDecodeOp p = TFTP_WRQ
            · cases hmalloc with
              | true => exact absurd ⟨rfl, rfl, hop, rfl⟩ hopens
              | false =>
                  refine .removed rfl rfl ?_ fun q hq => ?_
                  · simp [effects, handle, iapTftpRecvCallback, hop, iapTftpProcessWrite,
                      iapTftpCleanupWr]
                  · simp [step, handle, iapTftpRecvCallback, hop, iapTftpProcessWrite,
                      iapTftpCleanupWr, hq]
            · refine .removed rfl rfl ?_ fun q hq => ?_
              · simp [effects, handle, iapTftpRecvCallback, hop]
              · simp [step, handle, iapTftpRecvCallback, hop]

/-- The ledger entries of a datagram that reaches its transfer. -/
theorem exists_effects_data {s : Server} {pcb : ℕ} {p : PBuf} {args : TftpConnectionArgs}
    (h : s.Reaches pcb p args) (pbufAlloc : Bool) :
    ∃ quiet, (∀ e ∈ quiet, Effect.Quiet e) ∧ s.effects (.data pcb p pbufAlloc) =
      quiet ++ if p.len < TFTP_DATA_PKT_LEN_MAX then [.udpRemove pcb, .pbufFree, .newJson]
        else [.pbufFree] := by
  refine ⟨_, ?_, by rw [effects, handle_data h]⟩
  intro e he
  rcases List.mem_append.1 he with he | he
  · exact quiet_receiveBlock he
  · exact quiet_ack he

/-- **A pbuf is freed** exactly when lwIP has what a request asks for and a datagram
of a transfer comes in one piece. -/
theorem freesPbuf_iff (s : Server) (e : Arrival) : s.FreesPbuf e ↔ s.Supplied e := by
  cases e with
  | request p alloc =>
      simp only [FreesPbuf, Received, Supplied, true_implies]
      cases requestOutcome s p alloc with
      | refused hnew heffects => simp [heffects, hnew]
      | unbound hnew hbind heffects => simp [heffects, hbind, Effect.isPbufFree]
      | opened hnew hbind quiet hquiet heffects =>
          refine iff_of_true ?_ ⟨hnew, hbind⟩
          simp [heffects, countP_of_quiet hquiet, Effect.isPbufFree]
      | removed hnew hbind heffects =>
          refine iff_of_true ?_ ⟨hnew, hbind⟩
          simp [heffects, Effect.isPbufFree]
  | data pcb p pbufAlloc =>
      refine imp_congr_right fun hopen => ?_
      obtain ⟨args, hargs⟩ := Option.ne_none_iff_exists'.1 hopen
      by_cases hlen : p.len = p.totLen
      · obtain ⟨quiet, hquiet, heffects⟩ := exists_effects_data ⟨hargs, hlen⟩ pbufAlloc
        rw [heffects, List.countP_append, countP_of_quiet hquiet]
        refine iff_of_true ?_ hlen
        split_ifs <;> rfl
      · have hnot : ∀ args, ¬s.Reaches pcb p args := fun _ h => hlen h.2
        rw [effects, handle_data_of_not_reaches hnot]
        exact iff_of_false (by simp) hlen

/-- **Control blocks are returned** exactly when lwIP binds those it hands out. -/
theorem returnsPcbs_iff {s : Server} {held : List ℕ} (hfresh : s.Fresh)
    (hheld : ∀ pcb ∈ held, s.transfers pcb ≠ none) (e : Arrival) :
    ReturnsPcbs (s, held) e ↔ Binds e := by
  cases e with
  | request p alloc =>
      simp only [ReturnsPcbs, Binds, holds]
      cases requestOutcome s p alloc with
      | refused hnew heffects htransfers =>
          rw [heffects, htransfers]
          exact iff_of_true hheld fun htrue => absurd (hnew.symm.trans htrue) (by simp)
      | unbound hnew hbind heffects htransfers =>
          -- the control block just taken is in no transfer
          rw [heffects, htransfers]
          refine iff_of_false (fun h => ?_) fun h => absurd (hbind.symm.trans (h hnew)) (by simp)
          exact h s.nextPcb (List.mem_cons_self ..) (hfresh s.nextPcb (Nat.le_refl _))
      | opened hnew hbind quiet hquiet heffects htransfers =>
          refine iff_of_true (fun pcb hpcb => ?_) fun _ => hbind
          rw [heffects, List.cons_append, List.foldl_cons, List.foldl_append,
            foldl_of_quiet hquiet] at hpcb
          rw [htransfers]
          rcases eq_or_ne pcb s.nextPcb with rfl | hne
          · simp
          · rw [Function.update_of_ne hne]
            exact hheld pcb (List.mem_of_ne_of_mem hne hpcb)
      | removed hnew hbind heffects htransfers =>
          refine iff_of_true (fun pcb hpcb => ?_) fun _ => hbind
          simp only [heffects, List.foldl_cons, List.foldl_nil, Effect.ledger, List.mem_filter,
            List.mem_cons, decide_eq_true_eq] at hpcb
          rw [htransfers pcb hpcb.2]
          exact hheld pcb (hpcb.1.resolve_left hpcb.2)
  | data pcb p pbufAlloc =>
      refine iff_of_true (fun q hq => ?_) trivial
      by_cases hreach : ∃ args, s.Reaches pcb p args
      · obtain ⟨args, hreach⟩ := hreach
        obtain ⟨quiet, hquiet, heffects⟩ := exists_effects_data hreach pbufAlloc
        rw [holds, heffects, List.foldl_append, foldl_of_quiet hquiet] at hq
        rw [step, handle_data hreach]
        dsimp only at hq ⊢
        split_ifs at hq ⊢ with hlast
        · simp [Effect.ledger] at hq
          simpa [hq.2] using hheld q hq.1
        · rcases eq_or_ne q pcb with rfl | hne
          · simp
          · simpa [hne] using hheld q hq
      · rw [step, handle_data_of_not_reaches (not_exists.1 hreach)]
        rw [holds, effects, handle_data_of_not_reaches (not_exists.1 hreach)] at hq
        exact hheld q hq

/-- **The server returns every network resource** along a run exactly when lwIP has
a control block for every request and binds it, and every datagram that reaches a
transfer is in one pbuf. -/
theorem returns_along_iff (flash : Flash) (es : List Arrival) :
    Along (watch step holds) Returns (boot flash, []) es ↔
      Along (watch step holds) (fun s e => s.1.Supplied e) (boot flash, []) es := by
  refine along_iff_along
    (I := fun s => s.1.Fresh ∧ ∀ pcb ∈ s.2, s.1.transfers pcb ≠ none) ?_ ?_ ?_ es
  · rintro ⟨s, held⟩ e ⟨hfresh, hheld⟩
    rw [Returns, freesPbuf_iff, returnsPcbs_iff hfresh hheld]
    exact and_iff_left_of_imp Supplied.binds
  · rintro ⟨s, held⟩ e ⟨hfresh, -⟩ ⟨-, hpcbs⟩
    exact ⟨hfresh.step e, hpcbs⟩
  · exact ⟨fun _ _ => rfl, by simp⟩

/-- A write request whose port cannot be bound: the pbuf and the control block are lost. -/
theorem not_returns_along :
    ¬Along (watch step holds) Returns (boot fun _ => 0xFF, [])
      [.request ⟨[0, 2, 0x61, 0], 4, fun _ => 0⟩ ⟨true, false, true, true⟩] := by
  rintro ⟨⟨hfree, -⟩, -⟩
  exact absurd (hfree trivial) (by decide)

end Server
end Remora
