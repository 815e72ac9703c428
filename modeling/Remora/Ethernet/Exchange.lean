/-
# Runs of the driver

Core 0 calls `EthernetTasks` over and over, and what it does with a frame may call
`netif_output`; the chip acts before any byte of any of these accesses.  Between two
calls the receive ring holds whole records and the transmit half is idle (`Between`),
and every call keeps that.

On a prompt chip every call is a run of the queue of `Framing` (`calls_refines`).  A call
of `EthernetTasks` takes effect at one moment, and the frames that come in meanwhile come
in before that moment or behind it; or a frame comes in during the call, and it finds
nothing.  So what `Framing` says of the queue holds on the bus, whatever is read while it
changes.  The only call that may fail to return is one whose frame the chip does not send
(`calls_eq_none_iff`); on a chip that puts off a `RECV`, `getSn_RX_RSR` can go round for
ever as well.  A call that finds nothing although frames wait has lost nothing: once the
chip is quiet the calls hand on every frame that it has taken in (`tasks_deliver`).
-/

import Remora.Ethernet.Transmit

namespace Remora

open Basis

/-- What core 0 calls. -/
inductive HostCall where
  /-- `EthernetTasks` -/
  | tasks (pbufAlloc : Bool)
  /-- `netif_output` -/
  | output (p : List Pbuf)

/-- The packets of the calls of `netif_output`. -/
def HostCall.sent : HostCall → Option (List Byte)
  | .tasks _ => none
  | .output p => some (Pbuf.packet p)

/-- The stack gives `netif_output` one packet, and one that fits. -/
def HostCall.Sendable : HostCall → Prop
  | .tasks _ => True
  | .output p => Pbuf.Chained p ∧ (Pbuf.packet p).length ≤ TX_FRAME

/-- The frames that arrive. -/
def LinkEvent.arrival : LinkEvent → Option EthernetFrame
  | .frame f => some f
  | .tasks _ => none

/-- What a call is on the queue of `Framing`, with the frames that come in meanwhile. -/
inductive HostCall.OnLink : HostCall → List LinkEvent → Prop
  /-- It takes effect at one moment. -/
  | effect (pbufAlloc : Bool) (before after : List EthernetFrame) :
      OnLink (.tasks pbufAlloc) (before.map .frame ++ .tasks pbufAlloc :: after.map .frame)
  /-- It finds nothing, since a frame comes in. -/
  | missed (pbufAlloc : Bool) {frames : List EthernetFrame} (h : frames ≠ []) :
      OnLink (.tasks pbufAlloc) (frames.map .frame)
  /-- The queue is not its matter. -/
  | output (p : List Pbuf) (frames : List EthernetFrame) :
      OnLink (.output p) (frames.map .frame)

namespace Driver

/-- A call, and the frames handed on by then. -/
def call (input : List (List Byte)) : HostCall → Driver (List (List Byte))
  | .tasks pbufAlloc => do
      let r ← ethernetTasks input pbufAlloc
      return r.1
  | .output p => do
      netifOutput p
      return input

/-- One call after the other. -/
def calls : List (List Byte) → List HostCall → Driver (List (List Byte))
  | input, [] => return input
  | input, c :: cs => do
      let input ← call input c
      calls input cs

end Driver

/-- The chip after `wizchip_initialize`. -/
def Chip.reset : Chip where
  rx := { mem := fun _ => 0, wr := 0, rd := 0, done := 0, recv := false, received := [] }
  tx := { mem := fun _ => 0, wr := 0, rd := 0, sending := none, wire := [] }
  cr := 0
  ir := 0

/-- The chip between two calls, with `queue` waiting. -/
structure Between (b : Bus) (queue : List EthernetFrame) : Prop where
  shows : Shows b ⟨records queue, 0, b.chip.rx.received, b.chip.tx⟩
  sent : b.chip.tx.rd = b.chip.tx.wr

theorem Between.of_shows {b : Bus} {queue : List EthernetFrame} {v : View} (h : Shows b v)
    (hbytes : v.bytes = records queue) (hskip : v.skip = 0) (hsent : v.tx.rd = v.tx.wr) :
    Between b queue := by
  obtain ⟨bytes, skip, received, tx⟩ := v
  obtain rfl : bytes = records queue := hbytes
  obtain rfl : skip = 0 := hskip
  obtain rfl : b.chip.rx.received = received := h.received
  obtain rfl : b.chip.tx = tx := h.tx
  exact ⟨h, hsent⟩

theorem between_reset {todo : List (List ChipEvent)} (h : Prompt todo) :
    Between ⟨Chip.reset, todo⟩ [] := by
  have hsettled : Chip.reset.rx.settled = Chip.reset.rx := RxSocket.settled_of_not_recv rfl
  have houtcome : Chip.reset.outcome = 0 := by decide
  refine ⟨⟨?_, ?_, Nat.le_refl _, Nat.zero_le _, rfl, rfl, houtcome, rfl, Nat.le_refl _, h⟩, rfl⟩
  · dsimp only
    rw [hsettled]
    rfl
  · dsimp only
    rw [hsettled]
    rfl

/-! The queue of `Framing`. -/

namespace Link

theorem length_records_le {b : Bus} {queue : List EthernetFrame} (h : Between b queue) :
    (records queue).length ≤ RX_MEMORY := h.shows.bound

/-- Frames that there is room for all come in. -/
theorem run_arrivals (s : Link) (fs : List EthernetFrame)
    (hroom : s.rx.length + (records fs).length ≤ RX_MEMORY) :
    run step s (fs.map .frame) = { s with rx := s.rx ++ records fs } := by
  induction fs generalizing s with
  | nil => simp
  | cons f fs ih =>
      rw [records_cons, List.length_append] at hroom
      have hfirst : s.HasRoom f := by
        rw [HasRoom]
        omega
      have hstep : s.step (.frame f) = { s with rx := s.rx ++ Records.record f.bytes } :=
        if_pos hfirst
      have hrest : { s with rx := s.rx ++ Records.record f.bytes }.rx.length +
          (records fs).length ≤ RX_MEMORY := by
        dsimp only
        rw [List.length_append]
        omega
      rw [List.map_cons, run_cons, hstep, ih _ hrest, records_cons, List.append_assoc]

/-- A call that finds nothing. -/
theorem step_tasks_nil (input : List (List Byte)) (pbufAlloc : Bool) :
    step ⟨records [], input⟩ (.tasks pbufAlloc) = ⟨records [], input⟩ := rfl

/-- A call takes the oldest frame. -/
theorem step_tasks (f : EthernetFrame) (rest : List EthernetFrame) (input : List (List Byte))
    (pbufAlloc : Bool) (hroom : (records (f :: rest)).length ≤ RX_MEMORY) :
    step ⟨records (f :: rest), input⟩ (.tasks pbufAlloc) =
      ⟨records rest, Driver.handOn input f pbufAlloc⟩ := by
  have hsize := f.fits
  have hnext : Records.next (records (f :: rest)) = some (f.bytes, records rest) :=
    Records.next_stream_cons (by omega) _
  have hpos : Remora.getSnRxRsr (records (f :: rest)) > 0 := by
    rw [gt_iff_lt, BitVec.lt_def, toNat_getSnRxRsr hroom, records_cons, List.length_append,
      Records.length_record]
    exact Nat.lt_of_lt_of_le (Nat.zero_lt_succ _) (Nat.le_add_right _ _)
  rw [step, Remora.ethernetTasks]
  dsimp only
  rw [if_pos hpos, recvLwip_of_next hnext hroom]
  dsimp only
  rw [Driver.handOn]
  by_cases hnil : f.bytes = []
  · rw [if_neg fun hne => (Driver.ofNat_length_ne_zero f).1 hne hnil,
      if_neg fun hand => hand.1 hnil]
  · rw [if_pos ((Driver.ofNat_length_ne_zero f).2 hnil)]
    cases pbufAlloc <;> simp [hnil]

end Link

/-- From one state of the driver to another by `cs`: on the queue that is a run of `es`. -/
structure Refines (c : Chip) (queue : List EthernetFrame) (input : List (List Byte))
    (cs : List HostCall) (es : List LinkEvent) (c' : Chip) (queue' : List EthernetFrame)
    (out : List (List Byte)) : Prop where
  link : run Link.step ⟨records queue, input⟩ es = ⟨records queue', out⟩
  received : c'.rx.received = c.rx.received ++ es.filterMap LinkEvent.arrival
  wire : c'.tx.wire = c.tx.wire ++ (cs.filterMap HostCall.sent).map paddedFrame

namespace Refines

theorem refl (c : Chip) (queue : List EthernetFrame) (input : List (List Byte)) :
    Refines c queue input [] [] c queue input :=
  ⟨rfl, (List.append_nil _).symm, (List.append_nil _).symm⟩

theorem trans {c c' c'' : Chip} {queue queue' queue'' : List EthernetFrame}
    {input out out' : List (List Byte)} {cs cs' : List HostCall} {es es' : List LinkEvent}
    (h : Refines c queue input cs es c' queue' out)
    (h' : Refines c' queue' out cs' es' c'' queue'' out') :
    Refines c queue input (cs ++ cs') (es ++ es') c'' queue'' out' := by
  refine ⟨?_, ?_, ?_⟩
  · rw [run_append, h.link, h'.link]
  · rw [h'.received, h.received, List.filterMap_append, List.append_assoc]
  · rw [h'.wire, h.wire, List.filterMap_append, List.map_append, List.append_assoc]

end Refines

theorem filterMap_arrival_map (frames : List EthernetFrame) :
    (frames.map LinkEvent.frame).filterMap LinkEvent.arrival = frames := by
  rw [List.filterMap_map]
  exact List.filterMap_some

namespace Driver

variable {b b' : Bus} {queue : List EthernetFrame}

/-- Frames come in while a call takes none. -/
theorem refines_arrivals {c : Chip} {frames : List EthernetFrame}
    (h : Between b' (queue ++ frames)) (hreceived : b'.chip.rx.received = c.rx.received ++ frames)
    (input : List (List Byte)) {cs : List HostCall}
    (hwire : b'.chip.tx.wire = c.tx.wire ++ (cs.filterMap HostCall.sent).map paddedFrame) :
    Refines c queue input cs (frames.map .frame) b'.chip (queue ++ frames) input := by
  refine ⟨?_, by rw [filterMap_arrival_map, hreceived], hwire⟩
  have hroom := Link.length_records_le h
  rw [records_append, List.length_append] at hroom
  rw [Link.run_arrivals _ frames hroom, records_append]

/-- A call takes a frame: one that waited, or else the first to come in. -/
theorem refines_tasks {frames : List EthernetFrame} {f : EthernetFrame}
    {rest : List EthernetFrame} (h : Between b queue) (h' : Between b' rest)
    (hqueue : queue ++ frames = f :: rest)
    (hreceived : b'.chip.rx.received = b.chip.rx.received ++ frames)
    (htx : b'.chip.tx = b.chip.tx) (input : List (List Byte)) (pbufAlloc : Bool) :
    ∃ es, (HostCall.tasks pbufAlloc).OnLink es ∧
      Refines b.chip queue input [.tasks pbufAlloc] es b'.chip rest
        (handOn input f pbufAlloc) := by
  have hroom := Link.length_records_le h'
  have hwire : b'.chip.tx.wire = b.chip.tx.wire ++ [] := by rw [htx, List.append_nil]
  cases queue with
  | nil =>
      obtain rfl : frames = f :: rest := hqueue
      have hfits := f.fits
      have hone : (records [f]).length ≤ RX_MEMORY := by
        rw [records_cons, records_nil, List.append_nil, Records.length_record, RX_MEMORY]
        omega
      refine ⟨_, .effect pbufAlloc [f] rest, ?_, ?_, hwire⟩
      · have harrive : Link.step ⟨records [], input⟩ (.frame f) = ⟨records [f], input⟩ := by
          have hrun := Link.run_arrivals ⟨records [], input⟩ [f] (by
            rwa [records_nil, List.length_nil, Nat.zero_add])
          exact hrun
        rw [List.map_singleton, List.singleton_append, run_cons, run_cons, harrive,
          Link.step_tasks f [] input pbufAlloc hone,
          Link.run_arrivals _ rest (by rwa [records_nil, List.length_nil, Nat.zero_add])]
        rfl
      · rw [hreceived, List.filterMap_append, filterMap_arrival_map, List.filterMap_cons]
        dsimp only [LinkEvent.arrival]
        rw [filterMap_arrival_map]
        rfl
  | cons f' queue =>
      obtain ⟨rfl, hrest⟩ := List.cons.inj hqueue
      obtain rfl : queue ++ frames = rest := hrest
      rw [records_append, List.length_append] at hroom
      refine ⟨_, .effect pbufAlloc [] frames, ?_, ?_, hwire⟩
      · rw [List.map_nil, List.nil_append, run_cons,
          Link.step_tasks f' queue input pbufAlloc (Link.length_records_le h),
          Link.run_arrivals _ frames hroom, records_append]
      · rw [hreceived, List.map_nil, List.nil_append, List.filterMap_cons]
        dsimp only [LinkEvent.arrival]
        rw [filterMap_arrival_map]

/-- **A call of `EthernetTasks`** between two others. -/
theorem call_tasks (h : Between b queue) (input : List (List Byte)) (pbufAlloc : Bool) :
    ∃ out b' frames, call input (.tasks pbufAlloc) b = some (out, b') ∧
      b'.chip.rx.received = b.chip.rx.received ++ frames ∧ b'.chip.tx = b.chip.tx ∧
      Passed b.todo b'.todo frames ∧ b'.todo.length ≤ b.todo.length - 1 ∧
      (out = input ∧ (queue = [] ∨ frames ≠ []) ∧ Between b' (queue ++ frames) ∨
        ∃ f rest, queue ++ frames = f :: rest ∧ out = handOn input f pbufAlloc ∧
          Between b' rest) := by
  obtain ⟨r, b', frames, hrun, hpassed, htodo, hcases⟩ :=
    ethernetTasks_eq h.shows rfl rfl input pbufAlloc
  have hcall : call input (.tasks pbufAlloc) b = some (r.1, b') := by
    rw [call, bind_of_eq_some hrun]
    rfl
  rcases hcases with ⟨rfl, hwait, hshows⟩ | ⟨f, rest, hqueue, rfl, hshows⟩
  · have hbetween : Between b' (queue ++ frames) :=
      Between.of_shows hshows (records_append queue frames).symm rfl h.sent
    exact ⟨_, b', frames, hcall, hshows.received, hshows.tx, hpassed, htodo,
      Or.inl ⟨rfl, hwait, hbetween⟩⟩
  · exact ⟨_, b', frames, hcall, hshows.received, hshows.tx, hpassed, htodo,
      Or.inr ⟨f, rest, hqueue, rfl, Between.of_shows hshows rfl rfl h.sent⟩⟩

/-- **A call of `netif_output`** between two others. -/
theorem call_output (h : Between b queue) (input : List (List Byte)) {p : List Pbuf}
    (hp : (HostCall.output p).Sendable) :
    (Served (b.todo.drop (sendLen (Pbuf.packet p).length + 7)) → ∃ b' frames,
      call input (.output p) b = some (input, b') ∧
      b'.chip.rx.received = b.chip.rx.received ++ frames ∧
      b'.chip.tx.wire = b.chip.tx.wire ++ [paddedFrame (Pbuf.packet p)] ∧
      Between b' (queue ++ frames)) ∧
    (¬Served (b.todo.drop (sendLen (Pbuf.packet p).length + 7)) →
      call input (.output p) b = none) := by
  obtain ⟨hserved, hnot⟩ := netifOutput_eq h.shows h.sent hp.1 hp.2
  constructor
  · intro hchip
    obtain ⟨b', frames, hrun, hshows, -⟩ := hserved hchip
    refine ⟨b', frames, by rw [call, bind_of_eq_some hrun]; rfl, hshows.received, ?_,
      Between.of_shows hshows (records_append queue frames).symm rfl rfl⟩
    rw [hshows.tx]
    rfl
  · exact fun hchip => bind_of_eq_none (hnot hchip) _

/-- **One call**: it returns, and is a call of the queue, unless it waits for ever. -/
theorem call_eq (h : Between b queue) (input : List (List Byte)) {c : HostCall}
    (hc : c.Sendable) :
    (∃ out b' queue' es, call input c b = some (out, b') ∧ Between b' queue' ∧ c.OnLink es ∧
      Refines b.chip queue input [c] es b'.chip queue' out) ∨
    call input c b = none ∧ ∃ p, c = .output p ∧
      ¬Served (b.todo.drop (sendLen (Pbuf.packet p).length + 7)) := by
  cases c with
  | tasks pbufAlloc =>
      obtain ⟨out, b', frames, hrun, hreceived, htx, -, -, hcases⟩ := call_tasks h input pbufAlloc
      refine Or.inl ?_
      have hwire : b'.chip.tx.wire = b.chip.tx.wire ++ [] := by rw [htx, List.append_nil]
      rcases hcases with ⟨rfl, hwait, hbetween⟩ | ⟨f, rest, hqueue, rfl, hbetween⟩
      · by_cases hframes : frames = []
        · obtain rfl := hframes
          obtain rfl := hwait.resolve_right (· rfl)
          exact ⟨out, b', [], _, hrun, hbetween, .effect pbufAlloc [] [],
            Link.step_tasks_nil out pbufAlloc, hreceived, hwire⟩
        · exact ⟨out, b', _, _, hrun, hbetween, .missed pbufAlloc hframes,
            refines_arrivals hbetween hreceived out hwire⟩
      · obtain ⟨es, hes, hrefines⟩ :=
          refines_tasks h hbetween hqueue hreceived htx input pbufAlloc
        exact ⟨_, b', rest, es, hrun, hbetween, hes, hrefines⟩
  | output p =>
      obtain ⟨hserved, hnot⟩ := call_output h input hc
      by_cases hchip : Served (b.todo.drop (sendLen (Pbuf.packet p).length + 7))
      · obtain ⟨b', frames, hrun, hreceived, hwire, hbetween⟩ := hserved hchip
        exact Or.inl ⟨input, b', _, _, hrun, hbetween, .output p frames,
          refines_arrivals hbetween hreceived input hwire⟩
      · exact Or.inr ⟨hnot hchip, p, rfl, hchip⟩

theorem calls_cons_of_some {c : HostCall} {cs : List HostCall} {input out : List (List Byte)}
    {b' : Bus} (h : call input c b = some (out, b')) :
    calls input (c :: cs) b = calls out cs b' := by
  rw [calls, bind_of_eq_some h]

theorem calls_cons_of_none {c : HostCall} {cs : List HostCall} {input : List (List Byte)}
    (h : call input c b = none) : calls input (c :: cs) b = none := by
  rw [calls, bind_of_eq_none h]

/-- What calls that return have been on the queue, by the time that each of them returns. -/
theorem calls_between (h : Between b queue) {input out : List (List Byte)}
    {cs : List HostCall} (hcs : ∀ c ∈ cs, c.Sendable) {b' : Bus}
    (hrun : calls input cs b = some (out, b')) :
    ∃ ess, List.Forall₂ HostCall.OnLink cs ess ∧
      ∀ n, ∃ out₁ b₁ queue₁, calls input (cs.take n) b = some (out₁, b₁) ∧ Between b₁ queue₁ ∧
        Refines b.chip queue input (cs.take n) (ess.take n).flatten b₁.chip queue₁ out₁ := by
  induction cs generalizing b queue input with
  | nil =>
      refine ⟨[], .nil, fun n => ⟨input, b, queue, ?_, h, ?_⟩⟩
      · rw [List.take_nil]
        rfl
      · rw [List.take_nil, List.take_nil]
        exact Refines.refl ..
  | cons c cs ih =>
      rcases call_eq h input (hcs c (List.mem_cons_self ..)) with
        ⟨out₁, b₁, queue₁, es₁, hcall, h₁, hes₁, hrefines₁⟩ | ⟨hnone, -⟩
      · rw [calls_cons_of_some hcall] at hrun
        obtain ⟨ess, hess, hafter⟩ := ih h₁ (fun c hc => hcs c (List.mem_cons_of_mem _ hc)) hrun
        refine ⟨es₁ :: ess, .cons hes₁ hess, fun n => ?_⟩
        cases n with
        | zero => exact ⟨input, b, queue, rfl, h, Refines.refl ..⟩
        | succ n =>
            obtain ⟨out₂, b₂, queue₂, hcalls, h₂, hrefines₂⟩ := hafter n
            exact ⟨out₂, b₂, queue₂, (calls_cons_of_some hcall).trans hcalls, h₂,
              hrefines₁.trans hrefines₂⟩
      · rw [calls_cons_of_none hnone] at hrun
        cases hrun

/-- **The driver refines the queue.**  Whatever core 0 calls, and whatever a prompt chip
does between any two bytes on the bus: each call is a run of `Framing`, in which it takes
effect at one moment, unless it is one of `EthernetTasks` during which a frame comes in,
which may find nothing.  Whenever one of the calls has returned, the frames handed on and
those that wait are what the runs so far have made of them, the frames that the chip has
taken in are those that have arrived in these runs, and on the wire are the packets sent,
each padded and whole, in their order. -/
theorem calls_refines {todo : List (List ChipEvent)} (hprompt : Prompt todo) {cs : List HostCall}
    (hcs : ∀ c ∈ cs, c.Sendable) {out : List (List Byte)} {b' : Bus}
    (hrun : calls [] cs ⟨Chip.reset, todo⟩ = some (out, b')) :
    ∃ ess, List.Forall₂ HostCall.OnLink cs ess ∧
      ∀ n, ∃ out₁ b₁, calls [] (cs.take n) ⟨Chip.reset, todo⟩ = some (out₁, b₁) ∧
        run Link.step ⟨[], []⟩ (ess.take n).flatten = ⟨b₁.chip.rx.settled.pending, out₁⟩ ∧
        (ess.take n).flatten.filterMap LinkEvent.arrival = b₁.chip.rx.received ∧
        b₁.chip.tx.wire = ((cs.take n).filterMap HostCall.sent).map paddedFrame := by
  obtain ⟨ess, hess, hafter⟩ := calls_between (between_reset hprompt) hcs hrun
  refine ⟨ess, hess, fun n => ?_⟩
  obtain ⟨out₁, b₁, queue, hcalls, hbetween, hrefines⟩ := hafter n
  refine ⟨out₁, b₁, hcalls, ?_, hrefines.received.symm, hrefines.wire⟩
  rw [hbetween.shows.pending]
  exact hrefines.link

/-- A frame comes in while a packet of two pbufs is copied, and the chip sends the packet. -/
theorem calls_refines_two :
    ∃ out b', calls [] [.output [⟨[1, 2], 3⟩, ⟨[3], 1⟩], .tasks true] ⟨Chip.reset,
        List.replicate 20 [.released] ++ [[.released, .frame ⟨[7], by decide⟩]] ++
          List.replicate 50 [.released] ++ [[.released, .accepted], [.released, .sent]]⟩ =
        some (out, b') ∧
      b'.chip.tx.wire = [paddedFrame [1, 2, 3]] := by
  have hprompt : Prompt (List.replicate 20 [.released] ++
      [[.released, .frame ⟨[7], by decide⟩]] ++ List.replicate 50 [.released] ++
        [[.released, .accepted], [.released, .sent]]) := by
    simp [Prompt, or_imp, forall_and]
  have hcs : ∀ c ∈ [HostCall.output [⟨[1, 2], 3⟩, ⟨[3], 1⟩], .tasks true], c.Sendable := by
    simp [HostCall.Sendable, Pbuf.Chained, Pbuf.packet, TX_FRAME]
  have hreturns : (calls [] [.output [⟨[1, 2], 3⟩, ⟨[3], 1⟩], .tasks true] ⟨Chip.reset,
      List.replicate 20 [.released] ++ [[.released, .frame ⟨[7], by decide⟩]] ++
        List.replicate 50 [.released] ++
          [[.released, .accepted], [.released, .sent]]⟩).isSome = true := by decide +kernel
  obtain ⟨⟨out, b'⟩, hrun⟩ := Option.isSome_iff_exists.1 hreturns
  obtain ⟨ess, -, hafter⟩ := calls_refines hprompt hcs hrun
  obtain ⟨out₁, b₁, hcalls, -, -, hwire⟩ := hafter 2
  exact ⟨out₁, b₁, hcalls, hwire⟩

/-- **The only way not to return**, with a prompt chip: a run of calls comes to a frame that
the chip does not send. -/
theorem calls_eq_none_iff {todo : List (List ChipEvent)} (hprompt : Prompt todo)
    {cs : List HostCall} (hcs : ∀ c ∈ cs, c.Sendable) :
    calls [] cs ⟨Chip.reset, todo⟩ = none ↔ ∃ pre p post out b, cs = pre ++ .output p :: post ∧
      calls [] pre ⟨Chip.reset, todo⟩ = some (out, b) ∧
      ¬Served (b.todo.drop (sendLen (Pbuf.packet p).length + 7)) := by
  suffices hgen : ∀ (b : Bus) queue input, Between b queue →
      (calls input cs b = none ↔ ∃ pre p post out b', cs = pre ++ .output p :: post ∧
        calls input pre b = some (out, b') ∧
        ¬Served (b'.todo.drop (sendLen (Pbuf.packet p).length + 7))) from
    hgen ⟨Chip.reset, todo⟩ [] [] (between_reset hprompt)
  induction cs with
  | nil =>
      intro b queue input h
      refine ⟨fun hnone => (by cases hnone), ?_⟩
      rintro ⟨pre, p, post, -, -, hsplit, -⟩
      exact absurd hsplit.symm (by simp)
  | cons c cs ih =>
      intro b queue input h
      rcases call_eq h input (hcs c (List.mem_cons_self ..)) with
        ⟨out₁, b₁, queue₁, -, hcall, h₁, -, -⟩ | ⟨hnone, p, rfl, hchip⟩
      · rw [calls_cons_of_some hcall,
          ih (fun c hc => hcs c (List.mem_cons_of_mem _ hc)) b₁ queue₁ out₁ h₁]
        constructor
        · rintro ⟨pre, p, post, out, b', rfl, hpre, hchip⟩
          exact ⟨c :: pre, p, post, out, b', rfl, (calls_cons_of_some hcall).trans hpre, hchip⟩
        · rintro ⟨pre, p, post, out, b', hsplit, hpre, hchip⟩
          cases pre with
          | nil =>
              -- the first call is the one, but that has returned
              obtain ⟨rfl, -⟩ := List.cons.inj hsplit
              obtain ⟨rfl, rfl⟩ := Prod.mk.inj (Option.some.inj hpre)
              have hnone := (call_output h input (hcs _ (List.mem_cons_self ..))).2 hchip
              rw [hnone] at hcall
              cases hcall
          | cons c' pre =>
              obtain ⟨rfl, rfl⟩ := List.cons.inj hsplit
              rw [calls_cons_of_some hcall] at hpre
              exact ⟨pre, p, post, out, b', rfl, hpre, hchip⟩
      · rw [calls_cons_of_none hnone]
        exact ⟨fun _ => ⟨[], p, cs, input, b, rfl, rfl, hchip⟩, fun _ => rfl⟩

/-- A chip that takes up the command and then sends nothing. -/
theorem calls_eq_none_silent :
    calls [] [.output [⟨[1], 1⟩]] ⟨Chip.reset, List.replicate 80 [.released, .accepted]⟩ =
      none := by
  have hprompt : Prompt (List.replicate 80 [.released, .accepted]) := by simp [Prompt]
  have hcs : ∀ c ∈ [HostCall.output [⟨[1], 1⟩]], c.Sendable := by
    simp [HostCall.Sendable, Pbuf.Chained, Pbuf.packet, TX_FRAME]
  refine (calls_eq_none_iff hprompt hcs).2 ⟨[], [⟨[1], 1⟩], [], [], _, rfl, rfl, ?_⟩
  rintro ⟨-, hsent⟩
  obtain ⟨es, hes, hmem⟩ := List.mem_flatten.1 hsent
  obtain rfl := List.eq_of_mem_replicate (List.mem_of_mem_drop hes)
  exact absurd hmem (by simp)

/-- A chip that puts off a `RECV`: the first call takes a frame of 300 bytes, and the `RECV`
is processed between the two bytes of the second length that the next call reads. -/
example :
    (calls [] [.tasks true, .tasks true] ⟨Chip.reset,
      [.frame ⟨List.replicate 300 0, by rw [List.length_replicate]; omega⟩] ::
        List.replicate 322 [] ++ [[.released]]⟩).isNone = true := by decide +kernel

/-- What has been handed on when pbufs are there: every frame taken, but for empty ones. -/
def handedOn (frames : List EthernetFrame) : List (List Byte) :=
  (frames.map EthernetFrame.bytes).filter (· ≠ [])

theorem handOn_handedOn (taken : List EthernetFrame) (f : EthernetFrame) :
    handOn (handedOn taken) f true = handedOn (taken ++ [f]) := by
  rw [handOn, handedOn, handedOn, List.map_append, List.filter_append]
  by_cases hnil : f.bytes = []
  · simp [hnil]
  · simp [hnil]

/-- One call, when pbufs are there. -/
theorem call_tasks_true {taken : List EthernetFrame} (h : Between b queue)
    (htaken : b.chip.rx.received = taken ++ queue) :
    ∃ b' taken' queue', call (handedOn taken) (.tasks true) b = some (handedOn taken', b') ∧
      Between b' queue' ∧ b'.chip.rx.received = taken' ++ queue' ∧
      b'.todo.length ≤ b.todo.length - 1 ∧
      (b.todo = [] → queue'.length ≤ queue.length - 1) := by
  obtain ⟨out, b', frames, hrun, hreceived, -, hpassed, htodo, hcases⟩ :=
    call_tasks h (handedOn taken) true
  rw [htaken, List.append_assoc] at hreceived
  rcases hcases with ⟨rfl, hwait, hbetween⟩ | ⟨f, rest, hqueue, rfl, hbetween⟩
  · refine ⟨b', taken, _, hrun, hbetween, hreceived, htodo, fun hquiet => ?_⟩
    obtain rfl := hpassed.quiet hquiet
    obtain rfl := hwait.resolve_right (· rfl)
    exact Nat.le_refl _
  · rw [handOn_handedOn] at hrun
    refine ⟨b', _, rest, hrun, hbetween, ?_, htodo, fun hquiet => ?_⟩
    · rw [hreceived, hqueue, List.append_assoc, List.singleton_append]
    · obtain rfl := hpassed.quiet hquiet
      rw [List.append_nil] at hqueue
      rw [hqueue]
      exact Nat.le_refl _

/-- **Nothing is lost in the driver.**  As many calls as records fit into the memory of a
prompt chip, and one for each of its turns before them, outlast all that is to come: they
hand on every frame that the chip has taken in, each once and in the order of arrival, and
leave none behind. -/
theorem tasks_deliver {todo : List (List ChipEvent)} (hprompt : Prompt todo) {n : ℕ}
    (hn : todo.length + RX_MEMORY / 2 ≤ n) :
    ∃ b', calls [] (List.replicate n (.tasks true)) ⟨Chip.reset, todo⟩ =
        some (handedOn b'.chip.rx.received, b') ∧
      b'.todo = [] ∧ b'.chip.rx.settled.pending = [] := by
  -- the calls that are needed: first the chip falls silent, then the queue drains
  suffices hgen : ∀ (n : ℕ) (b : Bus) (queue taken : List EthernetFrame), Between b queue →
      b.chip.rx.received = taken ++ queue →
      (if b.todo = [] then queue.length else b.todo.length + RX_MEMORY / 2) ≤ n →
      ∃ b', calls (handedOn taken) (List.replicate n (.tasks true)) b =
        some (handedOn b'.chip.rx.received, b') ∧
          b'.todo = [] ∧ b'.chip.rx.settled.pending = [] by
    refine hgen n ⟨Chip.reset, todo⟩ [] [] (between_reset hprompt) rfl ?_
    split_ifs
    · exact Nat.zero_le _
    · exact hn
  have hrecords : ∀ queue : List EthernetFrame, 2 * queue.length ≤ (records queue).length := by
    intro queue
    induction queue with
    | nil => exact Nat.le_refl _
    | cons f queue ih =>
        rw [records_cons, List.length_append, Records.length_record, List.length_cons]
        omega
  intro n
  induction n with
  | zero =>
      intro b queue taken h htaken hn
      split_ifs at hn with hquiet
      · obtain rfl := List.length_eq_zero_iff.1 (Nat.le_zero.1 hn)
        rw [List.append_nil] at htaken
        exact ⟨b, by rw [htaken]; rfl, hquiet, h.shows.pending⟩
      · rw [RX_MEMORY] at hn
        omega
  | succ n ih =>
      intro b queue taken h htaken hn
      obtain ⟨b', taken', queue', hrun, h', htaken', htodo, hquiet⟩ := call_tasks_true h htaken
      have hbound := Nat.le_trans (hrecords queue') (Link.length_records_le h')
      obtain ⟨b'', hcalls, hquiet', hpending⟩ := ih b' queue' taken' h' htaken' (by
        by_cases hb : b.todo = []
        · have hb' : b'.todo = [] := by
            rw [hb] at htodo
            exact List.length_eq_zero_iff.1 (Nat.le_zero.1 htodo)
          have hlen := hquiet hb
          rw [if_pos hb] at hn
          rw [if_pos hb']
          omega
        · rw [if_neg hb] at hn
          have hpos := List.length_pos_iff.2 hb
          split_ifs <;> omega)
      refine ⟨b'', ?_, hquiet', hpending⟩
      rw [List.replicate_succ, calls_cons_of_some hrun, hcalls]

/-- A frame that comes in between the two bytes of the first length. -/
theorem tasks_deliver_one :
    ∃ b', calls [] (List.replicate 5000 (.tasks true))
        ⟨Chip.reset, [[.released], [.released, .frame ⟨[7], by decide⟩]]⟩ =
      some (handedOn b'.chip.rx.received, b') ∧
      b'.todo = [] ∧ b'.chip.rx.settled.pending = [] :=
  tasks_deliver (by simp [Prompt]) (by decide)

end Driver

end Remora
