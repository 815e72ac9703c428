/-
# One run, one packet

`pruThread::run` tests `baseThread->semaphore` and sets it, and `udp_data_callback`
does the same around its swaps, to keep a swap out of a run.  The test and the set
are two steps on either core.  When each core tests before the other has set, both
go on, and a swap between two generators of one run gives the axes of one move two
packets to obey.

`onePacket_along` is what the flag is worth: without such a race no swap falls into
the walk of a run, whatever the interleaving, the number of generators and the
datagrams.  `exists_torn_of_race` says that every race can come to a swap inside a
walk.
-/

import Remora.Motion.Cores

namespace Remora

open Basis

/-- The next step of a callback is one of a swap. -/
def CallbackAt.Swaps : CallbackAt → Prop
  | .readTx _ | .writeTx _ _ | .readRx | .writeRx _ => True
  | _ => False

/-- The next step of a callback is the test of the flag. -/
def CallbackAt.Waits : CallbackAt → Prop
  | .wait _ => True
  | _ => False

/-- A run is past the start of its first `runModule` and not past its last
`runModulePost`. -/
def RunAt.InWalk : RunAt → Prop
  | .readRx k => 0 < k
  | .readTx _ _ | .post _ => True
  | _ => False

instance : DecidablePred CallbackAt.Swaps
  | .readTx _ | .writeTx _ _ | .readRx | .writeRx _ => isTrue trivial
  | .out | .getAltRxBuffer _ | .getCurrentTxBuffer _ | .wait _ | .set _ | .clear => isFalse id

instance : DecidablePred CallbackAt.Waits
  | .wait _ => isTrue trivial
  | .out | .getAltRxBuffer _ | .getCurrentTxBuffer _ | .set _ | .readTx _ | .writeTx _ _
  | .readRx | .writeRx _ | .clear => isFalse id

instance : DecidablePred RunAt.InWalk
  | .readRx k => inferInstanceAs (Decidable (0 < k))
  | .readTx _ _ | .post _ => isTrue trivial
  | .stopped | .out | .guard | .wait | .set | .execute | .clear => isFalse id

theorem CallbackAt.Swaps.inside {c : CallbackAt} (h : c.Swaps) : c.place = .inside := by
  cases c <;> first | rfl | exact h.elim

theorem RunAt.InWalk.inside {r : RunAt} (h : r.InWalk) : r.place = .inside := by
  cases r <;> first | rfl | exact h.elim

theorem CallbackAt.place_eq_tested {c : CallbackAt} : c.place = .tested ↔ ∃ r, c = .set r := by
  cases c <;> simp [CallbackAt.place]

theorem RunAt.place_eq_tested {r : RunAt} : r.place = .tested ↔ r = .set := by
  cases r <;> simp [RunAt.place]

namespace Cores

/-- No step of a swap falls into a walk, and the generators of a run have one
packet to read and one to write. -/
def OnePacket (s : Cores) (e : CoreEvent) : Prop :=
  (e = .core0 → s.callback.Swaps → ¬s.run.InWalk) ∧
    ∀ x ∈ (s.step e).served, ∀ y ∈ (s.step e).served, x = y

instance (s : Cores) (e : CoreEvent) : Decidable (s.OnePacket e) :=
  inferInstanceAs (Decidable (_ ∧ _))

/-- A core that finds the flag free does not find it so between the other's test
and the other's set. -/
def Unraced (s : Cores) : CoreEvent → Prop
  | .core0 => s.callback.Waits → s.semaphore = false → s.run.place ≠ .tested
  | .core1 => s.run = .wait → s.semaphore = false → s.callback.place ≠ .tested
  | _ => True

instance (s : Cores) : DecidablePred s.Unraced
  | .core0 => inferInstanceAs (Decidable (_ → _ → _ ≠ _))
  | .core1 => inferInstanceAs (Decidable (_ → _ → _ ≠ _))
  | .datagram _ | .writeRequest | .tick => isTrue trivial

/-- The generators served in a run have taken what the indices still say. -/
structure Serves (s : Cores) : Prop where
  same : ∀ x ∈ s.served, ∀ y ∈ s.served, x = y
  current : s.run.place = .inside →
    ∀ x ∈ s.served, x = (s.currentRxBuffer, s.currentTxBuffer)
  rxData : ∀ k i, s.run = .readTx k i → i = s.currentRxBuffer

/-- What an unraced run keeps. -/
structure OneAtATime (s : Cores) : Prop where
  exclusive : s.lock.Exclusive
  serves : s.Serves

/-- Outside the flag nothing is asked of the indices. -/
theorem Serves.of_not_inside {s t : Cores} (h : s.Serves) (r : RunAt)
    (hserved : t.served = s.served) (hr : t.run = r) (hout : r.place ≠ .inside) : t.Serves where
  same := hserved ▸ h.same
  current hin := absurd hin (hr ▸ hout)
  rxData k i hk := absurd (by rw [hk]; rfl) (hr ▸ hout)

/-- What the generators see is all that matters. -/
theorem Serves.congr {s t : Cores} (h : s.Serves) (hserved : t.served = s.served)
    (hrun : t.run = s.run) (hrx : t.currentRxBuffer = s.currentRxBuffer)
    (htx : t.currentTxBuffer = s.currentTxBuffer) : t.Serves where
  same := hserved ▸ h.same
  current hin := by rw [hserved, hrx, htx]; exact h.current (hrun ▸ hin)
  rxData k i hr := by rw [hrx]; exact h.rxData k i (hrun ▸ hr)

/-- The generators served have all taken what the indices say. -/
theorem Serves.of_current {t : Cores}
    (h : ∀ x ∈ t.served, x = (t.currentRxBuffer, t.currentTxBuffer))
    (hrx : ∀ k i, t.run = .readTx k i → i = t.currentRxBuffer) : t.Serves where
  same x hx y hy := (h x hx).trans (h y hy).symm
  current _ := h
  rxData := hrx

theorem walkFrom_ne_readTx (n j k : ℕ) (i : ℤ) : walkFrom n j ≠ .readTx k i := by
  unfold walkFrom postFrom
  split_ifs <;> simp

theorem postFrom_ne_readTx (n j k : ℕ) (i : ℤ) : postFrom n j ≠ .readTx k i := by
  unfold postFrom
  split_ifs <;> simp

theorem oneAtATime_start (n : ℕ) : (start n).OneAtATime where
  exclusive :=
    { flagged := fun c hc => by cases c <;> cases hc
      apart := fun c d _ hc => by cases c <;> exact absurd rfl hc }
  serves := ⟨by simp [start], by simp [start], by simp [start]⟩

/-- The flag excludes: while one core is past its test the other is not. -/
theorem OneAtATime.run_out {s : Cores} (h : s.OneAtATime) (hc : s.callback.place = .inside) :
    s.run.place = .out :=
  h.exclusive.apart .core0 .core1 (by decide) (by rw [place_lock_core0, hc]; decide)

/-- Unraced tests are undisturbed tests of the lock. -/
theorem Unraced.undisturbed {s : Cores} {e : CoreEvent} (h : s.Unraced e)
    {m : TestThenSet.Move Core} (hm : s.lockMove e = some m) : s.lock.Undisturbed m := by
  cases e with
  | datagram r => simp [lockMove] at hm
  | tick => simp [lockMove] at hm
  | writeRequest =>
      simp only [lockMove, Option.ite_none_right_eq_some, Option.some.injEq] at hm
      rw [← hm.2]
      trivial
  | core0 =>
      rw [lockMove] at hm
      split at hm <;> simp only [Option.some.injEq, reduceCtorEq] at hm <;> subst hm <;> try trivial
      rename_i r hr
      intro hfree c hc
      cases c with
      | core0 => exact absurd rfl hc
      | core1 => exact h (by rw [hr]; trivial) hfree
  | core1 =>
      rw [lockMove] at hm
      split at hm <;> simp only [Option.some.injEq, reduceCtorEq] at hm <;> subst hm <;> try trivial
      rename_i hr
      intro hfree c hc
      cases c with
      | core0 => exact h hr hfree
      | core1 => exact absurd rfl hc

theorem exclusive_step {s : Cores} (h : s.lock.Exclusive) {e : CoreEvent} (he : s.Unraced e) :
    (s.step e).lock.Exclusive := by
  rw [lock_step]
  cases hm : s.lockMove e with
  | none => exact h
  | some m => exact h.move (he.undisturbed hm)

/-- A step of core 0 writes an index when core 1 is outside the flag, and nothing
else that the generators see. -/
theorem serves_callbackStep {s : Cores} (h : s.OneAtATime) : s.callbackStep.Serves := by
  have hserves := h.serves
  have hswap : s.callback.Swaps → s.run.place ≠ .inside := fun hswaps => by
    rw [h.run_out hswaps.inside]
    decide
  cases hc : s.callback with
  | writeTx r i =>
      exact hserves.of_not_inside s.run (by simp [callbackStep, hc]) (by simp [callbackStep, hc])
        (hswap (by rw [hc]; trivial))
  | writeRx i =>
      exact hserves.of_not_inside s.run (by simp [callbackStep, hc]) (by simp [callbackStep, hc])
        (hswap (by rw [hc]; trivial))
  | wait r =>
      unfold callbackStep
      rw [hc]
      dsimp only
      split_ifs
      · exact hserves
      · exact hserves.congr rfl rfl rfl rfl
  | _ =>
      unfold callbackStep
      rw [hc]
      exact hserves.congr rfl rfl rfl rfl

/-- A generator takes what the indices say, and they say what they said to the one
before it. -/
theorem serves_runStep {s : Cores} (h : s.Serves) : s.runStep.Serves := by
  unfold runStep
  cases hr : s.run with dsimp only
  | stopped => exact h
  | out => exact h
  | guard =>
      split_ifs
      · exact h.of_not_inside .wait rfl rfl (by decide)
      · exact h.of_not_inside .out rfl rfl (by decide)
  | wait =>
      split_ifs
      · exact h
      · exact h.of_not_inside .set rfl rfl (by decide)
  | set =>
      exact .of_current (fun x hx => by cases hx) fun _ _ hk =>
        (walkFrom_ne_readTx _ _ _ _ hk).elim
  | readRx k =>
      exact .of_current (h.current (by rw [hr]; rfl)) fun _ _ hk => by cases hk; rfl
  | readTx k i =>
      refine .of_current (fun x hx => ?_) fun _ _ hk => (walkFrom_ne_readTx _ _ _ _ hk).elim
      rcases List.mem_append.1 hx with hx | hx
      · exact h.current (by rw [hr]; rfl) x hx
      · rw [List.mem_singleton.1 hx, h.rxData k i hr]
  | post k =>
      exact .of_current (h.current (by rw [hr]; rfl)) fun _ _ hk =>
        (postFrom_ne_readTx _ _ _ _ hk).elim
  | execute => exact .of_current (h.current (by rw [hr]; rfl)) fun _ _ hk => by cases hk
  | clear => exact h.of_not_inside .out rfl rfl (by decide)

/-- **What an unraced step keeps.** -/
theorem OneAtATime.step {s : Cores} (h : s.OneAtATime) {e : CoreEvent} (he : s.Unraced e) :
    (s.step e).OneAtATime := by
  refine ⟨exclusive_step h.exclusive he, ?_⟩
  have hserves := h.serves
  cases e with
  | datagram r =>
      rw [Cores.step]
      split_ifs <;> exact hserves.congr rfl rfl rfl rfl
  | writeRequest =>
      rw [Cores.step]
      split_ifs
      · exact hserves.of_not_inside .stopped rfl rfl (by decide)
      · exact hserves
  | tick =>
      rw [Cores.step]
      split_ifs
      · exact hserves.of_not_inside .guard rfl rfl (by decide)
      · exact hserves
  | core0 => exact serves_callbackStep h
  | core1 => exact serves_runStep hserves

/-- An unraced step leaves a run its packet. -/
theorem OneAtATime.onePacket {s : Cores} (h : s.OneAtATime) {e : CoreEvent} (he : s.Unraced e) :
    s.OnePacket e := by
  refine ⟨fun _ hswaps hwalk => ?_, (h.step he).serves.same⟩
  exact absurd ((h.run_out hswaps.inside).symm.trans hwalk.inside) (by decide)

/-- **One run of the base thread sees one packet**, in every run in which no core
finds the flag free between the other's test and the other's set. -/
theorem onePacket_along {n : ℕ} {es : List CoreEvent} (h : Along step Unraced (start n) es) :
    Along step OnePacket (start n) es :=
  along_of_invariant (fun _ _ hs he => hs.step he) (fun _ _ hs he => hs.onePacket he)
    (oneAtATime_start n) h

/-- A run of two generators, a write that waits for its end, and the write's swaps. -/
theorem onePacket_along_two :
    Along step OnePacket (start 2)
      [.tick, .core1, .core1, .core1, .core1, .datagram .PRU_WRITE, .core0, .core0, .core0, .core1,
        .core1, .core1, .core1, .core1, .core1, .core1, .core0, .core0, .core0, .core0, .core0,
        .core0, .core0] :=
  onePacket_along (by decide)

/-- With both cores past the test, core 1 starts its walk and core 0 its swap. -/
theorem torn_of_both_set {s : Cores} (hn : 0 < s.modules) {r : Request}
    (hc : s.callback = .set r) (hr : s.run = .set) :
    ¬Along step OnePacket s [.core1, .core1, .core0, .core0] := by
  have hwalk : walkFrom s.modules 0 = .readRx 0 := if_pos hn
  rintro ⟨-, -, -, ⟨h, -⟩, -⟩
  refine h rfl ?_ ?_
  · simp [step, runStep, callbackStep, hc, hr, hwalk, CallbackAt.Swaps]
  · simp [step, runStep, callbackStep, hc, hr, hwalk, RunAt.InWalk]

/-- **Every race can come to a swap inside a walk**, when there is a generator to
walk over. -/
theorem exists_torn_of_race {s : Cores} (hn : 0 < s.modules) {e : CoreEvent} (h : ¬s.Unraced e) :
    ∃ es, ¬Along step OnePacket s (e :: es) := by
  suffices hboth : (s.step e).modules = s.modules ∧
      (∃ r, (s.step e).callback = .set r) ∧ (s.step e).run = .set by
    obtain ⟨hmodules, ⟨r, hc⟩, hr⟩ := hboth
    exact ⟨_, fun hes => torn_of_both_set (hmodules ▸ hn) hc hr hes.2⟩
  cases e with
  | core0 =>
      simp only [Unraced, ne_eq, Classical.not_imp, not_not] at h
      obtain ⟨hwaits, hfree, hrun⟩ := h
      cases hc : s.callback with
      | wait r => simp [step, callbackStep, hc, hfree, RunAt.place_eq_tested.1 hrun]
      | _ => rw [hc] at hwaits; exact hwaits.elim
  | core1 =>
      simp only [Unraced, ne_eq, Classical.not_imp, not_not] at h
      obtain ⟨hwait, hfree, hcallback⟩ := h
      obtain ⟨r, hc⟩ := CallbackAt.place_eq_tested.1 hcallback
      exact ⟨by simp [step, runStep, hwait, hfree], ⟨r, by simp [step, runStep, hwait, hfree, hc]⟩,
        by simp [step, runStep, hwait, hfree]⟩
  | _ => exact absurd trivial h

/-- Both cores test the flag, both set it, and the write swaps between the two
generators of the run. -/
theorem not_onePacket_along :
    ¬Along step OnePacket (start 2)
      [.datagram .PRU_WRITE, .core0, .core0, .tick, .core1, .core0, .core1, .core0, .core1, .core1,
        .core1, .core0, .core0, .core0, .core0, .core1, .core1] := by
  decide

end Cores
end Remora
