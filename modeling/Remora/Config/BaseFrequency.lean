/-
# The frequency the axis runs at

Three places have a say in the speed of an axis.  `configThreads` takes the base
frequency from the configuration, the constructor of `Stepgen` scales commands by
it, and `startTimer` programs the timer; but the period it programs is
`BASE_PERIOD`, made from `PRU_BASEFREQ` when the firmware is compiled.  The
frequency of the configuration is stored in the timer and not read.

With the compiled frequency a constant command draws the line it asks for, to
within one step and the truncation of the increment (`rawCount_replicate`,
`abs_phase_sub_lt`).  With any other the error grows with every period
(`runsAt_iff`).
-/

import Remora.Config.LoadModules
import Remora.Motion.Dds

namespace Remora

open Basis

variable {fl : FloatUnit}

/-- `BASE_PERIOD`, in microseconds. -/
def BASE_PERIOD : ℕ := 1000000 / PRU_BASEFREQ

/-- `SERVO_PERIOD`, in microseconds. -/
def SERVO_PERIOD : ℕ := 1000000 / PRU_SERVOFREQ

/-- `pruTimer::startTimer`: the period programmed, in microseconds.  The slice
decides; `frequency` is not read.  `PWM_Wrap_Handler0` programs `BASE_PERIOD` again
after each interrupt. -/
def startTimer (slice : ℕ) (_frequency : Word) : ℕ :=
  if slice = 0 then BASE_PERIOD else if slice = 1 then SERVO_PERIOD else 0

/-- The base thread after one run under each packet. -/
def baseRuns (rxs : List RxData) (thread : List (Stepgen fl)) : List (Stepgen fl) :=
  run (fun gs rx => (baseRun (fun g => g.command rx) gs TxData.zero).1) thread rxs

/-- One generator after one run under each packet. -/
def generatorRuns (rxs : List RxData) (g : Stepgen fl) : Stepgen fl :=
  run (fun g rx => g.next (g.command rx)) g rxs

theorem baseRuns_eq_map (rxs : List RxData) (thread : List (Stepgen fl)) :
    baseRuns rxs thread = thread.map (generatorRuns rxs) := by
  induction rxs generalizing thread with
  | nil => exact (List.map_id _).symm
  | cons rx rxs ih =>
      rw [baseRuns, run_cons, thread_baseRun]
      exact (ih _).trans (List.map_map ..)

theorem generatorRuns_append (rxs rxs' : List RxData) (g : Stepgen fl) :
    generatorRuns (rxs ++ rxs') g = generatorRuns rxs' (generatorRuns rxs g) := run_append ..

/-- Runs change accumulator and count only. -/
theorem generatorRuns_const (rxs : List RxData) (g : Stepgen fl) :
    (generatorRuns rxs g).jointNumber = g.jointNumber ∧
      (generatorRuns rxs g).stepBit = g.stepBit ∧
      (generatorRuns rxs g).frequencyScale = g.frequencyScale := by
  induction rxs generalizing g with
  | nil => exact ⟨rfl, rfl, rfl⟩
  | cons rx rxs ih => exact ih (g.next (g.command rx))

/-- A packet enables a generator before and after. -/
theorem isEnabled_generatorRuns (rxs : List RxData) (g : Stepgen fl) (rx : RxData) :
    (generatorRuns rxs g).isEnabled rx = g.isEnabled rx := by
  rw [Stepgen.isEnabled, Stepgen.isEnabled, Stepgen.mask, Stepgen.mask,
    (generatorRuns_const rxs g).1]

/-- The base timer is programmed to 25 microseconds, whatever the frequency. -/
theorem startTimer_base (F : Word) : (startTimer BASE_SLICE F : ℚ) = 25 := by
  norm_num [startTimer, BASE_SLICE, BASE_PERIOD, PRU_BASEFREQ]

/-- **A constant increment**: the count moves as the exact phase does. -/
theorem rawCount_replicate {g : Stepgen fl} {rx : RxData} {a : Word}
    (hcmd : g.command rx = some a) (ha : |a.toInt| ≤ 2 ^ g.stepBit.val) (N : ℕ) {A : ℤ}
    (hA : g.DDSaccumulator = BitVec.ofInt 32 A) :
    (generatorRuns (List.replicate N rx) g).rawCount = g.rawCount +
      BitVec.ofInt 32 (phase g.stepBit (A + N * a.toInt) - phase g.stepBit A) := by
  induction N generalizing g A with
  | zero => simp [generatorRuns]
  | succ N ih =>
      have hdelta := (delta_steps hA (c := g.command rx) fun b hb => by
        obtain rfl : a = b := Option.some.inj (hcmd.symm.trans hb)
        exact ha).1
      have hA' : (g.next (g.command rx)).DDSaccumulator = BitVec.ofInt 32 (A + a.toInt) := by
        rw [Stepgen.next_DDSaccumulator, hcmd, hA, Option.getD_some, BitVec.ofInt_add,
          BitVec.ofInt_toInt]
      have hrun := ih (g := g.next (g.command rx)) (A := A + a.toInt) hcmd ha hA'
      rw [List.replicate_succ]
      refine hrun.trans ?_
      rw [Stepgen.next_rawCount, hdelta, hcmd, Option.getD_some, BitVec.add_assoc,
        ← BitVec.ofInt_add, Stepgen.next_stepBit]
      congr 2
      push_cast
      ring_nf

/-- `moved` is `f` steps a second for `N` periods of the base timer, to within one
step and one unit of the accumulator for each period. -/
def Follows (F : Word) (f : ℤ) (N : ℕ) (moved : Word) : Prop :=
  ∃ D : ℤ, moved = BitVec.ofInt 32 D ∧
    |(D : ℚ) - f * (N * startTimer BASE_SLICE F / 10 ^ 6)| ≤ 1 + (N : ℚ) / 2 ^ STEPBIT.val

/-- The count of every enabled generator follows every constant command `f` with
`|f| ≤ F`, for any number of periods and after any history. -/
def RunsAt (thread : List (Stepgen fl)) (F : Word) : Prop :=
  ∀ (before : List RxData) (rx : RxData) (N : ℕ),
    ∀ p ∈ (baseRuns before thread).zip (baseRuns (before ++ List.replicate N rx) thread),
      p.1.isEnabled rx = true → |(rx.jointFreqCmd p.1.jointNumber).toInt| ≤ F.toNat →
      Follows F (rx.jointFreqCmd p.1.jointNumber).toInt N (p.2.rawCount - p.1.rawCount)

/-- The same, generator by generator. -/
theorem runsAt_iff_forall (thread : List (Stepgen fl)) (F : Word) :
    RunsAt thread F ↔ ∀ g ∈ thread, ∀ (before : List RxData) (rx : RxData) (N : ℕ),
      g.isEnabled rx = true → |(rx.jointFreqCmd g.jointNumber).toInt| ≤ F.toNat →
      Follows F (rx.jointFreqCmd g.jointNumber).toInt N
        ((generatorRuns (List.replicate N rx) (generatorRuns before g)).rawCount -
          (generatorRuns before g).rawCount) := by
  have hjoint : ∀ (rxs : List RxData) (g : Stepgen fl),
      (generatorRuns rxs g).jointNumber = g.jointNumber := fun rxs g =>
    (generatorRuns_const rxs g).1
  simp only [RunsAt, baseRuns_eq_map, List.zip_map', List.mem_map, forall_exists_index, and_imp,
    forall_apply_eq_imp_iff₂, hjoint, isEnabled_generatorRuns, generatorRuns_append]
  exact ⟨fun h g hg before rx N => h before rx N g hg, fun h before rx N g hg => h g hg before rx N⟩

theorem truncate_of_nonneg {q : ℚ} (h : 0 ≤ q) : truncate q = ⌊q⌋ := by
  rw [truncate, Rat.floor_def', Int.tdiv_eq_ediv_of_nonneg (Rat.num_nonneg.2 h)]

theorem truncate_neg (q : ℚ) : truncate (-q) = -truncate q := by
  rw [truncate, truncate, Rat.neg_num, Rat.neg_den, Int.neg_tdiv]

/-- **Truncation** moves a number by less than one, toward zero. -/
theorem abs_truncate (q : ℚ) : |(truncate q : ℚ) - q| < 1 ∧ |(truncate q : ℚ)| ≤ |q| := by
  have hpos : ∀ q : ℚ, 0 ≤ q → |(truncate q : ℚ) - q| < 1 ∧ |(truncate q : ℚ)| ≤ |q| := by
    intro q h
    rw [truncate_of_nonneg h]
    have hle := Int.floor_le q
    have hlt := Int.lt_floor_add_one q
    have hfloor : (0 : ℚ) ≤ ⌊q⌋ := by exact_mod_cast Int.floor_nonneg.2 h
    rw [abs_lt, abs_of_nonneg hfloor, abs_of_nonneg h]
    exact ⟨⟨by linarith, by linarith⟩, hle⟩
  rcases le_total 0 q with h | h
  · exact hpos q h
  · have hneg := hpos (-q) (by linarith)
    rw [truncate_neg] at hneg
    push_cast at hneg
    rwa [show (-(truncate q : ℚ) - -q) = -(truncate q - q) by ring, abs_neg, abs_neg, abs_neg]
      at hneg

/-- A product that is no more than one step is scaled exactly, but for the truncation. -/
theorem scale_exactFloat (out : ℚ → Word) (w : Word) (q : ℚ)
    (h : |(w.toInt : ℚ) * q| ≤ 2 ^ STEPBIT.val) :
    ((exactFloat out).scale w q).toInt = truncate (w.toInt * q) ∧
      |truncate ((w.toInt : ℚ) * q)| ≤ 2 ^ STEPBIT.val := by
  have hle : |truncate ((w.toInt : ℚ) * q)| ≤ 2 ^ STEPBIT.val := by
    have := (abs_truncate ((w.toInt : ℚ) * q)).2.trans h
    exact_mod_cast this
  refine ⟨?_, hle⟩
  obtain ⟨hlo, hhi⟩ := abs_le.1 hle
  have hstep : (2 : ℤ) ^ STEPBIT.val = 4194304 := rfl
  rw [hstep] at hlo hhi
  have hscale : (exactFloat out).scale w q = BitVec.ofInt 32 (truncate (w.toInt * q)) := by
    exact if_pos ⟨by omega, by omega⟩
  rw [hscale, BitVec.toInt_ofInt]
  exact Int.bmod_eq_of_le (by omega) (by omega)

/-- What a generator does under a constant command, with the exact scale. -/
theorem moved_replicate {out : ℚ → Word} {g : Stepgen (exactFloat out)} {rx : RxData} {q : ℚ}
    (hbit : g.stepBit = STEPBIT) (hq : g.frequencyScale = q) (henabled : g.isEnabled rx = true)
    (hrange : |((rx.jointFreqCmd g.jointNumber).toInt : ℚ) * q| ≤ 2 ^ STEPBIT.val) (N : ℕ) :
    (generatorRuns (List.replicate N rx) g).rawCount - g.rawCount =
      BitVec.ofInt 32 (phase STEPBIT (g.DDSaccumulator.toInt +
          N * truncate ((rx.jointFreqCmd g.jointNumber).toInt * q)) -
        phase STEPBIT g.DDSaccumulator.toInt) := by
  obtain ⟨hscale, hle⟩ := scale_exactFloat out _ q hrange
  have hcmd : g.command rx =
      some ((exactFloat out).scale (rx.jointFreqCmd g.jointNumber) q) := by
    rw [Stepgen.command, if_pos henabled, hq]
  have hrun := rawCount_replicate hcmd (by rw [hscale, hbit]; exact hle) N
    (BitVec.ofInt_toInt (x := g.DDSaccumulator)).symm
  rw [hrun, hscale, hbit, BitVec.add_comm, BitVec.add_sub_cancel]

/-- The line of the truncated increment `T`, and what the truncation takes from it. -/
theorem abs_line_le {D T c N P : ℚ} (hP : 0 < P) (hN : 0 ≤ N) (hline : |D - N * T / P| < 1)
    (htrunc : |T - c * (P / 40000)| < 1) : |D - c * (N * 25 / 10 ^ 6)| ≤ 1 + N / P := by
  have hloss : |N * T / P - c * (N * 25 / 10 ^ 6)| ≤ N / P := by
    have hfactor : N * T / P - c * (N * 25 / 10 ^ 6) = N / P * (T - c * (P / 40000)) := by
      field_simp
      ring
    rw [hfactor, abs_mul, abs_of_nonneg (div_nonneg hN hP.le)]
    exact mul_le_of_le_one_right (div_nonneg hN hP.le) htrunc.le
  calc |D - c * (N * 25 / 10 ^ 6)|
      = |(D - N * T / P) + (N * T / P - c * (N * 25 / 10 ^ 6))| := by ring_nf
    _ ≤ |D - N * T / P| + |N * T / P - c * (N * 25 / 10 ^ 6)| := abs_add_le _ _
    _ ≤ 1 + N / P := add_le_add hline.le hloss

/-- **With the compiled frequency every command is followed.** -/
theorem follows_of_compiled {out : ℚ → Word} {f : Frequencies} {g : Stepgen (exactFloat out)}
    (hg : Scaled f g) (hF : f.baseFreq.toNat = PRU_BASEFREQ) (before : List RxData) (rx : RxData)
    (N : ℕ) (henabled : g.isEnabled rx = true)
    (hrange : |(rx.jointFreqCmd g.jointNumber).toInt| ≤ f.baseFreq.toNat) :
    Follows f.baseFreq (rx.jointFreqCmd g.jointNumber).toInt N
      ((generatorRuns (List.replicate N rx) (generatorRuns before g)).rawCount -
        (generatorRuns before g).rawCount) := by
  obtain ⟨hjoint, hbit, hscale⟩ := generatorRuns_const before g
  have hF' : f.baseFreq.toInt = PRU_BASEFREQ := by
    rw [BitVec.toInt_eq_toNat_of_lt (by rw [hF]; decide), hF]
  set g' := generatorRuns before g
  rw [hF] at hrange
  rw [← hjoint] at hrange ⊢
  set c := (rx.jointFreqCmd g'.jointNumber).toInt with hc
  have hq : g'.frequencyScale = ((2 ^ 22 / 40000 : ℚ) : (exactFloat out).carrier) := by
    rw [hscale, hg.frequencyScale, hF']
    show ((2 ^ STEPBIT.val : ℤ) : ℚ) / ((PRU_BASEFREQ : ℤ) : ℚ) = 2 ^ 22 / 40000
    norm_num [STEPBIT, PRU_BASEFREQ]
  have hrangeQ : |(c : ℚ) * (2 ^ 22 / 40000)| ≤ 2 ^ STEPBIT.val := by
    have hcQ : |(c : ℚ)| ≤ 40000 := by exact_mod_cast hrange
    rw [abs_mul, abs_of_pos (show (0 : ℚ) < 2 ^ 22 / 40000 by norm_num)]
    calc |(c : ℚ)| * (2 ^ 22 / 40000) ≤ 40000 * (2 ^ 22 / 40000) := by gcongr
      _ = 2 ^ STEPBIT.val := by norm_num [STEPBIT]
  have henabled' : g'.isEnabled rx = true := (isEnabled_generatorRuns before g rx).trans henabled
  refine ⟨_, moved_replicate (hbit.trans hg.stepBit) hq henabled' hrangeQ N, ?_⟩
  have hline := abs_phase_sub_lt STEPBIT.val N g'.DDSaccumulator.toInt
    (truncate ((c : ℚ) * (2 ^ 22 / 40000)))
  have htrunc := (abs_truncate ((c : ℚ) * (2 ^ 22 / 40000))).1
  rw [startTimer_base]
  exact abs_line_le (by positivity) (Nat.cast_nonneg N) hline htrunc

/-- A packet that enables joint `j` and commands `w`. -/
def commanding (j : ℕ) (w : Word) : RxData :=
  ⟨(RxData.zero.rxBuffer.setWord (4 + 4 * j) w).setWord 44 (1#32 <<< j)⟩

theorem jointFreqCmd_commanding {j : ℕ} (hj : j < 8) (w : Word) :
    (commanding j w).jointFreqCmd j = w := by
  rw [RxData.jointFreqCmd, commanding, Octets.leWord_setWord_of_disjoint _ _ (by omega),
    Octets.leWord_setWord _ _ (by simp only [BUFFER_SIZE]; omega)]

theorem jointEnable_commanding (j : ℕ) (w : Word) :
    (commanding j w).jointEnable = byteOf (1#32 <<< j) 0 :=
  Octets.get_setWord _ (a := 44) (i := 0) _ (by omega) (by decide)

/-- Only the joints below 8 have a bit in `jointEnable`. -/
theorem isEnabled_commanding (g : Stepgen fl) (hj : g.jointNumber < 8) (w : Word) :
    g.isEnabled (commanding g.jointNumber w) = true := by
  rw [Stepgen.isEnabled, Stepgen.mask, jointEnable_commanding]
  generalize g.jointNumber = j at hj
  revert j
  decide

theorem isEnabled_lt {g : Stepgen fl} {rx : RxData} (h : g.isEnabled rx = true) :
    g.jointNumber < 8 := by
  by_contra hj
  rw [Stepgen.isEnabled, decide_eq_true_iff] at h
  refine h (BitVec.eq_of_getLsbD_eq fun i hi => ?_)
  rw [BitVec.getLsbD_and, BitVec.getLsbD_setWidth, Stepgen.mask]
  by_cases hlow : i < 8
  · simp [BitVec.getLsbD_shiftLeft, show i < g.jointNumber by omega]
  · simp [BitVec.getLsbD_of_ge rx.jointEnable i (by omega)]

theorem ofInt_inj {D E : ℤ} (hD : |D| < 2 ^ 31) (hE : |E| < 2 ^ 31)
    (h : BitVec.ofInt 32 D = BitVec.ofInt 32 E) : D = E := by
  rw [abs_lt] at hD hE
  have hint := congrArg BitVec.toInt h
  rwa [BitVec.toInt_ofInt, BitVec.toInt_ofInt, Int.bmod_eq_of_le (by omega) (by omega),
    Int.bmod_eq_of_le (by omega) (by omega)] at hint

theorem phase_add_mul_pow (k N : ℕ) (A : ℤ) : phase k (A + N * 2 ^ k) = phase k A + N := by
  induction N with
  | zero => simp
  | succ N ih =>
      rw [show A + ((N + 1 : ℕ) : ℤ) * 2 ^ k = A + N * 2 ^ k + 2 ^ k by push_cast; ring,
        phase_add_pow, ih]
      push_cast
      ring

/-- At the highest command a generator steps in every period. -/
theorem moved_highest {out : ℚ → Word} {f : Frequencies} {g : Stepgen (exactFloat out)}
    (hg : Scaled f g) (hpos : 0 < f.baseFreq.toInt) (hj : g.jointNumber < 8) (N : ℕ) :
    (generatorRuns (List.replicate N (commanding g.jointNumber f.baseFreq)) g).rawCount -
      g.rawCount = BitVec.ofInt 32 N := by
  have hF : (0 : ℚ) < f.baseFreq.toInt := by exact_mod_cast hpos
  have hq : g.frequencyScale =
      ((2 ^ 22 / f.baseFreq.toInt : ℚ) : (exactFloat out).carrier) := by
    rw [hg.frequencyScale]
    show ((2 ^ STEPBIT.val : ℤ) : ℚ) / (f.baseFreq.toInt : ℚ) = 2 ^ 22 / f.baseFreq.toInt
    norm_num [STEPBIT]
  have hprod : (f.baseFreq.toInt : ℚ) * (2 ^ 22 / f.baseFreq.toInt) = ((2 ^ 22 : ℤ) : ℚ) := by
    rw [mul_div_cancel₀ _ hF.ne']
    norm_num
  have hmoved := moved_replicate hg.stepBit hq (isEnabled_commanding g hj f.baseFreq) (by
    rw [jointFreqCmd_commanding hj, hprod]
    norm_num [STEPBIT]) N
  rw [jointFreqCmd_commanding hj, hprod, truncate_of_nonneg (by norm_num), Int.floor_intCast]
    at hmoved
  rw [hmoved, show (2 : ℤ) ^ 22 = 2 ^ STEPBIT.val from rfl, phase_add_mul_pow, add_sub_cancel_left]

/-- A step a period, for 41000 periods: on time for one frequency only. -/
theorem compiled_of_low {F : Word} (hlow : F.toNat ≤ 120000)
    (h : Follows F F.toInt 41000 (BitVec.ofInt 32 41000)) : F.toNat = PRU_BASEFREQ := by
  obtain ⟨D, hD, hbound⟩ := h
  have hint : F.toInt = F.toNat := BitVec.toInt_eq_toNat_of_lt (by omega)
  rw [hint, startTimer_base, show ((2 : ℚ) ^ STEPBIT.val) = 4194304 by norm_num [STEPBIT]] at hbound
  have hF : (0 : ℚ) ≤ F.toNat ∧ (F.toNat : ℚ) ≤ 120000 :=
    ⟨Nat.cast_nonneg _, by exact_mod_cast hlow⟩
  obtain ⟨hlo, hhi⟩ := abs_le.1 hbound
  push_cast at hlo hhi
  have hDlo : (-2 : ℚ) ≤ D := by linarith
  have hDhi : (D : ℚ) ≤ 123002 := by linarith
  have hDlo' : -2 ≤ D := by exact_mod_cast hDlo
  have hDhi' : D ≤ 123002 := by exact_mod_cast hDhi
  obtain rfl : 41000 = D :=
    ofInt_inj (by norm_num) (abs_lt.2 ⟨by omega, by omega⟩) hD
  push_cast at hlo hhi
  have h₁ : (F.toNat : ℚ) < 40001 := by linarith
  have h₂ : (39999 : ℚ) < F.toNat := by linarith
  have h₁' : F.toNat < 40001 := by exact_mod_cast h₁
  have h₂' : 39999 < F.toNat := by exact_mod_cast h₂
  simp only [PRU_BASEFREQ]
  omega

/-- Three steps a period: out of reach. -/
theorem not_follows_of_high (g : Stepgen fl) (F : Word) (rx : RxData) :
    ¬Follows F 120001 1 ((generatorRuns (List.replicate 1 rx) g).rawCount - g.rawCount) := by
  rintro ⟨D, hD, hbound⟩
  have hmoved : (generatorRuns (List.replicate 1 rx) g).rawCount - g.rawCount =
      Stepgen.delta (g.steps (g.command rx)) := by
    show (g.next (g.command rx)).rawCount - g.rawCount = _
    rw [Stepgen.next_rawCount, BitVec.add_comm, BitVec.add_sub_cancel]
  rw [startTimer_base, show ((2 : ℚ) ^ STEPBIT.val) = 4194304 by norm_num [STEPBIT]] at hbound
  obtain ⟨hlo, hhi⟩ := abs_le.1 hbound
  push_cast at hlo hhi
  have hDlo : (1 : ℚ) < D := by linarith
  have hDhi : (D : ℚ) < 5 := by linarith
  have hDlo' : 1 < D := by exact_mod_cast hDlo
  have hDhi' : D < 5 := by exact_mod_cast hDhi
  rw [hmoved] at hD
  generalize g.steps (g.command rx) = e at hD
  have hcases : D = 2 ∨ D = 3 ∨ D = 4 := by omega
  rcases hcases with rfl | rfl | rfl <;> rcases e with _ | _ | _ <;> exact absurd hD (by decide)

/-- A generator that a packet can enable tells every other frequency from the
compiled one. -/
theorem compiled_of_runsAt {out : ℚ → Word} {f : Frequencies}
    {thread : List (Stepgen (exactFloat out))} {g : Stepgen (exactFloat out)} (hg : g ∈ thread)
    (hscaled : Scaled f g) (hpos : 0 < f.baseFreq.toNat) (hj : g.jointNumber < 8)
    (h : RunsAt thread f.baseFreq) : f.baseFreq.toNat = PRU_BASEFREQ := by
  rw [runsAt_iff_forall] at h
  rcases Nat.lt_or_ge 120000 f.baseFreq.toNat with hhigh | hlow
  · have hcmd := jointFreqCmd_commanding hj 120001
    have hfollows := h g hg [] (commanding g.jointNumber 120001) 1
      (isEnabled_commanding g hj 120001) (by
        rw [hcmd, show (120001 : Word).toInt = 120001 from rfl, abs_of_pos (by norm_num)]
        exact_mod_cast hhigh)
    rw [hcmd] at hfollows
    exact absurd hfollows (not_follows_of_high g f.baseFreq (commanding g.jointNumber 120001))
  · have hint : f.baseFreq.toInt = f.baseFreq.toNat := BitVec.toInt_eq_toNat_of_lt (by omega)
    have hcmd := jointFreqCmd_commanding hj f.baseFreq
    have hfollows := h g hg [] (commanding g.jointNumber f.baseFreq) 41000
      (isEnabled_commanding g hj f.baseFreq) (by rw [hcmd, hint, Nat.abs_cast])
    rw [hcmd, show generatorRuns [] g = g from rfl, moved_highest hscaled (by omega) hj] at hfollows
    exact compiled_of_low hlow hfollows

/-- **The configured base frequency is the frequency the axis runs at** exactly when
it is the compiled one, or no generator has a joint that a packet can enable. -/
theorem runsAt_iff {out : ℚ → Word} {u : Uninitialised} {doc : JsonDocument} {f : Frequencies}
    {t : Threads (exactFloat out)} (hsetup : setup u doc = some (f, t))
    (hpos : 0 < f.baseFreq.toNat) :
    RunsAt t.baseThread f.baseFreq ↔
      f.baseFreq.toNat = PRU_BASEFREQ ∨ ∀ g ∈ t.baseThread, 8 ≤ g.jointNumber := by
  have hscaled := scaled_of_setup hsetup
  constructor
  · intro h
    by_contra hnot
    obtain ⟨hne, hjoint⟩ := not_or.1 hnot
    obtain ⟨g, hg, hj⟩ : ∃ g ∈ t.baseThread, g.jointNumber < 8 := by simpa using hjoint
    exact hne (compiled_of_runsAt hg (hscaled g hg) hpos hj h)
  · rw [runsAt_iff_forall]
    rintro (hF | hjoint) g hg before rx N henabled hrange
    · exact follows_of_compiled (hscaled g hg) hF before rx N henabled hrange
    · exact absurd (isEnabled_lt henabled) (not_lt.2 (hjoint g hg))

/-- A JSON object with these entries. -/
def objectOf (entries : List (String × JsonVariant)) : JsonObject := fun key =>
  (entries.lookup key).getD .null

/-- A JSON string. -/
def JsonVariant.text (s : String) : JsonVariant := ⟨some s, 0, 0⟩

/-- A JSON number. -/
def JsonVariant.number (n : ℕ) : JsonVariant := ⟨none, BitVec.ofNat 32 n, BitVec.ofNat 32 n⟩

/-- Memory that happens to be zero. -/
def Uninitialised.zeros : Uninitialised := ⟨fun _ _ => 0, 0⟩

/-- A base thread of frequency `F`, and a generator for joint 0 in it. -/
def documentAt (F : ℕ) : JsonDocument where
  threads := [objectOf [("Thread", .text "Base"), ("Frequency", .number F)]]
  modules := [objectOf [("Thread", .text "Base"), ("Type", .text "Stepgen"),
    ("Joint Number", .number 0), ("Step Pin", .text "GP02"), ("Direction Pin", .text "GP03")]]

theorem setup_documentAt (F : ℕ) (fl : FloatUnit) :
    setup .zeros (documentAt F) = some
      (⟨BitVec.ofNat 32 F, BitVec.ofNat 32 PRU_SERVOFREQ⟩,
        ⟨[(Stepgen.new (BitVec.ofNat 32 F).toInt 0 2 3 STEPBIT : Stepgen fl)], []⟩) := by
  have hstep : configPin .zeros "GP02" = 2 := by decide +kernel
  have hdir : configPin .zeros "GP03" = 3 := by decide +kernel
  simp [setup, configThreads, configThread, Frequencies.initial, loadModules, loadModule,
    createStepgen, documentAt, objectOf, JsonVariant.text, JsonVariant.number, List.lookup_cons,
    hstep, hdir]

/-- The compiled frequency, written in the configuration, is the one run at. -/
theorem runsAt_compiled :
    RunsAt [(Stepgen.new 40000 0 2 3 STEPBIT : Stepgen (exactFloat fun _ => 0))] 40000 :=
  (runsAt_iff (setup_documentAt 40000 (exactFloat fun _ => 0)) (by decide)).2 (Or.inl rfl)

/-- Half the compiled frequency is not. -/
theorem not_runsAt_half :
    ∃ f, ∃ t : Threads (exactFloat fun _ => 0),
      setup .zeros (documentAt 20000) = some (f, t) ∧ f.baseFreq = 20000 ∧
        ¬RunsAt t.baseThread f.baseFreq := by
  refine ⟨_, _, setup_documentAt 20000 _, rfl, fun h => ?_⟩
  have := compiled_of_runsAt (List.mem_singleton_self _) ⟨rfl, rfl⟩ (by decide) (by decide) h
  exact absurd this (by decide)

end Remora
