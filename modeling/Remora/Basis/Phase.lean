/-
# Phase accumulators

A direct digital synthesizer adds a signed increment to a `w`-bit accumulator
that wraps, and emits a step when bit `k` of the accumulator flips, in the
direction of the sign of the increment.  `phase k A = ⌊A / 2^k⌋` is what such an
accumulator counts when it holds the exact sum `A`, never wrapped.

Bit `k` of the wrapped accumulator is the parity of the exact phase
(`getLsbD_ofInt`), whatever the number of times it has wrapped.  An increment of
magnitude at most `2^k` moves the phase by at most one and only in its own
direction, so the flip and the sign tell the change of the phase exactly
(`phase_add`).  For a constant increment the phase after `n` ticks is the
rounded line `n a / 2^k` (`abs_phase_sub_lt`).
-/

import Mathlib.Data.Int.Basic
import Mathlib.Data.Rat.Floor
import Mathlib.Tactic.Linarith
import Mathlib.Tactic.Ring
import Mathlib.Tactic.Positivity
import Mathlib.Tactic.FieldSimp

namespace Basis

/-- The number of steps an exact accumulator `A` has emitted. -/
def phase (k : ℕ) (A : ℤ) : ℤ := A / 2 ^ k

@[simp] theorem phase_zero (k : ℕ) : phase k 0 = 0 := Int.zero_ediv _

/-- Reducing modulo a multiple of `2^(k+1)` keeps the parity of the phase. -/
theorem phase_emod_two (k w : ℕ) (hk : k < w) (A : ℤ) :
    phase k (A % 2 ^ w) % 2 = phase k A % 2 := by
  obtain ⟨d, rfl⟩ := Nat.exists_eq_add_of_lt hk
  have hA := Int.emod_add_mul_ediv A (2 ^ (k + d + 1))
  set r := A % 2 ^ (k + d + 1)
  set q := A / 2 ^ (k + d + 1)
  have hsplit : A = r + 2 ^ k * (2 * (2 ^ d * q)) := by
    rw [← hA]; ring
  have hpos : (2 : ℤ) ^ k ≠ 0 := by positivity
  rw [phase, phase, hsplit, Int.add_mul_ediv_left _ _ hpos, Int.add_mul_emod_self_left]

/-- **The step bit is the parity of the exact phase**, however often the
accumulator has wrapped. -/
theorem getLsbD_ofInt {w k : ℕ} (hk : k < w) (A : ℤ) :
    (BitVec.ofInt w A).getLsbD k = decide (phase k A % 2 = 1) := by
  rw [← phase_emod_two k w hk A, ← BitVec.testBit_toNat, BitVec.toNat_ofInt,
    Nat.testBit_eq_decide_div_mod_eq]
  have hr : 0 ≤ A % 2 ^ w := Int.emod_nonneg _ (by positivity)
  have hcast : (((A % ((2 ^ w : ℕ) : ℤ)).toNat / 2 ^ k % 2 : ℕ) : ℤ) = phase k (A % 2 ^ w) % 2 := by
    push_cast
    rw [Int.toNat_of_nonneg hr]
    rfl
  congr 1
  rw [← hcast]
  norm_cast

theorem phase_mono {k : ℕ} {A B : ℤ} (h : A ≤ B) : phase k A ≤ phase k B :=
  Int.ediv_le_ediv (by positivity) h

theorem phase_add_pow (k : ℕ) (A : ℤ) : phase k (A + 2 ^ k) = phase k A + 1 := by
  have hP : (2 : ℤ) ^ k ≠ 0 := by positivity
  have h := Int.add_mul_ediv_left A 1 hP
  rwa [mul_one] at h

/-- Bit `k` of the accumulator flips when the increment is added. -/
def StepBitFlips {w : ℕ} (k : ℕ) (x y : BitVec w) : Prop := x.getLsbD k ≠ y.getLsbD k

instance {w : ℕ} (k : ℕ) (x y : BitVec w) : Decidable (StepBitFlips k x y) :=
  inferInstanceAs (Decidable (_ ≠ _))

/-- The bit test of the C code: exclusive or, then the mask of bit `k`. -/
theorem xor_and_twoPow_ne_zero {w k : ℕ} (hk : k < w) (x y : BitVec w) :
    (x ^^^ y) &&& 1#w <<< k ≠ 0#w ↔ StepBitFlips k x y := by
  rw [← BitVec.twoPow_eq, BitVec.and_twoPow, BitVec.getLsbD_xor, StepBitFlips]
  have hbit : BitVec.twoPow w k ≠ 0#w := by
    intro h
    have := congrArg (fun v => v.getLsbD k) h
    simp [hk] at this
  cases x.getLsbD k <;> cases y.getLsbD k <;> simp [hbit]

/-- **The flip and the sign tell the change of the phase.**  The increment is at
most `2^k` in magnitude, the extreme values included. -/
theorem phase_add {w k : ℕ} (hk : k < w) {a : ℤ} (ha : |a| ≤ 2 ^ k) (A : ℤ) :
    phase k (A + a) = phase k A +
      if StepBitFlips k (BitVec.ofInt w A) (BitVec.ofInt w (A + a)) then
        (if 0 < a then 1 else -1) else 0 := by
  obtain ⟨hlo, hhi⟩ := abs_le.1 ha
  have hup := phase_add_pow k A
  have hdown := phase_add_pow k (A - 2 ^ k)
  rw [sub_add_cancel] at hdown
  have hflip : StepBitFlips k (BitVec.ofInt w A) (BitVec.ofInt w (A + a)) ↔
      phase k A % 2 ≠ phase k (A + a) % 2 := by
    rw [StepBitFlips, getLsbD_ofInt hk, getLsbD_ofInt hk, ne_eq, decide_eq_decide]
    omega
  rw [if_congr hflip rfl rfl]
  rcases lt_or_ge 0 a with h | h
  · have h₁ : phase k A ≤ phase k (A + a) := phase_mono (by omega)
    have h₂ : phase k (A + a) ≤ phase k (A + 2 ^ k) := phase_mono (by omega)
    split_ifs <;> omega
  · have h₁ : phase k (A + a) ≤ phase k A := phase_mono (by omega)
    have h₂ : phase k (A - 2 ^ k) ≤ phase k (A + a) := phase_mono (by omega)
    split_ifs <;> omega

/-- **A constant increment draws a line.**  After `n` increments the phase has
moved by `n a / 2^k`, rounded. -/
theorem abs_phase_sub_lt (k n : ℕ) (A a : ℤ) :
    |((phase k (A + n * a) - phase k A : ℤ) : ℚ) - n * a / 2 ^ k| < 1 := by
  have hP : (0 : ℚ) < 2 ^ k := by positivity
  have hdiv : ∀ B : ℤ, (B : ℚ) / 2 ^ k - 1 < phase k B ∧ (phase k B : ℚ) ≤ B / 2 ^ k := by
    intro B
    have h : phase k B = ⌊(B : ℚ) / ((2 ^ k : ℕ) : ℚ)⌋ := by
      rw [Rat.floor_intCast_div_natCast]; simp [phase]
    push_cast at h
    rw [h]
    exact ⟨Int.sub_one_lt_floor _, Int.floor_le _⟩
  obtain ⟨h₁, h₂⟩ := hdiv A
  obtain ⟨h₃, h₄⟩ := hdiv (A + n * a)
  have hsplit : ((A + n * a : ℤ) : ℚ) / 2 ^ k = A / 2 ^ k + n * a / 2 ^ k := by
    push_cast; ring
  rw [hsplit] at h₃ h₄
  push_cast
  rw [abs_lt]
  constructor <;> linarith

end Basis
