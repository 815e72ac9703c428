/-
# Little-endian words in memory

A memory is a function from addresses to bytes, and a buffer of `n` bytes is a
function on `Fin n`, read as a memory that is `0` past its end.  `leWord m a` is
the 32-bit word whose four bytes stand at `a, …, a + 3`, least significant byte
first; `Octets.setWord` writes one.  A word written is read back, and a word
that does not overlap the four bytes written is not disturbed.
-/

import Mathlib.Data.Nat.Basic
import Mathlib.Tactic.Common

namespace Basis

/-- A byte of memory. -/
abbrev Byte := BitVec 8

/-- A 32-bit machine word. -/
abbrev Word := BitVec 32

/-- The word at address `a`, least significant byte first. -/
def leWord (m : ℕ → Byte) (a : ℕ) : Word := m (a + 3) ++ m (a + 2) ++ m (a + 1) ++ m a

/-- Byte `i` of a word, counted from the least significant. -/
def byteOf (w : Word) (i : ℕ) : Byte := w.extractLsb' (8 * i) 8

theorem leWord_congr {m m' : ℕ → Byte} {a : ℕ} (h : ∀ i < 4, m (a + i) = m' (a + i)) :
    leWord m a = leWord m' a := by
  have h0 := h 0 (by omega)
  have h1 := h 1 (by omega)
  have h2 := h 2 (by omega)
  have h3 := h 3 (by omega)
  rw [Nat.add_zero] at h0
  rw [leWord, leWord, h0, h1, h2, h3]

/-- The four bytes of a word determine it. -/
theorem byteOf_append (w : Word) :
    byteOf w 3 ++ byteOf w 2 ++ byteOf w 1 ++ byteOf w 0 = w := by
  refine BitVec.eq_of_getLsbD_eq fun i hi => ?_
  simp only [byteOf, BitVec.getLsbD_append, BitVec.getLsbD_extractLsb']
  by_cases h₀ : i < 8
  · simp [h₀]
  by_cases h₁ : i - 8 < 8
  · simp [h₀, h₁, show 8 + (i - 8) = i by omega]
  by_cases h₂ : i - 8 - 8 < 8
  · simp only [h₀, h₁, h₂, if_false, if_true, decide_true, Bool.true_and]
    rw [show 8 * 2 + (i - 8 - 8) = i by omega]
  · simp only [h₀, h₁, h₂, if_false, show i - 8 - 8 - 8 < 8 by omega, decide_true, Bool.true_and]
    rw [show 8 * 3 + (i - 8 - 8 - 8) = i by omega]

/-- A word is read where its bytes stand. -/
theorem leWord_of_byteOf {m : ℕ → Byte} {a : ℕ} {w : Word} (h : ∀ i < 4, m (a + i) = byteOf w i) :
    leWord m a = w := by
  have h0 := h 0 (by omega)
  rw [Nat.add_zero] at h0
  rw [leWord, h0, h 1 (by omega), h 2 (by omega), h 3 (by omega), byteOf_append]

/-- The bytes of the word at an address are the bytes that stand there. -/
theorem byteOf_leWord (m : ℕ → Byte) (a : ℕ) {i : ℕ} (hi : i < 4) :
    byteOf (leWord m a) i = m (a + i) := by
  refine BitVec.eq_of_getLsbD_eq fun j hj => ?_
  simp only [byteOf, leWord, BitVec.getLsbD_append, BitVec.getLsbD_extractLsb', hj, decide_true,
    Bool.true_and]
  have hcases : i = 0 ∨ i = 1 ∨ i = 2 ∨ i = 3 := by omega
  rcases hcases with rfl | rfl | rfl | rfl
  · simp [hj]
  · rw [if_neg (by omega), if_pos (by omega)]
    congr 1; omega
  · rw [if_neg (by omega), if_neg (by omega), if_pos (by omega)]
    congr 1; omega
  · rw [if_neg (by omega), if_neg (by omega), if_neg (by omega)]
    congr 1; omega

/-- A buffer of `n` bytes. -/
abbrev Octets (n : ℕ) := Fin n → Byte

namespace Octets

variable {n : ℕ}

/-- Byte `i` of a buffer, `0` past its end. -/
def get (b : Octets n) (i : ℕ) : Byte := if h : i < n then b ⟨i, h⟩ else 0

/-- The buffer with the word `w` at offset `a`. -/
def setWord (b : Octets n) (a : ℕ) (w : Word) : Octets n :=
  fun i => if a ≤ i.val ∧ i.val < a + 4 then byteOf w (i.val - a) else b i

theorem get_of_lt (b : Octets n) {i : ℕ} (h : i < n) : b.get i = b ⟨i, h⟩ := dif_pos h

theorem get_setWord_of_disjoint (b : Octets n) {a i : ℕ} (w : Word) (h : i < a ∨ a + 4 ≤ i) :
    (b.setWord a w).get i = b.get i := by
  unfold get setWord
  split_ifs with h₁ h₂
  · dsimp only at h₂; omega
  · rfl
  · rfl

theorem get_setWord (b : Octets n) {a i : ℕ} (w : Word) (hi : i < 4) (ha : a + 4 ≤ n) :
    (b.setWord a w).get (a + i) = byteOf w i := by
  rw [get_of_lt _ (by omega), setWord, if_pos ⟨by simp, by simp; omega⟩]
  simp

/-- **A word written is read back.** -/
theorem leWord_setWord (b : Octets n) {a : ℕ} (w : Word) (ha : a + 4 ≤ n) :
    leWord (b.setWord a w).get a = w :=
  leWord_of_byteOf fun _ hi => b.get_setWord w hi ha

/-- **A word apart from the one written is not disturbed.** -/
theorem leWord_setWord_of_disjoint (b : Octets n) {a c : ℕ} (w : Word)
    (h : c + 4 ≤ a ∨ a + 4 ≤ c) : leWord (b.setWord a w).get c = leWord b.get c :=
  leWord_congr fun i hi => b.get_setWord_of_disjoint w (by omega)

end Octets

theorem leWord_zero {m : ℕ → Byte} {a : ℕ} (h : ∀ i < 4, m (a + i) = 0) : leWord m a = 0 := by
  have h0 := h 0 (by omega)
  rw [Nat.add_zero] at h0
  rw [leWord, h0, h 1 (by omega), h 2 (by omega), h 3 (by omega)]
  rfl

end Basis
