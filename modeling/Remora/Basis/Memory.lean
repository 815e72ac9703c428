/-
# Memory around an object

A memory is a function from addresses to bytes.  An address is the distance from
the first byte of some object, so it is an integer: what stands before the object
has negative addresses, and a copy may run past the object's end.  Each operation
comes with what it does inside its range and what it leaves alone outside.
-/

import Remora.Basis.Octets
import Mathlib.Data.Int.Notation

namespace Basis

/-- The bytes of an object and around it. -/
abbrev Memory := ℤ → Byte

namespace Memory

/-- The word at address `a`, least significant byte first. -/
def word (m : Memory) (a : ℤ) : Word := leWord (fun i => m (a + i)) 0

/-- The memory with the word `w` at address `a`. -/
def setWord (m : Memory) (a : ℤ) (w : Word) : Memory :=
  fun c => if a ≤ c ∧ c < a + 4 then byteOf w (c - a).toNat else m c

/-- The memory with `bytes` from address `a` on. -/
def copy (m : Memory) (a : ℤ) (bytes : List Byte) : Memory :=
  fun c => if a ≤ c ∧ c < a + bytes.length then bytes.getD (c - a).toNat 0 else m c

/-- The memory with `n` zero bytes from address `a` on. -/
def clear (m : Memory) (a : ℤ) (n : ℕ) : Memory :=
  fun c => if a ≤ c ∧ c < a + n then 0 else m c

variable {m m' : Memory} {a c : ℤ}

/-- A word is its four bytes. -/
theorem word_congr (h : ∀ i : ℕ, i < 4 → m (a + i) = m' (a + i)) : m.word a = m'.word a :=
  leWord_congr fun i hi => by simpa using h i hi

/-- The four bytes of a word can be told from it. -/
theorem eq_of_word_eq (h : m.word a = m'.word a) {i : ℕ} (hi : i < 4) : m (a + i) = m' (a + i) := by
  have hb := congrArg (byteOf · i) h
  simp only [word, byteOf_leWord _ _ hi] at hb
  simpa using hb

theorem setWord_of_disjoint (m : Memory) (w : Word) (h : c < a ∨ a + 4 ≤ c) :
    m.setWord a w c = m c :=
  if_neg (by omega)

/-- **A word written is read back.** -/
@[simp] theorem word_setWord (m : Memory) (a : ℤ) (w : Word) : (m.setWord a w).word a = w := by
  have hbyte : ∀ i : ℕ, i < 4 → m.setWord a w (a + i) = byteOf w i := by
    intro i hi
    rw [setWord, if_pos (by omega)]
    congr 1
    omega
  have h0 := hbyte 0 (by omega)
  have h1 := hbyte 1 (by omega)
  have h2 := hbyte 2 (by omega)
  have h3 := hbyte 3 (by omega)
  calc (m.setWord a w).word a = byteOf w 3 ++ byteOf w 2 ++ byteOf w 1 ++ byteOf w 0 := by
        simp only [word, leWord, Nat.zero_add, h0, h1, h2, h3]
    _ = w := byteOf_append w

theorem copy_of_disjoint (m : Memory) {bytes : List Byte} (h : c < a ∨ a + bytes.length ≤ c) :
    m.copy a bytes c = m c :=
  if_neg (by omega)

/-- **A byte copied is read back.** -/
theorem copy_add (m : Memory) (a : ℤ) {bytes : List Byte} {i : ℕ} (h : i < bytes.length) :
    m.copy a bytes (a + i) = bytes[i] := by
  have hi : (a + i - a).toNat = i := by omega
  rw [copy, if_pos (by omega), hi, List.getD_eq_getElem?_getD, List.getElem?_eq_getElem h,
    Option.getD_some]

theorem clear_of_disjoint (m : Memory) {n : ℕ} (h : c < a ∨ a + n ≤ c) : m.clear a n c = m c :=
  if_neg (by omega)

end Memory
end Basis
