/-
# NOR flash

A flash memory is erased to `0xFF` in whole ranges and programmed by clearing
bits: what stands in a range after programming is the conjunction of what stood
there and the data.  So data reads back only where the range was erased
(`program_erased`), and no operation reaches outside its range.
-/

import Remora.Basis.Octets

namespace Basis

/-- The contents of a flash chip, by offset. -/
abbrev Flash := ℕ → Byte

namespace Flash

/-- Erase `n` bytes from `a` on. -/
def erase (f : Flash) (a n : ℕ) : Flash := fun i => if a ≤ i ∧ i < a + n then 0xFF else f i

/-- Program the first `n` bytes of `data` from `a` on. -/
def program (f : Flash) (a : ℕ) (data : ℕ → Byte) (n : ℕ) : Flash :=
  fun i => if a ≤ i ∧ i < a + n then f i &&& data (i - a) else f i

theorem erase_inside (f : Flash) {a n i : ℕ} (h : a ≤ i ∧ i < a + n) : f.erase a n i = 0xFF :=
  if_pos h

theorem erase_outside (f : Flash) {a n i : ℕ} (h : ¬(a ≤ i ∧ i < a + n)) : f.erase a n i = f i :=
  if_neg h

theorem program_outside (f : Flash) {a n i : ℕ} (data : ℕ → Byte) (h : ¬(a ≤ i ∧ i < a + n)) :
    f.program a data n i = f i := if_neg h

/-- **Erased bytes take the data.** -/
theorem program_erased (f : Flash) {a n i : ℕ} (data : ℕ → Byte) (h : a ≤ i ∧ i < a + n)
    (hf : f i = 0xFF) : f.program a data n i = data (i - a) := by
  rw [program, if_pos h, hf]
  exact BitVec.allOnes_and

end Flash
end Basis
