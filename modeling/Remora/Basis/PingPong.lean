/-
# Two buffers and an index

A ping-pong buffer is two cells and the index of the one in use.  One side reads
and writes the current cell, the other prepares the alternate one, and a swap
exchanges the roles without moving any data: `1 - index` is the other index, as
the C idiom has it.  Every operation below is described by what it does to the
current and to the alternate cell, so later proofs never look at the index.
-/

import Mathlib.Logic.Function.Basic

namespace Basis

/-- Two cells and the index of the current one. -/
structure PingPong (α : Type*) where
  buffers : Fin 2 → α
  index : Fin 2

namespace PingPong

variable {α : Type*}

/-- Both cells hold `x`, and the first is in use. -/
def both (x : α) : PingPong α := ⟨fun _ => x, 0⟩

/-- The cell in use. -/
def current (p : PingPong α) : α := p.buffers p.index

/-- The cell not in use. -/
def alt (p : PingPong α) : α := p.buffers (1 - p.index)

/-- The other index. -/
def other (i : Fin 2) : Fin 2 := 1 - i

/-- Exchange the roles of the cells. -/
def swap (p : PingPong α) : PingPong α := { p with index := 1 - p.index }

/-- Overwrite the cell in use. -/
def setCurrent (p : PingPong α) (x : α) : PingPong α :=
  { p with buffers := Function.update p.buffers p.index x }

/-- Overwrite the cell not in use. -/
def setAlt (p : PingPong α) (x : α) : PingPong α :=
  { p with buffers := Function.update p.buffers (1 - p.index) x }

/-- Overwrite the cell `i`. -/
def setAt (p : PingPong α) (i : Fin 2) (x : α) : PingPong α :=
  { p with buffers := Function.update p.buffers i x }

@[simp] theorem current_both (x : α) : (both x).current = x := rfl

@[simp] theorem alt_both (x : α) : (both x).alt = x := rfl

theorem one_sub_ne (i : Fin 2) : 1 - i ≠ i := by
  revert i; decide

theorem one_sub_one_sub (i : Fin 2) : 1 - (1 - i) = i := by
  revert i; decide

theorem eq_one_sub_iff (i j : Fin 2) : j = 1 - i ↔ j ≠ i := by
  revert i j; decide

@[simp] theorem current_swap (p : PingPong α) : p.swap.current = p.alt := rfl

@[simp] theorem alt_swap (p : PingPong α) : p.swap.alt = p.current := by
  simp only [alt, swap, current, one_sub_one_sub]

@[simp] theorem index_swap (p : PingPong α) : p.swap.index = 1 - p.index := rfl

@[simp] theorem current_setCurrent (p : PingPong α) (x : α) : (p.setCurrent x).current = x :=
  Function.update_self ..

@[simp] theorem alt_setCurrent (p : PingPong α) (x : α) : (p.setCurrent x).alt = p.alt :=
  Function.update_of_ne (one_sub_ne _) ..

@[simp] theorem index_setCurrent (p : PingPong α) (x : α) : (p.setCurrent x).index = p.index := rfl

@[simp] theorem setCurrent_setCurrent (p : PingPong α) (x y : α) :
    (p.setCurrent x).setCurrent y = p.setCurrent y := by
  simp only [setCurrent, Function.update_idem]

@[simp] theorem setCurrent_current (p : PingPong α) : p.setCurrent p.current = p := by
  simp only [setCurrent, current, Function.update_eq_self]

@[simp] theorem alt_setAlt (p : PingPong α) (x : α) : (p.setAlt x).alt = x :=
  Function.update_self ..

@[simp] theorem current_setAlt (p : PingPong α) (x : α) : (p.setAlt x).current = p.current :=
  Function.update_of_ne (one_sub_ne _).symm ..

@[simp] theorem index_setAlt (p : PingPong α) (x : α) : (p.setAlt x).index = p.index := rfl

@[simp] theorem buffers_setAt_self (p : PingPong α) (i : Fin 2) (x : α) :
    (p.setAt i x).buffers i = x := Function.update_self ..

@[simp] theorem setAt_setAt (p : PingPong α) (i : Fin 2) (x y : α) :
    (p.setAt i x).setAt i y = p.setAt i y := by
  simp only [setAt, Function.update_idem]

theorem current_setAt_of_ne (p : PingPong α) {i : Fin 2} (x : α) (h : i ≠ p.index) :
    (p.setAt i x).current = p.current := Function.update_of_ne h.symm ..

end PingPong

end Basis
