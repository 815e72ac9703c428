/-
# Output lines and their edges

A sequence of writes to output lines, each a line number and a level.  `levels`
is what the lines show afterwards, `risingEdges` collects every moment at which
line `s` goes from low to high, each with the level that line `d` shows then: a
step line and its direction line.  Writes to other lines change neither
(`levels_of_untouched`, `risingEdges_of_untouched`).
-/

import Mathlib.Data.List.Basic
import Mathlib.Algebra.BigOperators.Group.List.Basic
import Mathlib.Algebra.Ring.Int.Defs

namespace Basis

/-- A write of a level to an output line. -/
structure Put where
  line : ℕ
  level : Bool
  deriving DecidableEq

/-- One write. -/
def Put.apply (l : ℕ → Bool) (p : Put) : ℕ → Bool := Function.update l p.line p.level

/-- The levels after a sequence of writes. -/
def levels (l : ℕ → Bool) (ps : List Put) : ℕ → Bool := ps.foldl Put.apply l

/-- The rising edges of line `s`, each with the level of line `d` at that moment. -/
def risingEdges (s d : ℕ) : (ℕ → Bool) → List Put → List Bool
  | _, [] => []
  | l, p :: ps =>
      if l s = false ∧ p.apply l s = true then
        p.apply l d :: risingEdges s d (p.apply l) ps
      else risingEdges s d (p.apply l) ps

/-- Edges with the direction line high, minus edges with it low. -/
def signedCount (es : List Bool) : ℤ := (es.map fun e => if e then 1 else -1).sum

@[simp] theorem levels_nil (l : ℕ → Bool) : levels l [] = l := rfl

@[simp] theorem levels_cons (l : ℕ → Bool) (p : Put) (ps : List Put) :
    levels l (p :: ps) = levels (p.apply l) ps := rfl

theorem levels_append (l : ℕ → Bool) (ps qs : List Put) :
    levels l (ps ++ qs) = levels (levels l ps) qs := List.foldl_append

theorem risingEdges_append (s d : ℕ) (l : ℕ → Bool) (ps qs : List Put) :
    risingEdges s d l (ps ++ qs) = risingEdges s d l ps ++ risingEdges s d (levels l ps) qs := by
  induction ps generalizing l with
  | nil => rfl
  | cons p ps ih =>
      simp only [List.cons_append, risingEdges, levels_cons, ih]
      split_ifs <;> rfl

theorem Put.apply_of_ne {l : ℕ → Bool} {p : Put} {i : ℕ} (h : p.line ≠ i) : p.apply l i = l i :=
  Function.update_of_ne h.symm ..

theorem Put.apply_self (l : ℕ → Bool) (p : Put) : p.apply l p.line = p.level :=
  Function.update_self ..

/-- Writes to other lines leave a line as it is. -/
theorem levels_of_untouched {i : ℕ} {ps : List Put} (h : ∀ p ∈ ps, p.line ≠ i) (l : ℕ → Bool) :
    levels l ps i = l i := by
  induction ps generalizing l with
  | nil => rfl
  | cons p ps ih =>
      rw [levels_cons, ih (fun q hq => h q (List.mem_cons_of_mem _ hq)),
        Put.apply_of_ne (h p (List.mem_cons_self ..))]

/-- Without a write of high to a line there is no edge. -/
theorem risingEdges_of_not_raised {s : ℕ} (d : ℕ) {ps : List Put}
    (h : ∀ p ∈ ps, p.level = true → p.line ≠ s) (l : ℕ → Bool) : risingEdges s d l ps = [] := by
  induction ps generalizing l with
  | nil => rfl
  | cons p ps ih =>
      have hrise : ¬(l s = false ∧ p.apply l s = true) := by
        rintro ⟨hlow, hhigh⟩
        by_cases hp : p.line = s
        · subst hp
          rw [Put.apply_self] at hhigh
          exact h p (List.mem_cons_self ..) hhigh rfl
        · rw [Put.apply_of_ne hp, hlow] at hhigh
          cases hhigh
      rw [risingEdges, if_neg hrise, ih fun q hq => h q (List.mem_cons_of_mem _ hq)]

/-- Writes to other lines raise no edge. -/
theorem risingEdges_of_untouched {s : ℕ} (d : ℕ) {ps : List Put} (h : ∀ p ∈ ps, p.line ≠ s)
    (l : ℕ → Bool) : risingEdges s d l ps = [] :=
  risingEdges_of_not_raised d (fun p hp _ => h p hp) l

/-- A single write of low raises no edge. -/
theorem risingEdges_low (s d : ℕ) (l : ℕ → Bool) (i : ℕ) :
    risingEdges s d l [⟨i, false⟩] = [] := risingEdges_of_not_raised d (by simp) l

/-- A single write of high to a low line raises one edge. -/
theorem risingEdges_high {s d : ℕ} {l : ℕ → Bool} (hs : l s = false) :
    risingEdges s d l [⟨s, true⟩] = [if s = d then true else l d] := by
  have hp : Put.apply l ⟨s, true⟩ s = true := Put.apply_self l ⟨s, true⟩
  rw [risingEdges, if_pos ⟨hs, hp⟩, risingEdges]
  split_ifs with h
  · rw [← h, hp]
  · rw [Put.apply_of_ne h]

/-- A high line has no edge to raise. -/
theorem risingEdges_of_high {s : ℕ} (d : ℕ) {l : ℕ → Bool} (hs : l s = true) (p : Put) :
    risingEdges s d l [p] = [] := by
  rw [risingEdges, if_neg (by simp [hs])]
  rfl

@[simp] theorem signedCount_nil : signedCount [] = 0 := rfl

@[simp] theorem signedCount_singleton (e : Bool) : signedCount [e] = if e then 1 else -1 := by
  simp [signedCount]

end Basis
