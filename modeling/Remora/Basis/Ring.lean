/-
# Rings with free-running pointers

A memory of `size` cells that is addressed by `w`-bit pointers.  The pointers run
freely through all `2 ^ w` values, and only the low part of one selects the cell; so a
reader and a writer that hold a pointer each know from the difference how much is
queued, and a full ring is not mistaken for an empty one.

What stands between the two pointers is a queue: writing at the writer's pointer
appends (`queue_write`), and moving the reader's pointer drops (`queue_drop`), however
often either has wrapped.
-/

import Mathlib.Data.List.Range
import Mathlib.Data.Nat.ModEq
import Mathlib.Logic.Function.Basic
import Mathlib.Tactic.Common

namespace Basis
namespace Ring

variable {α : Type*} {w : ℕ}

/-- The number of cells divides the number of pointers, and is smaller. -/
structure Fits (size w : ℕ) : Prop where
  pos : 0 < size
  dvd : size ∣ 1 <<< w
  lt : size < 1 <<< w

/-- The cell that is `i` behind a pointer. -/
def index (size : ℕ) (p : BitVec w) (i : ℕ) : ℕ := (p + BitVec.ofNat w i).toNat % size

/-- The `n` cells from a pointer on. -/
def read (size : ℕ) (mem : ℕ → α) (p : BitVec w) (n : ℕ) : List α :=
  (List.range n).map fun i => mem (index size p i)

/-- Cell after cell is written, from a pointer on. -/
def write (size : ℕ) (mem : ℕ → α) (p : BitVec w) : List α → ℕ → α
  | [] => mem
  | x :: xs => write size (Function.update mem (index size p 0) x) (p + 1) xs

/-- What stands between the reader's pointer and the writer's. -/
def queue (size : ℕ) (mem : ℕ → α) (rd wr : BitVec w) : List α :=
  read size mem rd (wr - rd).toNat

theorem index_add (size : ℕ) (p : BitVec w) (i j : ℕ) :
    index size (p + BitVec.ofNat w i) j = index size p (i + j) := by
  rw [index, index, BitVec.add_assoc, BitVec.ofNat_add]

theorem read_add (size : ℕ) (mem : ℕ → α) (p : BitVec w) (n m : ℕ) :
    read size mem p (n + m) = read size mem p n ++ read size mem (p + BitVec.ofNat w n) m := by
  rw [read, List.range_add, List.map_append, List.map_map]
  exact congrArg (read size mem p n ++ ·) (List.map_congr_left fun i _ => by
    rw [Function.comp_apply, index_add])

section

variable {size : ℕ} (hfit : Fits size w)
include hfit

/-- The low part of a pointer selects the cell, and a carry out of the pointer is lost
on both sides. -/
theorem index_eq (p : BitVec w) (i : ℕ) : index size p i = (p.toNat + i) % size := by
  have hdvd : size ∣ 2 ^ w := Nat.one_shiftLeft w ▸ hfit.dvd
  rw [index, BitVec.toNat_add, BitVec.toNat_ofNat, Nat.add_mod_mod, Nat.mod_mod_of_dvd _ hdvd]

/-- Cells less than a turn apart are different. -/
theorem index_injective (p : BitVec w) {i j : ℕ} (hi : i < size) (hj : j < size)
    (h : index size p i = index size p j) : i = j := by
  rw [index_eq hfit, index_eq hfit] at h
  have hmod : i % size = j % size := Nat.ModEq.add_left_cancel' p.toNat h
  rwa [Nat.mod_eq_of_lt hi, Nat.mod_eq_of_lt hj] at hmod

/-- **A write, cell by cell.** -/
theorem write_apply (mem : ℕ → α) (p : BitVec w) (xs : List α) (hlen : xs.length ≤ size) (k : ℕ) :
    (∀ i, ∀ h : i < xs.length, k = index size p i → write size mem p xs k = xs[i]) ∧
      ((∀ i < xs.length, k ≠ index size p i) → write size mem p xs k = mem k) := by
  induction xs generalizing mem p with
  | nil => exact ⟨fun i h => absurd h (Nat.not_lt_zero i), fun _ => rfl⟩
  | cons x xs ih =>
      have hlen' : xs.length + 1 ≤ size := hlen
      have hshift : ∀ i, index size (p + 1) i = index size p (i + 1) := fun i => by
        rw [Nat.add_comm i 1, ← index_add size p 1 i]
        rfl
      obtain ⟨hin, hout⟩ := ih (Function.update mem (index size p 0) x) (p + 1) (by omega)
      constructor
      · rintro i hi rfl
        cases i with
        | zero =>
            -- the first cell is not written again: the others are less than a turn away
            rw [write, hout fun j hj heq => ?_, Function.update_self]
            · rfl
            · rw [hshift] at heq
              have := index_injective hfit p hfit.pos (by omega) heq
              omega
        | succ i => exact hin i (Nat.lt_of_succ_lt_succ hi) (hshift i).symm
      · intro hne
        rw [write, hout fun j hj => ?_,
          Function.update_of_ne (hne 0 (Nat.zero_lt_succ _))]
        rw [hshift]
        exact hne (j + 1) (Nat.succ_lt_succ hj)

/-- What is written is read back. -/
theorem read_write (mem : ℕ → α) (p : BitVec w) (xs : List α) (hlen : xs.length ≤ size) :
    read size (write size mem p xs) p xs.length = xs := by
  refine List.ext_getElem (by simp [read]) fun i _ hi => ?_
  simp only [read, List.getElem_map, List.getElem_range]
  exact (write_apply hfit mem p xs hlen _).1 i hi rfl

/-- What stands before the writer's pointer is not disturbed, up to a whole turn. -/
theorem read_write_before (mem : ℕ → α) (p : BitVec w) (n : ℕ) (xs : List α)
    (hlen : n + xs.length ≤ size) :
    read size (write size mem (p + BitVec.ofNat w n) xs) p n = read size mem p n := by
  refine List.map_congr_left fun i hi => ?_
  rw [List.mem_range] at hi
  refine (write_apply hfit mem _ xs (by omega) _).2 fun j hj heq => ?_
  rw [index_add] at heq
  have := index_injective hfit p (by omega) (by omega) heq
  omega

end

theorem length_read (size : ℕ) (mem : ℕ → α) (p : BitVec w) (n : ℕ) :
    (read size mem p n).length = n := by
  rw [read, List.length_map, List.length_range]

theorem length_queue (size : ℕ) (mem : ℕ → α) (rd wr : BitVec w) :
    (queue size mem rd wr).length = (wr - rd).toNat := length_read ..

/-- A queue between equal pointers is empty. -/
theorem queue_self (size : ℕ) (mem : ℕ → α) (p : BitVec w) : queue size mem p p = [] := by
  have hzero : (p - p).toNat = 0 := by rw [BitVec.sub_self]; rfl
  rw [queue, hzero]
  rfl

/-- The pointer behind `n` cells, when the `n` do not make it come round. -/
theorem toNat_add_sub (rd wr : BitVec w) (n : ℕ) (h : (wr - rd).toNat + n < 1 <<< w) :
    (wr + BitVec.ofNat w n - rd).toNat = (wr - rd).toNat + n := by
  rw [Nat.one_shiftLeft] at h
  have hsub : wr + BitVec.ofNat w n - rd = wr - rd + BitVec.ofNat w n := by
    rw [BitVec.sub_eq_add_neg, BitVec.sub_eq_add_neg, BitVec.add_assoc, BitVec.add_assoc,
      BitVec.add_comm (BitVec.ofNat w n)]
  rw [hsub, BitVec.toNat_add, BitVec.toNat_ofNat, Nat.add_mod_mod, Nat.mod_eq_of_lt h]

/-- The distance that is left once the reader has gone `n` cells. -/
theorem toNat_sub_add (rd wr : BitVec w) (n : ℕ) (h : n ≤ (wr - rd).toNat) :
    (wr - (rd + BitVec.ofNat w n)).toNat = (wr - rd).toNat - n := by
  have hlt := (wr - rd).isLt
  have hsub : wr - (rd + BitVec.ofNat w n) = wr - rd - BitVec.ofNat w n :=
    (BitVec.sub_sub _ _ _).symm
  have hn : (BitVec.ofNat w n).toNat = n := by
    rw [BitVec.toNat_ofNat, Nat.mod_eq_of_lt (by omega)]
  rw [hsub, BitVec.toNat_sub_of_le (by rw [BitVec.le_def, hn]; exact h), hn]

/-- **Moving the reader's pointer drops.** -/
theorem queue_drop (size : ℕ) (mem : ℕ → α) (rd wr : BitVec w) (n : ℕ)
    (hn : n ≤ (queue size mem rd wr).length) :
    queue size mem (rd + BitVec.ofNat w n) wr = (queue size mem rd wr).drop n := by
  rw [length_queue] at hn
  rw [queue, queue, toNat_sub_add rd wr n hn]
  have hsplit := read_add size mem rd n ((wr - rd).toNat - n)
  rw [Nat.add_sub_cancel' hn] at hsplit
  rw [hsplit, List.drop_left' (length_read ..)]

/-- **Writing at the writer's pointer appends**, as long as the ring has room. -/
theorem queue_write {size : ℕ} (hfit : Fits size w) (mem : ℕ → α) (rd wr : BitVec w) (xs : List α)
    (hroom : (queue size mem rd wr).length + xs.length ≤ size) :
    queue size (write size mem wr xs) rd (wr + BitVec.ofNat w xs.length) =
      queue size mem rd wr ++ xs := by
  rw [length_queue] at hroom
  have hlt := hfit.lt
  have hwr : rd + BitVec.ofNat w (wr - rd).toNat = wr := by
    rw [BitVec.ofNat_toNat, BitVec.setWidth_eq, BitVec.add_comm, BitVec.sub_add_cancel]
  have hbefore := read_write_before hfit mem rd (wr - rd).toNat xs hroom
  rw [hwr] at hbefore
  rw [queue, toNat_add_sub rd wr _ (by omega), read_add, hwr, hbefore,
    read_write hfit mem wr xs (by omega), queue]

end Ring
end Basis
