/-
# A flag tested, then set

A lock made by hand.  A party waits until a shared flag is clear, sets it, and
clears it when it is done.  The test and the set are two steps, so the flag by
itself excludes nobody: two parties that test before either has set are both
inside, and the first to leave clears the flag under the other.

`Exclusive.move` says what the discipline is worth: as long as nobody finds the
flag clear while another stands between its test and its set, at most one party is
past its test.  `Held.move` is the other half: a set flag has a party inside that
will clear it, unless a party has been stopped there.
-/

import Mathlib.Logic.Function.Basic
import Mathlib.Tactic.SplitIfs

namespace Basis

/-- Where a party stands: outside, past the test, or past the set. -/
inductive Place where
  | out
  | tested
  | inside
  deriving DecidableEq

/-- The flag and the places of the parties. -/
structure TestThenSet (ι : Type*) where
  flag : Bool
  place : ι → Place

namespace TestThenSet

variable {ι : Type*} [DecidableEq ι]

/-- What can happen to the lock. -/
inductive Move (ι : Type*) where
  | test (i : ι)
  | set (i : ι)
  | clear (i : ι)
  | stop (i : ι)

/-- The party `i` now stands at `p`. -/
def put (l : TestThenSet ι) (i : ι) (p : Place) : TestThenSet ι :=
  { l with place := Function.update l.place i p }

/-- The lock after a move.  A test that finds the flag set is made again. -/
def move (l : TestThenSet ι) : Move ι → TestThenSet ι
  | .test i => if l.flag = false ∧ l.place i = .out then l.put i .tested else l
  | .set i => if l.place i = .tested then { l.put i .inside with flag := true } else l
  | .clear i => if l.place i = .inside then { l.put i .out with flag := false } else l
  | .stop i => l.put i .out

@[simp] theorem place_put_self (l : TestThenSet ι) (i : ι) (p : Place) :
    (l.put i p).place i = p := Function.update_self ..

theorem place_put_of_ne (l : TestThenSet ι) {i j : ι} (p : Place) (h : j ≠ i) :
    (l.put i p).place j = l.place j := Function.update_of_ne h ..

/-- At most one party is past its test, and the flag is set when it is inside. -/
structure Exclusive (l : TestThenSet ι) : Prop where
  flagged : ∀ i, l.place i = .inside → l.flag = true
  apart : ∀ i j, i ≠ j → l.place i ≠ .out → l.place j = .out

/-- A test finds nobody else between the test and the set. -/
def Undisturbed (l : TestThenSet ι) : Move ι → Prop
  | .test i => l.flag = false → ∀ j, j ≠ i → l.place j ≠ .tested
  | _ => True

/-- A set flag has a party inside. -/
def Held (l : TestThenSet ι) : Prop := l.flag = true → ∃ i, l.place i = .inside

variable {l : TestThenSet ι}

/-- A party that does not stand where the one that moved does has not moved. -/
theorem place_of_place_put {i j : ι} {p q : Place} (hpq : p ≠ q) (h : (l.put i p).place j = q) :
    j ≠ i ∧ l.place j = q := by
  have hji : j ≠ i := by
    rintro rfl
    exact hpq ((l.place_put_self j p).symm.trans h)
  exact ⟨hji, (l.place_put_of_ne p hji).symm.trans h⟩

/-- A party that leaves, or is not there, leaves the others apart. -/
theorem Exclusive.apart_put_out (h : l.Exclusive) (i : ι) {j k : ι} (hjk : j ≠ k)
    (hj : (l.put i .out).place j ≠ .out) : (l.put i .out).place k = .out := by
  by_cases hji : j = i
  · rw [hji, place_put_self] at hj
    exact absurd rfl hj
  · rw [place_put_of_ne _ _ hji] at hj
    by_cases hki : k = i
    · rw [hki, place_put_self]
    · rw [place_put_of_ne _ _ hki]
      exact h.apart j k hjk hj

/-- A party may go on when all others are outside. -/
theorem apart_put_of_out {i : ι} (h : ∀ j, j ≠ i → l.place j = .out) (p : Place) {j k : ι}
    (hjk : j ≠ k) (hj : (l.put i p).place j ≠ .out) : (l.put i p).place k = .out := by
  by_cases hji : j = i
  · have hki : k ≠ i := fun hki => hjk (hji.trans hki.symm)
    rw [place_put_of_ne _ _ hki]
    exact h k hki
  · rw [place_put_of_ne _ _ hji] at hj
    exact absurd (h j hji) hj

/-- **Undisturbed tests exclude**: the flag, tested then set, admits one party. -/
theorem Exclusive.move (h : l.Exclusive) {m : Move ι} (hm : l.Undisturbed m) :
    (l.move m).Exclusive := by
  cases m with
  | test i =>
      rw [TestThenSet.move]
      split_ifs with htest
      · have hothers : ∀ j, j ≠ i → l.place j = .out := by
          intro j hj
          cases hp : l.place j with
          | out => rfl
          | tested => exact absurd hp (hm htest.1 j hj)
          | inside => exact absurd (h.flagged j hp) (by rw [htest.1]; decide)
        refine ⟨fun j hj => ?_, fun j k => apart_put_of_out hothers _⟩
        exact h.flagged j (place_of_place_put (by decide) hj).2
      · exact h
  | set i =>
      rw [TestThenSet.move]
      split_ifs with hset
      · have hothers : ∀ j, j ≠ i → l.place j = .out := fun j hj =>
          h.apart i j hj.symm (by rw [hset]; decide)
        exact ⟨fun _ _ => rfl, fun j k => apart_put_of_out hothers .inside⟩
      · exact h
  | clear i =>
      rw [TestThenSet.move]
      split_ifs with hclear
      · refine ⟨fun j hj => ?_, fun j k => h.apart_put_out i⟩
        obtain ⟨hji, hinside⟩ := place_of_place_put (l := l) (i := i) (by decide) hj
        rw [h.apart i j hji.symm (by rw [hclear]; decide)] at hinside
        cases hinside
      · exact h
  | stop i =>
      refine ⟨fun j hj => ?_, fun j k => h.apart_put_out i⟩
      exact h.flagged j (place_of_place_put (by decide) hj).2

/-- **A set flag keeps a party inside**, when none is stopped there under it. -/
theorem Held.move (h : l.Held) {m : Move ι}
    (hm : ∀ i, m = .stop i → l.place i = .inside → l.flag = false) : (l.move m).Held := by
  cases m with
  | test i =>
      rw [TestThenSet.move]
      split_ifs with htest
      · exact fun hflag => absurd (htest.1.symm.trans hflag) (by decide)
      · exact h
  | set i =>
      rw [TestThenSet.move]
      split_ifs
      · exact fun _ => ⟨i, l.place_put_self i .inside⟩
      · exact h
  | clear i =>
      rw [TestThenSet.move]
      split_ifs
      · exact fun hflag => absurd hflag Bool.false_ne_true
      · exact h
  | stop i =>
      intro hflag
      have hset : l.flag = true := hflag
      obtain ⟨j, hj⟩ := h hset
      have hji : j ≠ i := by
        rintro rfl
        exact absurd ((hm j rfl hj).symm.trans hset) (by decide)
      exact ⟨j, (l.place_put_of_ne .out hji).trans hj⟩

end TestThenSet
end Basis
