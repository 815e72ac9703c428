/-
# The communication watchdog

`modules/comms/RemoraComms.cpp`.  `update` runs in every servo run: data since
the last one sets the status, and more than `DATA_ERR_MAX` runs in a row without
data clear it.  The constructor sets no field, so a theorem about the watchdog
starts from arbitrary ones.
-/

import Remora.Configuration

namespace Remora

open Basis

/-- `class RemoraComms` -/
structure RemoraComms where
  data : Bool
  status : Bool
  noDataCount : Byte

namespace RemoraComms

/-- `update` -/
def update (c : RemoraComms) : RemoraComms :=
  let c := if c.data then { c with noDataCount := 0, status := true }
    else { c with noDataCount := c.noDataCount + 1 }
  let c := if c.noDataCount > DATA_ERR_MAX then { c with noDataCount := 0, status := false } else c
  { c with data := false }

/-- `dataReceived` -/
def dataReceived (c : RemoraComms) : RemoraComms := { c with data := true }

/-- `getStatus` -/
def getStatus (c : RemoraComms) : Bool := c.status

@[simp] theorem data_update (c : RemoraComms) : c.update.data = false := rfl

/-- An update that found data. -/
theorem update_of_data {c : RemoraComms} (h : c.data = true) :
    c.update = ⟨false, true, 0⟩ := by
  simp only [update, h, if_true]
  rfl

/-- An update that found none. -/
theorem update_of_no_data {c : RemoraComms} (h : c.data = false) :
    c.update = if (c.noDataCount.toNat + 1) % 256 ≤ 40 then
      ⟨false, c.status, c.noDataCount + 1⟩ else ⟨false, false, 0⟩ := by
  have hlt : c.noDataCount + 1 > DATA_ERR_MAX ↔ ¬(c.noDataCount.toNat + 1) % 256 ≤ 40 := by
    rw [gt_iff_lt, BitVec.lt_def, BitVec.toNat_add, not_le]
    rfl
  simp only [update, h, Bool.false_eq_true, if_false, hlt]
  split_ifs <;> rfl

/-- Without data the status does not rise. -/
theorem status_update_of_no_data {c : RemoraComms} (h : c.data = false) (hs : c.status = false) :
    c.update.status = false := by
  rw [update_of_no_data h]
  split_ifs
  · exact hs
  · rfl

/-- Silence: no new data since the first of `n + 1` updates.  Either one of them
has cleared the status, or the count has reached at least `n`, and has not passed
`DATA_ERR_MAX`. -/
def Silent (n : ℕ) (c : RemoraComms) : Prop :=
  c.data = false ∧ (c.status = false ∨ n ≤ c.noDataCount.toNat ∧ c.noDataCount.toNat ≤ 40)

/-- One update starts the count, whatever the fields held. -/
theorem silent_update (c : RemoraComms) : Silent 0 c.update := by
  refine ⟨rfl, ?_⟩
  cases h : c.data with
  | true => rw [update_of_data h]; exact Or.inr (by decide)
  | false =>
      rw [update_of_no_data h]
      split_ifs with hn
      · exact Or.inr ⟨Nat.zero_le _, by rw [BitVec.toNat_add]; exact hn⟩
      · exact Or.inl rfl

/-- Every further update counts one more. -/
theorem Silent.update {n : ℕ} {c : RemoraComms} (h : Silent n c) : Silent (n + 1) c.update := by
  obtain ⟨hdata, hs | ⟨hlo, hhi⟩⟩ := h
  · exact ⟨rfl, Or.inl (status_update_of_no_data hdata hs)⟩
  · refine ⟨rfl, ?_⟩
    have hmod : (c.noDataCount.toNat + 1) % 256 = c.noDataCount.toNat + 1 := by omega
    have hsum : (c.noDataCount + 1).toNat = c.noDataCount.toNat + 1 := by
      rw [BitVec.toNat_add]
      exact hmod
    rw [update_of_no_data hdata, hmod]
    split_ifs with hn
    · exact Or.inr ⟨by rw [hsum]; omega, by rw [hsum]; exact hn⟩
    · exact Or.inl rfl

/-- The count cannot pass `DATA_ERR_MAX`: by then the status is clear. -/
theorem Silent.status {n : ℕ} {c : RemoraComms} (h : Silent n c) (hn : 40 < n) :
    c.status = false := by
  rcases h.2 with h | h
  · exact h
  · omega

end RemoraComms
end Remora
