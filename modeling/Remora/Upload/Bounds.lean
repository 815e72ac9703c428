/-
# What an accepted upload may be

`checkJson` bounds `meta->length`, and nothing that follows uses it: `checkJson`,
`moveJson` and, after the reboot, `jsonFromFlash` go by `meta->jsonLength`, which
comes from the network too and is bounded nowhere.  Three widths meet there: the sum
with the padding has 32 bits, the copy of the length 16, the number of pages 8.

For a file that fits the upload region behind its metadata all of them are exact and
nothing reaches outside its region; for any longer one that is accepted something
does (`fits_iff`).  The array in RAM between the two regions is the matter of
`MoveJson`.
-/

import Remora.Upload.MoveJson

namespace Remora

open Basis

/-- An upload stays where it belongs. -/
structure Fits (flash : Flash) : Prop where
  /-- Metadata, file and padding fit the upload region. -/
  upload : METADATA_LEN + (metadata flash).jsonLength.toNat +
    (padding (metadata flash).jsonLength).toNat ≤ REGION_SIZE
  /-- The file and its length fit the storage region. -/
  storage : (metadata flash).jsonLength.toNat + 4 ≤ REGION_SIZE
  /-- `jsonLength + padding` has not wrapped. -/
  sum : ((metadata flash).jsonLength + padding (metadata flash).jsonLength).toNat =
    (metadata flash).jsonLength.toNat + (padding (metadata flash).jsonLength).toNat
  /-- `pages` is what it is without truncation. -/
  pages : (moveJson flash).pages.toNat =
    if ((metadata flash).jsonLength.toNat + 4) / FLASH_PAGE_SIZE > 0 then
      ((metadata flash).jsonLength.toNat + 4) / FLASH_PAGE_SIZE + 1
    else ((metadata flash).jsonLength.toNat + 4) / FLASH_PAGE_SIZE
  /-- So is the 16-bit length. -/
  length : ((metadata flash).jsonLength.setWidth 16).toNat = (metadata flash).jsonLength.toNat
  /-- `checkJson` reads inside the upload region. -/
  checked : METADATA_LEN + (looked flash).length ≤ REGION_SIZE
  /-- `moveJson` copies from inside the upload region. -/
  copied : METADATA_LEN + ((metadata flash).jsonLength.setWidth 16).toNat ≤ REGION_SIZE
  /-- It programs inside the storage region. -/
  programmed : (moveJson flash).pages.toNat * 256 ≤ REGION_SIZE
  /-- Nothing else in flash changes. -/
  kept : ∀ i, ¬(JSON_STORAGE_ADDRESS ≤ i ∧ i < JSON_STORAGE_ADDRESS + REGION_SIZE) →
    (moveJson flash).flash i = flash i
  /-- `jsonFromFlash` reads inside the storage region. -/
  loaded : leWord (moveJson flash).flash JSON_STORAGE_ADDRESS ≠ 0xFFFFFFFF →
    4 + (leWord (moveJson flash).flash JSON_STORAGE_ADDRESS).toNat ≤ REGION_SIZE

/-- The longest file that fits the upload region behind its metadata. -/
def JSON_LENGTH_MAX : ℕ := REGION_SIZE - METADATA_LEN

/-- **A file that fits the upload region keeps every bound.** -/
theorem fits_of_le {flash : Flash} (h : (metadata flash).jsonLength.toNat ≤ JSON_LENGTH_MAX) :
    Fits flash := by
  have hregion : REGION_SIZE = 32768 := rfl
  have hmeta : METADATA_LEN = 512 := rfl
  have hpage : FLASH_PAGE_SIZE = 256 := rfl
  have hmax : JSON_LENGTH_MAX = 32256 := by rw [JSON_LENGTH_MAX, hregion, hmeta]
  have hpadding := toNat_padding (metadata flash).jsonLength
  have hfit : METADATA_LEN + (metadata flash).jsonLength.toNat ≤ REGION_SIZE := by omega
  have hpages := pages_moveJson flash hfit
  have hlength : ((metadata flash).jsonLength.setWidth 16).toNat =
    (metadata flash).jsonLength.toNat := toNat_setWidth_16 (by omega)
  have hsum : ((metadata flash).jsonLength + padding (metadata flash).jsonLength).toNat =
      (metadata flash).jsonLength.toNat + (padding (metadata flash).jsonLength).toNat := by
    rw [BitVec.toNat_add]
    omega
  have hprogrammed : (moveJson flash).pages.toNat * 256 ≤ REGION_SIZE := by
    rw [hpages]
    split_ifs
    · omega
    · rw [Nat.zero_mul]
      exact Nat.zero_le _
  refine ⟨by omega, by omega, hsum, ?_, hlength, ?_, by omega, hprogrammed, fun i hi => ?_, ?_⟩
  · rw [hpages, hpage]
    split_ifs <;> omega
  · rw [looked, uploaded, List.length_map, List.length_range, hsum]
    omega
  · have hflash : (moveJson flash).flash = (flash.erase JSON_STORAGE_ADDRESS REGION_SIZE).program
      JSON_STORAGE_ADDRESS _ ((moveJson flash).pages.toNat * 256) := rfl
    rw [hflash, Flash.program_outside _ _ (by omega), Flash.erase_outside _ hi]
  · intro hstored
    by_cases hlong : 252 ≤ (metadata flash).jsonLength.toNat
    · rw [storedLength_of_long flash hfit hlong]
      omega
    · exact absurd (storedLength_of_short flash (by omega)) hstored

/-- **An accepted upload fits** exactly when its file has at most `JSON_LENGTH_MAX`
bytes: that it was accepted is no help. -/
theorem fits_iff {s : Checker} {flash : Flash} (_ : (checkJson s flash).2 = 1) :
    Fits flash ↔ (metadata flash).jsonLength.toNat ≤ JSON_LENGTH_MAX := by
  constructor
  · intro h
    have hupload := h.upload
    simp only [JSON_LENGTH_MAX]
    omega
  · exact fits_of_le

/-- `"{ }"` with a newline is accepted, and fits. -/
theorem fits_empty_object : Fits (imageOf [0x7B, 0x20, 0x7D, 0x0A]) :=
  (fits_iff (s := ⟨0, true⟩) (by decide +kernel)).2 (by decide +kernel)

/-- Metadata that ask for `0xFFFFFFFF` bytes, and zeros. -/
def wrapping : Flash := fun i =>
  if JSON_UPLOAD_ADDRESS + 8 ≤ i ∧ i < JSON_UPLOAD_ADDRESS + 12 then 0xFF else 0

/-- With the padding that is no byte at all to check, so it is accepted. -/
theorem not_fits_wrapping : (checkJson ⟨0, true⟩ wrapping).2 = 1 ∧ ¬Fits wrapping :=
  ⟨by decide +kernel, fun h => absurd h.upload (by decide +kernel)⟩

end Remora
