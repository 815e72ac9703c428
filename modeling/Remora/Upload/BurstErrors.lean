/-
# What the checksum of a configuration detects

The loop of `checkJson` is a reflected CRC of 32 bits (`Crc32.table_step`), so
two files that differ within 32 consecutive bits leave different checksums, and
one stored checksum cannot accept both.  The polynomial matters in one respect
only: its top bit is set.
-/

import Remora.Basis.Burst
import Remora.Upload.CheckJson

namespace Remora

open Basis

/-- The loop of `checkJson`: the payload goes through `crc32::update` byte by byte. -/
def crcLoop (crc32 : Word) (payload : List Byte) : Word :=
  payload.foldl (fun crc32 b => Crc32.update Crc32.generateTable crc32 [b]) crc32

/-- The uploaded file, without padding. -/
def payload (flash : Flash) : List Byte := uploaded flash (metadata flash).jsonLength.toNat

theorem crcLoop_zero (payload : List Byte) :
    crcLoop 0 payload = Crc.crc32 payload := by
  rw [crcLoop, foldl_update, Crc32.update_zero]

/-- A file whose length is a multiple of four is checked as it is. -/
theorem looked_of_dvd {flash : Flash} (h : 4 ∣ (metadata flash).jsonLength.toNat) :
    looked flash = payload flash := by
  have hpad : (padding (metadata flash).jsonLength).toNat = 0 := by
    rw [toNat_padding]
    omega
  have hlt := (metadata flash).jsonLength.isLt
  rw [looked, payload, BitVec.toNat_add, hpad, Nat.add_zero, Nat.mod_eq_of_lt hlt]

/-- What `checkJson` accepts carries the checksum of its loop. -/
theorem crcLoop_of_accepted {s : Checker} {flash : Flash} (h : (checkJson s flash).2 = 1) :
    crcLoop s.crc32 (looked flash) = (metadata flash).crc32 := by
  rw [checkJson_eq] at h
  split_ifs at h with hlen hcrc
  · rwa [crcLoop, foldl_update]
  all_goals simp at h

/-- **The checksum detects every burst of up to 32 bits.**  Two payloads that
differ within 32 consecutive bits leave different checksums, so `checkJson`, from
the accumulator zero, does not accept both under the same metadata. -/
theorem crcLoop_ne_of_burst {p q : List Byte} (h : BurstApart 32 p q) :
    crcLoop 0 p ≠ crcLoop 0 q ∧
      ∀ f g : Flash, metadata f = metadata g → 4 ∣ (metadata f).jsonLength.toNat →
        payload f = p → payload g = q → ∀ newJson newJson',
          ¬((checkJson ⟨0, newJson⟩ f).2 = 1 ∧ (checkJson ⟨0, newJson'⟩ g).2 = 1) := by
  have hne : crcLoop 0 p ≠ crcLoop 0 q := by
    rw [crcLoop_zero, crcLoop_zero]
    exact Crc.checksum_ne_of_burst (by decide) (by decide) h
  refine ⟨hne, ?_⟩
  rintro f g hmeta hdvd rfl rfl newJson newJson' ⟨hf, hg⟩
  have hf' := crcLoop_of_accepted hf
  have hg' := crcLoop_of_accepted hg
  rw [looked_of_dvd hdvd] at hf'
  rw [looked_of_dvd (hmeta ▸ hdvd)] at hg'
  exact hne (hf'.trans ((congrArg Metadata.crc32 hmeta).trans hg'.symm))

/-- The file `json` under the metadata of `image`. -/
def withPayload (image : Flash) (json : List Byte) : Flash := fun i =>
  if i < JSON_UPLOAD_ADDRESS + METADATA_LEN then image i
  else json.getD (i - (JSON_UPLOAD_ADDRESS + METADATA_LEN)) 0

theorem metadata_withPayload (image : Flash) (json : List Byte) :
    metadata (withPayload image json) = metadata image := by
  have hword : ∀ a, a + 4 ≤ METADATA_LEN →
      leWord (withPayload image json) (JSON_UPLOAD_ADDRESS + a) =
        leWord image (JSON_UPLOAD_ADDRESS + a) := fun a ha =>
    leWord_congr fun i hi => if_pos (by omega)
  have h₀ := hword 0 (by decide)
  have h₄ := hword 4 (by decide)
  have h₈ := hword 8 (by decide)
  rw [Nat.add_zero] at h₀
  rw [metadata, metadata, h₀, h₄, h₈]

/-- Five bits of `"{ }\n"`, over two bytes. -/
theorem crcLoop_ne_of_burst_five :
    crcLoop 0 [0x7B, 0x20, 0x7D, 0x0A] ≠ crcLoop 0 [0x7B, 0x60, 0x72, 0x0A] ∧
      ¬((checkJson ⟨0, true⟩ (imageOf [0x7B, 0x20, 0x7D, 0x0A])).2 = 1 ∧
        (checkJson ⟨0, true⟩ (withPayload (imageOf [0x7B, 0x20, 0x7D, 0x0A])
          [0x7B, 0x60, 0x72, 0x0A])).2 = 1) := by
  have h : BurstApart 32 [0x7B, 0x20, 0x7D, 0x0A] [0x7B, 0x60, 0x72, 0x0A] := by
    refine ⟨rfl, by decide, 0, fun i hi => ⟨Nat.zero_le _, ?_⟩⟩
    by_contra hge
    rw [List.getElem?_eq_none, List.getElem?_eq_none] at hi
    · exact hi rfl
    all_goals
      rw [length_bits]
      exact not_lt.1 hge
  refine ⟨(crcLoop_ne_of_burst h).1,
    (crcLoop_ne_of_burst h).2 _ _ (metadata_withPayload _ _).symm ?_ ?_ ?_ true true⟩
  all_goals decide +kernel

end Remora
