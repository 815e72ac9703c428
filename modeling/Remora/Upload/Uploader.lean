/-
# The uploader

`upload_config.py` builds the image that `checkJson` takes apart: 512 bytes of
metadata, of which twelve are used, and the file, filled up with zeros to a multiple
of four.  Both sides have to mean the same by it.  The script writes numbers a byte
at a time, the firmware reads them as little-endian words; the script computes
the checksum of the padded file in one call, the firmware works the padding out again
and feeds byte after byte through a table of its own.

`binascii.crc32` is the CRC-32 of its argument, `Crc.crc32` here.
-/

import Remora.Upload.MoveJson
import Mathlib.Data.List.GetD

namespace Remora

open Basis

namespace UploadConfig

/-- `x & 0xff` and so on: four bytes of a number, the least significant first. -/
def wordBytes (x : ℕ) : List Byte :=
  [x &&& 0xFF, (x >>> 8) &&& 0xFF, (x >>> 16) &&& 0xFF, (x >>> 24) &&& 0xFF].map (BitVec.ofNat 8)

/-- `config + bytes(padding)`, with `padding` for what is left over of the last word. -/
def padConfig (config : List Byte) : List Byte :=
  let mod := config.length % 4
  if mod > 0 then config ++ List.replicate (4 - mod) 0 else config

/-- `binascii.crc32(config)` -/
def binasciiCrc32 (config : List Byte) : ℕ := (Crc.crc32 config).toNat

/-- `bytes(metadata)`: the checksum, the length in words, the length in bytes. -/
def metadataBytes (config : List Byte) : List Byte :=
  let jsonLength := config.length
  let length := (jsonLength + 3) / 4
  wordBytes (binasciiCrc32 (padConfig config)) ++ wordBytes length ++ wordBytes jsonLength ++
    List.replicate 500 0

/-- `bytes(metadata) + config` -/
def image (config : List Byte) : List Byte := metadataBytes config ++ padConfig config

/-- The image stands in the upload region, with anything behind it. -/
def Holds (flash : Flash) (config : List Byte) : Prop :=
  ∀ i < (image config).length, flash (JSON_UPLOAD_ADDRESS + i) = (image config).getD i 0

@[simp] theorem length_wordBytes (x : ℕ) : (wordBytes x).length = 4 := rfl

theorem length_metadataBytes (config : List Byte) :
    (metadataBytes config).length = METADATA_LEN := by
  simp only [metadataBytes, List.length_append, length_wordBytes, List.length_replicate,
    METADATA_LEN]

theorem length_padConfig (config : List Byte) :
    (padConfig config).length = (config.length + 3) / 4 * 4 := by
  unfold padConfig
  dsimp only
  split_ifs
  · rw [List.length_append, List.length_replicate]
    omega
  · omega

theorem length_image (config : List Byte) :
    (image config).length = METADATA_LEN + (config.length + 3) / 4 * 4 := by
  rw [image, List.length_append, length_metadataBytes, length_padConfig]

/-- The padding is behind the file. -/
theorem take_padConfig (config : List Byte) : (padConfig config).take config.length = config := by
  unfold padConfig
  dsimp only
  split_ifs
  · exact List.take_left
  · exact List.take_length

/-- The bytes that the script writes are those of the word that the firmware reads. -/
theorem getD_wordBytes (x : ℕ) {i : ℕ} (hi : i < 4) :
    (wordBytes x).getD i 0 = byteOf (BitVec.ofNat 32 x) i := by
  have hbyte : ∀ k, k + 8 ≤ 32 →
      BitVec.ofNat 8 ((x >>> k) &&& 0xFF) = (BitVec.ofNat 32 x).extractLsb' k 8 := by
    intro k hk
    refine BitVec.eq_of_getLsbD_eq fun j hj => ?_
    rw [BitVec.getLsbD_ofNat, Nat.testBit_and, Nat.testBit_shiftRight,
      show (0xFF : ℕ) = 2 ^ 8 - 1 from rfl, Nat.testBit_two_pow_sub_one,
      BitVec.getLsbD_extractLsb', BitVec.getLsbD_ofNat]
    simp [hj, show k + j < 32 by omega]
  have hcases : i = 0 ∨ i = 1 ∨ i = 2 ∨ i = 3 := by omega
  rcases hcases with rfl | rfl | rfl | rfl
  · exact hbyte 0 (by omega)
  · exact hbyte 8 (by omega)
  · exact hbyte 16 (by omega)
  · exact hbyte 24 (by omega)

/-- A number written is a word read. -/
theorem leWord_of_wordBytes {flash : Flash} {a x : ℕ}
    (h : ∀ i < 4, flash (a + i) = (wordBytes x).getD i 0) : leWord flash a = BitVec.ofNat 32 x :=
  leWord_of_byteOf fun i hi => (h i hi).trans (getD_wordBytes x hi)

/-- The twelve bytes of metadata that are used. -/
theorem getD_metadataBytes (config : List Byte) {i : ℕ} (hi : i < 4) :
    (metadataBytes config).getD i 0 =
        (wordBytes (binasciiCrc32 (padConfig config))).getD i 0 ∧
      (metadataBytes config).getD (4 + i) 0 = (wordBytes ((config.length + 3) / 4)).getD i 0 ∧
      (metadataBytes config).getD (8 + i) 0 = (wordBytes config.length).getD i 0 := by
  have hcases : i = 0 ∨ i = 1 ∨ i = 2 ∨ i = 3 := by omega
  rcases hcases with rfl | rfl | rfl | rfl <;> exact ⟨rfl, rfl, rfl⟩

/-- The metadata of an image. -/
theorem metadata_of_holds {flash : Flash} {config : List Byte} (h : Holds flash config) :
    metadata flash =
      ⟨Crc.crc32 (padConfig config), BitVec.ofNat 32 ((config.length + 3) / 4),
        BitVec.ofNat 32 config.length⟩ := by
  have hbyte : ∀ i < METADATA_LEN,
      flash (JSON_UPLOAD_ADDRESS + i) = (metadataBytes config).getD i 0 := by
    intro i hi
    rw [h i (by rw [length_image]; omega), image,
      List.getD_append _ _ _ _ (by rw [length_metadataBytes]; exact hi)]
  have hlen : METADATA_LEN = 512 := rfl
  have hcrc : leWord flash JSON_UPLOAD_ADDRESS = _ := leWord_of_wordBytes fun i hi =>
    (hbyte i (by omega)).trans (getD_metadataBytes config hi).1
  have hlength : leWord flash (JSON_UPLOAD_ADDRESS + 4) = _ := leWord_of_wordBytes fun i hi => by
    rw [Nat.add_assoc]
    exact (hbyte (4 + i) (by omega)).trans (getD_metadataBytes config hi).2.1
  have hjson : leWord flash (JSON_UPLOAD_ADDRESS + 8) = _ := leWord_of_wordBytes fun i hi => by
    rw [Nat.add_assoc]
    exact (hbyte (8 + i) (by omega)).trans (getD_metadataBytes config hi).2.2
  rw [metadata, hcrc, hlength, hjson, binasciiCrc32, BitVec.ofNat_toNat, BitVec.setWidth_eq]

/-- The bytes behind the metadata are the padded file. -/
theorem uploaded_of_holds {flash : Flash} {config : List Byte} (h : Holds flash config) {n : ℕ}
    (hn : n ≤ (config.length + 3) / 4 * 4) : uploaded flash n = (padConfig config).take n := by
  have hlen : n ≤ (padConfig config).length := by rwa [length_padConfig]
  refine List.ext_getElem (by simp [uploaded, hlen]) fun i hi hi' => ?_
  have hin : i < n := by simpa [uploaded] using hi
  rw [List.getElem_take]
  simp only [uploaded, List.getElem_map, List.getElem_range]
  rw [Nat.add_assoc, h _ (by rw [length_image]; omega), image,
    List.getD_append_right _ _ _ _ (by rw [length_metadataBytes]; omega), length_metadataBytes,
    Nat.add_sub_cancel_left]
  exact List.getD_eq_getElem _ _ (by omega)

/-- The bytes of the file that `moveJson` copies, once it has erased the storage
region. -/
def moved (flash : Flash) : List Byte :=
  uploaded (flash.erase JSON_STORAGE_ADDRESS REGION_SIZE)
    ((metadata flash).jsonLength.setWidth 16).toNat

/-- What `moveJson` stores to `data`: the length, and those bytes. -/
theorem dataStores_moved (flash : Flash) :
    (dataStores ((metadata flash).jsonLength.setWidth 16) fun i =>
        flash.erase JSON_STORAGE_ADDRESS REGION_SIZE
          (JSON_UPLOAD_ADDRESS + METADATA_LEN + i)).map Prod.snd =
      [((metadata flash).jsonLength.setWidth 16).setWidth 8,
        ((metadata flash).jsonLength.setWidth 16 >>> 8).setWidth 8] ++ moved flash := by
  simp [dataStores, moved, uploaded]

section Accepted

variable {config : List Byte} (hfit : METADATA_LEN + (config.length + 3) / 4 * 4 ≤ REGION_SIZE)
  {flash : Flash} (h : Holds flash config)
include hfit h

/-- The length survives the word it is written in. -/
theorem jsonLength_of_holds : (metadata flash).jsonLength.toNat = config.length := by
  have hregion : REGION_SIZE = 32768 := rfl
  rw [metadata_of_holds h, BitVec.toNat_ofNat]
  omega

/-- The firmware works out the padding that the script has added. -/
theorem looked_of_holds : looked flash = padConfig config := by
  have hregion : REGION_SIZE = 32768 := rfl
  have hjson := jsonLength_of_holds hfit h
  have hwraps : ¬Wraps flash := by
    rw [Wraps, hjson]
    omega
  rw [looked_eq, if_neg hwraps, padded, hjson, uploaded_of_holds h (Nat.le_refl _),
    ← length_padConfig, List.take_length]

/-- The file is the first `jsonLength` bytes behind the metadata. -/
theorem uploaded_jsonLength_of_holds :
    uploaded flash (metadata flash).jsonLength.toNat = config := by
  rw [jsonLength_of_holds hfit h, uploaded_of_holds h (by omega), take_padConfig]

/-- **The firmware accepts what the uploader builds**, and sees the file in it. -/
theorem image_accepted (newJson : Bool) :
    (checkJson ⟨0, newJson⟩ flash).2 = 1 ∧
      uploaded flash (metadata flash).jsonLength.toNat = config ∧ moved flash = config := by
  have hregion : REGION_SIZE = 32768 := rfl
  have hmeta := metadata_of_holds h
  have hjson := jsonLength_of_holds hfit h
  have hfile := uploaded_jsonLength_of_holds hfit h
  have hlength : LengthOk flash := by
    rw [LengthOk, hmeta, BitVec.toNat_ofNat]
    omega
  refine ⟨?_, hfile, ?_⟩
  · rw [checkJson_eq, if_pos hlength, looked_of_holds hfit h, Crc32.update_zero]
    exact if_pos (by rw [hmeta])
  · have hstart := upload_add_region
    rw [moved, toNat_setWidth_16 (by omega)]
    refine Eq.trans (List.map_congr_left fun i hi => ?_) hfile
    rw [List.mem_range, hjson] at hi
    exact erase_storage_of_lt flash (by omega)

/-- **The file is the configuration of the next boot**, if it is long enough to be
given a page. -/
theorem loaded_of_holds (hlong : 252 ≤ config.length) :
    jsonFromFlash (moveJson flash).flash [] = config := by
  have hjson := jsonLength_of_holds hfit h
  have hround := roundTrip_of_long flash (by omega) (by omega)
  rw [hround.loaded]
  exact uploaded_jsonLength_of_holds hfit h

end Accepted

/-- `"{}"`, with `0xFF` behind its image. -/
theorem image_accepted_braces :
    (checkJson ⟨0, true⟩ fun i => (image [0x7B, 0x7D]).getD (i - JSON_UPLOAD_ADDRESS) 0xFF).2 = 1 :=
  (@image_accepted [0x7B, 0x7D] (by decide) _ (fun i hi => by
    rw [Nat.add_sub_cancel_left, List.getD_eq_getElem _ _ hi, List.getD_eq_getElem _ _ hi]) true).1

end UploadConfig
end Remora
