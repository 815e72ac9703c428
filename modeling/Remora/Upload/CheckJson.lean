/-
# Checking an uploaded configuration

`checkJson` of `remora.cpp` with `crc32.h`.  An image is what stands in flash
when it is called: the metadata at `JSON_UPLOAD_ADDRESS`, the file 512 bytes
further.  The checksum is kept in the file-level variable `crc32`, fed one byte
at a time through the table, complemented before and after each byte, and never
set back; so what is compared with the metadata is the CRC-32 of every image
looked at since boot (`Remembers`).

The remainder a CRC starts from can be told from the one it leaves, so an image
is checked as if it were the first exactly when the images before it have a
checksum of zero, or when it fails either way (`verdicts_iff`).
-/

import Remora.Basis.Crc
import Remora.Basis.Nor
import Remora.Basis.Run
import Remora.Configuration

namespace Remora

open Basis

/-- `metadata_t` -/
structure Metadata where
  crc32 : Word
  length : Word
  jsonLength : Word

/-- The metadata of the upload region. -/
def metadata (flash : Flash) : Metadata where
  crc32 := leWord flash JSON_UPLOAD_ADDRESS
  length := leWord flash (JSON_UPLOAD_ADDRESS + 4)
  jsonLength := leWord flash (JSON_UPLOAD_ADDRESS + 8)

/-- The first `n` bytes of the uploaded file. -/
def uploaded (flash : Flash) (n : ℕ) : List Byte :=
  (List.range n).map fun i => flash (JSON_UPLOAD_ADDRESS + METADATA_LEN + i)

namespace Crc32

/-- `polynomial` -/
def polynomial : Word := 0xEDB88320

/-- It is the polynomial of CRC-32. -/
theorem polynomial_eq : polynomial = Crc.crc32Polynomial := by decide

/-- `generate_table` -/
def generateTable (i : Byte) : Word :=
  (fun c : Word => if c &&& 1#32 ≠ 0#32 then polynomial ^^^ (c >>> 1) else c >>> 1)^[8]
    (i.setWidth 32)

/-- `update` -/
def update (table : Byte → Word) (initial : Word) (buf : List Byte) : Word :=
  let c := buf.foldl
    (fun c u => table (((c ^^^ u.setWidth 32) &&& 0xFF#32).setWidth 8) ^^^ (c >>> 8))
    (initial ^^^ 0xFFFFFFFF#32)
  c ^^^ 0xFFFFFFFF#32

/-- `c & 1` tests the lowest bit. -/
theorem and_one_ne_zero_iff (c : Word) : c &&& 1#32 ≠ 0#32 ↔ c.getLsbD 0 = true := by
  rw [BitVec.and_one_eq_setWidth_ofBool_getLsbD]
  cases c.getLsbD 0 <;> decide

theorem bitStep_polynomial (c : Word) :
    (if c &&& 1#32 ≠ 0#32 then polynomial ^^^ (c >>> 1) else c >>> 1) =
      Crc.bitStep polynomial c := by
  rw [Crc.bitStep]
  exact if_congr (and_one_ne_zero_iff c) rfl rfl

theorem generateTable_eq (i : Byte) :
    generateTable i = (Crc.bitStep polynomial)^[8] (i.setWidth 32) := by
  rw [generateTable]
  exact congrArg (fun f : Word → Word => f^[8] (i.setWidth 32)) (funext bitStep_polynomial)

/-- **The table step is the CRC step.** -/
theorem table_step (c : Word) (u : Byte) :
    generateTable (((c ^^^ u.setWidth 32) &&& 0xFF#32).setWidth 8) ^^^ (c >>> 8) =
      Crc.byteStep polynomial c u := by
  have hlow : (((c ^^^ u.setWidth 32) &&& 0xFF#32).setWidth 8).setWidth 32 =
      (c ^^^ u.setWidth 32) &&& 0xFF#32 := by
    refine BitVec.eq_of_toNat_eq ?_
    have hle : ((c ^^^ u.setWidth 32) &&& 0xFF#32).toNat ≤ 0xFF := by
      rw [BitVec.toNat_and]
      exact Nat.and_le_right
    rw [BitVec.toNat_setWidth, BitVec.toNat_setWidth]
    omega
  have hhigh : (c ^^^ u.setWidth 32) >>> 8 = c >>> 8 := by
    have hu : (u.setWidth 32 : Word) >>> 8 = 0#32 := by
      rw [← Crc.setWidth_ushiftRight (by decide), BitVec.ushiftRight_eq_zero (Nat.le_refl 8),
        BitVec.setWidth_zero]
    rw [BitVec.ushiftRight_xor_distrib, hu, BitVec.xor_zero]
  rw [generateTable_eq, hlow, Crc.byteStep,
    Crc.bitStep_iterate_eight polynomial (c ^^^ u.setWidth 32), hhigh]

theorem update_eq (crc : Word) (buf : List Byte) :
    update generateTable crc buf = ~~~Crc.feed polynomial (~~~crc) buf := by
  have hones : ∀ w : Word, w ^^^ 0xFFFFFFFF#32 = ~~~w := fun w => BitVec.xor_allOnes
  simp only [update, table_step, hones]
  rfl

/-- Updates chain. -/
theorem update_update (crc : Word) (buf buf' : List Byte) :
    update generateTable (update generateTable crc buf) buf' =
      update generateTable crc (buf ++ buf') := by
  rw [update_eq, update_eq, update_eq, BitVec.not_not, Crc.feed_append]

/-- **A message may come in any chunks.** -/
theorem foldl_update (crc : Word) (chunks : List (List Byte)) :
    chunks.foldl (update generateTable) crc = update generateTable crc chunks.flatten := by
  induction chunks generalizing crc with
  | nil =>
      rw [List.foldl_nil, List.flatten_nil, update_eq, Crc.feed, List.foldl_nil, BitVec.not_not]
  | cons chunk chunks ih => rw [List.foldl_cons, ih, update_update, List.flatten_cons]

/-- **From zero, an update is CRC-32.** -/
theorem update_zero (buf : List Byte) : update generateTable 0 buf = Crc.crc32 buf := by
  rw [update_eq, polynomial_eq]
  rfl

end Crc32

/-- The file-level variables of `checkJson`. -/
structure Checker where
  crc32 : Word
  newJson : Bool

/-- `padding`, to a multiple of four. -/
def padding (jsonLength : Word) : Word :=
  let mod := jsonLength % 4
  if mod > 0 then 4 - mod else 0

/-- `checkJson`: the variables and the result. -/
def checkJson (s : Checker) (flash : Flash) : Checker × ℤ :=
  let meta' := metadata flash
  if meta'.length.toNat > REGION_SIZE then ({ s with newJson := false }, -1)
  else
    -- the loop compares an `int` with an unsigned sum, so it runs the sum's 32 bits
    let crc32 := (uploaded flash (meta'.jsonLength + padding meta'.jsonLength).toNat).foldl
      (fun crc32 b => Crc32.update Crc32.generateTable crc32 [b]) s.crc32
    if crc32 ≠ meta'.crc32 then (⟨crc32, false⟩, -1) else (⟨crc32, false⟩, 1)

/-- The bytes that `checkJson` reads of the file. -/
def looked (flash : Flash) : List Byte :=
  uploaded flash ((metadata flash).jsonLength + padding (metadata flash).jsonLength).toNat

/-- The file and its padding to a multiple of four. -/
def padded (flash : Flash) : List Byte :=
  uploaded flash (((metadata flash).jsonLength.toNat + 3) / 4 * 4)

/-- The length field is within the bound. -/
def LengthOk (flash : Flash) : Prop := (metadata flash).length.toNat ≤ REGION_SIZE

instance (flash : Flash) : Decidable (LengthOk flash) := inferInstanceAs (Decidable (_ ≤ _))

/-- What a verdict should say of an image: its length field is within the bound
and its own checksum is the one stored with it. -/
def Sound (flash : Flash) : Prop :=
  LengthOk flash ∧ Crc.crc32 (padded flash) = (metadata flash).crc32

instance (flash : Flash) : Decidable (Sound flash) := inferInstanceAs (Decidable (_ ∧ _))

/-- The call says of the image what the image is. -/
def Verdict (s : Checker) (flash : Flash) : Prop := (checkJson s flash).2 = 1 ↔ Sound flash

instance (s : Checker) (flash : Flash) : Decidable (Verdict s flash) :=
  inferInstanceAs (Decidable (_ ↔ _))

theorem toNat_padding (n : Word) : (padding n).toNat = (4 - n.toNat % 4) % 4 := by
  have hmod : (n % 4).toNat = n.toNat % 4 := BitVec.toNat_umod
  have hzero : (0 : Word).toNat = 0 := rfl
  have hfour : (4 : Word).toNat = 4 := rfl
  have hpos : n % 4 > 0 ↔ 0 < n.toNat % 4 := by rw [gt_iff_lt, BitVec.lt_def, hmod, hzero]
  rw [padding]
  split_ifs with h
  · rw [hpos] at h
    rw [BitVec.toNat_sub, hmod, hfour]
    omega
  · rw [hpos] at h
    rw [hzero]
    omega

/-- The length of the padded file does not fit 32 bits. -/
def Wraps (flash : Flash) : Prop := 0x100000000 ≤ ((metadata flash).jsonLength.toNat + 3) / 4 * 4

instance (flash : Flash) : Decidable (Wraps flash) := inferInstanceAs (Decidable (_ ≤ _))

theorem looked_eq (flash : Flash) : looked flash = if Wraps flash then [] else padded flash := by
  have hlt := (metadata flash).jsonLength.isLt
  rw [looked, padded, BitVec.toNat_add, toNat_padding]
  split_ifs with h
  · rw [Wraps] at h
    rw [show ((metadata flash).jsonLength.toNat + (4 - (metadata flash).jsonLength.toNat % 4) % 4) %
      2 ^ 32 = 0 by omega]
    rfl
  · rw [Wraps] at h
    congr 1
    omega

/-- The loop takes the bytes as chunks of one. -/
theorem foldl_update (crc : Word) (buf : List Byte) :
    buf.foldl (fun crc b => Crc32.update Crc32.generateTable crc [b]) crc =
      Crc32.update Crc32.generateTable crc buf := by
  have hchunks := Crc32.foldl_update crc (buf.map fun b => [b])
  rwa [List.foldl_map, ← List.flatMap_def, List.flatMap_singleton'] at hchunks

/-- **What `checkJson` does**: it goes on with the checksum where it stood. -/
theorem checkJson_eq (s : Checker) (flash : Flash) :
    checkJson s flash =
      if LengthOk flash then
        (⟨Crc32.update Crc32.generateTable s.crc32 (looked flash), false⟩,
          if Crc32.update Crc32.generateTable s.crc32 (looked flash) = (metadata flash).crc32
            then 1 else -1)
      else ({ s with newJson := false }, -1) := by
  simp only [checkJson, foldl_update, gt_iff_lt, ← not_le, ite_not]
  by_cases hlen : LengthOk flash
  · rw [if_pos hlen, if_pos (show _ ≤ _ from hlen), looked]
    split_ifs <;> rfl
  · rw [if_neg hlen, if_neg (show ¬_ ≤ _ from hlen)]

/-- The bytes looked at since boot. -/
def remember (_ : Checker) (flash : Flash) (seen : List Byte) : List Byte :=
  if LengthOk flash then seen ++ looked flash else seen

/-- The checksum kept is that of everything looked at since boot. -/
def Remembers (s : Checker × List Byte) : Prop :=
  s.1.crc32 = Crc.crc32 s.2

/-- One call of `checkJson`. -/
def checkStep (s : Checker) (flash : Flash) : Checker := (checkJson s flash).1

theorem remembers_step {s : Checker × List Byte} (h : Remembers s) (flash : Flash) :
    Remembers (watch checkStep remember s flash) := by
  rw [Remembers] at h ⊢
  rw [watch_fst, watch_snd, checkStep, checkJson_eq, remember]
  by_cases hlen : LengthOk flash
  · rw [if_pos hlen, if_pos hlen]
    dsimp only
    rw [h, ← Crc32.update_zero, ← Crc32.update_zero, Crc32.update_update]
  · rw [if_neg hlen, if_neg hlen]
    exact h

/-- What was seen before is not in the way: it has a checksum of zero, or the
image fails with it and without it. -/
def Fresh (s : Checker × List Byte) (flash : Flash) : Prop :=
  LengthOk flash →
    (if Wraps flash then
        Crc.crc32 s.2 = Crc.crc32 (padded flash)
      else Crc.crc32 s.2 = 0) ∨
    (metadata flash).crc32 ≠ Crc.crc32 (padded flash) ∧
    (metadata flash).crc32 ≠ Crc.crc32 (s.2 ++ looked flash)

/-- **Only a checksum of zero is without effect on what follows.** -/
theorem checksum_append_eq_iff (seen bs : List Byte) :
    Crc.crc32 (seen ++ bs) = Crc.crc32 bs ↔
      Crc.crc32 seen = 0 := by
  have hinj := Crc.feed_injective (P := Crc.crc32Polynomial) (by decide) bs
  rw [Crc.crc32, Crc.crc32, Crc.crc32, Crc.checksum, Crc.checksum, Crc.checksum, BitVec.not_inj,
    Crc.feed_append]
  constructor
  · intro h
    rw [hinj h]
    rfl
  · intro h
    rw [← BitVec.not_not (b := Crc.feed _ _ seen), h]
    rfl

theorem verdict_iff {s : Checker × List Byte} (h : Remembers s) (flash : Flash) :
    Verdict s.1 flash ↔ Fresh s flash := by
  rw [Verdict, Sound, Fresh, checkJson_eq]
  by_cases hlen : LengthOk flash
  · have hcrc : Crc32.update Crc32.generateTable s.1.crc32 (looked flash) =
        Crc.crc32 (s.2 ++ looked flash) := by
      rw [h, ← Crc32.update_zero, ← Crc32.update_zero, Crc32.update_update]
    have hsame : (if Wraps flash then
          Crc.crc32 s.2 = Crc.crc32 (padded flash)
        else Crc.crc32 s.2 = 0) ↔
        Crc.crc32 (s.2 ++ looked flash) =
          Crc.crc32 (padded flash) := by
      rw [looked_eq]
      split_ifs
      · rw [List.append_nil]
      · exact (checksum_append_eq_iff _ _).symm
    rw [hsame]
    simp only [hlen, if_true, true_and, true_implies, hcrc]
    generalize Crc.crc32 (s.2 ++ looked flash) = a
    generalize Crc.crc32 (padded flash) = b
    generalize (metadata flash).crc32 = c
    by_cases hac : a = c <;> by_cases hbc : b = c <;> simp_all [eq_comm]
  · simp [hlen]

/-- **A verdict depends on the image alone**, for every sequence of images since
boot, exactly when none that passes, or would pass, comes after images whose
checksum is not zero. -/
theorem verdicts_iff (newJson : Bool) (images : List Flash) :
    Along checkStep Verdict ⟨0, newJson⟩ images ↔
      Along (watch checkStep remember) Fresh (⟨0, newJson⟩, []) images := by
  rw [← along_watch checkStep remember Verdict (⟨0, newJson⟩, [])]
  have hstart : Remembers (⟨0, newJson⟩, []) :=
    show 0 = Crc.crc32 [] by decide
  exact along_iff_along (I := Remembers) (fun _ flash h => verdict_iff h flash)
    (fun _ flash h _ => remembers_step h flash) hstart images

/-- An upload region that holds a file, with its own checksum. -/
def imageOf (json : List Byte) : Flash := fun i =>
  let word (w : Word) (a : ℕ) : Byte := byteOf w (i - (JSON_UPLOAD_ADDRESS + a))
  if i < JSON_UPLOAD_ADDRESS + 4 then word (Crc.crc32 json) 0
  else if i < JSON_UPLOAD_ADDRESS + 8 then word (BitVec.ofNat 32 (json.length / 4)) 4
  else if i < JSON_UPLOAD_ADDRESS + 12 then word (BitVec.ofNat 32 json.length) 8
  else json.getD (i - (JSON_UPLOAD_ADDRESS + METADATA_LEN)) 0

/-- An image of `"{ }"` with a newline whose first byte is wrong, and one that is right:
both are refused. -/
theorem not_verdicts :
    ¬Along checkStep Verdict ⟨0, true⟩
      [Function.update (imageOf [0x7B, 0x20, 0x7D, 0x0A]) (JSON_UPLOAD_ADDRESS + METADATA_LEN) 0,
        imageOf [0x7B, 0x20, 0x7D, 0x0A]] := by
  decide +kernel

end Remora
