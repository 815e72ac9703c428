/-
# Storing the configuration and loading it

`moveJson` and `jsonFromFlash` of `remora.cpp`.  The storage region holds the
length of the file in its first word and the file behind it.  `moveJson` erases
the region, lays both out in an array of whole pages and programs the array;
after the reboot `jsonFromFlash` reads the word, and an erased word stands for
"nothing stored".

The number of pages is one more than the quotient when the quotient is positive.
So a file that fits one page with its length, up to 251 bytes, gets no page: the
array has no cell for the stores that follow, nothing is programmed, and the
next boot finds the default configuration (`strJson_of_short`).  From 252 bytes
on the round trip is exact (`roundTrip_iff`).

The array stands on the stack of core 0, so a store that misses it is one to the frames
behind it.  `moveJson` takes the length of the file from two bytes of the field, and the
number of pages from all four, in one byte (`inside_moveJson_iff`).
-/

import Remora.Upload.CheckJson

namespace Remora

open Basis

/-- `defaultConfig` -/
def defaultConfig : List Byte := DEFAULT_CONFIG.map (BitVec.ofNat 8)

/-- What `moveJson` leaves: the flash, the size of `data` in pages, and the indices
of `data` it has stored to. -/
structure Moved where
  flash : Flash
  pages : Byte
  stores : List ℕ

/-- Every store is one to a cell of `data`. -/
def Moved.InsideData (m : Moved) : Prop := ∀ i ∈ m.stores, i < m.pages.toNat * 256

instance (m : Moved) : Decidable m.InsideData :=
  inferInstanceAs (Decidable (∀ i ∈ m.stores, i < m.pages.toNat * 256))

/-- The stores to `data`: the length, then the file. -/
def dataStores (jsonLength : BitVec 16) (file : ℕ → Byte) : List (ℕ × Byte) :=
  [(0, jsonLength.setWidth 8), (1, (jsonLength >>> 8).setWidth 8)] ++
    (List.range jsonLength.toNat).map fun i => (i + 4, file i)

/-- An array of zeros after stores. -/
def dataOf (stores : List (ℕ × Byte)) : ℕ → Byte :=
  stores.foldl (fun data p => Function.update data p.1 p.2) fun _ => 0

/-- `moveJson` -/
def moveJson (flash : Flash) : Moved :=
  let jsonLength : BitVec 16 := (metadata flash).jsonLength.setWidth 16
  let flash := flash.erase JSON_STORAGE_ADDRESS REGION_SIZE
  let quotient := ((metadata flash).jsonLength + 4) / BitVec.ofNat 32 FLASH_PAGE_SIZE
  let pages : Byte := quotient.setWidth 8
  let pages := if quotient > 0 then pages + 1 else pages
  let stores := dataStores jsonLength fun i => flash (JSON_UPLOAD_ADDRESS + METADATA_LEN + i)
  { flash := flash.program JSON_STORAGE_ADDRESS (dataOf stores) (pages.toNat * 256)
    pages := pages
    stores := stores.map Prod.fst }

/-- `jsonFromFlash`: what it appends to `strJson`. -/
def jsonFromFlash (flash : Flash) (strJson : List Byte) : List Byte :=
  let jsonLength := leWord flash JSON_STORAGE_ADDRESS
  if jsonLength = 0xFFFFFFFF then strJson ++ defaultConfig
  else strJson ++ (List.range jsonLength.toNat).map fun i => flash (JSON_STORAGE_ADDRESS + 4 + i)

/-- The file uploaded is the file loaded after the reboot, when `strJson` is empty,
and no store misses the array. -/
structure RoundTrip (flash : Flash) : Prop where
  loaded : jsonFromFlash (moveJson flash).flash [] =
    uploaded flash (metadata flash).jsonLength.toNat
  inside : ∀ i ∈ (moveJson flash).stores, i < (moveJson flash).pages.toNat * 256

/-- Erasing the storage region does not touch the upload region. -/
theorem erase_storage_of_lt (flash : Flash) {i : ℕ} (h : i < JSON_STORAGE_ADDRESS) :
    flash.erase JSON_STORAGE_ADDRESS REGION_SIZE i = flash i :=
  Flash.erase_outside flash (by omega)

theorem metadata_erase (flash : Flash) :
    metadata (flash.erase JSON_STORAGE_ADDRESS REGION_SIZE) = metadata flash := by
  have hword : ∀ a, a + 4 ≤ JSON_STORAGE_ADDRESS →
      leWord (flash.erase JSON_STORAGE_ADDRESS REGION_SIZE) a = leWord flash a :=
    fun a ha => leWord_congr fun i hi => erase_storage_of_lt flash (by omega)
  rw [metadata, metadata, hword _ (by decide), hword _ (by decide), hword _ (by decide)]

/-- The page count, in one byte. -/
theorem toNat_pages (flash : Flash) :
    (moveJson flash).pages.toNat =
      if 256 ≤ ((metadata flash).jsonLength.toNat + 4) % 4294967296 then
        (((metadata flash).jsonLength.toNat + 4) % 4294967296 / 256 + 1) % 256
      else 0 := by
  set n := (metadata flash).jsonLength with hn
  have hquot : ((n + 4) / BitVec.ofNat 32 FLASH_PAGE_SIZE).toNat =
      (n.toNat + 4) % 4294967296 / 256 := by
    rw [BitVec.toNat_udiv, BitVec.toNat_add, show (4 : Word).toNat = 4 from rfl,
      show (BitVec.ofNat 32 FLASH_PAGE_SIZE).toNat = 256 from rfl]
  have hpos : (n + 4) / BitVec.ofNat 32 FLASH_PAGE_SIZE > 0 ↔
      256 ≤ (n.toNat + 4) % 4294967296 := by
    rw [gt_iff_lt, BitVec.lt_def, hquot, show (0 : Word).toNat = 0 from rfl]
    omega
  simp only [moveJson, metadata_erase, ← hn, hpos]
  split_ifs with h
  · rw [BitVec.toNat_add, BitVec.toNat_setWidth, hquot, show (1 : Byte).toNat = 1 from rfl]
    omega
  · rw [BitVec.toNat_setWidth, hquot]
    omega

/-- The page count of a file of `n` bytes. -/
theorem pages_moveJson (flash : Flash)
    (hfit : METADATA_LEN + (metadata flash).jsonLength.toNat ≤ REGION_SIZE) :
    (moveJson flash).pages.toNat =
      if 252 ≤ (metadata flash).jsonLength.toNat then
        ((metadata flash).jsonLength.toNat + 4) / 256 + 1
      else 0 := by
  simp only [METADATA_LEN, REGION_SIZE, FLASH_SECTOR_SIZE] at hfit
  rw [toNat_pages]
  split_ifs <;> omega

/-- The indices stored to. -/
theorem mem_stores (flash : Flash) {i : ℕ} :
    i ∈ (moveJson flash).stores ↔ i = 0 ∨ i = 1 ∨
      4 ≤ i ∧ i < (metadata flash).jsonLength.toNat % 65536 + 4 := by
  have hstores : (moveJson flash).stores = [0, 1] ++
      (List.range ((metadata flash).jsonLength.setWidth 16).toNat).map (· + 4) := by
    simp [moveJson, dataStores]
  rw [hstores, List.mem_append, List.mem_map, BitVec.toNat_setWidth]
  simp only [List.mem_cons, List.not_mem_nil, or_false, List.mem_range, or_assoc]
  refine or_congr_right (or_congr_right ⟨?_, fun h => ⟨i - 4, by omega, by omega⟩⟩)
  rintro ⟨j, hj, rfl⟩
  omega

/-- **Every store is inside the array** exactly when the file gets a page, and the length
in two bytes is below that of the most pages that one byte can count. -/
theorem inside_moveJson_iff (flash : Flash) :
    (moveJson flash).InsideData ↔ 252 ≤ (metadata flash).jsonLength.toNat ∧
      (metadata flash).jsonLength.toNat % 65536 < 65276 := by
  have hlt := (metadata flash).jsonLength.isLt
  have hpages := toNat_pages flash
  constructor
  · intro h
    have hfirst := h 0 ((mem_stores flash).2 (Or.inl rfl))
    have hlast : (metadata flash).jsonLength.toNat % 65536 ≠ 0 →
        (metadata flash).jsonLength.toNat % 65536 + 3 < (moveJson flash).pages.toNat * 256 :=
      fun hne => h _ ((mem_stores flash).2 (Or.inr (Or.inr ⟨by omega, by omega⟩)))
    split_ifs at hpages <;> omega
  · rintro ⟨hlong, hshort⟩ i hi
    rw [mem_stores] at hi
    rw [if_pos (by omega)] at hpages
    omega

/-- The length fits the two bytes it is stored in. -/
theorem toNat_setWidth_16 {n : Word} (h : n.toNat ≤ REGION_SIZE) :
    (n.setWidth 16).toNat = n.toNat := by
  simp only [REGION_SIZE, FLASH_SECTOR_SIZE] at h
  rw [BitVec.toNat_setWidth]
  omega

/-- Cell `k` of the array, once `n` bytes of the file are in it. -/
theorem foldl_update_range (data file : ℕ → Byte) (n k : ℕ) :
    ((List.range n).map fun i => (i + 4, file i)).foldl
        (fun data p => Function.update data p.1 p.2) data k =
      if 4 ≤ k ∧ k < n + 4 then file (k - 4) else data k := by
  induction n with
  | zero => rw [if_neg (by omega)]; rfl
  | succ n ih =>
      rw [List.range_succ, List.map_append, List.foldl_append, List.map_singleton,
        List.foldl_cons, List.foldl_nil]
      dsimp only
      by_cases hk : k = n + 4
      · rw [hk, Function.update_self, if_pos (by omega), Nat.add_sub_cancel]
      · rw [Function.update_of_ne hk, ih]
        exact if_congr (by omega) rfl rfl

/-- The bytes of a half word in a word. -/
theorem byteOf_setWidth (h : BitVec 16) :
    byteOf (h.setWidth 32) 0 = h.setWidth 8 ∧ byteOf (h.setWidth 32) 1 = (h >>> 8).setWidth 8 ∧
      byteOf (h.setWidth 32) 2 = 0 ∧ byteOf (h.setWidth 32) 3 = 0 := by
  refine ⟨?_, ?_, ?_, ?_⟩ <;> apply BitVec.eq_of_getLsbD_eq <;> intro i hi
  · simp [byteOf, hi, show i < 32 by omega]
  · simp [byteOf, hi, show 8 + i < 32 by omega]
  · simp only [byteOf, BitVec.getLsbD_extractLsb', BitVec.getLsbD_setWidth]
    rw [BitVec.getLsbD_of_ge h _ (by omega)]
    simp
  · simp only [byteOf, BitVec.getLsbD_extractLsb', BitVec.getLsbD_setWidth]
    rw [BitVec.getLsbD_of_ge h _ (by omega)]
    simp

/-- The cells of the array: the length in the first word, then the file. -/
theorem dataOf_dataStores (jsonLength : BitVec 16) (file : ℕ → Byte) (k : ℕ) :
    dataOf (dataStores jsonLength file) k =
      if k < 4 then byteOf (jsonLength.setWidth 32) k
      else if k < jsonLength.toNat + 4 then file (k - 4) else 0 := by
  obtain ⟨h0, h1, h2, h3⟩ := byteOf_setWidth jsonLength
  rw [dataOf, dataStores, List.foldl_append, foldl_update_range]
  by_cases hk : k < 4
  · rw [if_neg (by omega), if_pos hk]
    have hcases : k = 0 ∨ k = 1 ∨ k = 2 ∨ k = 3 := by omega
    rcases hcases with rfl | rfl | rfl | rfl
    · rw [h0]; rfl
    · rw [h1]; rfl
    · rw [h2]; rfl
    · rw [h3]; rfl
  · rw [if_neg hk]
    refine (if_congr (by omega) rfl ?_)
    simp only [List.foldl_cons, List.foldl_nil]
    rw [Function.update_of_ne (by omega), Function.update_of_ne (by omega)]

/-- **What is stored**: as many bytes of the array as there are pages. -/
theorem flash_moveJson (flash : Flash)
    (hfit : METADATA_LEN + (metadata flash).jsonLength.toNat ≤ REGION_SIZE) {k : ℕ}
    (hk : k < (moveJson flash).pages.toNat * 256) (hregion : k < REGION_SIZE) :
    (moveJson flash).flash (JSON_STORAGE_ADDRESS + k) =
      if k < 4 then byteOf (((metadata flash).jsonLength.setWidth 16).setWidth 32) k
      else if k < (metadata flash).jsonLength.toNat + 4 then
        flash (JSON_UPLOAD_ADDRESS + METADATA_LEN + (k - 4)) else 0 := by
  have hflash : (moveJson flash).flash = (flash.erase JSON_STORAGE_ADDRESS REGION_SIZE).program
    JSON_STORAGE_ADDRESS (dataOf (dataStores ((metadata flash).jsonLength.setWidth 16) fun i =>
      flash.erase JSON_STORAGE_ADDRESS REGION_SIZE (JSON_UPLOAD_ADDRESS + METADATA_LEN + i)))
    ((moveJson flash).pages.toNat * 256) := rfl
  rw [hflash, Flash.program_erased _ _ (by omega) (Flash.erase_inside flash (by omega)),
    Nat.add_sub_cancel_left, dataOf_dataStores, toNat_setWidth_16 (by omega)]
  split_ifs
  · rfl
  · -- the file is read after the erase, but it stands in the other region
    refine erase_storage_of_lt flash ?_
    have := upload_add_region
    omega
  · rfl

/-- The first word of the storage region, when the file gets no page. -/
theorem storedLength_of_short (flash : Flash) (h : (metadata flash).jsonLength.toNat < 252) :
    leWord (moveJson flash).flash JSON_STORAGE_ADDRESS = 0xFFFFFFFF := by
  have hfit : METADATA_LEN + (metadata flash).jsonLength.toNat ≤ REGION_SIZE := by
    simp only [METADATA_LEN, REGION_SIZE, FLASH_SECTOR_SIZE]
    omega
  have hpages := pages_moveJson flash hfit
  rw [if_neg (by omega)] at hpages
  have herased : ∀ i < 4, (moveJson flash).flash (JSON_STORAGE_ADDRESS + i) = 0xFF := by
    intro i hi
    have hflash : (moveJson flash).flash = (flash.erase JSON_STORAGE_ADDRESS REGION_SIZE).program
      JSON_STORAGE_ADDRESS _ ((moveJson flash).pages.toNat * 256) := rfl
    rw [hflash, hpages, Flash.program_outside _ _ (by omega)]
    exact Flash.erase_inside flash (by simp only [REGION_SIZE, FLASH_SECTOR_SIZE]; omega)
  calc leWord (moveJson flash).flash JSON_STORAGE_ADDRESS
      = leWord (fun _ => 0xFF) JSON_STORAGE_ADDRESS := leWord_congr herased
    _ = 0xFFFFFFFF := rfl

/-- **A short file is not stored**: the next boot finds the default configuration. -/
theorem strJson_of_short (flash : Flash) (h : (metadata flash).jsonLength.toNat < 252) :
    jsonFromFlash (moveJson flash).flash [] = defaultConfig := by
  rw [jsonFromFlash, if_pos (storedLength_of_short flash h), List.nil_append]

/-- The first word of the storage region, when the file gets its pages. -/
theorem storedLength_of_long (flash : Flash)
    (hfit : METADATA_LEN + (metadata flash).jsonLength.toNat ≤ REGION_SIZE)
    (h : 252 ≤ (metadata flash).jsonLength.toNat) :
    leWord (moveJson flash).flash JSON_STORAGE_ADDRESS = (metadata flash).jsonLength := by
  have hstored := fun k => flash_moveJson flash hfit (k := k)
  have hpages := pages_moveJson flash hfit
  rw [if_pos h] at hpages
  have hregion : REGION_SIZE = 32768 := rfl
  have hb : ∀ i < 4, (moveJson flash).flash (JSON_STORAGE_ADDRESS + i) =
      byteOf (((metadata flash).jsonLength.setWidth 16).setWidth 32) i := by
    intro i hi
    rw [hstored i (by omega) (by omega), if_pos hi]
  rw [leWord_of_byteOf hb]
  refine BitVec.eq_of_toNat_eq ?_
  rw [BitVec.toNat_setWidth, BitVec.toNat_setWidth]
  omega

/-- A file of 252 bytes or more fills the pages it is given, and is read back. -/
theorem roundTrip_of_long (flash : Flash)
    (hfit : METADATA_LEN + (metadata flash).jsonLength.toNat ≤ REGION_SIZE)
    (h : 252 ≤ (metadata flash).jsonLength.toNat) : RoundTrip flash := by
  have hstored := fun k => flash_moveJson flash hfit (k := k)
  have hpages := pages_moveJson flash hfit
  have hword := storedLength_of_long flash hfit h
  rw [if_pos h] at hpages
  set n := (metadata flash).jsonLength with hn
  have hsize : n.toNat + 4 < (moveJson flash).pages.toNat * 256 := by omega
  have hregion : REGION_SIZE = 32768 := rfl
  have hmeta : METADATA_LEN = 512 := rfl
  have hone : n ≠ 0xFFFFFFFF := by
    intro h
    have : n.toNat = 0xFFFFFFFF := by rw [h]; rfl
    omega
  constructor
  · rw [jsonFromFlash, hword, if_neg hone, List.nil_append, uploaded]
    refine List.map_congr_left fun i hi => ?_
    rw [List.mem_range] at hi
    rw [Nat.add_assoc, hstored (4 + i) (by omega) (by omega), if_neg (by omega),
      if_pos (by omega), Nat.add_sub_cancel_left]
  · exact (inside_moveJson_iff flash).2 ⟨h, by rw [← hn]; omega⟩

theorem length_defaultConfig : defaultConfig.length = 1282 := by
  rw [defaultConfig, List.length_map]
  decide +kernel

/-- **The configuration stored is the configuration loaded**, and no store misses
the array, exactly when the file has 252 bytes or more. -/
theorem roundTrip_iff (flash : Flash)
    (hfit : METADATA_LEN + (metadata flash).jsonLength.toNat ≤ REGION_SIZE) :
    RoundTrip flash ↔ 252 ≤ (metadata flash).jsonLength.toNat := by
  constructor
  · intro h
    by_contra hshort
    have hloaded := congrArg List.length h.loaded
    rw [strJson_of_short flash (by omega), length_defaultConfig, uploaded, List.length_map,
      List.length_range] at hloaded
    omega
  · exact roundTrip_of_long flash hfit

/-- A file of 252 blanks makes the round trip. -/
theorem roundTrip_blanks : RoundTrip (imageOf (List.replicate 252 0x20)) :=
  (roundTrip_iff _ (by decide +kernel)).2 (by decide +kernel)

/-- `"{ }"` with a newline is accepted, fits, and is lost. -/
theorem not_roundTrip_empty_object :
    (checkJson ⟨0, true⟩ (imageOf [0x7B, 0x20, 0x7D, 0x0A])).2 = 1 ∧
      METADATA_LEN + (metadata (imageOf [0x7B, 0x20, 0x7D, 0x0A])).jsonLength.toNat ≤ REGION_SIZE ∧
      ¬RoundTrip (imageOf [0x7B, 0x20, 0x7D, 0x0A]) := by
  refine ⟨by decide +kernel, by decide +kernel, fun h => ?_⟩
  have hloaded := congrArg List.length h.loaded
  rw [strJson_of_short _ (by decide +kernel), length_defaultConfig, uploaded, List.length_map,
    List.length_range] at hloaded
  exact absurd hloaded (by decide +kernel)

end Remora
