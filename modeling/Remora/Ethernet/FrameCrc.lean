/-
# The check sequence of a frame

`ethernet_frame_crc` of `w5x00_lwip.c`.  An octet goes in bit by bit: it is not
added to the register, but shifted down beside it, and each step tests the sum of
the two lowest bits.  The sum of the register and what is left of the octet is the
register of `crc32.h` (`Crc.semiconj_serialStep`), and after eight steps nothing of
the octet is left.  Both use one polynomial and complement at both ends, and a call of
`crc32::update` takes up where the call before has stopped, so the two agree on
every string, however it is cut (`foldl_update_eq_ethernetFrameCrc`).

A string stands for the pointer and the length: an `int` holds the length of every
object in memory.
-/

import Remora.Basis.Burst
import Remora.Upload.CheckJson

namespace Remora

open Basis

/-- `ethernet_polynomial_le` -/
def ethernetPolynomialLe : Word := 0xEDB88320

/-- One round of the loop over the bits: `crc` and `current_octet`. -/
def frameCrcBit (s : Word × Byte) : Word × Byte :=
  let (crc, currentOctet) := s
  (if (crc ^^^ currentOctet.setWidth 32) &&& 1#32 ≠ 0#32 then
      (crc >>> 1) ^^^ ethernetPolynomialLe
    else crc >>> 1, currentOctet >>> 1)

/-- `ethernet_frame_crc` -/
def ethernetFrameCrc (data : List Byte) : Word :=
  ~~~data.foldl (fun crc currentOctet => (frameCrcBit^[8] (crc, currentOctet)).1) 0xFFFFFFFF#32

theorem frameCrcBit_eq (s : Word × Byte) :
    frameCrcBit s = Crc.serialStep Crc32.polynomial s := by
  obtain ⟨crc, currentOctet⟩ := s
  have hbit : (crc ^^^ currentOctet.setWidth 32) &&& 1#32 ≠ 0#32 ↔
      (crc.getLsbD 0 ^^ currentOctet.getLsbD 0) = true := by
    rw [Crc32.and_one_ne_zero_iff, BitVec.getLsbD_xor, BitVec.getLsbD_setWidth]
    simp
  rw [frameCrcBit, Crc.serialStep]
  exact congrArg (·, currentOctet >>> 1) (if_congr hbit rfl rfl)

/-- **The bits of an octet are one step by table.** -/
theorem frameCrcBit_iterate_eight (crc : Word) (currentOctet : Byte) :
    (frameCrcBit^[8] (crc, currentOctet)).1 = Crc.byteStep Crc32.polynomial crc currentOctet := by
  rw [funext frameCrcBit_eq, Crc.serialStep_iterate_eight (by decide)]

/-- **The loops compute CRC-32.** -/
theorem ethernetFrameCrc_eq (data : List Byte) :
    ethernetFrameCrc data = Crc.crc32 data := by
  simp only [ethernetFrameCrc, frameCrcBit_iterate_eight, Crc32.polynomial_eq]
  rfl

/-- **The two implementations agree.**  Whatever the chunks, empty ones included,
folding `crc32::update` over them from zero gives what `ethernet_frame_crc` gives for
the string that they make up. -/
theorem foldl_update_eq_ethernetFrameCrc (chunks : List (List Byte)) :
    chunks.foldl (Crc32.update Crc32.generateTable) 0 = ethernetFrameCrc chunks.flatten := by
  calc chunks.foldl (Crc32.update Crc32.generateTable) 0
      = Crc32.update Crc32.generateTable 0 chunks.flatten := Crc32.foldl_update 0 chunks
    _ = Crc.crc32 chunks.flatten := Crc32.update_zero _
    _ = ethernetFrameCrc chunks.flatten := (ethernetFrameCrc_eq _).symm

/-- The check sequence, too, tells apart frames that differ within 32 consecutive bits. -/
theorem ethernetFrameCrc_ne_of_burst {p q : List Byte} (h : BurstApart 32 p q) :
    ethernetFrameCrc p ≠ ethernetFrameCrc q := by
  rw [ethernetFrameCrc_eq, ethernetFrameCrc_eq]
  exact Crc.checksum_ne_of_burst (by decide) (by decide) h

end Remora
