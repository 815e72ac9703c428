/-
# Reflected cyclic redundancy codes

A reflected CRC with polynomial `P` shifts its remainder right one bit at a time
and adds `P` when the bit shifted out is set (`bitStep`).  A byte is fed by
adding it to the low octet and shifting eight times (`byteStep`), a message byte
by byte (`feed`); `checksum` starts from all ones and complements at the end.

The step is linear in exclusive or (`bitStep_xor`), so eight steps of a word are
eight steps of its low octet together with the rest of the word moved down
(`bitStep_iterate_eight`): that is the table of 256 words.  An octet may also go in
bit by bit, beside the remainder (`serialStep_iterate_eight`).  When the top bit of `P` is
set, no step loses information (`bitStep_injective`), so the remainder a message
starts from can be told from the one it leaves (`feed_injective`).

CRC-32 is the checksum of the polynomial whose exponents below 32 are
`crc32Exponents`.
-/

import Remora.Basis.Octets
import Mathlib.Logic.Function.Iterate

namespace Basis
namespace Crc

variable {w : ℕ}

/-- One shift of the remainder. -/
def bitStep (P c : BitVec w) : BitVec w := if c.getLsbD 0 then P ^^^ (c >>> 1) else c >>> 1

/-- One byte: into the low octet, then eight shifts. -/
def byteStep (P c : BitVec w) (b : Byte) : BitVec w := (bitStep P)^[8] (c ^^^ b.setWidth w)

/-- A message, byte by byte. -/
def feed (P : BitVec w) : BitVec w → List Byte → BitVec w := List.foldl (byteStep P)

/-- The checksum of a message: from all ones, complemented. -/
def checksum (P : BitVec w) (bs : List Byte) : BitVec w := ~~~feed P (BitVec.allOnes w) bs

/-- The exponents of the polynomial of CRC-32, without the first, 32. -/
def crc32Exponents : List ℕ := [26, 23, 22, 16, 12, 11, 10, 8, 7, 5, 4, 2, 1, 0]

/-- The polynomial of CRC-32, reflected: bit `31 - e` stands for exponent `e`. -/
def crc32Polynomial : BitVec 32 := (crc32Exponents.map fun e => 1#32 <<< (31 - e)).foldr (· ||| ·) 0

/-- CRC-32 -/
def crc32 (bs : List Byte) : BitVec 32 := checksum crc32Polynomial bs

theorem bitStep_eq (P c : BitVec w) :
    bitStep P c = (c >>> 1) ^^^ (if c.getLsbD 0 then P else 0#w) := by
  unfold bitStep
  split_ifs
  · rw [BitVec.xor_comm]
  · simp

/-- **The step is linear in exclusive or.** -/
theorem bitStep_xor (P a b : BitVec w) : bitStep P (a ^^^ b) = bitStep P a ^^^ bitStep P b := by
  simp only [bitStep_eq, BitVec.getLsbD_xor, BitVec.ushiftRight_xor_distrib]
  apply BitVec.eq_of_getLsbD_eq
  intro i _
  cases a.getLsbD 0 <;> cases b.getLsbD 0 <;>
    simp only [BitVec.getLsbD_xor, Bool.xor_false, Bool.xor_true, Bool.not_false, Bool.not_true,
      Bool.false_eq_true, if_true, if_false, BitVec.getLsbD_zero] <;>
    cases (a >>> 1).getLsbD i <;> cases (b >>> 1).getLsbD i <;> cases P.getLsbD i <;> rfl

theorem bitStep_iterate_xor (P : BitVec w) (n : ℕ) (a b : BitVec w) :
    (bitStep P)^[n] (a ^^^ b) = (bitStep P)^[n] a ^^^ (bitStep P)^[n] b := by
  induction n generalizing a b with
  | zero => rfl
  | succ n ih => rw [Function.iterate_succ_apply, bitStep_xor, ih]; rfl

/-- Shifts that only drop clear bits are plain shifts. -/
theorem bitStep_iterate_of_low_clear (P : BitVec w) (n : ℕ) (c : BitVec w)
    (h : ∀ i < n, c.getLsbD i = false) : (bitStep P)^[n] c = c >>> n := by
  induction n with
  | zero => simp
  | succ n ih =>
      rw [Function.iterate_succ_apply', ih fun i hi => h i (by omega), bitStep_eq,
        BitVec.getLsbD_ushiftRight, Nat.add_zero, h n (by omega), BitVec.shiftRight_add]
      simp

/-- **Eight steps by table.**  The low octet goes through the steps, the rest of
the word moves down. -/
theorem bitStep_iterate_eight (P c : BitVec w) :
    (bitStep P)^[8] c = (bitStep P)^[8] (c &&& 255#w) ^^^ (c >>> 8) := by
  have hlow : ∀ i, (255#w).getLsbD i = decide (i < w ∧ i < 8) := by
    intro i
    rw [BitVec.getLsbD_ofNat, show (255 : ℕ) = 2 ^ 8 - 1 from rfl, Nat.testBit_two_pow_sub_one]
    simp
  have hsplit : c = (c &&& 255#w) ^^^ (c &&& ~~~255#w) := by
    refine BitVec.eq_of_getLsbD_eq fun i hi => ?_
    simp only [BitVec.getLsbD_xor, BitVec.getLsbD_and, BitVec.getLsbD_not, hi, decide_true]
    cases c.getLsbD i <;> cases (255#w).getLsbD i <;> rfl
  have hhigh : ∀ i < 8, (c &&& ~~~255#w).getLsbD i = false := by
    intro i hi
    rw [BitVec.getLsbD_and, BitVec.getLsbD_not, hlow]
    by_cases h : i < w <;> simp [h, hi]
  have hshift : (c &&& ~~~255#w) >>> 8 = c >>> 8 := by
    apply BitVec.eq_of_getLsbD_eq
    intro i _
    rw [BitVec.getLsbD_ushiftRight, BitVec.getLsbD_ushiftRight, BitVec.getLsbD_and,
      BitVec.getLsbD_not, hlow]
    by_cases h : 8 + i < w
    · simp [h]
    · simp [BitVec.getLsbD_of_ge c (8 + i) (by omega)]
  conv_lhs => rw [hsplit]
  rw [bitStep_iterate_xor, bitStep_iterate_of_low_clear P 8 _ hhigh, hshift]

/-- One shift of the remainder and of an octet that is still beside it: the two bits
shifted out decide together. -/
def serialStep (P : BitVec w) (s : BitVec w × Byte) : BitVec w × Byte :=
  (if s.1.getLsbD 0 ^^ s.2.getLsbD 0 then (s.1 >>> 1) ^^^ P else s.1 >>> 1, s.2 >>> 1)

theorem setWidth_ushiftRight (hw : 8 ≤ w) (b : Byte) (n : ℕ) :
    (b >>> n).setWidth w = b.setWidth w >>> n := by
  refine BitVec.eq_of_getLsbD_eq fun i hi => ?_
  rw [BitVec.getLsbD_setWidth, BitVec.getLsbD_ushiftRight, BitVec.getLsbD_ushiftRight,
    BitVec.getLsbD_setWidth]
  rcases Nat.lt_or_ge (n + i) w with hlt | hge
  · simp [hi, hlt]
  · simp [BitVec.getLsbD_of_ge b (n + i) (Nat.le_trans hw hge)]

/-- **The sum of the two is a remainder**: it shifts as one. -/
theorem semiconj_serialStep (hw : 8 ≤ w) (P : BitVec w) :
    Function.Semiconj (fun s : BitVec w × Byte => s.1 ^^^ s.2.setWidth w) (serialStep P)
      (bitStep P) := by
  rintro ⟨c, b⟩
  have hbit : (c ^^^ b.setWidth w).getLsbD 0 = (c.getLsbD 0 ^^ b.getLsbD 0) := by
    rw [BitVec.getLsbD_xor, BitVec.getLsbD_setWidth]
    simp [show 0 < w by omega]
  rw [bitStep_eq, hbit, BitVec.ushiftRight_xor_distrib, ← setWidth_ushiftRight hw]
  dsimp only [serialStep]
  split_ifs
  · rw [BitVec.xor_assoc, BitVec.xor_comm P, BitVec.xor_assoc]
  · simp

/-- Shifts move the octet down. -/
theorem serialStep_iterate_snd (P : BitVec w) (n : ℕ) (s : BitVec w × Byte) :
    ((serialStep P)^[n] s).2 = s.2 >>> n := by
  induction n with
  | zero => simp
  | succ n ih =>
      rw [Function.iterate_succ_apply', serialStep, ih, BitVec.shiftRight_add]

/-- **Eight shifts take in the octet**, as when it is added before the first. -/
theorem serialStep_iterate_eight (hw : 8 ≤ w) (P c : BitVec w) (b : Byte) :
    ((serialStep P)^[8] (c, b)).1 = byteStep P c b := by
  have hsum := (semiconj_serialStep hw P).iterate_right 8 (c, b)
  have hgone : b >>> 8 = 0#8 := BitVec.ushiftRight_eq_zero (Nat.le_refl 8)
  dsimp only at hsum
  rw [serialStep_iterate_snd, hgone, BitVec.setWidth_zero, BitVec.xor_zero] at hsum
  exact hsum

/-- **No step loses information** when the top bit of the polynomial is set: it
then shows whether the bit shifted out was. -/
theorem bitStep_injective {P : BitVec w} (hP : P.msb = true) :
    Function.Injective (bitStep P) := by
  intro a b h
  have hmsb : ∀ c : BitVec w, (bitStep P c).msb = c.getLsbD 0 := by
    intro c
    rw [bitStep_eq, BitVec.msb_xor, BitVec.msb_ushiftRight]
    cases c.getLsbD 0 <;> simp [hP]
  have h₀ : a.getLsbD 0 = b.getLsbD 0 := by rw [← hmsb, ← hmsb, h]
  have hs : a >>> 1 = b >>> 1 := by
    rw [bitStep_eq, bitStep_eq, h₀] at h
    exact (BitVec.xor_left_inj _).1 h
  apply BitVec.eq_of_getLsbD_eq
  rintro (_ | i) _
  · exact h₀
  · have := congrArg (fun v => v.getLsbD i) hs
    simpa [BitVec.getLsbD_ushiftRight, Nat.add_comm] using this

theorem byteStep_injective {P : BitVec w} (hP : P.msb = true) (b : Byte) :
    Function.Injective fun c => byteStep P c b := by
  intro a c h
  exact (BitVec.xor_left_inj _).1 ((bitStep_injective hP).iterate 8 h)

/-- **A message tells apart the remainders it starts from.** -/
theorem feed_injective {P : BitVec w} (hP : P.msb = true) (bs : List Byte) :
    Function.Injective fun c => feed P c bs := by
  induction bs with
  | nil => exact fun _ _ h => h
  | cons b bs ih => exact fun a c h => byteStep_injective hP b (ih h)

theorem feed_append (P c : BitVec w) (bs cs : List Byte) :
    feed P c (bs ++ cs) = feed P (feed P c bs) cs := List.foldl_append

end Crc
end Basis
