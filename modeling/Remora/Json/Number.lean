/-
# Numbers in a configuration

`parseNumber` of ArduinoJson, on the string that `parseNumericValue` has put together.

An integer below `2 ^ 64` is exact, whatever zeros stand before it
(`parseNumber_digits`).  Everything else becomes a `double`, put together from a
mantissa and a power of ten; that arithmetic is kept as it stands in the source
(`JsonFloat.scaled`), with the one thing about it that could go wrong: `make_float`
takes the power from a table of nine factors, by the bits of the exponent.  A token has
at most 63 characters, and none of them leads past the table (`parseNumber_isSome`).
-/

import Remora.Basis.Octets

namespace Remora
namespace Json

open Basis

/-- A `double`. -/
inductive JsonFloat where
  | nan
  | inf (negative : Bool)
  | zero (negative : Bool)
  /-- `make_float` of a mantissa and an exponent. -/
  | scaled (negative : Bool) (mantissa : BitVec 64) (exponent : ℤ)
deriving DecidableEq

/-- `ParsedNumber` -/
inductive ParsedNumber where
  | null
  | negativeInteger (uintValue : BitVec 64)
  | positiveInteger (uintValue : BitVec 64)
  | float (floatValue : JsonFloat)
deriving DecidableEq

/-- `maxUint` -/
def maxUint : BitVec 64 := BitVec.allOnes 64

/-- `FloatTraits<double>::mantissa_max` -/
def mantissaMax : BitVec 64 := (1#64 <<< 52) - 1

/-- `FloatTraits<double>::exponent_max` -/
def exponentMax : ℤ := 308

/-- The number of factors in a table of `FloatTraits<double>`. -/
def POWERS : ℕ := 9

/-- `isdigit` -/
def isdigit (c : Byte) : Bool := 0x30 ≤ c ∧ c ≤ 0x39

/-- `uint8_t(*s - '0')` -/
def digit (c : Byte) : Byte := c - 0x30

/-- The loop over the digits in front: the mantissa, and where the loop stops. -/
def mantissaLoop : List Byte → BitVec 64 → BitVec 64 × List Byte
  | [], mantissa => (mantissa, [])
  | c :: s, mantissa =>
      if isdigit c then
        let digit := (digit c).setWidth 64
        if mantissa > maxUint / 10 then (mantissa, c :: s)
        else
          let mantissa := mantissa * 10
          if mantissa > maxUint - digit then (mantissa, c :: s)
          else mantissaLoop s (mantissa + digit)
      else (mantissa, c :: s)

/-- The loop that avoids an overflow of the mantissa; four rounds are enough. -/
def shrinkLoop : ℕ → BitVec 64 → ℤ → BitVec 64 × ℤ
  | 0, mantissa, exponentOffset => (mantissa, exponentOffset)
  | rounds + 1, mantissa, exponentOffset =>
      if mantissa > mantissaMax then shrinkLoop rounds (mantissa / 10) (exponentOffset + 1)
      else (mantissa, exponentOffset)

/-- The loop over the digits that do not fit in the mantissa. -/
def remainingLoop : List Byte → ℤ → ℤ × List Byte
  | [], exponentOffset => (exponentOffset, [])
  | c :: s, exponentOffset =>
      if isdigit c then remainingLoop s (exponentOffset + 1) else (exponentOffset, c :: s)

/-- The loop over the digits behind the point. -/
def fractionLoop : List Byte → BitVec 64 → ℤ → BitVec 64 × ℤ × List Byte
  | [], mantissa, exponentOffset => (mantissa, exponentOffset, [])
  | c :: s, mantissa, exponentOffset =>
      if isdigit c then
        if mantissa < mantissaMax / 10 then
          fractionLoop s (mantissa * 10 + (digit c).setWidth 64) (exponentOffset - 1)
        else fractionLoop s mantissa exponentOffset
      else (mantissa, exponentOffset, c :: s)

/-- The loop over the digits of the exponent; `none` when it is too large. -/
def exponentLoop (exponentOffset : ℤ) : List Byte → ℤ → Option (ℤ × List Byte)
  | [], exponent => some (exponent, [])
  | c :: s, exponent =>
      if isdigit c then
        let exponent := exponent * 10 + (digit c).toNat
        if exponent + exponentOffset > exponentMax then none
        else exponentLoop exponentOffset s exponent
      else some (exponent, c :: s)

/-- The factors that `make_float` takes from its table: the bits of the exponent. -/
def powerIndices : ℕ → ℕ → ℕ → List ℕ
  | 0, _, _ => []
  | fuel + 1, index, e =>
      if e = 0 then []
      else (if e % 2 = 1 then [index] else []) ++ powerIndices fuel (index + 1) (e / 2)

/-- `make_float`; `none` is a read past the table. -/
def makeFloat (negative : Bool) (mantissa : BitVec 64) (exponent : ℤ) : Option JsonFloat :=
  if ∀ index ∈ powerIndices 32 0 exponent.natAbs, index < POWERS then
    some (.scaled negative mantissa exponent)
  else none

/-- A sign, and what follows it. -/
def sign : List Byte → Bool × List Byte
  | [] => (false, [])
  | c :: s => if c = 0x2D then (true, s) else if c = 0x2B then (false, s) else (false, c :: s)

/-- The fraction, if there is one. -/
def fraction (s : List Byte) (mantissa : BitVec 64) (exponentOffset : ℤ) :
    BitVec 64 × ℤ × List Byte :=
  if s.headD 0 = 0x2E then fractionLoop s.tail mantissa exponentOffset
  else (mantissa, exponentOffset, s)

/-- The end of the string should be reached, otherwise it is an error. -/
def finishFloat (negative : Bool) (mantissa : BitVec 64) (exponent : ℤ) (s : List Byte) :
    Option ParsedNumber :=
  if s ≠ [] then some .null else (makeFloat negative mantissa exponent).map .float

/-- `parseNumber` from the exponent on. -/
def parseExponent (negative : Bool) (mantissa : BitVec 64) (exponentOffset : ℤ)
    (s : List Byte) : Option ParsedNumber :=
  if s.headD 0 = 0x65 ∨ s.headD 0 = 0x45 then
    let negativeExponent := (sign s.tail).1
    match exponentLoop exponentOffset (sign s.tail).2 0 with
    | none => some (.float (if negativeExponent then .zero negative else .inf negative))
    | some (exponent, s) =>
        let exponent := if negativeExponent then -exponent else exponent
        finishFloat negative mantissa (exponent + exponentOffset) s
  else finishFloat negative mantissa exponentOffset s

/-- `parseNumber` from the end of the mantissa on. -/
def parseFloat (negative : Bool) (s : List Byte) (mantissa : BitVec 64) : Option ParsedNumber :=
  let shrunk := shrinkLoop 4 mantissa 0
  let remaining := remainingLoop s shrunk.2
  let r := fraction remaining.2 shrunk.1 remaining.1
  parseExponent negative r.1 r.2.1 r.2.2

/-- `parseNumber`; `none` is undefined behaviour. -/
def parseNumber (s : List Byte) : Option ParsedNumber :=
  let (negative, s) := sign s
  let c := s.headD 0
  if c = 0x6E ∨ c = 0x4E then some (.float .nan)
  else if c = 0x69 ∨ c = 0x49 then some (.float (.inf negative))
  else if isdigit c = false ∧ c ≠ 0x2E then some .null
  else
    let (mantissa, s) := mantissaLoop s 0
    if s = [] then
      some (if negative then .negativeInteger mantissa else .positiveInteger mantissa)
    else parseFloat negative s mantissa

/-- The value of a string of digits. -/
def digitsValue (ds : List Byte) : ℕ := ds.foldl (fun n c => n * 10 + (digit c).toNat) 0

theorem toNat_digit {c : Byte} (h : isdigit c = true) : (digit c).toNat < 10 := by
  rw [isdigit, decide_eq_true_iff, BitVec.le_def, BitVec.le_def] at h
  have hlo : (0x30 : Byte).toNat = 48 := rfl
  have hhi : (0x39 : Byte).toNat = 57 := rfl
  rw [digit, BitVec.toNat_sub]
  omega

theorem toNat_setWidth_digit (c : Byte) : ((digit c).setWidth 64).toNat = (digit c).toNat := by
  have hlt := (digit c).isLt
  rw [BitVec.toNat_setWidth]
  omega

/-- A value only grows with the digits behind it. -/
theorem le_foldl_digits (ds : List Byte) (n : ℕ) :
    n ≤ ds.foldl (fun n c => n * 10 + (digit c).toNat) n := by
  induction ds generalizing n with
  | nil => exact Nat.le_refl _
  | cons c ds ih => exact Nat.le_trans (by omega) (ih (n * 10 + (digit c).toNat))

/-- **The mantissa of an integer** that fits is the integer. -/
theorem mantissaLoop_digits {ds : List Byte} (hds : ∀ c ∈ ds, isdigit c = true)
    (mantissa : BitVec 64)
    (hfits : ds.foldl (fun n c => n * 10 + (digit c).toNat) mantissa.toNat < 1 <<< 64) :
    mantissaLoop ds mantissa = (BitVec.ofNat 64
      (ds.foldl (fun n c => n * 10 + (digit c).toNat) mantissa.toNat), []) := by
  induction ds generalizing mantissa with
  | nil => simp [mantissaLoop]
  | cons c ds ih =>
      have hc := hds c (List.mem_cons_self ..)
      have hdigit := toNat_digit hc
      have hwide := toNat_setWidth_digit c
      rw [List.foldl_cons] at hfits ⊢
      have hnext := Nat.lt_of_le_of_lt (le_foldl_digits ds _) hfits
      rw [Nat.one_shiftLeft] at hnext
      have hmax : maxUint.toNat = 2 ^ 64 - 1 := by decide
      have hten : (10 : BitVec 64).toNat = 10 := rfl
      have hprod : (mantissa * 10).toNat = mantissa.toNat * 10 := by
        rw [BitVec.toNat_mul, hten, Nat.mod_eq_of_lt (by omega)]
      have hsum : (mantissa * 10 + (digit c).setWidth 64).toNat =
          mantissa.toNat * 10 + (digit c).toNat := by
        rw [BitVec.toNat_add, hprod, hwide, Nat.mod_eq_of_lt hnext]
      have hfirst : ¬mantissa > maxUint / 10 := by
        rw [gt_iff_lt, BitVec.lt_def, BitVec.toNat_udiv, hmax, hten]
        omega
      have hsecond : ¬mantissa * 10 > maxUint - (digit c).setWidth 64 := by
        rw [gt_iff_lt, BitVec.lt_def, hprod, BitVec.toNat_sub_of_le (by
          rw [BitVec.le_def, hwide, hmax]
          omega), hmax, hwide]
        omega
      have hrest := ih (fun c hc => hds c (List.mem_cons_of_mem _ hc))
        (mantissa * 10 + (digit c).setWidth 64) (by rwa [hsum])
      rw [hsum] at hrest
      rw [mantissaLoop, if_pos hc]
      dsimp only
      rw [if_neg hfirst, if_neg hsecond, hrest]

theorem digit_ne {c : Byte} (h : isdigit c = true) :
    c ≠ 0x2D ∧ c ≠ 0x2B ∧ c ≠ 0x6E ∧ c ≠ 0x4E ∧ c ≠ 0x69 ∧ c ≠ 0x49 := by
  refine ⟨?_, ?_, ?_, ?_, ?_, ?_⟩ <;> rintro rfl <;> exact absurd h (by decide)

/-- **Integers are exact.** -/
theorem parseNumber_digits {ds : List Byte} (hne : ds ≠ []) (hds : ∀ c ∈ ds, isdigit c = true)
    (hfits : digitsValue ds < 1 <<< 64) :
    parseNumber ds = some (.positiveInteger (BitVec.ofNat 64 (digitsValue ds))) ∧
      parseNumber (0x2D :: ds) = some (.negativeInteger (BitVec.ofNat 64 (digitsValue ds))) := by
  cases ds with
  | nil => exact absurd rfl hne
  | cons c ds =>
      have hc := hds c (List.mem_cons_self ..)
      obtain ⟨hminus, hplus, hn, hN, hi, hI⟩ := digit_ne hc
      have hnan : ¬(c = 0x6E ∨ c = 0x4E) := not_or.2 ⟨hn, hN⟩
      have hinf : ¬(c = 0x69 ∨ c = 0x49) := not_or.2 ⟨hi, hI⟩
      have hnumber : ¬(isdigit c = false ∧ c ≠ 0x2E) := fun h => by
        rw [hc] at h
        cases h.1
      have hmantissa := mantissaLoop_digits hds 0 hfits
      have hsign : sign (c :: ds) = (false, c :: ds) := by rw [sign, if_neg hminus, if_neg hplus]
      have hnegative : sign (0x2D :: c :: ds) = (true, c :: ds) := by rw [sign, if_pos rfl]
      constructor
      · rw [parseNumber, hsign]
        dsimp only
        rw [List.headD_cons, if_neg hnan, if_neg hinf, if_neg hnumber, hmantissa]
        rfl
      · rw [parseNumber, hnegative]
        dsimp only
        rw [List.headD_cons, if_neg hnan, if_neg hinf, if_neg hnumber, hmantissa]
        rfl

/-! The exponents that a token can lead to. -/

/-- An exponent of `k` bits takes only the first `k` factors. -/
theorem lt_of_mem_powerIndices {fuel index e k : ℕ} (h : e < 1 <<< k) :
    ∀ i ∈ powerIndices fuel index e, i < index + k := by
  induction fuel generalizing index e k with
  | zero => exact fun i hi => (by cases hi)
  | succ fuel ih =>
      intro i hi
      rw [powerIndices] at hi
      by_cases hzero : e = 0
      · rw [if_pos hzero] at hi
        cases hi
      · rw [if_neg hzero] at hi
        cases k with
        | zero =>
            rw [Nat.shiftLeft_zero] at h
            omega
        | succ k =>
            have hhalf : e / 2 < 1 <<< k := by
              rw [Nat.shiftLeft_succ] at h
              omega
            rcases List.mem_append.1 hi with hi | hi
            · split_ifs at hi
              · rw [List.mem_singleton.1 hi]
                omega
              · cases hi
            · have := ih hhalf i hi
              omega

theorem makeFloat_isSome (negative : Bool) (mantissa : BitVec 64) {exponent : ℤ}
    (hlo : -512 < exponent) (hhi : exponent < 512) :
    (makeFloat negative mantissa exponent).isSome = true := by
  have hbits : exponent.natAbs < 1 <<< POWERS := by
    rw [show 1 <<< POWERS = 512 from rfl]
    omega
  rw [makeFloat, if_pos fun i hi => by
    have := lt_of_mem_powerIndices hbits i hi
    omega]
  rfl

theorem shrinkLoop_offset (rounds : ℕ) (mantissa : BitVec 64) (e : ℤ) :
    e ≤ (shrinkLoop rounds mantissa e).2 ∧ (shrinkLoop rounds mantissa e).2 ≤ e + rounds := by
  induction rounds generalizing mantissa e with
  | zero => exact ⟨Int.le_refl _, by simp [shrinkLoop]⟩
  | succ rounds ih =>
      rw [shrinkLoop]
      split_ifs
      · have := ih (mantissa / 10) (e + 1)
        omega
      · exact ⟨Int.le_refl _, by dsimp only; omega⟩

theorem remainingLoop_offset (s : List Byte) (e : ℤ) :
    e ≤ (remainingLoop s e).1 ∧
      (remainingLoop s e).1 + (remainingLoop s e).2.length ≤ e + s.length := by
  induction s generalizing e with
  | nil => exact ⟨Int.le_refl _, Int.le_refl _⟩
  | cons c s ih =>
      rw [remainingLoop]
      split_ifs
      · have := ih (e + 1)
        rw [List.length_cons]
        omega
      · exact ⟨Int.le_refl _, Int.le_refl _⟩

theorem fractionLoop_offset (s : List Byte) (mantissa : BitVec 64) (e : ℤ) :
    e - s.length ≤ (fractionLoop s mantissa e).2.1 ∧ (fractionLoop s mantissa e).2.1 ≤ e := by
  induction s generalizing mantissa e with
  | nil => exact ⟨by simp [fractionLoop], Int.le_refl _⟩
  | cons c s ih =>
      rw [fractionLoop, List.length_cons]
      split_ifs
      · have := ih (mantissa * 10 + (digit c).setWidth 64) (e - 1)
        omega
      · have := ih mantissa e
        omega
      · exact ⟨by dsimp only; omega, Int.le_refl _⟩

/-- An exponent that the loop lets through is not too large. -/
theorem exponentLoop_bound {e : ℤ} {s s' : List Byte} {exponent exponent' : ℤ}
    (h : exponentLoop e s exponent = some (exponent', s')) (hpos : 0 ≤ exponent) :
    0 ≤ exponent' ∧ (exponent' = exponent ∨ exponent' + e ≤ exponentMax) := by
  induction s generalizing exponent with
  | nil =>
      obtain ⟨rfl, -⟩ := Prod.mk.inj (Option.some.inj h)
      exact ⟨hpos, Or.inl rfl⟩
  | cons c s ih =>
      rw [exponentLoop] at h
      dsimp only at h
      split_ifs at h with hc hlarge
      · have hstep := ih h (by omega)
        refine ⟨hstep.1, Or.inr ?_⟩
        rcases hstep.2 with heq | hle
        · rw [heq]
          omega
        · exact hle
      · obtain ⟨rfl, -⟩ := Prod.mk.inj (Option.some.inj h)
        exact ⟨hpos, Or.inl rfl⟩

theorem mantissaLoop_length (s : List Byte) (mantissa : BitVec 64) :
    (mantissaLoop s mantissa).2.length ≤ s.length := by
  induction s generalizing mantissa with
  | nil => exact Nat.le_refl _
  | cons c s ih =>
      rw [mantissaLoop]
      dsimp only
      split_ifs
      · exact Nat.le_refl _
      · exact Nat.le_refl _
      · exact Nat.le_succ_of_le (ih _)
      · exact Nat.le_refl _

theorem sign_length (s : List Byte) : (sign s).2.length ≤ s.length := by
  cases s with
  | nil => exact Nat.le_refl _
  | cons c s =>
      rw [sign]
      split_ifs
      · exact Nat.le_succ _
      · exact Nat.le_succ _
      · exact Nat.le_refl _

theorem fraction_offset (s : List Byte) (mantissa : BitVec 64) (e : ℤ) :
    e - s.length ≤ (fraction s mantissa e).2.1 ∧ (fraction s mantissa e).2.1 ≤ e := by
  rw [fraction]
  split_ifs
  · have := fractionLoop_offset s.tail mantissa e
    rw [List.length_tail] at this
    omega
  · exact ⟨by dsimp only; omega, Int.le_refl _⟩

theorem finishFloat_isSome (negative : Bool) (mantissa : BitVec 64) {exponent : ℤ} (s : List Byte)
    (hlo : -512 < exponent) (hhi : exponent < 512) :
    (finishFloat negative mantissa exponent s).isSome = true := by
  rw [finishFloat]
  split_ifs
  · rfl
  · rw [Option.isSome_map]
    exact makeFloat_isSome negative mantissa hlo hhi

theorem parseExponent_isSome (negative : Bool) (mantissa : BitVec 64) {e : ℤ} (s : List Byte)
    (hlo : -63 ≤ e) (hhi : e ≤ 67) : (parseExponent negative mantissa e s).isSome = true := by
  have hmax : exponentMax = 308 := rfl
  rw [parseExponent]
  split_ifs
  · dsimp only
    cases hexponent : exponentLoop e (sign s.tail).2 0 with
    | none => rfl
    | some r =>
        have hbound := exponentLoop_bound hexponent (Int.le_refl 0)
        refine finishFloat_isSome negative mantissa r.2 ?_ ?_ <;> split_ifs <;> omega
  · exact finishFloat_isSome negative mantissa s (by omega) (by omega)

theorem parseFloat_isSome (negative : Bool) {s : List Byte} (h : s.length < 64)
    (mantissa : BitVec 64) : (parseFloat negative s mantissa).isSome = true := by
  have h₁ := shrinkLoop_offset 4 mantissa 0
  have h₂ := remainingLoop_offset s (shrinkLoop 4 mantissa 0).2
  have h₃ := fraction_offset (remainingLoop s (shrinkLoop 4 mantissa 0).2).2
    (shrinkLoop 4 mantissa 0).1 (remainingLoop s (shrinkLoop 4 mantissa 0).2).1
  exact parseExponent_isSome negative _ _ (by omega) (by omega)

/-- **A token never leads past the table**: `parseNumericValue` keeps 63 characters. -/
theorem parseNumber_isSome {s : List Byte} (h : s.length < 64) :
    (parseNumber s).isSome = true := by
  have hsign := sign_length s
  have hmantissa := mantissaLoop_length (sign s).2 0
  rw [parseNumber]
  dsimp only
  split_ifs
  · rfl
  · rfl
  · rfl
  · rfl
  · rfl
  · exact parseFloat_isSome _ (by omega) _

end Json
end Remora
