/-
# Bursts of errors

A reflected CRC feeds a byte with one addition and eight shifts; that is the same
as feeding its bits one at a time, least significant first, each with one shift
(`feed_eq_foldl`).  Up to `w` bits in a row can be added at once
(`foldl_bitFeed`), so from one and the same remainder two strings of at most `w`
bits leave different ones when they differ, and what follows cannot undo that
since no step loses information.  Hence the classical statement: a CRC of width
`w` tells apart two messages that differ within `w` consecutive bits
(`feed_ne_of_burst`).
-/

import Remora.Basis.Crc
import Mathlib.Data.List.GetD
import Mathlib.Data.List.OfFn

namespace Basis

/-- The bits of a byte, least significant first. -/
def bitsOf (b : Byte) : List Bool := List.ofFn fun i : Fin 8 => b.getLsbD i

/-- The bits of a message, byte by byte. -/
def bits (bs : List Byte) : List Bool := bs.flatMap bitsOf

/-- Two messages of one length that differ, and do so within `n` consecutive bits. -/
structure BurstApart (n : ℕ) (p q : List Byte) : Prop where
  length_eq : p.length = q.length
  ne : p ≠ q
  window : ∃ k, ∀ i, (bits p)[i]? ≠ (bits q)[i]? → k ≤ i ∧ i < k + n

@[simp] theorem length_bitsOf (b : Byte) : (bitsOf b).length = 8 := List.length_ofFn

theorem bitsOf_injective : Function.Injective bitsOf := by
  intro a b h
  refine BitVec.eq_of_getLsbD_eq fun i hi => ?_
  exact congrFun (List.ofFn_injective h) ⟨i, hi⟩

theorem length_bits (bs : List Byte) : (bits bs).length = 8 * bs.length := by
  induction bs with
  | nil => rfl
  | cons b bs ih =>
      rw [bits, List.flatMap_cons, List.length_append, length_bitsOf, ← bits, ih, List.length_cons]
      omega

theorem bits_injective : Function.Injective bits := by
  intro p q h
  induction p generalizing q with
  | nil =>
      have hlen := length_bits q
      rw [← h, bits, List.flatMap_nil, List.length_nil] at hlen
      exact (List.eq_nil_of_length_eq_zero (by omega)).symm
  | cons a p ih =>
      cases q with
      | nil =>
          have hlen := length_bits (a :: p)
          rw [h] at hlen
          simp [bits] at hlen
      | cons b q =>
          obtain ⟨hhead, htail⟩ := List.append_inj h (by simp)
          rw [bitsOf_injective hhead, ih htail]

/-- **A burst in the middle**: what comes before and after it is common. -/
theorem BurstApart.exists_middle {n : ℕ} {p q : List Byte} (h : BurstApart n p q) :
    ∃ pre m m' post, bits p = pre ++ (m ++ post) ∧ bits q = pre ++ (m' ++ post) ∧
      m.length = m'.length ∧ m.length ≤ n ∧ m ≠ m' := by
  obtain ⟨k, hk⟩ := h.window
  have hlen : (bits p).length = (bits q).length := by rw [length_bits, length_bits, h.length_eq]
  have hsame : ∀ i, ¬(k ≤ i ∧ i < k + n) → (bits p)[i]? = (bits q)[i]? := fun i hi =>
    not_not.1 (mt (hk i) hi)
  have hpre : (bits p).take k = (bits q).take k := by
    refine List.ext_getElem? fun i => ?_
    rw [List.getElem?_take, List.getElem?_take]
    split_ifs
    · exact hsame i (by omega)
    · rfl
  have hpost : ((bits p).drop k).drop n = ((bits q).drop k).drop n := by
    refine List.ext_getElem? fun i => ?_
    rw [List.drop_drop, List.drop_drop, List.getElem?_drop, List.getElem?_drop]
    exact hsame _ (by omega)
  refine ⟨(bits p).take k, ((bits p).drop k).take n, ((bits q).drop k).take n,
    ((bits p).drop k).drop n, ?_, ?_, ?_, ?_, fun hm => ?_⟩
  · rw [List.take_append_drop, List.take_append_drop]
  · rw [hpre, hpost, List.take_append_drop, List.take_append_drop]
  · rw [List.length_take, List.length_take, List.length_drop, List.length_drop, hlen]
  · rw [List.length_take]
    omega
  · refine h.ne (bits_injective ?_)
    rw [← List.take_append_drop k (bits p), ← List.take_append_drop n ((bits p).drop k), hm, hpost,
      hpre, List.take_append_drop, List.take_append_drop]

namespace Crc

variable {w : ℕ}

/-- A string of bits as a word, the first bit lowest. -/
def word (w : ℕ) (xs : List Bool) : BitVec w := (BitVec.ofBoolListLE xs).setWidth w

/-- One bit: into the lowest place, then one shift. -/
def bitFeed (P c : BitVec w) (x : Bool) : BitVec w := bitStep P (c ^^^ word w [x])

theorem getLsbD_word (xs : List Bool) (i : ℕ) :
    (word w xs).getLsbD i = (decide (i < w) && xs.getD i false) := by
  rw [word, BitVec.getLsbD_setWidth, BitVec.getLsbD_ofBoolListLE]

@[simp] theorem word_nil : word w [] = 0#w := by
  refine BitVec.eq_of_getLsbD_eq fun i _ => ?_
  simp [getLsbD_word]

theorem word_cons (x : Bool) (xs : List Bool) :
    word w (x :: xs) = word w [x] ^^^ word w (false :: xs) := by
  refine BitVec.eq_of_getLsbD_eq fun i hi => ?_
  rw [BitVec.getLsbD_xor, getLsbD_word, getLsbD_word, getLsbD_word]
  cases i <;> simp [hi]

/-- A shift moves a string down by one place, if it fits without its first. -/
theorem bitStep_word (P : BitVec w) {xs : List Bool} (h : xs.length < w) :
    bitStep P (word w (false :: xs)) = word w xs := by
  have hlow : (word w (false :: xs)).getLsbD 0 = false := by simp [getLsbD_word]
  refine BitVec.eq_of_getLsbD_eq fun i hi => ?_
  rw [bitStep_eq, hlow, BitVec.getLsbD_xor, BitVec.getLsbD_ushiftRight, getLsbD_word, getLsbD_word,
    Nat.add_comm, List.getD_cons_succ]
  rcases Nat.lt_or_ge (i + 1) w with hlt | hge
  · simp [hlt, hi]
  · -- the top place, which the string does not reach
    have : xs.getD i false = false := List.getD_eq_default _ _ (by omega)
    rw [this]
    simp

/-- The bits of a byte make up the byte. -/
theorem word_bitsOf (b : Byte) : word w (bitsOf b) = b.setWidth w := by
  refine BitVec.eq_of_getLsbD_eq fun i hi => ?_
  rw [getLsbD_word, BitVec.getLsbD_setWidth]
  rcases Nat.lt_or_ge i 8 with h | h
  · rw [List.getD_eq_getElem _ _ (by simpa using h)]
    simp only [bitsOf, List.getElem_ofFn, hi, decide_true, Bool.true_and]
  · rw [List.getD_eq_default _ _ (by simpa using h), BitVec.getLsbD_of_ge b i h]

/-- **Up to `w` bits go in at once.** -/
theorem foldl_bitFeed (P c : BitVec w) {xs : List Bool} (h : xs.length ≤ w) :
    xs.foldl (bitFeed P) c = (bitStep P)^[xs.length] (c ^^^ word w xs) := by
  induction xs generalizing c with
  | nil => simp
  | cons x xs ih =>
      have hlt : xs.length < w := h
      calc xs.foldl (bitFeed P) (bitFeed P c x)
          = (bitStep P)^[xs.length] (bitFeed P c x ^^^ word w xs) := ih _ hlt.le
        _ = (bitStep P)^[xs.length]
              (bitStep P (c ^^^ word w [x]) ^^^ bitStep P (word w (false :: xs))) := by
            rw [bitStep_word P hlt, bitFeed]
        _ = (bitStep P)^[(x :: xs).length] (c ^^^ word w (x :: xs)) := by
            rw [← bitStep_xor, BitVec.xor_assoc, ← word_cons, List.length_cons,
              Function.iterate_succ_apply]

/-- A message goes in bit by bit. -/
theorem feed_eq_foldl (hw : 8 ≤ w) (P c : BitVec w) (bs : List Byte) :
    feed P c bs = (bits bs).foldl (bitFeed P) c := by
  induction bs generalizing c with
  | nil => rfl
  | cons b bs ih =>
      have hbyte : (bitsOf b).foldl (bitFeed P) c = byteStep P c b := by
        rw [foldl_bitFeed P c (by simpa using hw), length_bitsOf, word_bitsOf, byteStep]
      rw [bits, List.flatMap_cons, List.foldl_append, hbyte, ← bits, ← ih]
      rfl

/-- No bit that follows undoes a difference. -/
theorem foldl_bitFeed_injective {P : BitVec w} (hP : P.msb = true) (xs : List Bool) :
    Function.Injective fun c => xs.foldl (bitFeed P) c := by
  induction xs with
  | nil => exact fun _ _ h => h
  | cons x xs ih =>
      intro a b h
      exact (BitVec.xor_left_inj _).1 (bitStep_injective hP (ih h))

/-- Strings of one length that fit the word are told apart. -/
theorem word_injective {m m' : List Bool} (hlen : m.length = m'.length) (h : m.length ≤ w)
    (hword : word w m = word w m') : m = m' := by
  refine List.ext_getElem hlen fun i hi hi' => ?_
  have hbit := congrArg (fun v => v.getLsbD i) hword
  have hiw : i < w := by omega
  rw [getLsbD_word, getLsbD_word, List.getD_eq_getElem _ _ hi, List.getD_eq_getElem _ _ hi'] at hbit
  simpa [hiw] using hbit

/-- **A CRC of width `w` detects every burst of up to `w` bits**, from every remainder. -/
theorem feed_ne_of_burst {P : BitVec w} (hP : P.msb = true) (hw : 8 ≤ w) {p q : List Byte}
    (h : BurstApart w p q) (c : BitVec w) : feed P c p ≠ feed P c q := by
  obtain ⟨pre, m, m', post, hp, hq, hlen, hle, hne⟩ := h.exists_middle
  intro heq
  rw [feed_eq_foldl hw, feed_eq_foldl hw, hp, hq, List.foldl_append, List.foldl_append,
    List.foldl_append, List.foldl_append] at heq
  have hmiddle := foldl_bitFeed_injective hP post heq
  rw [foldl_bitFeed P _ hle, foldl_bitFeed P _ (hlen.symm.trans_le hle), hlen] at hmiddle
  have hword := (BitVec.xor_right_inj _).1 ((bitStep_injective hP).iterate _ hmiddle)
  exact hne (word_injective hlen hle hword)

theorem checksum_ne_of_burst {P : BitVec w} (hP : P.msb = true) (hw : 8 ≤ w) {p q : List Byte}
    (h : BurstApart w p q) : checksum P p ≠ checksum P q := fun heq =>
  feed_ne_of_burst hP hw h _ (BitVec.not_inj.1 heq)

end Crc
end Basis
