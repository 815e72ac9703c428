/-
# Length-prefixed records

A record is a 16-bit length, big-endian and counting its own two bytes, and a
body.  A byte stream of whole records is read from the front: the length says
where the next record ends (`next_stream_cons`), so reading and the boundaries
stay in step for as long as every read takes one whole record.
-/

import Remora.Basis.Octets

namespace Basis
namespace Records

/-- The 16-bit word of two bytes, the high one first. -/
def beHalf (hi lo : Byte) : BitVec 16 := hi ++ lo

/-- The two bytes of a length, the high one first. -/
def header (n : ℕ) : List Byte := [BitVec.ofNat 8 (n / 256), BitVec.ofNat 8 n]

/-- A record: its length, then its body. -/
def record (body : List Byte) : List Byte := header (body.length + 2) ++ body

/-- Records one behind the other. -/
def stream (bodies : List (List Byte)) : List Byte := bodies.flatMap record

/-- The first record of a stream, and what follows it. -/
def next : List Byte → Option (List Byte × List Byte)
  | hi :: lo :: bs =>
      let n := (beHalf hi lo).toNat
      if 2 ≤ n ∧ n ≤ bs.length + 2 then some (bs.take (n - 2), bs.drop (n - 2)) else none
  | _ => none

theorem toNat_beHalf (hi lo : Byte) : (beHalf hi lo).toNat = hi.toNat * 256 + lo.toNat := by
  have hlo := lo.isLt
  rw [beHalf, BitVec.toNat_append, Nat.shiftLeft_eq, ← Nat.mul_comm (2 ^ 8),
    ← Nat.two_pow_add_eq_or_of_lt hlo]

theorem toNat_beHalf_header {n : ℕ} (h : n < 65536) :
    (beHalf (BitVec.ofNat 8 (n / 256)) (BitVec.ofNat 8 n)).toNat = n := by
  rw [toNat_beHalf, BitVec.toNat_ofNat, BitVec.toNat_ofNat]
  omega

@[simp] theorem length_record (body : List Byte) : (record body).length = body.length + 2 := by
  simp [record, header]

@[simp] theorem stream_nil : stream [] = [] := rfl

@[simp] theorem stream_cons (body : List Byte) (bodies : List (List Byte)) :
    stream (body :: bodies) = record body ++ stream bodies := List.flatMap_cons

theorem stream_append (bodies bodies' : List (List Byte)) :
    stream (bodies ++ bodies') = stream bodies ++ stream bodies' := List.flatMap_append

/-- **Reading a record back**: the body, and the stream behind it. -/
theorem next_record {body : List Byte} (h : body.length + 2 < 65536) (rest : List Byte) :
    next (record body ++ rest) = some (body, rest) := by
  rw [record, header, List.append_assoc, List.cons_append, List.cons_append, List.nil_append, next]
  rw [toNat_beHalf_header h, if_pos ⟨by omega, by rw [List.length_append]; omega⟩,
    Nat.add_sub_cancel, List.take_left, List.drop_left]

theorem next_stream_cons {body : List Byte} (h : body.length + 2 < 65536)
    (bodies : List (List Byte)) : next (stream (body :: bodies)) = some (body, stream bodies) := by
  rw [stream_cons, next_record h]

/-- What `next` reads: the length word, the body and the rest stand in the stream. -/
theorem eq_of_next {bs body rest : List Byte} (h : next bs = some (body, rest)) :
    ∃ hi lo, bs = hi :: lo :: (body ++ rest) ∧ (beHalf hi lo).toNat = body.length + 2 := by
  match bs with
  | [] => cases h
  | [_] => cases h
  | hi :: lo :: bs =>
      simp only [next] at h
      split_ifs at h with hn
      obtain ⟨rfl, rfl⟩ := Prod.mk.inj (Option.some.inj h)
      refine ⟨hi, lo, by rw [List.take_append_drop], ?_⟩
      rw [List.length_take]
      omega

end Records
end Basis
