/-
# Writing a document

`JsonSerializer` and `TextFormatter` of ArduinoJson, which write what `JsonDeserializer`
reads.  A string is escaped character by character, a number written from its last digit
into a buffer of 22, and nothing stands between the parts.

What is written of a document is read as the same document (`deserializeJson_serialize`).
Doubles are left out, whose decimals are rounded.
-/

import Remora.Json.Accepts

namespace Remora
namespace Json

open Basis

/-- `EscapeSequence::escapeChar`; zero means that there is nothing to escape. -/
def escapeChar (c : Byte) : Byte :=
  if c = 0x22 then 0x22 else if c = 0x5C then 0x5C else if c = 0x08 then 0x62
  else if c = 0x0C then 0x66 else if c = 0x0A then 0x6E else if c = 0x0D then 0x72
  else if c = 0x09 then 0x74 else 0

/-- `writeChar` -/
def writeChar (c : Byte) : List Byte :=
  let specialChar := escapeChar c
  if specialChar ≠ 0 then [0x5C, specialChar] else [c]

/-- `writeString` -/
def writeString (value : List Byte) : List Byte := 0x22 :: (value.flatMap writeChar ++ [0x22])

/-- `char(value % 10 + '0')` -/
def lastDigit (value : BitVec 64) : Byte := (value % 10 + 0x30).setWidth 8

/-- The loop of `writePositiveInteger`: what has been written to the end of `buffer`, which
has room for so many more. -/
def digitsLoop : ℕ → BitVec 64 → List Byte → List Byte
  | 0, _, buffer => buffer
  | room + 1, value, buffer =>
      let buffer := lastDigit value :: buffer
      if value / 10 = 0 then buffer else digitsLoop room (value / 10) buffer

/-- `writePositiveInteger` -/
def writePositiveInteger (value : BitVec 64) : List Byte := digitsLoop 22 value []

/-- `writeNegativeInteger` -/
def writeNegativeInteger (value : BitVec 64) : List Byte := 0x2D :: writePositiveInteger value

/-- `writeBoolean` -/
def writeBoolean (value : Bool) : List Byte :=
  if value then [0x74, 0x72, 0x75, 0x65] else [0x66, 0x61, 0x6C, 0x73, 0x65]

mutual

/-- `VariantData::accept` of a `JsonSerializer`. -/
def serialize (writeFloat : JsonFloat → List Byte) : VariantData → List Byte
  | .null => [0x6E, 0x75, 0x6C, 0x6C]
  | .boolean value => writeBoolean value
  | .positiveInteger value => writePositiveInteger value
  | .negativeInteger value => writeNegativeInteger value
  | .float value => writeFloat value
  | .ownedString s => writeString s
  | .array slots => 0x5B :: visitArray writeFloat slots
  | .object slots => 0x7B :: visitObject writeFloat slots

/-- The loop of `visitArray`, with the bracket that closes it. -/
def visitArray (writeFloat : JsonFloat → List Byte) : List VariantData → List Byte
  | [] => [0x5D]
  | v :: slots =>
      serialize writeFloat v ++
        (if slots.isEmpty then [0x5D] else 0x2C :: visitArray writeFloat slots)

/-- The loop of `visitObject`, with the brace that closes it. -/
def visitObject (writeFloat : JsonFloat → List Byte) : List (List Byte × VariantData) → List Byte
  | [] => [0x7D]
  | (key, v) :: slots =>
      writeString key ++ 0x3A :: (serialize writeFloat v ++
        (if slots.isEmpty then [0x7D] else 0x2C :: visitObject writeFloat slots))

end

/-- There is no double in it, and no zero in a string. -/
inductive Plain : VariantData → Prop where
  | null : Plain .null
  | boolean {value : Bool} : Plain (.boolean value)
  | positiveInteger {value : BitVec 64} : Plain (.positiveInteger value)
  | negativeInteger {value : BitVec 64} : Plain (.negativeInteger value)
  | ownedString {s : List Byte} : 0 ∉ s → Plain (.ownedString s)
  | array {slots : List VariantData} : (∀ v ∈ slots, Plain v) → Plain (.array slots)
  | object {slots : List (List Byte × VariantData)} : (∀ slot ∈ slots, 0 ∉ slot.1) →
      (∀ slot ∈ slots, Plain slot.2) → Plain (.object slots)

theorem toNat_lastDigit (value : BitVec 64) : (lastDigit value).toNat = value.toNat % 10 + 48 := by
  have hten : (10 : BitVec 64).toNat = 10 := rfl
  have hzero : (0x30 : BitVec 64).toNat = 48 := rfl
  rw [lastDigit, BitVec.toNat_setWidth, BitVec.toNat_add, BitVec.toNat_umod, hten, hzero]
  omega

theorem isdigit_lastDigit (value : BitVec 64) : isdigit (lastDigit value) = true := by
  have hlow : (0x30 : Byte).toNat = 48 := rfl
  have hhigh : (0x39 : Byte).toNat = 57 := rfl
  rw [isdigit, decide_eq_true_iff, BitVec.le_def, BitVec.le_def, toNat_lastDigit, hlow, hhigh]
  omega

theorem toNat_digit_lastDigit (value : BitVec 64) :
    (digit (lastDigit value)).toNat = value.toNat % 10 := by
  have hzero : (0x30 : Byte).toNat = 48 := rfl
  rw [digit, BitVec.toNat_sub, toNat_lastDigit, hzero]
  omega

/-- **The digits of a number** stand for it. -/
theorem digitsLoop_spec (room : ℕ) (value : BitVec 64) (buffer : List Byte)
    (h : value.toNat < Nat.pow 10 (room + 1)) :
    ∃ ds, digitsLoop (room + 1) value buffer = ds ++ buffer ∧ ds ≠ [] ∧ ds.length ≤ room + 1 ∧
      (∀ c ∈ ds, isdigit c = true) ∧ digitsValue ds = value.toNat := by
  induction room generalizing value buffer with
  | zero =>
      have hlt : value.toNat < 10 := h
      have hzero : value / 10 = 0 := by
        apply BitVec.eq_of_toNat_eq
        rw [BitVec.toNat_udiv]
        exact Nat.div_eq_of_lt hlt
      refine ⟨[lastDigit value], ?_, List.cons_ne_nil _ _, Nat.le_refl _,
        List.forall_mem_singleton.2 (isdigit_lastDigit value), ?_⟩
      · rw [digitsLoop, if_pos hzero]
        rfl
      · rw [digitsValue, List.foldl_cons, List.foldl_nil, toNat_digit_lastDigit]
        omega
  | succ room ih =>
      rw [digitsLoop]
      split_ifs with hzero
      · have hlt : value.toNat < 10 := by
          have := congrArg BitVec.toNat hzero
          rw [BitVec.toNat_udiv] at this
          exact (Nat.div_eq_zero_iff.1 this).resolve_left (by decide)
        refine ⟨[lastDigit value], rfl, List.cons_ne_nil _ _, by simp,
          List.forall_mem_singleton.2 (isdigit_lastDigit value), ?_⟩
        rw [digitsValue, List.foldl_cons, List.foldl_nil, toNat_digit_lastDigit]
        omega
      · have hdiv : (value / 10).toNat = value.toNat / 10 := BitVec.toNat_udiv
        have hpow : Nat.pow 10 (room + 1 + 1) = Nat.pow 10 (room + 1) * 10 := rfl
        obtain ⟨ds, hds, -, hlen, hdigits, hvalue⟩ :=
          ih (value / 10) (lastDigit value :: buffer) (by omega)
        refine ⟨ds ++ [lastDigit value], by rw [hds]; simp, by simp, ?_, ?_, ?_⟩
        · rw [List.length_append, List.length_singleton]
          omega
        · exact List.forall_mem_append.2
            ⟨hdigits, List.forall_mem_singleton.2 (isdigit_lastDigit value)⟩
        · rw [digitsValue, List.foldl_append, ← digitsValue, List.foldl_cons, List.foldl_nil,
            toNat_digit_lastDigit, hvalue, hdiv]
          omega

/-! The texts of what is written. -/

open Deserializer in
theorem canBe_of_isdigit {c : Byte} (h : isdigit c = true) : canBeInNonQuotedString c = true := by
  have hbetween : isBetween c 0x30 0x39 = true := h
  rw [canBeInNonQuotedString, hbetween]
  rfl

theorem writePositiveInteger_spec (value : BitVec 64) :
    writePositiveInteger value ≠ [] ∧ (writePositiveInteger value).length ≤ 22 ∧
      (∀ c ∈ writePositiveInteger value, isdigit c = true) ∧
      digitsValue (writePositiveInteger value) = value.toNat := by
  have hlt : value.toNat < Nat.pow 10 (21 + 1) := Nat.lt_of_lt_of_le value.isLt (by decide)
  obtain ⟨ds, hds, hne, hlen, hdigits, hvalue⟩ := digitsLoop_spec 21 value [] hlt
  rw [writePositiveInteger, hds, List.append_nil]
  exact ⟨hne, hlen, hdigits, hvalue⟩

/-- The buffer of a number is never full, and the number is a token. -/
theorem token_writePositiveInteger (value : BitVec 64) :
    Token (.positiveInteger value) (writePositiveInteger value) := by
  obtain ⟨hne, hlen, hdigits, hvalue⟩ := writePositiveInteger_spec value
  have hparse := (parseNumber_digits hne hdigits (by rw [hvalue]; exact value.isLt)).1
  rw [hvalue, BitVec.ofNat_toNat, BitVec.setWidth_eq] at hparse
  have hhead : isdigit ((writePositiveInteger value).headD 0) = true := by
    obtain ⟨c, ds, hds⟩ := List.exists_cons_of_ne_nil hne
    rw [hds] at hdigits ⊢
    exact hdigits c (List.mem_cons_self ..)
  refine ⟨fun c hc => canBe_of_isdigit (hdigits c hc), Nat.le_trans hlen (by decide),
    .number ?_ ?_ ?_ hparse rfl⟩ <;>
  · intro heq
    rw [heq] at hhead
    exact absurd hhead (by decide)

theorem token_writeNegativeInteger (value : BitVec 64) :
    Token (.negativeInteger value) (writeNegativeInteger value) := by
  obtain ⟨hne, hlen, hdigits, hvalue⟩ := writePositiveInteger_spec value
  have hparse := (parseNumber_digits hne hdigits (by rw [hvalue]; exact value.isLt)).2
  rw [hvalue, BitVec.ofNat_toNat, BitVec.setWidth_eq] at hparse
  have hhead : (writeNegativeInteger value).headD 0 = 0x2D := rfl
  refine ⟨List.forall_mem_cons.2 ⟨by decide, fun c hc => canBe_of_isdigit (hdigits c hc)⟩, ?_,
    .number (by rw [hhead]; decide) (by rw [hhead]; decide) (by rw [hhead]; decide) hparse rfl⟩
  rw [writeNegativeInteger, List.length_cons]
  omega

open Deserializer in
/-- What is escaped is found again. -/
theorem unescapeChar_escapeChar {c : Byte} (h : escapeChar c ≠ 0) :
    unescapeChar (escapeChar c) = c ∧ escapeChar c ≠ 0x75 := by
  rw [escapeChar] at h ⊢
  split_ifs at h ⊢ with h₁ h₂ h₃ h₄ h₅ h₆ h₇
  · exact ⟨by rw [h₁]; decide, by decide⟩
  · exact ⟨by rw [h₂]; decide, by decide⟩
  · exact ⟨by rw [h₃]; decide, by decide⟩
  · exact ⟨by rw [h₄]; decide, by decide⟩
  · exact ⟨by rw [h₅]; decide, by decide⟩
  · exact ⟨by rw [h₆]; decide, by decide⟩
  · exact ⟨by rw [h₇]; decide, by decide⟩
  · exact absurd rfl h

theorem quoted_flatMap_writeChar {s : List Byte} (h : 0 ∉ s) :
    Quoted 0x22 s (s.flatMap writeChar) := by
  induction s with
  | nil => exact .nil
  | cons c s ih =>
      obtain ⟨hc, hs⟩ := not_or.1 (List.mem_cons.not.1 h)
      rw [List.flatMap_cons, writeChar]
      split_ifs with hescape
      · obtain ⟨hback, hu⟩ := unescapeChar_escapeChar hescape
        have hquoted := Quoted.escape hescape hu (ih hs)
        rwa [hback] at hquoted
      · refine .char ?_ (Ne.symm hc) ?_ (ih hs)
        · rintro rfl
          exact hescape (by decide)
        · rintro rfl
          exact hescape (by decide)

theorem key_writeString {key : List Byte} (h : 0 ∉ key) : Key key (writeString key) :=
  .quoted (by decide) (quoted_flatMap_writeChar h)

/-! What is written has no zero before its end. -/

theorem zero_notMem_layout {lead : List Byte} (h : Layout lead) : 0 ∉ lead := by
  induction h with
  | nil => exact List.not_mem_nil
  | space hspace _ ih => exact List.not_mem_cons_of_ne_of_not_mem hspace.ne_zero.symm ih
  | block hzero _ _ ih =>
      rw [List.mem_cons, List.mem_cons, List.mem_append, List.mem_cons, List.mem_cons]
      exact not_or.2 ⟨by decide, not_or.2 ⟨by decide, not_or.2 ⟨hzero,
        not_or.2 ⟨by decide, not_or.2 ⟨by decide, ih⟩⟩⟩⟩⟩
  | trailing hzero _ _ ih =>
      rw [List.mem_cons, List.mem_cons, List.mem_append, List.mem_cons]
      exact not_or.2 ⟨by decide, not_or.2 ⟨by decide, not_or.2 ⟨hzero,
        not_or.2 ⟨by decide, ih⟩⟩⟩⟩

theorem zero_notMem_quoted {quote : Byte} {str text : List Byte} (h : Quoted quote str text) :
    0 ∉ text := by
  induction h with
  | nil => exact List.not_mem_nil
  | char _ hzero _ _ ih => exact List.not_mem_cons_of_ne_of_not_mem hzero.symm ih
  | escape hzero _ _ ih =>
      exact List.not_mem_cons_of_ne_of_not_mem (by decide)
        (List.not_mem_cons_of_ne_of_not_mem hzero.symm ih)

open Deserializer in
theorem zero_notMem_of_canBe {text : List Byte}
    (h : ∀ c ∈ text, canBeInNonQuotedString c = true) : 0 ∉ text :=
  fun hzero => ne_zero_of_canBe (h 0 hzero) rfl

open Deserializer in
theorem zero_notMem_quotes {quote : Byte} (hquote : isQuote quote = true) {text : List Byte}
    (h : 0 ∉ text) : 0 ∉ quote :: (text ++ [quote]) := by
  have hne : (0 : Byte) ≠ quote := by rcases isQuote_iff.1 hquote with rfl | rfl <;> decide
  rw [List.mem_cons, List.mem_append, List.mem_singleton]
  exact not_or.2 ⟨hne, not_or.2 ⟨h, hne⟩⟩

theorem zero_notMem_key {key text : List Byte} (h : Key key text) : 0 ∉ text := by
  cases h with
  | quoted hquote hquoted => exact zero_notMem_quotes hquote (zero_notMem_quoted hquoted)
  | bare _ hbare => exact zero_notMem_of_canBe hbare

theorem zero_notMem_following {close : Byte} (hclose : close ≠ 0) {texts : List (List Byte)}
    (h : ∀ text ∈ texts, 0 ∉ text) : 0 ∉ following close texts := by
  induction texts with
  | nil => exact List.not_mem_cons_of_ne_of_not_mem hclose.symm List.not_mem_nil
  | cons text texts ih =>
      obtain ⟨htext, htexts⟩ := List.forall_mem_cons.1 h
      rw [following, List.mem_cons, List.mem_append]
      exact not_or.2 ⟨by decide, not_or.2 ⟨htext, ih htexts⟩⟩

theorem zero_notMem_elementText {e : Element} (hspaced : e.Spaced) (hbody : 0 ∉ e.body) :
    0 ∉ e.text := by
  rw [Element.text, List.mem_append, List.mem_append]
  exact not_or.2 ⟨zero_notMem_layout hspaced.1,
    not_or.2 ⟨hbody, zero_notMem_layout hspaced.2⟩⟩

theorem zero_notMem_memberText {m : Member} (hspaced : m.Spaced) (hbody : 0 ∉ m.element.body) :
    0 ∉ m.text := by
  obtain ⟨hstart, hname, hgap, helement⟩ := hspaced
  rw [Member.text, Member.pair, List.mem_append, List.mem_append, List.mem_append, List.mem_cons]
  exact not_or.2 ⟨zero_notMem_layout hstart, not_or.2 ⟨zero_notMem_key hname,
    not_or.2 ⟨zero_notMem_layout hgap, not_or.2 ⟨by decide,
      zero_notMem_elementText helement hbody⟩⟩⟩⟩

/-- What a value is written in has no zero. -/
theorem zero_notMem_written {v : VariantData} {text : List Byte} (h : Written v text) :
    0 ∉ text := by
  induction h with
  | token htoken => exact zero_notMem_of_canBe htoken.chars
  | string hquote hquoted => exact zero_notMem_quotes hquote (zero_notMem_quoted hquoted)
  | emptyArray hlead =>
      rw [List.mem_cons, List.mem_append, List.mem_singleton]
      exact not_or.2 ⟨by decide, not_or.2 ⟨zero_notMem_layout hlead, by decide⟩⟩
  | @array e es hspaced _ ih =>
      have htexts : ∀ x ∈ e :: es, 0 ∉ x.text := fun x hx =>
        zero_notMem_elementText (hspaced x hx) (ih x hx)
      obtain ⟨htext, htexts⟩ := List.forall_mem_cons.1 htexts
      rw [List.mem_cons, List.mem_append]
      exact not_or.2 ⟨by decide, not_or.2 ⟨htext,
        zero_notMem_following (by decide) (List.forall_mem_map.2 htexts)⟩⟩
  | emptyObject hlead =>
      rw [List.mem_cons, List.mem_append, List.mem_singleton]
      exact not_or.2 ⟨by decide, not_or.2 ⟨zero_notMem_layout hlead, by decide⟩⟩
  | @object m ms hspaced _ ih =>
      have htexts : ∀ x ∈ m :: ms, 0 ∉ x.text := fun x hx =>
        zero_notMem_memberText (hspaced x hx) (ih x hx)
      obtain ⟨htext, htexts⟩ := List.forall_mem_cons.1 htexts
      rw [List.mem_cons, List.mem_append]
      exact not_or.2 ⟨by decide, not_or.2 ⟨htext,
        zero_notMem_following (by decide) (List.forall_mem_map.2 htexts)⟩⟩

/-- A text in which a value is written stands for it, whatever comes behind. -/
theorem standsFor_append {v : VariantData} {body : List Byte} (h : Written v body)
    (hnesting : v.nesting ≤ DEFAULT_NESTING_LIMIT) (husage : v.memoryUsage ≤ JSON_BUFF_SIZE)
    {lead : List Byte} (hlead : Layout lead) {rest : List Byte}
    (hstops : Stops body (rest.takeWhile (· ≠ 0))) : StandsFor (lead ++ (body ++ rest)) v := by
  refine ⟨hnesting, husage, lead, body, rest.takeWhile (· ≠ 0), ?_, hlead, h, hstops⟩
  have hzero : ∀ {text : List Byte}, 0 ∉ text → ∀ c ∈ text, decide (c ≠ 0) = true :=
    fun htext c hc => decide_eq_true fun heq => htext (heq ▸ hc)
  rw [List.takeWhile_append_of_pos (hzero (zero_notMem_layout hlead)),
    List.takeWhile_append_of_pos (hzero (zero_notMem_written h))]

variable (writeFloat : JsonFloat → List Byte)

/-- An element as it is written. -/
def serializedElement (v : VariantData) : Element := ⟨[], serialize writeFloat v, [], v⟩

/-- A member as it is written. -/
def serializedMember (slot : List Byte × VariantData) : Member :=
  ⟨[], writeString slot.1, [], slot.1, serializedElement writeFloat slot.2⟩

theorem visitArray_cons (v : VariantData) (slots : List VariantData) :
    visitArray writeFloat (v :: slots) = (serializedElement writeFloat v).text ++
      following 0x5D ((slots.map (serializedElement writeFloat)).map Element.text) := by
  induction slots generalizing v with
  | nil => simp [visitArray, serializedElement, Element.text, following]
  | cons w slots ih =>
      rw [visitArray, ih w]
      simp [serializedElement, Element.text, following]

theorem visitObject_cons (slot : List Byte × VariantData)
    (slots : List (List Byte × VariantData)) :
    visitObject writeFloat (slot :: slots) = (serializedMember writeFloat slot).text ++
      following 0x7D ((slots.map (serializedMember writeFloat)).map Member.text) := by
  induction slots generalizing slot with
  | nil =>
      simp [visitObject, serializedMember, serializedElement, Member.text, Member.pair,
        Element.text, following]
  | cons w slots ih =>
      rw [visitObject, ih w]
      simp [serializedMember, serializedElement, Member.text, Member.pair, Element.text, following]

theorem written_serialize {v : VariantData} (h : Plain v) : Written v (serialize writeFloat v) := by
  induction h with
  | null =>
      rw [serialize]
      exact .token ⟨by decide, by decide, .null rfl rfl⟩
  | @boolean value =>
      rw [serialize]
      cases value with
      | false => exact .token ⟨by decide, by decide, .false rfl rfl⟩
      | true => exact .token ⟨by decide, by decide, .true rfl rfl⟩
  | positiveInteger =>
      rw [serialize]
      exact .token (token_writePositiveInteger _)
  | negativeInteger =>
      rw [serialize]
      exact .token (token_writeNegativeInteger _)
  | ownedString hzero =>
      rw [serialize]
      exact .string (by decide) (quoted_flatMap_writeChar hzero)
  | @array slots _ ih =>
      rw [serialize]
      cases slots with
      | nil => exact .emptyArray .nil
      | cons v slots =>
          have hvalues : (v :: slots) =
              ((v :: slots).map (serializedElement writeFloat)).map Element.value := by
            rw [List.map_map]
            exact (List.map_id _).symm
          have hspaced : ∀ x ∈ (v :: slots).map (serializedElement writeFloat), x.Spaced :=
            List.forall_mem_map.2 fun w _ => ⟨.nil, .nil⟩
          have hwritten : ∀ x ∈ (v :: slots).map (serializedElement writeFloat),
              Written x.value x.body := List.forall_mem_map.2 ih
          rw [visitArray_cons, hvalues]
          exact .array hspaced hwritten
  | @object slots hkeys _ ih =>
      rw [serialize]
      cases slots with
      | nil => exact .emptyObject .nil
      | cons slot slots =>
          have hslots : (slot :: slots) =
              ((slot :: slots).map (serializedMember writeFloat)).map Member.slot := by
            rw [List.map_map]
            exact (List.map_id _).symm
          have hspaced : ∀ x ∈ (slot :: slots).map (serializedMember writeFloat), x.Spaced :=
            List.forall_mem_map.2 fun w hw =>
              ⟨.nil, key_writeString (hkeys w hw), .nil, .nil, .nil⟩
          have hwritten : ∀ x ∈ (slot :: slots).map (serializedMember writeFloat),
              Written x.element.value x.element.body := List.forall_mem_map.2 ih
          rw [visitObject_cons, hslots]
          exact .object hspaced hwritten

/-- **What is written is read back**, as the document that it was. -/
theorem deserializeJson_serialize {v : VariantData}
    (hplain : Plain v) (hnesting : v.nesting ≤ DEFAULT_NESTING_LIMIT)
    (husage : v.memoryUsage ≤ JSON_BUFF_SIZE) :
    ∃ t, deserializeJson (serialize writeFloat v) = some (.ok (v, t)) := by
  have hstops : Stops (serialize writeFloat v) (([] : List Byte).takeWhile (· ≠ 0)) :=
    fun _ => Or.inr fun c hc => (by cases hc)
  have hstands := standsFor_append (written_serialize writeFloat hplain) hnesting husage .nil hstops
  rw [List.nil_append, List.append_nil] at hstands
  exact ok_of_standsFor hstands

/-- A quotation mark in a string comes through. -/
theorem deserializeJson_serialize_quote :
    ∃ t, deserializeJson (serialize (fun _ => []) (.array [.ownedString [0x22], .boolean true])) =
      some (.ok (.array [.ownedString [0x22], .boolean true], t)) :=
  deserializeJson_serialize _
    (.array (List.forall_mem_cons.2
      ⟨.ownedString (by decide), List.forall_mem_singleton.2 .boolean⟩))
    (by decide) (by decide)

end Json
end Remora
