/-
# Reading a configuration

`JsonDeserializer` of ArduinoJson with its `MemoryPool` and `StringBuilder`, as
`deserialiseJSON` runs it on the text from flash.

The reader follows a pointer and knows no end; it must stop at the zero behind the text,
and a read past it is undefined (`current`).  In the source `move` always follows
`current`, so what the two keep in `_current` and `_loaded` is a look at the next byte.
The pool of `doc` is used from both ends: slots are taken from the right, strings from
the left, and a string that is being read has all that is free in between.

A loop has as many rounds as the text has bytes left, and one more; none of them needs
them all.
-/

import Remora.Basis.Program
import Remora.Json.Number

namespace Remora
namespace Json

open Basis

/-- `JSON_BUFF_SIZE` -/
def JSON_BUFF_SIZE : ℕ := 10000

/-- `ARDUINOJSON_DEFAULT_NESTING_LIMIT` -/
def DEFAULT_NESTING_LIMIT : ℕ := 50

/-- `sizeof(VariantSlot)` -/
def VARIANT_SLOT : ℕ := 16

/-- `DeserializationError::Code`, but for `Ok` -/
inductive DeserializationError where
  | incompleteInput
  | invalidInput
  | noMemory
  | notSupported
  | tooDeep
deriving DecidableEq

/-- `VariantData`; a collection is the list of its slots. -/
inductive VariantData where
  | null
  | boolean (value : Bool)
  | positiveInteger (value : BitVec 64)
  | negativeInteger (value : BitVec 64)
  | float (value : JsonFloat)
  | ownedString (s : List Byte)
  | array (slots : List VariantData)
  | object (slots : List (List Byte × VariantData))

/-- `MemoryPool`: `_left` and `_right`, from `_begin` on. -/
structure MemoryPool where
  left : ℕ
  right : ℕ
deriving DecidableEq

/-- `StringBuilder`: what is in the slot, or that it has become null. -/
structure StringBuilder where
  value : Option (List Byte)
  size : ℕ

/-- What the deserializer works on. -/
structure Source where
  /-- What has not been read, the zero behind the text included. -/
  input : List Byte
  pool : MemoryPool

/-- Code of the deserializer. -/
abbrev Deserializer (α : Type) := Program Source DeserializationError α

namespace StringBuilder

/-- `StringBuilder::append` -/
def append (b : StringBuilder) (c : Byte) : StringBuilder :=
  match b.value with
  | none => b
  | some s => if b.size ≤ s.length then { b with value := none }
      else { b with value := some (s ++ [c]) }

end StringBuilder

namespace Deserializer

/-- `current` -/
def current : Deserializer Byte := fun s =>
  match s.input with
  | [] => Program.undefined s
  | c :: _ => (pure c : Deserializer Byte) s

/-- `move` -/
def move : Deserializer Unit := modify fun s => { s with input := s.input.tail }

/-- `eat` -/
def eat (charToSkip : Byte) : Deserializer Bool := do
  let c ← current
  if c ≠ charToSkip then return false
  else
    move
    return true

/-- `CollectionData::addSlot`, with `MemoryPool::allocVariant` -/
def addSlot : Deserializer Unit := do
  let s ← get
  if s.pool.left + VARIANT_SLOT ≤ s.pool.right then
    set { s with pool := { s.pool with right := s.pool.right - VARIANT_SLOT } }
  else throw .noMemory

/-- `startString`, with `MemoryPool::allocExpandableString` -/
def startString : Deserializer StringBuilder := do
  let s ← get
  set { s with pool := { s.pool with left := s.pool.right } }
  return ⟨some [], s.pool.right - s.pool.left⟩

/-- `StringBuilder::complete`, with `MemoryPool::freezeString`: the string before its zero. -/
def complete (b : StringBuilder) : Deserializer (List Byte) :=
  match (b.append 0).value with
  | none => throw .noMemory
  | some s => do
      modify fun t => { t with pool := { t.pool with left := t.pool.left - (b.size - s.length) } }
      return s.dropLast

/-- The loop over a block comment. -/
def blockComment : ℕ → Bool → Deserializer Unit
  | 0, _ => Program.undefined
  | rounds + 1, wasStar => do
      let c ← current
      if c = 0 then throw .incompleteInput
      else if c = 0x2F ∧ wasStar = true then move
      else
        move
        blockComment rounds (c = 0x2A)

/-- The loop over a trailing comment. -/
def trailingComment : ℕ → Deserializer Unit
  | 0 => Program.undefined
  | rounds + 1 => do
      move
      let c ← current
      if c = 0 then throw .incompleteInput
      else if c = 0x0A then return ()
      else trailingComment rounds

/-- The loop of `skipSpacesAndComments`. -/
def spacesLoop : ℕ → Deserializer Unit
  | 0 => Program.undefined
  | rounds + 1 => do
      let c ← current
      if c = 0 then throw .incompleteInput
      else if c = 0x20 ∨ c = 0x09 ∨ c = 0x0D ∨ c = 0x0A then
        move
        spacesLoop rounds
      else if c = 0x2F then
        move
        let c ← current
        if c = 0x2A then
          move
          fun s => blockComment (s.input.length + 1) false s
          spacesLoop rounds
        else if c = 0x2F then
          fun s => trailingComment (s.input.length + 1) s
          spacesLoop rounds
        else throw .invalidInput
      else return ()

/-- `skipSpacesAndComments` -/
def skipSpacesAndComments : Deserializer Unit := fun s => spacesLoop (s.input.length + 1) s

/-- `isBetween` -/
def isBetween (c min max : Byte) : Bool := min ≤ c ∧ c ≤ max

/-- `canBeInNonQuotedString` -/
def canBeInNonQuotedString (c : Byte) : Bool :=
  isBetween c 0x30 0x39 || isBetween c 0x5F 0x7A || isBetween c 0x41 0x5A || c = 0x2B || c = 0x2D ||
    c = 0x2E

/-- `isQuote` -/
def isQuote (c : Byte) : Bool := c = 0x27 ∨ c = 0x22

/-- `EscapeSequence::unescapeChar` -/
def unescapeChar (c : Byte) : Byte :=
  if c = 0x62 then 0x08 else if c = 0x66 then 0x0C else if c = 0x6E then 0x0A
  else if c = 0x72 then 0x0D else if c = 0x74 then 0x09 else c

/-- The loop of `parseQuotedString`. -/
def quotedLoop (stopChar : Byte) : ℕ → StringBuilder → Deserializer StringBuilder
  | 0, _ => Program.undefined
  | rounds + 1, builder => do
      let c ← current
      move
      if c = stopChar then return builder
      else if c = 0 then throw .incompleteInput
      else if c = 0x5C then
        let c ← current
        if c = 0 then throw .incompleteInput
        else if c = 0x75 then throw .notSupported
        else
          let c := unescapeChar c
          if c = 0 then throw .invalidInput
          else
            move
            quotedLoop stopChar rounds (builder.append c)
      else quotedLoop stopChar rounds (builder.append c)

/-- `parseQuotedString` -/
def parseQuotedString : Deserializer (List Byte) := do
  let builder ← startString
  let stopChar ← current
  move
  let builder ← fun s => quotedLoop stopChar (s.input.length + 1) builder s
  complete builder

/-- The loop of `parseNonQuotedString`, with the character that `c` holds. -/
def nonQuotedLoop : ℕ → Byte → StringBuilder → Deserializer StringBuilder
  | 0, _, _ => Program.undefined
  | rounds + 1, c, builder => do
      move
      let builder := builder.append c
      let c ← current
      if canBeInNonQuotedString c then nonQuotedLoop rounds c builder else return builder

/-- `parseNonQuotedString` -/
def parseNonQuotedString : Deserializer (List Byte) := do
  let builder ← startString
  let c ← current
  if c = 0 then throw .incompleteInput
  else if canBeInNonQuotedString c then
    let builder ← fun s => nonQuotedLoop (s.input.length + 1) c builder s
    complete builder
  else throw .invalidInput

/-- `parseKey` -/
def parseKey : Deserializer (List Byte) := do
  let c ← current
  if isQuote c then parseQuotedString else parseNonQuotedString

/-- `parseStringValue` -/
def parseStringValue : Deserializer VariantData := do
  let value ← parseQuotedString
  return .ownedString value

/-- The loop of `parseNumericValue`: `buffer`, which has room for so many more. -/
def tokenLoop : ℕ → List Byte → Deserializer (List Byte)
  | room, buffer => do
      let c ← current
      match room with
      | 0 => return buffer
      | room + 1 =>
          if canBeInNonQuotedString c then
            move
            tokenLoop room (buffer ++ [c])
          else return buffer

/-- `parseNumericValue` from the end of its loop on. -/
def tokenValue (buffer : List Byte) : Deserializer VariantData :=
  let c := buffer.headD 0
  if c = 0x74 then if buffer.length = 4 then return .boolean true else throw .incompleteInput
  else if c = 0x66 then
    if buffer.length = 5 then return .boolean false else throw .incompleteInput
  else if c = 0x6E then if buffer.length = 4 then return .null else throw .incompleteInput
  else
    match parseNumber buffer with
    | none => Program.undefined
    | some (.negativeInteger value) => return .negativeInteger value
    | some (.positiveInteger value) => return .positiveInteger value
    | some (.float value) => return .float value
    | some .null => throw .invalidInput

/-- `parseNumericValue` -/
def parseNumericValue : Deserializer VariantData := do
  let buffer ← tokenLoop 63 []
  tokenValue buffer

/-- `parseValue` -/
def parseValue : Deserializer VariantData := do
  let c ← current
  if isQuote c then parseStringValue else parseNumericValue

/-- The loop of `parseArray`, with the elements so far. -/
def arrayLoop (parse : Deserializer VariantData) :
    ℕ → List VariantData → Deserializer VariantData
  | 0, _ => Program.undefined
  | rounds + 1, slots => do
      addSlot
      let value ← parse
      skipSpacesAndComments
      let close ← eat 0x5D
      if close then return .array (slots ++ [value])
      else
        let more ← eat 0x2C
        if more then arrayLoop parse rounds (slots ++ [value]) else throw .invalidInput

/-- `parseArray`; `parse` is what reads an element, if the nesting limit allows one. -/
def parseArray (parse : Option (Deserializer VariantData)) : Deserializer VariantData :=
  match parse with
  | none => throw .tooDeep
  | some parse => do
      let bracket ← eat 0x5B
      if bracket then
        skipSpacesAndComments
        let close ← eat 0x5D
        if close then return .array []
        else fun s => arrayLoop parse (s.input.length + 1) [] s
      else throw .invalidInput

/-- The loop of `parseObject`, with the members so far. -/
def objectLoop (parse : Deserializer VariantData) :
    ℕ → List (List Byte × VariantData) → Deserializer VariantData
  | 0, _ => Program.undefined
  | rounds + 1, slots => do
      addSlot
      let key ← parseKey
      skipSpacesAndComments
      let colon ← eat 0x3A
      if colon then
        let value ← parse
        skipSpacesAndComments
        let close ← eat 0x7D
        if close then return .object (slots ++ [(key, value)])
        else
          let more ← eat 0x2C
          if more then
            skipSpacesAndComments
            objectLoop parse rounds (slots ++ [(key, value)])
          else throw .invalidInput
      else throw .invalidInput

/-- `parseObject` -/
def parseObject (parse : Option (Deserializer VariantData)) : Deserializer VariantData :=
  match parse with
  | none => throw .tooDeep
  | some parse => do
      let brace ← eat 0x7B
      if brace then
        skipSpacesAndComments
        let close ← eat 0x7D
        if close then return .object []
        else fun s => objectLoop parse (s.input.length + 1) [] s
      else throw .invalidInput

/-- `parse`, by what reads the elements of a collection. -/
def parseWith (parse : Option (Deserializer VariantData)) : Deserializer VariantData := do
  skipSpacesAndComments
  let c ← current
  if c = 0x5B then parseArray parse
  else if c = 0x7B then parseObject parse
  else parseValue

/-- `parse`, with `_nestingLimit`. -/
def parse : ℕ → Deserializer VariantData
  | 0 => parseWith none
  | nestingLimit + 1 => parseWith (some (parse nestingLimit))

end Deserializer

/-- `deserializeJson` of a string into a document that has just been cleared. -/
def deserializeJson (text : List Byte) :
    Option (Except DeserializationError (VariantData × Source)) :=
  Deserializer.parse DEFAULT_NESTING_LIMIT ⟨text.takeWhile (· ≠ 0) ++ [0], ⟨0, JSON_BUFF_SIZE⟩⟩

end Json
end Remora
