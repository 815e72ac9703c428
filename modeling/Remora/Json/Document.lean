/-
# What a document shows

The conversions of ArduinoJson through which `configThreads` and `loadModules` look at
`doc`: a member of an object by its key, the elements of an array, a string, a number as
`uint32_t` and as `int`.  What is absent or of another kind shows a null string and `0`;
a string of digits shows its number.

A double is converted by the parameter `Conversions`.  A name is a `String`, so a string
that is not UTF-8 has none; and a string with hundreds of digits leads `parseNumber` past
a table.  A document with such a member is not one that the loader's model can be given
(`document`).
-/

import Remora.Config.PinNames
import Remora.Json.Deserializer

namespace Remora
namespace Json

open Basis

/-- `TOut(value)` of a double in the range of the type, `0` of another. -/
structure Conversions where
  toUInt32 : JsonFloat → Word
  toInt : JsonFloat → Word

/-- An integral type of 32 bits, as `convertNumber.hpp` asks for it. -/
structure IntegralType where
  highest : BitVec 64
  signed : Bool
  convertFloat : JsonFloat → Word

/-- `uint32_t` -/
def Conversions.uint32 (c : Conversions) : IntegralType := ⟨0xFFFFFFFF, false, c.toUInt32⟩

/-- `int` -/
def Conversions.int (c : Conversions) : IntegralType := ⟨0x7FFFFFFF, true, c.toInt⟩

/-- `convertPositiveInteger` -/
def convertPositiveInteger (T : IntegralType) (value : BitVec 64) : Word :=
  if value ≤ T.highest then value.setWidth 32 else 0

/-- `convertNegativeInteger` -/
def convertNegativeInteger (T : IntegralType) (value : BitVec 64) : Word :=
  if T.signed = true ∧ value ≤ T.highest + 1 then (~~~value + 1).setWidth 32 else 0

/-- `ParsedNumber::as` -/
def ParsedNumber.convert (T : IntegralType) : ParsedNumber → Word
  | .null => 0
  | .negativeInteger value => convertNegativeInteger T value
  | .positiveInteger value => convertPositiveInteger T value
  | .float value => T.convertFloat value

namespace VariantData

/-- `asString` -/
def asString : VariantData → Option (List Byte)
  | .ownedString s => some s
  | _ => none

/-- `asIntegral`, with `parseInteger` of a string. -/
def asIntegral (T : IntegralType) : VariantData → Option Word
  | .positiveInteger value => some (convertPositiveInteger T value)
  | .boolean value => some (convertPositiveInteger T (if value then 1 else 0))
  | .negativeInteger value => some (convertNegativeInteger T value)
  | .ownedString s => (parseNumber s).map (ParsedNumber.convert T)
  | .float value => some (T.convertFloat value)
  | _ => some 0

/-- `getMember`, with `CollectionData::getSlot` -/
def getMember : VariantData → List Byte → Option VariantData
  | .object slots, key => (slots.find? fun slot => slot.1 = key).map Prod.snd
  | _, _ => none

/-- The elements of `as<JsonArray>()`. -/
def elements : VariantData → List VariantData
  | .array slots => slots
  | _ => []

end VariantData

/-- The name that stands in a string. -/
def nameOf (s : List Byte) : Option String :=
  String.fromUTF8? ⟨(s.map UInt8.ofBitVec).toArray⟩

/-- What a value shows. -/
def variant (c : Conversions) (v : VariantData) : JsonVariant where
  asString := v.asString.bind nameOf
  asUInt32 := (v.asIntegral c.uint32).getD 0
  asInt := (v.asIntegral c.int).getD 0

/-- What an entry shows, key by key. -/
def object (c : Conversions) (v : VariantData) : JsonObject := fun key =>
  (v.getMember (nameBytes key)).elim .null (variant c)

/-- A string is a name, and converting it stays inside the tables. -/
def presentable : VariantData → Bool
  | .ownedString s => (nameOf s).isSome && (parseNumber s).isSome
  | _ => true

/-- Every member of an entry is presentable. -/
def presentableEntry : VariantData → Bool
  | .object slots => slots.all fun slot => presentable slot.2
  | _ => true

/-- The entries of `doc[key]`. -/
def entries (v : VariantData) (key : String) : List VariantData :=
  (v.getMember (nameBytes key)).elim [] VariantData.elements

/-- What `doc` shows to the loader. -/
def document (c : Conversions) (v : VariantData) : Option JsonDocument :=
  if (entries v "Threads" ++ entries v "Modules").all presentableEntry then
    some ⟨(entries v "Threads").map (object c), (entries v "Modules").map (object c)⟩
  else none

/-- **Names and strings**: a name is found again from its bytes. -/
theorem nameOf_eq_some {s : List Byte} {name : String} :
    nameOf s = some name ↔ s = nameBytes name := by
  have hback : ∀ l : List Byte, (l.map UInt8.ofBitVec).map UInt8.toBitVec = l := fun l => by
    rw [List.map_map, show UInt8.toBitVec ∘ UInt8.ofBitVec = id from rfl, List.map_id]
  have hforth : ∀ l : List UInt8, (l.map UInt8.toBitVec).map UInt8.ofBitVec = l := fun l => by
    rw [List.map_map, show UInt8.ofBitVec ∘ UInt8.toBitVec = id from rfl, List.map_id]
  rw [nameOf, String.fromUTF8?]
  constructor
  · intro h
    split_ifs at h
    obtain rfl := Option.some.inj h
    exact (hback s).symm
  · rintro rfl
    have harray : (⟨((nameBytes name).map UInt8.ofBitVec).toArray⟩ : ByteArray) =
        name.toByteArray := by
      rw [nameBytes, hforth]
      rfl
    rw [dif_pos (harray ▸ name.isValidUTF8)]
    refine congrArg some ?_
    exact String.toByteArray_inj.1 harray

end Json
end Remora
