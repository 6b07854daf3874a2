import NovaDb.Core.Json
import NovaDb.Storage.ReferencePlatform

namespace NovaDb
namespace Storage

open Core Foundation

/-!
# Stored values and the log

A record carries its document as JSON text, so what recovery reads is what the
conversions to JSON and back make of the fields.  Fields of plain values come back
unchanged exactly when none of their strings looks like a UUID.
-/

/-- The document read from the JSON text of a document: its field values went
through JSON and were stored into a new map. -/
def throughText (lib : JsonLibrary) (doc : Document) : Document :=
  let restored := Value.fromJsonMembers lib (Value.toJsonMembers lib doc.fields)
  { doc with fields := KeyedList.collect compare restored }

/-- `serde_json` loses nothing of the JSON it writes for the document and reads. -/
def LosslessText (P : Platform) (lib : JsonLibrary) (doc : Document) : Prop :=
  forall bytes, P.toVec doc = .ok bytes -> P.fromSlice bytes = .ok (throughText lib doc)

theorem throughText_fields_iff {lib : JsonLibrary} (integers : lib.KeepsIntegers) {doc : Document}
    (plain : (Value.object doc.fields).Plain) :
    (throughText lib doc).fields = doc.fields <->
      forall text, text ∈ Value.stringsMembers doc.fields -> lib.parseStr text = none := by
  have there := plain.1.of_keys (@Value.keys_toJsonMembers lib doc.fields)
  have back := there.of_keys (Value.keys_fromJsonMembers (Value.toJsonMembers lib doc.fields))
  change KeyedList.collect compare _ = _ <-> _
  rw [KeyedList.collect_arranged back]
  exact Value.throughJsonMembers_eq_iff integers plain.2

/-- Stored values survive the log exactly when none of their strings parses as a
UUID: a plain value through the two conversions, and the fields of a document
through the payload of its record. -/
theorem stored_values_survive_iff {lib : JsonLibrary} (integers : lib.KeepsIntegers) :
    (forall value : Value, value.Plain ->
      (Value.throughJson lib value = value <->
        forall text, text ∈ value.strings -> lib.parseStr text = none)) ∧
    (forall (P : Platform) (doc : Document) (record : NbfRecord), LosslessText P lib doc ->
      (Value.object doc.fields).Plain ->
      NbfRecord.payloadFromDocument P doc = .ok record.payload ->
      Exists fun restored => record.documentFromPayload P = .ok restored ∧
        (restored.fields = doc.fields <->
          forall text, text ∈ Value.stringsMembers doc.fields -> lib.parseStr text = none)) := by
  refine ⟨fun value plain => Value.throughJson_eq_iff integers plain, ?_⟩
  intro P doc record lossless plain encoded
  refine ⟨throughText lib doc, ?_, throughText_fields_iff integers plain⟩
  rw [NbfRecord.payloadFromDocument] at encoded
  cases wrote : P.toVec doc with
  | error message =>
      rw [wrote] at encoded
      cases encoded
  | ok bytes =>
      rw [wrote] at encoded
      cases encoded
      rw [NbfRecord.documentFromPayload, lossless _ wrote]
      rfl

/-! ## A reference library -/

def hexValue (c : Char) : Option Nat :=
  if '0' ≤ c ∧ c ≤ '9' then some (c.toNat - 48)
  else if 'a' ≤ c ∧ c ≤ 'f' then some (c.toNat - 87)
  else if 'A' ≤ c ∧ c ≤ 'F' then some (c.toNat - 55)
  else none

def hexBytes : List Char -> Option (List UInt8)
  | [] => some []
  | [_] => none
  | high :: low :: rest =>
      match hexValue high, hexValue low, hexBytes rest with
      | some high, some low, some bytes => some (UInt8.ofNat (high * 16 + low) :: bytes)
      | _, _, _ => none

/-- Thirty-two hexadecimal digits. -/
def parseSimple (chars : List Char) : Option (Vector UInt8 16) :=
  match hexBytes chars with
  | none => none
  | some bytes => if size : bytes.length = 16 then some ⟨bytes.toArray, by simpa using size⟩ else none

/-- Groups of 8, 4, 4, 4 and 12 digits. -/
def parseHyphenated (chars : List Char) : Option (Vector UInt8 16) :=
  if (splitChars '-' chars).map List.length = [8, 4, 4, 4, 12] then
    parseSimple (splitChars '-' chars).flatten
  else none

/-- The hyphenated, simple, braced and URN forms of a UUID. -/
def parseUuid (text : String) : Option (Vector UInt8 16) :=
  let chars := text.toList
  if chars.length = 36 then parseHyphenated chars
  else if chars.length = 32 then parseSimple chars
  else if chars.length = 38 ∧ chars.head? = some '\x7b' ∧ chars.getLast? = some '\x7d' then
    parseHyphenated chars.tail.dropLast
  else if chars.length = 45 ∧ chars.take 9 = "urn:uuid:".toList then parseHyphenated (chars.drop 9)
  else none

/-- Numbers as `serde_json` keeps them, integers apart from floats. -/
def referenceJson : JsonLibrary where
  Number := Int64 ⊕ Float64
  fromI64 := .inl
  fromF64 := fun number => if number.exponentField = 2047 then none else some (.inr number)
  asI64 := fun
    | .inl integer => some integer
    | .inr _ => none
  asF64 := fun
    | .inl integer => some (Float64.ofInt integer.toInt)
    | .inr number => some number
  parseStr := parseUuid
  uuidText := fun data => String.ofList (uuidChars data)

theorem keepsIntegers_referenceJson : referenceJson.KeepsIntegers :=
  fun _ => rfl

theorem losslessText_sample : LosslessText samplePlatform referenceJson sampleDocument := by
  intro bytes wrote
  refine referencePlatform_roundTrips true (List.mem_singleton.mpr rfl) ?_ wrote
  intro other member _
  exact List.mem_singleton.mp member

theorem stored_values_survive_sample :
    Value.throughJson referenceJson
        (.object [("name", .array [.string "Alice", .int (-3)]), ("tag", .null)]) =
      .object [("name", .array [.string "Alice", .int (-3)]), ("tag", .null)] ∧
    Exists fun restored => NbfRecord.documentFromPayload samplePlatform
        ⟨1, .insert, 0, none, 0, "default", "users", sampleDocument.id, samplePayload⟩ = .ok restored ∧
      restored.fields = sampleDocument.fields := by
  rcases stored_values_survive_iff keepsIntegers_referenceJson with ⟨values, documents⟩
  constructor
  · refine (values _ ?_).mpr ?_
    · refine ⟨?_, ⟨trivial, trivial, trivial⟩, trivial, trivial⟩
      refine List.Pairwise.cons ?_ (List.pairwise_singleton _ _)
      intro entry member
      rcases List.mem_singleton.mp member with rfl
      decide +kernel
    · intro text member
      rcases List.mem_singleton.mp member with rfl
      decide +kernel
  · rcases documents samplePlatform sampleDocument
      ⟨1, .insert, 0, none, 0, "default", "users", sampleDocument.id, samplePayload⟩
      losslessText_sample ⟨List.Pairwise.nil, trivial⟩ payloadFromDocument_sample with
      ⟨restored, read, unchanged⟩
    exact ⟨restored, read, unchanged.mpr (nofun)⟩

/-- A string in the form of a UUID comes back as a UUID. -/
theorem uuid_string_not_restored :
    (Value.string "550e8400-e29b-41d4-a716-446655440000").Plain ∧
      Value.throughJson referenceJson (.string "550e8400-e29b-41d4-a716-446655440000") ≠
        .string "550e8400-e29b-41d4-a716-446655440000" := by
  refine ⟨trivial, ?_⟩
  intro restored
  have typeNames := congrArg Value.typeName restored
  revert typeNames
  decide +kernel

end Storage
end NovaDb
