import NovaDb.Core.Document

namespace NovaDb
namespace Core

open Foundation

/-!
# Values as JSON

Documents are logged and sent as JSON, through `serde_json::Value`.  JSON has
fewer types than values, so the way back guesses: a number that is an `i64`
becomes an integer, and a string that parses as a UUID becomes a UUID.

What the source uses of the `serde_json` and `uuid` packages is a parameter.
-/

/-- The numbers of `serde_json` and the texts of `uuid`. -/
structure JsonLibrary where
  Number : Type
  fromI64 : Int64 -> Number
  fromF64 : Float64 -> Option Number
  asI64 : Number -> Option Int64
  asF64 : Number -> Option Float64
  parseStr : String -> Option (Vector UInt8 16)
  uuidText : Vector UInt8 16 -> String

/-- A number made from an `i64` reports it. -/
def JsonLibrary.KeepsIntegers (lib : JsonLibrary) : Prop :=
  forall number, lib.asI64 (lib.fromI64 number) = some number

/-- `serde_json::Value`; an object lists its members in ascending key order. -/
inductive JsonValue (Number : Type) where
  | null
  | bool (flag : Bool)
  | number (number : Number)
  | string (text : String)
  | array (items : List (JsonValue Number))
  | object (members : List (String × JsonValue Number))

/-- Lower-case hexadecimal digits, two a byte. -/
def hexEncode (data : List UInt8) : String :=
  String.ofList (data.flatMap hexByte)

namespace Value

variable (lib : JsonLibrary)

mutual

/-- The source's `From<Value> for serde_json::Value`. -/
def toJson : Value -> JsonValue lib.Number
  | .null => .null
  | .bool flag => .bool flag
  | .int number => .number (lib.fromI64 number)
  | .float number =>
      match lib.fromF64 number with
      | some number => .number number
      | none => .null
  | .string text => .string text
  | .bytes data => .string ("0x" ++ hexEncode data)
  | .array items => .array (toJsonItems items)
  | .object members => .object (KeyedList.collect compare (toJsonMembers members))
  | .timestamp micros => .number (lib.fromI64 micros)
  | .uuid data => .string (lib.uuidText data)

def toJsonItems : List Value -> List (JsonValue lib.Number)
  | [] => []
  | item :: items => toJson item :: toJsonItems items

def toJsonMembers : List (String × Value) -> List (String × JsonValue lib.Number)
  | [] => []
  | (key, value) :: members => (key, toJson value) :: toJsonMembers members

end

mutual

/-- The source's `From<serde_json::Value> for Value`. -/
def fromJson : JsonValue lib.Number -> Value
  | .null => .null
  | .bool flag => .bool flag
  | .number number =>
      match lib.asI64 number with
      | some integer => .int integer
      | none =>
          match lib.asF64 number with
          | some double => .float double
          | none => .null
  | .string text =>
      -- if it parses cleanly as UUID, represent as Uuid
      match lib.parseStr text with
      | some data => .uuid data
      | none => .string text
  | .array items => .array (fromJsonItems items)
  | .object members => .object (KeyedList.collect compare (fromJsonMembers members))

def fromJsonItems : List (JsonValue lib.Number) -> List Value
  | [] => []
  | item :: items => fromJson item :: fromJsonItems items

def fromJsonMembers : List (String × JsonValue lib.Number) -> List (String × Value)
  | [] => []
  | (key, value) :: members => (key, fromJson value) :: fromJsonMembers members

end

/-- What a value is read back as. -/
def throughJson (value : Value) : Value :=
  fromJson lib (toJson lib value)

end Value

/-! ## Values that are read back as they are -/

namespace Value

mutual

/-- Values built from null, booleans, integers, strings, arrays and objects, whose
members are in the order of the `BTreeMap` that holds them. -/
def Plain : Value -> Prop
  | .null | .bool _ | .int _ | .string _ => True
  | .array items => PlainItems items
  | .object members => KeyedList.Arranged compare members ∧ PlainMembers members
  | .float _ | .bytes _ | .timestamp _ | .uuid _ => False

def PlainItems : List Value -> Prop
  | [] => True
  | item :: items => Plain item ∧ PlainItems items

def PlainMembers : List (String × Value) -> Prop
  | [] => True
  | (_, value) :: members => Plain value ∧ PlainMembers members

end

mutual

/-- The strings in a value, at any depth. -/
def strings : Value -> List String
  | .string text => [text]
  | .array items => stringsItems items
  | .object members => stringsMembers members
  | _ => []

def stringsItems : List Value -> List String
  | [] => []
  | item :: items => strings item ++ stringsItems items

def stringsMembers : List (String × Value) -> List String
  | [] => []
  | (_, value) :: members => strings value ++ stringsMembers members

end

section ReadBack

variable {lib : JsonLibrary}

/-- Converting the members of an object keeps their keys. -/
theorem keys_toJsonMembers (members : List (String × Value)) :
    (toJsonMembers lib members).map Prod.fst = members.map Prod.fst := by
  induction members with
  | nil => rfl
  | cons entry rest ih => rw [toJsonMembers, List.map_cons, List.map_cons, ih]

theorem keys_fromJsonMembers (members : List (String × JsonValue lib.Number)) :
    (fromJsonMembers lib members).map Prod.fst = members.map Prod.fst := by
  induction members with
  | nil => rfl
  | cons entry rest ih => rw [fromJsonMembers, List.map_cons, List.map_cons, ih]

theorem throughJson_array (items : List Value) :
    throughJson lib (.array items) = .array (fromJsonItems lib (toJsonItems lib items)) := by
  rw [throughJson, toJson, fromJson]

/-- The members of an object in order are converted one by one. -/
theorem throughJson_object {members : List (String × Value)}
    (arranged : KeyedList.Arranged compare members) :
    throughJson lib (.object members) =
      .object (fromJsonMembers lib (toJsonMembers lib members)) := by
  have there := arranged.of_keys (@keys_toJsonMembers lib members)
  have back := there.of_keys (keys_fromJsonMembers (toJsonMembers lib members))
  rw [throughJson, toJson, KeyedList.collect_arranged there, fromJson, KeyedList.collect_arranged back]

mutual

/-- A plain value is read back as it is exactly when none of its strings parses
as a UUID. -/
theorem throughJson_eq_iff (integers : lib.KeepsIntegers) {value : Value} (plain : value.Plain) :
    throughJson lib value = value <-> forall text, text ∈ value.strings -> lib.parseStr text = none := by
  match value with
  | .null | .bool _ => exact iff_of_true rfl (nofun)
  | .int number =>
      refine iff_of_true ?_ (nofun)
      rw [throughJson, toJson, fromJson, integers]
  | .string text =>
      rw [throughJson, toJson, fromJson, strings, List.forall_mem_singleton]
      cases lib.parseStr text with
      | none => exact iff_of_true rfl rfl
      | some data => exact iff_of_false (nofun) (nofun)
  | .array items =>
      rw [throughJson_array, array.injEq, strings]
      exact throughJsonItems_eq_iff integers plain
  | .object members =>
      rw [throughJson_object plain.1, object.injEq, strings]
      exact throughJsonMembers_eq_iff integers plain.2

theorem throughJsonItems_eq_iff (integers : lib.KeepsIntegers) {items : List Value}
    (plain : PlainItems items) :
    fromJsonItems lib (toJsonItems lib items) = items <->
      forall text, text ∈ stringsItems items -> lib.parseStr text = none := by
  match items with
  | [] => exact iff_of_true rfl (nofun)
  | item :: items =>
      rw [toJsonItems, fromJsonItems, List.cons.injEq, stringsItems, List.forall_mem_append]
      exact and_congr (throughJson_eq_iff integers plain.1) (throughJsonItems_eq_iff integers plain.2)

theorem throughJsonMembers_eq_iff (integers : lib.KeepsIntegers) {members : List (String × Value)}
    (plain : PlainMembers members) :
    fromJsonMembers lib (toJsonMembers lib members) = members <->
      forall text, text ∈ stringsMembers members -> lib.parseStr text = none := by
  match members with
  | [] => exact iff_of_true rfl (nofun)
  | (key, value) :: members =>
      rw [toJsonMembers, fromJsonMembers, List.cons.injEq, Prod.mk.injEq, eq_self, true_and,
        stringsMembers, List.forall_mem_append]
      exact and_congr (throughJson_eq_iff integers plain.1) (throughJsonMembers_eq_iff integers plain.2)

end

end ReadBack

end Value

end Core
end NovaDb
