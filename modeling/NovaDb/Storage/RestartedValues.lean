import NovaDb.Storage.StoredValues

namespace NovaDb
namespace Storage

open Core Foundation

/-!
# A second restart

The conversions to JSON and back change some values: bytes come back as a string,
timestamps as integers, strings in the form of a UUID as UUIDs, and floats that are no
numbers as null.  What they have changed once they leave alone, so a second restart
reads what the first has read.
-/

/-- What `serde_json` and `uuid` document of the numbers and texts they make: integers
and floats report themselves, a UUID is read back from its text, and no text with `0x`
in front is one. -/
structure DocumentedJson (lib : JsonLibrary) : Prop where
  integers : lib.KeepsIntegers
  floats : forall number made, lib.fromF64 number = some made ->
    lib.asI64 made = none ∧ lib.asF64 made = some number
  uuids : forall data, lib.parseStr (lib.uuidText data) = some data
  hexadecimal : forall digits, lib.parseStr ("0x" ++ digits) = none

section Settled

variable {lib : JsonLibrary}

theorem toJsonMembers_eq_map (members : List (String × Value)) :
    Value.toJsonMembers lib members =
      members.map fun entry => (entry.1, Value.toJson lib entry.2) := by
  induction members with
  | nil => rfl
  | cons entry rest ih => rw [Value.toJsonMembers, ih, List.map_cons]

theorem fromJsonMembers_eq_map (members : List (String × JsonValue lib.Number)) :
    Value.fromJsonMembers lib members =
      members.map fun entry => (entry.1, Value.fromJson lib entry.2) := by
  induction members with
  | nil => rfl
  | cons entry rest ih => rw [Value.fromJsonMembers, ih, List.map_cons]

/-- The members of any object are converted one by one, once they are in order. -/
theorem throughJson_members (members : List (String × Value)) :
    Value.throughJson lib (.object members) =
      .object ((KeyedList.collect compare members).map
        fun entry => (entry.1, Value.throughJson lib entry.2)) := by
  have arranged : KeyedList.Arranged compare ((KeyedList.collect compare members).map
      fun entry => (entry.1, Value.throughJson lib entry.2)) := by
    apply (KeyedList.arranged_collect members).of_keys
    rw [List.map_map]
    rfl
  rw [Value.throughJson, Value.toJson, toJsonMembers_eq_map, ← KeyedList.collect_mapValues,
    Value.fromJson, fromJsonMembers_eq_map, List.map_map]
  exact congrArg Value.object (KeyedList.collect_arranged arranged)

theorem throughJson_number (documented : DocumentedJson lib) (number : Float64) :
    Value.throughJson lib (.float number) = .float number ∨
      Value.throughJson lib (.float number) = .null := by
  rw [Value.throughJson, Value.toJson]
  cases made : lib.fromF64 number with
  | none => exact Or.inr rfl
  | some json =>
      rcases documented.floats number json made with ⟨noInteger, double⟩
      refine Or.inl ?_
      simp only [Value.fromJson, noInteger, double]

theorem throughJson_uuid (documented : DocumentedJson lib) (data : Vector UInt8 16) :
    Value.throughJson lib (.uuid data) = .uuid data := by
  rw [Value.throughJson, Value.toJson, Value.fromJson, documented.uuids]

mutual

/-- The conversions change a value at most once. -/
theorem throughJson_settles (documented : DocumentedJson lib) (value : Value) :
    Value.throughJson lib (Value.throughJson lib value) = Value.throughJson lib value := by
  match value with
  | .null | .bool _ => rfl
  | .int number | .timestamp number =>
      have kept : Value.throughJson lib (.int number) = .int number := by
        rw [Value.throughJson, Value.toJson, Value.fromJson, documented.integers]
      change Value.throughJson lib (Value.throughJson lib (.int number)) =
        Value.throughJson lib (.int number)
      rw [kept, kept]
  | .float number =>
      rcases throughJson_number documented number with kept | lost
      · rw [kept, kept]
      · rw [lost]
        rfl
  | .string text =>
      cases parsed : lib.parseStr text with
      | none =>
          have kept : Value.throughJson lib (.string text) = .string text := by
            rw [Value.throughJson, Value.toJson, Value.fromJson, parsed]
          rw [kept, kept]
      | some data =>
          have guessed : Value.throughJson lib (.string text) = .uuid data := by
            rw [Value.throughJson, Value.toJson, Value.fromJson, parsed]
          rw [guessed, throughJson_uuid documented]
  | .bytes data =>
      have encoded : Value.throughJson lib (.bytes data) = .string ("0x" ++ hexEncode data) := by
        rw [Value.throughJson, Value.toJson, Value.fromJson, documented.hexadecimal]
      rw [encoded, Value.throughJson, Value.toJson, Value.fromJson, documented.hexadecimal]
  | .uuid data => rw [throughJson_uuid documented, throughJson_uuid documented]
  | .array items =>
      rw [Value.throughJson_array, Value.throughJson_array, Value.array.injEq]
      exact throughJsonItems_settles documented items
  | .object members =>
      have settled := throughJsonMembers_settles documented members
      have arranged : KeyedList.Arranged compare ((KeyedList.collect compare members).map
          fun entry => (entry.1, Value.throughJson lib entry.2)) := by
        apply (KeyedList.arranged_collect members).of_keys
        rw [List.map_map]
        rfl
      rw [throughJson_members, throughJson_members, KeyedList.collect_arranged arranged, List.map_map]
      apply congrArg Value.object
      apply List.map_congr_left
      intro entry member
      rcases KeyedList.mem_of_mem_stored KeyedList.lawful_compare List.Pairwise.nil member with
        absent | inMembers
      · cases absent
      · exact congrArg (Prod.mk entry.1) (settled entry inMembers)

theorem throughJsonItems_settles (documented : DocumentedJson lib) (items : List Value) :
    Value.fromJsonItems lib (Value.toJsonItems lib
        (Value.fromJsonItems lib (Value.toJsonItems lib items))) =
      Value.fromJsonItems lib (Value.toJsonItems lib items) := by
  match items with
  | [] => rfl
  | item :: items =>
      rw [Value.toJsonItems, Value.fromJsonItems, Value.toJsonItems, Value.fromJsonItems,
        List.cons.injEq]
      exact ⟨throughJson_settles documented item, throughJsonItems_settles documented items⟩

theorem throughJsonMembers_settles (documented : DocumentedJson lib)
    (members : List (String × Value)) :
    forall entry, entry ∈ members ->
      Value.throughJson lib (Value.throughJson lib entry.2) = Value.throughJson lib entry.2 := by
  match members with
  | [] => exact nofun
  | (key, value) :: members =>
      rw [List.forall_mem_cons]
      exact ⟨throughJson_settles documented value, throughJsonMembers_settles documented members⟩

end

/-- The fields of a document go through JSON as the members of an object do. -/
theorem object_throughText (doc : Document) :
    Value.object (throughText lib doc).fields = Value.throughJson lib (.object doc.fields) := by
  rw [throughJson_members, KeyedList.collect_mapValues]
  apply congrArg Value.object
  change KeyedList.collect compare _ = _
  rw [toJsonMembers_eq_map, fromJsonMembers_eq_map, List.map_map]
  rfl

/-- A value changes at most once through the log, and so do the fields of a document:
what the first restart makes of them is what every later one does.  The JSON library is
as documented.  -/
theorem second_restart_unchanged (documented : DocumentedJson lib) :
    (forall value, Value.throughJson lib (Value.throughJson lib value) =
      Value.throughJson lib value) ∧
    forall doc, throughText lib (throughText lib doc) = throughText lib doc := by
  refine ⟨throughJson_settles documented, ?_⟩
  intro doc
  have fields : Value.object (throughText lib (throughText lib doc)).fields =
      Value.object (throughText lib doc).fields := by
    rw [object_throughText, object_throughText, throughJson_settles documented]
  rw [Value.object.injEq] at fields
  change { doc with fields := (throughText lib (throughText lib doc)).fields } = _
  rw [fields]
  rfl

end Settled

/-! ## The reference library does what is documented -/

theorem hexValue_hexDigit {nibble : Nat} (small : nibble < 16) :
    hexValue (hexDigit nibble) = some nibble := by
  have digits : forall nibble, nibble < 16 -> hexValue (hexDigit nibble) = some nibble := by decide
  exact digits nibble small

theorem hexBytes_flatMap (bytes : List UInt8) :
    hexBytes (bytes.flatMap hexByte) = some bytes := by
  induction bytes with
  | nil => rfl
  | cons byte rest ih =>
      have bound := byte.toNat_lt
      have high := @hexValue_hexDigit (byte.toNat / 16) (by omega)
      have low := @hexValue_hexDigit (byte.toNat % 16) (by omega)
      have whole : byte.toNat / 16 * 16 + byte.toNat % 16 = byte.toNat := by omega
      change hexBytes (hexDigit _ :: hexDigit _ :: rest.flatMap hexByte) = _
      rw [hexBytes, high, low, ih]
      simp only [whole, UInt8.ofNat_toNat]

theorem length_flatMap_hexByte (bytes : List UInt8) :
    (bytes.flatMap hexByte).length = 2 * bytes.length := by
  induction bytes with
  | nil => rfl
  | cons byte rest ih =>
      rw [List.flatMap_cons, List.length_append, ih, List.length_cons]
      change 2 + _ = _
      omega

theorem hyphen_not_mem_hex (bytes : List UInt8) : '-' ∉ bytes.flatMap hexByte := by
  have digits : forall nibble, nibble < 16 -> hexDigit nibble ≠ '-' := by decide
  intro member
  rcases List.mem_flatMap.mp member with ⟨byte, _, inByte⟩
  have bound := byte.toNat_lt
  rcases List.mem_cons.mp inByte with same | inLast
  · exact digits _ (by omega) same.symm
  · exact digits _ (by omega) (List.mem_singleton.mp inLast).symm

theorem splitChars_group {word rest : List Char} (free : '-' ∉ word) :
    splitChars '-' (word ++ '-' :: rest) = word :: splitChars '-' rest := by
  induction word with
  | nil => rw [List.nil_append, splitChars, if_pos rfl]
  | cons c word ih =>
      rw [List.mem_cons, not_or] at free
      rw [List.cons_append, splitChars, if_neg (Ne.symm free.1), ih free.2]

/-- The bytes of the five groups. -/
def uuidGroups (data : Vector UInt8 16) : List (List UInt8) :=
  [data.toList.take 4, (data.toList.drop 4).take 2, (data.toList.drop 6).take 2,
    (data.toList.drop 8).take 2, data.toList.drop 10]

theorem flatten_uuidGroups (data : Vector UInt8 16) : (uuidGroups data).flatten = data.toList := by
  have cut : forall place width : Nat, (data.toList.drop place).take width ++
      data.toList.drop (place + width) = data.toList.drop place := by
    intro place width
    rw [← List.drop_drop, List.take_append_drop]
  simp only [uuidGroups, List.flatten_cons, List.flatten_nil, List.append_nil]
  rw [cut 8 2, cut 6 2, cut 4 2, List.take_append_drop]

/-- The text of a UUID splits into the digits of its groups. -/
theorem splitChars_uuidChars (data : Vector UInt8 16) :
    splitChars '-' (uuidChars data) = (uuidGroups data).map (List.flatMap hexByte) := by
  simp only [uuidChars, List.append_assoc, List.cons_append]
  rw [splitChars_group (hyphen_not_mem_hex _), splitChars_group (hyphen_not_mem_hex _),
    splitChars_group (hyphen_not_mem_hex _), splitChars_group (hyphen_not_mem_hex _),
    splitChars_of_free (hyphen_not_mem_hex _)]
  rfl

theorem flatten_map_flatMap (groups : List (List UInt8)) :
    (groups.map (List.flatMap hexByte)).flatten = groups.flatten.flatMap hexByte := by
  induction groups with
  | nil => rfl
  | cons group rest ih =>
      rw [List.map_cons, List.flatten_cons, List.flatten_cons, List.flatMap_append, ih]

theorem parseSimple_flatMap (data : Vector UInt8 16) :
    parseSimple (data.toList.flatMap hexByte) = some data := by
  have size : data.toList.length = 16 := data.length_toList
  unfold parseSimple
  rw [hexBytes_flatMap]
  simp only [size, dif_pos]
  apply congrArg some
  apply Vector.toArray_inj.mp
  exact Array.toArray_toList

theorem parseUuid_uuidChars (data : Vector UInt8 16) :
    parseUuid (String.ofList (uuidChars data)) = some data := by
  have size : data.toList.length = 16 := data.length_toList
  have whole : (uuidChars data).length = 36 := by
    simp only [uuidChars, List.length_append, List.length_cons, length_flatMap_hexByte,
      List.length_take, List.length_drop, size]
    omega
  have lengths : ((uuidGroups data).map (List.flatMap hexByte)).map List.length = [8, 4, 4, 4, 12] := by
    simp only [uuidGroups, List.map_cons, List.map_nil, length_flatMap_hexByte, List.length_take,
      List.length_drop, size]
    rfl
  simp only [parseUuid, String.toList_ofList, whole, if_true]
  rw [parseHyphenated, splitChars_uuidChars, if_pos lengths, flatten_map_flatMap,
    flatten_uuidGroups, parseSimple_flatMap]

theorem parseSimple_hexadecimal (chars : List Char) : parseSimple ('0' :: 'x' :: chars) = none := by
  have digit : hexValue '0' = some 0 := by decide
  have noDigit : hexValue 'x' = none := by decide
  rw [parseSimple, hexBytes, digit, noDigit]

theorem parseHyphenated_hexadecimal (chars : List Char) :
    parseHyphenated ('0' :: 'x' :: chars) = none := by
  rcases List.exists_cons_of_ne_nil (splitChars_ne_nil '-' chars) with ⟨word, words, splits⟩
  have parts : splitChars '-' ('0' :: 'x' :: chars) = ('0' :: 'x' :: word) :: words := by
    rw [splitChars, if_neg (by decide), splitChars, if_neg (by decide), splits]
  rw [parseHyphenated, parts, List.flatten_cons, List.cons_append, List.cons_append,
    parseSimple_hexadecimal, ite_self]

theorem parseUuid_hexadecimal (digits : String) : parseUuid ("0x" ++ digits) = none := by
  have chars : ("0x" ++ digits).toList = '0' :: 'x' :: digits.toList := by
    rw [String.toList_append]
    rfl
  have unbraced : some '0' ≠ some '\x7b' := by decide
  have noUrn : '0' :: 'x' :: digits.toList.take 7 ≠ "urn:uuid:".toList := by
    intro same
    cases same
  simp only [parseUuid, chars, parseHyphenated_hexadecimal, parseSimple_hexadecimal, List.head?_cons,
    unbraced, false_and, and_false, if_false, List.take_succ_cons, noUrn, ite_self]

theorem documented_referenceJson : DocumentedJson referenceJson where
  integers := keepsIntegers_referenceJson
  floats := by
    intro number made isMade
    change (if number.exponentField = 2047 then none else some (Sum.inr number)) = some made at isMade
    split at isMade
    · cases isMade
    · cases isMade
      exact ⟨rfl, rfl⟩
  uuids := by
    intro data
    simp only [referenceJson]
    exact parseUuid_uuidChars data
  hexadecimal := by
    intro digits
    simp only [referenceJson]
    exact parseUuid_hexadecimal digits

theorem second_restart_unchanged_sample :
    Value.throughJson referenceJson (Value.throughJson referenceJson
        (.array [.bytes [1, 255], .timestamp 7, .string "550e8400-e29b-41d4-a716-446655440000"])) =
      Value.throughJson referenceJson
        (.array [.bytes [1, 255], .timestamp 7, .string "550e8400-e29b-41d4-a716-446655440000"]) :=
  (second_restart_unchanged documented_referenceJson).1 _

end Storage
end NovaDb
