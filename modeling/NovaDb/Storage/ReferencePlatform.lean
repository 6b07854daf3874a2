import NovaDb.Storage.Format

namespace NovaDb
namespace Storage

open Core Foundation

/-!
# A platform to run the model on

The model takes the checksum and the JSON codec as parameters.  This module has
concrete ones: CRC-32 as `crc32fast` computes it, and the JSON text `serde_json`
writes for documents whose fields hold null, truth values and integers.  Decoding
is a search among the texts of a given list of documents, so what was encoded is
accepted by construction.
-/

/-- One bit of the register of the reflected CRC-32. -/
def crc32Bit (register : UInt32) : UInt32 :=
  if register &&& 1 = 1 then (register >>> 1) ^^^ 0xEDB88320 else register >>> 1

/-- One byte into the register. -/
def crc32Byte (register : UInt32) (byte : UInt8) : UInt32 :=
  (List.range 8).foldl (fun register _ => crc32Bit register) (register ^^^ byte.toUInt32)

def crc32 (bytes : List UInt8) : UInt32 :=
  bytes.foldl crc32Byte 0xFFFFFFFF ^^^ 0xFFFFFFFF

/-- The check value of the CRC-32 catalogue: the digits one to nine. -/
example : crc32 (utf8Bytes "123456789") = 0xCBF43926 := by decide +kernel

theorem and_one_iff (register : UInt32) :
    register &&& 1 = 1 <-> register.toBitVec.getLsbD 0 = true := by
  rw [← UInt32.toBitVec_inj, UInt32.toBitVec_and]
  change register.toBitVec &&& 1#32 = 1#32 <-> _
  rw [BitVec.and_one_eq_setWidth_ofBool_getLsbD]
  cases register.toBitVec.getLsbD 0 <;> decide

/-- The bits of the register after one step. -/
theorem getLsbD_crc32Bit (register : UInt32) (place : Nat) :
    (crc32Bit register).toBitVec.getLsbD place =
      (register.toBitVec.getLsbD (1 + place) ^^
        (register.toBitVec.getLsbD 0 && (0xEDB88320#32).getLsbD place)) := by
  unfold crc32Bit
  split
  · rename_i low
    rw [UInt32.toBitVec_xor, UInt32.toBitVec_shiftRight, BitVec.getLsbD_xor,
      (and_one_iff register).mp low]
    simp
  · rename_i high
    rw [Bool.eq_false_iff.mpr (fun low => high ((and_one_iff register).mpr low))]
    simp

theorem crc32Bit_injective : Function.Injective crc32Bit := by
  intro left right same
  have bits := fun place => (getLsbD_crc32Bit left place).symm.trans
    ((congrArg (fun register => register.toBitVec.getLsbD place) same).trans
      (getLsbD_crc32Bit right place))
  -- the top bit of the result is the lowest bit of the register
  have low : left.toBitVec.getLsbD 0 = right.toBitVec.getLsbD 0 := by
    have top := bits 31
    simpa using top
  apply UInt32.toBitVec_inj.mp
  apply BitVec.eq_of_getLsbD_eq
  intro place inside
  cases place with
  | zero => exact low
  | succ below =>
      have shifted := bits below
      rw [low, Nat.add_comm] at shifted
      exact Bool.xor_left_inj.mp shifted

/-- Different registers stay different, whatever byte comes next. -/
theorem crc32Byte_injective (byte : UInt8) :
    Function.Injective fun register => crc32Byte register byte := by
  have eight : Function.Injective (crc32Bit^[8]) := crc32Bit_injective.iterate 8
  intro left right same
  exact (UInt32.xor_left_inj byte.toUInt32).mp (eight same)

theorem foldl_crc32Byte_injective (bytes : List UInt8) :
    Function.Injective fun register => bytes.foldl crc32Byte register := by
  induction bytes with
  | nil => exact Function.injective_id
  | cons byte rest inductionHypothesis =>
      exact inductionHypothesis.comp (crc32Byte_injective byte)

/-- Different bytes lead to different registers. -/
theorem crc32Byte_ne (register : UInt32) {old new : UInt8} (different : old ≠ new) :
    crc32Byte register old ≠ crc32Byte register new := by
  have eight : Function.Injective (crc32Bit^[8]) := crc32Bit_injective.iterate 8
  intro same
  have bytes : old.toUInt32 = new.toUInt32 := (UInt32.xor_right_inj register).mp (eight same)
  have numbers := congrArg UInt32.toNat bytes
  rw [UInt8.toNat_toUInt32, UInt8.toNat_toUInt32] at numbers
  exact different (UInt8.toNat_inj.mp numbers)

/-- CRC-32 tells apart bytes that differ in one place. -/
theorem crc32_ne (front back : List UInt8) {old new : UInt8} (different : old ≠ new) :
    crc32 (front ++ old :: back) ≠ crc32 (front ++ new :: back) := by
  intro same
  have registers := (UInt32.xor_left_inj 0xFFFFFFFF).mp same
  rw [List.foldl_append, List.foldl_append, List.foldl_cons, List.foldl_cons] at registers
  exact crc32Byte_ne _ different (foldl_crc32Byte_injective back registers)

/-- The JSON text of a plain value. -/
def plainText : Value -> Option String
  | .null => some "null"
  | .bool true => some "true"
  | .bool false => some "false"
  | .int number => some (toString number.toInt)
  | _ => none

/-- A text in double quotes; nothing is escaped. -/
def quoted (text : String) : String :=
  "\"" ++ text ++ "\""

def memberTexts : List (String × Value) -> Option (List String)
  | [] => some []
  | (name, value) :: rest =>
      match plainText value, memberTexts rest with
      | some text, some texts => some ((quoted name ++ ":" ++ text) :: texts)
      | _, _ => none

/-- The JSON text of a document with plain fields. -/
def documentText (doc : Document) : Option String :=
  (memberTexts doc.fields).map fun texts =>
    "\x7b\"id\":" ++ quoted doc.id.asStr ++ ",\"version\":" ++ toString doc.version.toNat ++
      ",\"created_at\":" ++ toString doc.createdAt.toInt ++ ",\"updated_at\":" ++
      toString doc.updatedAt.toInt ++ ",\"fields\":\x7b" ++ ",".intercalate texts ++ "\x7d\x7d"

/-- The JSON bytes of a document of the list: the first with the same text. -/
def referencePlatform (overflowChecks : Bool) (documents : List Document) : Platform where
  crc32 := crc32
  toVec := fun doc =>
    match documentText doc with
    | none => .error "unsupported value"
    | some text =>
        if documents.any (fun other => documentText other = some text) then .ok (utf8Bytes text)
        else .error "unsupported value"
  fromSlice := fun bytes =>
    match documents.find? (fun other => (documentText other).map utf8Bytes = some bytes) with
    | some doc => .ok doc
    | none => .error "expected value at line 1 column 1"
  overflowChecks

theorem utf8Bytes_inj {left right : String} (same : utf8Bytes left = utf8Bytes right) :
    left = right := by
  have decoded := congrArg fromUtf8 same
  rw [fromUtf8_utf8Bytes, fromUtf8_utf8Bytes] at decoded
  exact Option.some.inj decoded

/-- A document of the list that shares its text with no other is read back. -/
theorem referencePlatform_roundTrips (overflowChecks : Bool) {documents : List Document}
    {doc : Document} (member : doc ∈ documents)
    (distinct : forall other, other ∈ documents -> documentText other = documentText doc ->
      other = doc) {bytes : List UInt8}
    (encoded : (referencePlatform overflowChecks documents).toVec doc = .ok bytes) :
    (referencePlatform overflowChecks documents).fromSlice bytes = .ok doc := by
  simp only [referencePlatform] at encoded ⊢
  cases isText : documentText doc with
  | none =>
      rw [isText] at encoded
      cases encoded
  | some text =>
      simp only [isText] at encoded
      split at encoded
      · cases encoded
        cases search : documents.find?
            (fun other => (documentText other).map utf8Bytes = some (utf8Bytes text)) with
        | none =>
            have missed := List.find?_eq_none.mp search doc member
            rw [isText] at missed
            exact absurd (decide_eq_true rfl) missed
        | some found =>
            have passes : (documentText found).map utf8Bytes = some (utf8Bytes text) := by
              have accepted := List.find?_some search
              exact of_decide_eq_true accepted
            rcases Option.map_eq_some_iff.mp passes with ⟨other, isOther, sameBytes⟩
            rw [utf8Bytes_inj sameBytes, ← isText] at isOther
            rw [distinct found (List.mem_of_find?_eq_some search) isOther]
      · cases encoded

/-- The same plain value. -/
def identical : Value -> Value -> Bool
  | .null, .null => true
  | .bool left, .bool right => left == right
  | .int left, .int right => decide (left = right)
  | _, _ => false

theorem eq_of_identical {left right : Value} (same : identical left right = true) :
    left = right := by
  unfold identical at same
  split at same
  · rfl
  · rw [eq_of_beq same]
  · rw [of_decide_eq_true same]
  · cases same

def identicalMembers : List (String × Value) -> List (String × Value) -> Bool
  | [], [] => true
  | (name, value) :: rest, (other, counterpart) :: others =>
      decide (name = other) && identical value counterpart && identicalMembers rest others
  | _, _ => false

theorem eq_of_identicalMembers {left right : List (String × Value)}
    (same : identicalMembers left right = true) : left = right := by
  fun_induction identicalMembers left right with
  | case1 => rfl
  | case2 name value rest other counterpart others inductionHypothesis =>
      rw [Bool.and_eq_true, Bool.and_eq_true, decide_eq_true_iff] at same
      rcases same with ⟨⟨rfl, sameValue⟩, sameRest⟩
      rw [eq_of_identical sameValue, inductionHypothesis sameRest]
  | case3 => cases same

/-- The same document, with plain fields. -/
def identicalDocument (left right : Document) : Bool :=
  decide (left.id = right.id) && decide (left.version = right.version) &&
    decide (left.createdAt = right.createdAt) && decide (left.updatedAt = right.updatedAt) &&
    identicalMembers left.fields right.fields

theorem eq_of_identicalDocument {left right : Document}
    (same : identicalDocument left right = true) : left = right := by
  rcases left with ⟨id, version, createdAt, updatedAt, fields⟩
  rcases right with ⟨otherId, otherVersion, otherCreated, otherUpdated, others⟩
  simp only [identicalDocument, Bool.and_eq_true, decide_eq_true_iff] at same
  rcases same with ⟨⟨⟨⟨rfl, rfl⟩, rfl⟩, rfl⟩, sameFields⟩
  rw [eq_of_identicalMembers sameFields]

/-- Documents with texts of their own are all read back. -/
theorem referencePlatform_reads (overflowChecks : Bool) {documents : List Document}
    (distinct : (documents.map documentText).Nodup) {doc : Document}
    (listed : documents.any (identicalDocument doc) = true) {bytes : List UInt8}
    (encoded : (referencePlatform overflowChecks documents).toVec doc = .ok bytes) :
    (referencePlatform overflowChecks documents).fromSlice bytes = .ok doc := by
  rcases List.any_eq_true.mp listed with ⟨other, member, same⟩
  rw [← eq_of_identicalDocument same] at member
  apply referencePlatform_roundTrips overflowChecks member _ encoded
  intro third inList sameText
  exact List.inj_on_of_nodup_map distinct inList member sameText

/-- A document without fields, as `INSERT INTO ... { id: "a" }` makes it. -/
def sampleDocument : Document := ⟨⟨"a"⟩, 1, 0, 0, []⟩

/-- The same with one field. -/
def agedDocument : Document := ⟨⟨"a"⟩, 1, 0, 0, [("age", .int 1)]⟩

/-- The same after an UPDATE of the field. -/
def grownDocument : Document := ⟨⟨"a"⟩, 2, 0, 0, [("age", .int 2)]⟩

/-- Another document, without the field. -/
def agelessDocument : Document := ⟨⟨"b"⟩, 1, 0, 0, []⟩

/-- The reference platform for runs on the sample document. -/
def samplePlatform : Platform := referencePlatform true [sampleDocument]

/-- The reference platform for runs on both. -/
def pairPlatform : Platform := referencePlatform true [sampleDocument, agedDocument]

/-- The reference platform for runs on two documents, one of which is updated. -/
def crowdPlatform : Platform :=
  referencePlatform true [agedDocument, grownDocument, agelessDocument]

theorem crowdPlatform_reads {doc : Document}
    (listed : [agedDocument, grownDocument, agelessDocument].any (identicalDocument doc) = true)
    {bytes : List UInt8} (encoded : crowdPlatform.toVec doc = .ok bytes) :
    crowdPlatform.fromSlice bytes = .ok doc :=
  referencePlatform_reads true (by decide +kernel) listed encoded

/-- The JSON bytes of the sample document. -/
def samplePayload : List UInt8 :=
  utf8Bytes "\x7b\"id\":\"a\",\"version\":1,\"created_at\":0,\"updated_at\":0,\"fields\":\x7b\x7d\x7d"

theorem payloadFromDocument_sample :
    NbfRecord.payloadFromDocument samplePlatform sampleDocument = .ok samplePayload := by
  decide +kernel

theorem fromSlice_sample : samplePlatform.fromSlice samplePayload = .ok sampleDocument := by
  refine referencePlatform_roundTrips true (List.mem_singleton_self _) ?_ (by decide +kernel)
  intro other member _
  exact List.mem_singleton.mp member

theorem built_sample : DocumentId.Built sampleDocument.id := by
  refine @DocumentId.Built.new "a" _ ?_
  decide +kernel

theorem built_ageless : DocumentId.Built agelessDocument.id := by
  refine @DocumentId.Built.new "b" _ ?_
  decide +kernel

end Storage
end NovaDb
