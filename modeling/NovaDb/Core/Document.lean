import Mathlib
import NovaDb.Core.Error
import NovaDb.Core.Value
import NovaDb.Foundation.KeyedList

namespace NovaDb
namespace Core

open Foundation

/-!
# Documents and document ids

`DocumentId::new` trims its argument and checks it; `generate` formats a random
UUID.  The type itself carries no invariant in the source, since the derived
deserializer builds an id from any string, so the two constructors are named by
the predicate `DocumentId.Built`.  Decoding a log record calls `new` again on the
stored text, and `DocumentId.new_asStr` says that this reads a built id back.
-/

/-! ## Text helpers of the standard library -/

/-- Unicode `White_Space`, as in `char::is_whitespace`. -/
def isWhitespace (c : Char) : Bool :=
  let code := c.toNat
  decide ((9 ≤ code ∧ code ≤ 13) ∨ code = 0x20 ∨ code = 0x85 ∨ code = 0xA0 ∨ code = 0x1680 ∨
    (0x2000 ≤ code ∧ code ≤ 0x200A) ∨ code = 0x2028 ∨ code = 0x2029 ∨ code = 0x202F ∨
    code = 0x205F ∨ code = 0x3000)

def trimChars (chars : List Char) : List Char :=
  (chars.dropWhile isWhitespace).rdropWhile isWhitespace

/-- `str::trim`. -/
def trim (text : String) : String :=
  String.ofList (trimChars text.toList)

/-- `str::split` at a character. -/
def splitChars (separator : Char) : List Char -> List (List Char)
  | [] => [[]]
  | c :: rest =>
      if c = separator then [] :: splitChars separator rest
      else
        match splitChars separator rest with
        | [] => [[c]]
        | word :: words => (c :: word) :: words

/-- Characters without the separator are one word, and else the first word ends
at the first separator. -/
theorem splitChars_cases (separator : Char) (chars : List Char) :
    (separator ∉ chars ∧ splitChars separator chars = [chars]) ∨
      Exists fun word => Exists fun rest => separator ∉ word ∧ chars = word ++ separator :: rest ∧
        splitChars separator chars = word :: splitChars separator rest := by
  induction chars with
  | nil => exact .inl ⟨List.not_mem_nil, rfl⟩
  | cons c chars inductionHypothesis =>
      by_cases isSeparator : c = separator
      · refine .inr ⟨[], chars, List.not_mem_nil, ?_, ?_⟩
        · rw [isSeparator, List.nil_append]
        · rw [splitChars, if_pos isSeparator]
      · have notHead : separator ≠ c := fun same => isSeparator same.symm
        rcases inductionHypothesis with ⟨free, whole⟩ | ⟨word, rest, free, parts, whole⟩
        · refine .inl ⟨?_, ?_⟩
          · rw [List.mem_cons, not_or]
            exact ⟨notHead, free⟩
          · rw [splitChars, if_neg isSeparator, whole]
        · refine .inr ⟨c :: word, rest, ?_, ?_, ?_⟩
          · rw [List.mem_cons, not_or]
            exact ⟨notHead, free⟩
          · rw [parts, List.cons_append]
          · rw [splitChars, if_neg isSeparator, whole]

theorem splitChars_ne_nil (separator : Char) (chars : List Char) :
    splitChars separator chars ≠ [] := by
  rcases splitChars_cases separator chars with ⟨_, whole⟩ | ⟨_, _, _, _, whole⟩ <;>
    rw [whole] <;> exact List.cons_ne_nil _ _

theorem splitChars_of_free {separator : Char} {word : List Char} (free : separator ∉ word) :
    splitChars separator word = [word] := by
  rcases splitChars_cases separator word with ⟨_, whole⟩ | ⟨_, _, _, parts, _⟩
  · exact whole
  · rw [parts] at free
    exact absurd (List.mem_append_right _ List.mem_cons_self) free

def splitDots (path : String) : List String :=
  (splitChars '.' path.toList).map String.ofList

def hexDigit (nibble : Nat) : Char :=
  if nibble < 10 then Char.ofNat (48 + nibble) else Char.ofNat (87 + nibble)

/-- Two lower-case hexadecimal digits. -/
def hexByte (byte : UInt8) : List Char :=
  [hexDigit (byte.toNat / 16), hexDigit (byte.toNat % 16)]

/-- The hyphenated text of a UUID. -/
def uuidChars (data : Vector UInt8 16) : List Char :=
  let hex := fun (bytes : List UInt8) => bytes.flatMap hexByte
  let bytes := data.toList
  hex (bytes.take 4) ++ '-' :: hex ((bytes.drop 4).take 2) ++ '-' :: hex ((bytes.drop 6).take 2) ++
    '-' :: hex ((bytes.drop 8).take 2) ++ '-' :: hex (bytes.drop 10)

/-! ## Document ids -/

/-- Unique identifier for a document within a collection. -/
structure DocumentId where
  asStr : String
  deriving DecidableEq, Repr

namespace DocumentId

/-- Create a new DocumentId from a string, validating format. -/
def new (text : String) : Except NovaError DocumentId :=
  let trimmed := trim text
  if trimmed = "" then .error (NovaError.invalidQuery "Document ID cannot be empty")
  else if 256 < trimmed.utf8ByteSize then
    .error (NovaError.invalidQuery "Document ID cannot exceed 256 bytes")
  else .ok ⟨trimmed⟩

/-- Generate a new UUID-based DocumentId, from the random UUID drawn. -/
def generate (uuid : Vector UInt8 16) : DocumentId :=
  ⟨String.ofList (uuidChars uuid)⟩

/-- Ids the program makes: the results of `new` and of `generate`. -/
inductive Built : DocumentId -> Prop where
  | new {text : String} {id : DocumentId} (made : DocumentId.new text = .ok id) : Built id
  | generate (uuid : Vector UInt8 16) : Built (generate uuid)

end DocumentId

/-! ## Documents -/

/-- A structured document stored in NOVA DB. -/
structure Document where
  id : DocumentId
  version : UInt64
  createdAt : Int64
  updatedAt : Int64
  fields : List (String × Value)

/-- Convert to string if applicable, or error. -/
def Value.asStr : Value -> Except NovaError String
  | .string text => .ok text
  | other => .error (NovaError.typeError "string" other.typeName)

namespace Document

/-- Create a new empty document with an automatically generated UUID, from the
random UUID drawn and the clock. -/
def new (uuid : Vector UInt8 16) (now : Int64) : Document :=
  ⟨DocumentId.generate uuid, 1, now, now, []⟩

/-- Retrieve a field value by nested dot-path (e.g. "profile.email"). -/
def getPath (doc : Document) (path : String) : Option Value :=
  if path = "_id" ∨ path = "id" then none
  else
    match splitDots path with
    | [] => none
    | first :: rest =>
        match doc.fields.lookup first with
        | some current => current.followPath rest
        | none => none

/-- The lookup every user of a field makes: the nested path first, then a
field whose literal name is the whole path. -/
def fieldValue (doc : Document) (path : String) : Option Value :=
  (doc.getPath path).or (doc.fields.lookup path)

/-- Set a field in the document. -/
def insert (doc : Document) (key : String) (value : Value) : Document :=
  { doc with fields := KeyedList.insert compare key value doc.fields }

/-- Advance document revision and update timestamp.  The increment panics at
the largest version when overflow checks are compiled in, and wraps otherwise. -/
def advanceVersion (overflowChecks : Bool) (now : Int64) (doc : Document) : Outcome Document :=
  if overflowChecks && doc.version == 0xFFFFFFFFFFFFFFFF then
    .error (.panic "attempt to add with overflow")
  else .ok { doc with version := doc.version + 1, updatedAt := now }

end Document

/-! ## Code outside the repository -/

/-- What the database takes from outside its own sources: the checksum of
`crc32fast`, the JSON text of a document by `serde_json`, and whether the build
checks integer overflow. -/
structure Platform where
  crc32 : List UInt8 -> UInt32
  toVec : Document -> Except String (List UInt8)
  fromSlice : List UInt8 -> Except String Document
  overflowChecks : Bool

/-! ## An id the program made is read back -/

theorem dropWhile_eq_self_of_head {chars : List Char}
    (head : forall c, chars.head? = some c -> isWhitespace c = false) :
    chars.dropWhile isWhitespace = chars := by
  cases chars with
  | nil => rfl
  | cons c rest => rw [List.dropWhile_cons_of_neg (by rw [head c rfl]; exact Bool.false_ne_true)]

theorem head_dropWhile {chars : List Char} {c : Char}
    (first : (chars.dropWhile isWhitespace).head? = some c) : isWhitespace c = false := by
  have stopped := List.head?_dropWhile_not isWhitespace chars
  rw [first] at stopped
  simpa using stopped

theorem trimChars_trimChars (chars : List Char) :
    trimChars (trimChars chars) = trimChars chars := by
  have leading : (trimChars chars).dropWhile isWhitespace = trimChars chars := by
    apply dropWhile_eq_self_of_head
    intro c first
    rcases List.rdropWhile_prefix isWhitespace (chars.dropWhile isWhitespace) with ⟨dropped, whole⟩
    refine @head_dropWhile chars c ?_
    rw [← whole, List.head?_append]
    unfold trimChars at first
    rw [first]
    rfl
  rw [trimChars, leading]
  exact List.rdropWhile_idempotent isWhitespace _

theorem trimChars_eq_self {chars : List Char}
    (none : forall c, c ∈ chars -> isWhitespace c = false) :
    trimChars chars = chars := by
  have leading : chars.dropWhile isWhitespace = chars :=
    dropWhile_eq_self_of_head (fun c first => none c (List.mem_of_head? first))
  rw [trimChars, leading, List.rdropWhile_eq_self_iff]
  intro nonempty
  rw [none _ (List.getLast_mem nonempty)]
  exact Bool.false_ne_true

/-- Text without white space whose characters take one byte each. -/
def PlainAscii (chars : List Char) : Prop :=
  forall c, c ∈ chars -> isWhitespace c = false ∧ c.utf8Size = 1

theorem hexDigit_plain {nibble : Nat} (small : nibble < 16) :
    isWhitespace (hexDigit nibble) = false ∧ (hexDigit nibble).utf8Size = 1 := by
  revert nibble
  decide

theorem hexBytes_plain (bytes : List UInt8) : PlainAscii (bytes.flatMap hexByte) := by
  intro c member
  rcases List.mem_flatMap.mp member with ⟨byte, _, digit⟩
  have bound := byte.toNat_lt
  rcases List.mem_pair.mp digit with rfl | rfl
  · exact hexDigit_plain (by omega)
  · exact hexDigit_plain (by omega)

theorem PlainAscii.append {left right : List Char} (first : PlainAscii left)
    (second : PlainAscii right) : PlainAscii (left ++ right) := by
  intro c member
  rcases List.mem_append.mp member with inLeft | inRight
  · exact first c inLeft
  · exact second c inRight

theorem PlainAscii.hyphen {chars : List Char} (plain : PlainAscii chars) :
    PlainAscii ('-' :: chars) := by
  intro c member
  rcases List.mem_cons.mp member with rfl | inRest
  · decide
  · exact plain c inRest

theorem uuidChars_plain (uuid : Vector UInt8 16) : PlainAscii (uuidChars uuid) := by
  refine PlainAscii.append (PlainAscii.append (PlainAscii.append (PlainAscii.append ?_ ?_) ?_) ?_) ?_
  · exact hexBytes_plain _
  all_goals exact (hexBytes_plain _).hyphen

theorem utf8ByteSize_ofList_plain {chars : List Char} (plain : PlainAscii chars) :
    (String.ofList chars).utf8ByteSize = chars.length := by
  induction chars with
  | nil => rfl
  | cons c rest ih =>
      have headSize := (plain c List.mem_cons_self).2
      have restSize := ih (fun d member => plain d (List.mem_cons_of_mem c member))
      rw [String.ofList_cons, String.utf8ByteSize_append, String.utf8ByteSize_singleton,
        headSize, restSize, List.length_cons, Nat.add_comm]

theorem length_uuidChars (uuid : Vector UInt8 16) : (uuidChars uuid).length = 36 := by
  simp [uuidChars, hexByte, List.length_flatMap]

namespace DocumentId

/-- An id made by `new` keeps its own text when `new` reads it again. -/
theorem new_of_new {text : String} {id : DocumentId} (made : new text = .ok id) :
    new id.asStr = .ok id := by
  have trimmed : trim (trim text) = trim text := by
    simp only [trim, String.toList_ofList, trimChars_trimChars]
  simp only [new] at made ⊢
  split at made
  · cases made
  · split at made
    · cases made
    · rename_i nonempty bounded
      cases made
      rw [trimmed, if_neg nonempty, if_neg bounded]

theorem new_generate (uuid : Vector UInt8 16) :
    new (generate uuid).asStr = .ok (generate uuid) := by
  have plain := uuidChars_plain uuid
  have trimmed : trim (String.ofList (uuidChars uuid)) = String.ofList (uuidChars uuid) := by
    simp only [trim, String.toList_ofList, trimChars_eq_self (fun c member => (plain c member).1)]
  have size : (String.ofList (uuidChars uuid)).utf8ByteSize = 36 := by
    rw [utf8ByteSize_ofList_plain plain, length_uuidChars]
  have nonempty : String.ofList (uuidChars uuid) ≠ "" := by
    intro empty
    rw [empty] at size
    cases size
  simp only [new, generate, trimmed, if_neg nonempty, size]
  rfl

/-- `DocumentId::new`, applied to the text of an id the program made, returns it. -/
theorem new_asStr {id : DocumentId} (built : Built id) : new id.asStr = .ok id := by
  cases built with
  | new made => exact new_of_new made
  | generate uuid => exact new_generate uuid

end DocumentId

end Core
end NovaDb
