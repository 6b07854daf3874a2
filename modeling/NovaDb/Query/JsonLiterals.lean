import NovaDb.Core.JsonText
import NovaDb.Query.ExpressionParser
import NovaDb.Query.Lexemes

namespace NovaDb
namespace Query

open Core Foundation Grammar

/-!
# JSON read as a literal

The text of a JSON value is also a literal of NQL, but its strings are read with
the escapes of the lexer: behind a backslash only `n`, `t` and `r` mean another
character.  An escape of any other control character loses its backslash and
keeps its letters.
-/

/-- The characters whose JSON escape the lexer undoes. -/
def isKept (c : Char) : Bool :=
  decide (32 ≤ c.toNat) || c == '\n' || c == '\t' || c == '\r'

def Kept (text : String) : Prop :=
  forall c, c ∈ text.toList -> isKept c = true

/-- What the lexer reads for the JSON escape of a character. -/
def relexedChar (c : Char) : List Char :=
  if isKept c then [c] else (escapeChar c).tail

def relexedText (text : String) : String :=
  String.ofList (text.toList.flatMap relexedChar)

/-! ## Strings -/

theorem hexDigit_plain_char {nibble : Nat} (small : nibble < 16) :
    hexDigit nibble ≠ '"' ∧ hexDigit nibble ≠ '\\' := by
  revert nibble
  decide

theorem hexByte_plain_char {byte : UInt8} {c : Char} (member : c ∈ hexByte byte) :
    c ≠ '"' ∧ c ≠ '\\' := by
  have bound := byte.toNat_lt
  rcases List.mem_pair.mp member with rfl | rfl
  · exact hexDigit_plain_char (by omega)
  · exact hexDigit_plain_char (by omega)

theorem hexByte_kept {byte : UInt8} {c : Char} (member : c ∈ hexByte byte) : isKept c = true := by
  have each : forall nibble, nibble < 16 -> isKept (hexDigit nibble) = true := by decide
  have bound := byte.toNat_lt
  rcases List.mem_pair.mp member with rfl | rfl
  · exact each _ (by omega)
  · exact each _ (by omega)

/-- A character stands for itself, or its escape is a backslash, one character
that the lexer translates, and others that it keeps. -/
theorem escapeChar_form (c : Char) :
    (escapeChar c = [c] ∧ relexedChar c = [c] ∧ c ≠ '"' ∧ c ≠ '\\') ∨
      Exists fun escaped => Exists fun more =>
        escapeChar c = '\\' :: escaped :: more ∧ relexedChar c = Lexer.unescape escaped :: more ∧
          forall d, d ∈ more -> d ≠ '"' ∧ d ≠ '\\' := by
  unfold escapeChar
  split
  · exact Or.inr ⟨_, _, rfl, rfl, nofun⟩
  · exact Or.inr ⟨_, _, rfl, rfl, nofun⟩
  · exact Or.inr ⟨_, _, rfl, rfl, nofun⟩
  · exact Or.inr ⟨_, _, rfl, rfl, nofun⟩
  · exact Or.inr ⟨_, _, rfl, rfl, nofun⟩
  · exact Or.inr ⟨_, _, rfl, rfl, nofun⟩
  · exact Or.inr ⟨_, _, rfl, rfl, nofun⟩
  · rename_i noQuote noEscape noNewline noTab noReturn noBackspace noFormFeed
    split
    · rename_i below
      have lost : isKept c = false := by
        simp only [isKept, Bool.or_eq_false_iff, decide_eq_false_iff_not, beq_eq_false_iff_ne]
        exact ⟨⟨⟨Nat.not_le_of_lt below, noNewline⟩, noTab⟩, noReturn⟩
      refine Or.inr ⟨'u', '0' :: '0' :: hexByte _, rfl, ?_, ?_⟩
      · rw [relexedChar, lost, if_neg Bool.false_ne_true]
        simp [escapeChar, below, Lexer.unescape]
      · intro d member
        rcases List.mem_cons.mp member with rfl | member
        · decide
        · rcases List.mem_cons.mp member with rfl | member
          · decide
          · exact hexByte_plain_char member
    · rename_i above
      have kept : isKept c = true := by
        simp [isKept, Nat.le_of_not_lt above]
      exact Or.inl ⟨rfl, if_pos kept, noQuote, noEscape⟩

/-- A lost escape leaves its letter and keeps nothing that needs an escape. -/
theorem relexedChar_lost {c : Char} (lost : isKept c = false) :
    Exists fun letter => Exists fun more =>
      relexedChar c = letter :: more ∧ letter ∈ ['b', 'f', 'u'] ∧
        forall d, d ∈ relexedChar c -> isKept d = true := by
  have tail : relexedChar c = (escapeChar c).tail := by
    rw [relexedChar, lost, if_neg Bool.false_ne_true]
  rw [tail]
  unfold escapeChar
  split
  · nomatch lost
  · nomatch lost
  · nomatch lost
  · nomatch lost
  · nomatch lost
  · exact ⟨_, _, rfl, by decide, List.all_eq_true.mp (by decide)⟩
  · exact ⟨_, _, rfl, by decide, List.all_eq_true.mp (by decide)⟩
  · split
    · refine ⟨'u', '0' :: '0' :: hexByte _, rfl, by decide, ?_⟩
      intro d member
      rcases List.mem_cons.mp member with rfl | member
      · decide
      · rcases List.mem_cons.mp member with rfl | member
        · decide
        · rcases List.mem_cons.mp member with rfl | member
          · decide
          · exact hexByte_kept member
    · rename_i above
      rw [isKept, decide_eq_true (Nat.le_of_not_lt above)] at lost
      nomatch lost

theorem relexedText_toList (text : String) :
    (relexedText text).toList = text.toList.flatMap relexedChar :=
  String.toList_ofList

theorem flatMap_relexedChar {chars : List Char} (kept : forall c, c ∈ chars -> isKept c = true) :
    chars.flatMap relexedChar = chars := by
  induction chars with
  | nil => rfl
  | cons c rest inductionHypothesis =>
      rw [List.flatMap_cons, relexedChar, if_pos (kept c List.mem_cons_self),
        inductionHypothesis (fun d member => kept d (List.mem_cons_of_mem c member)),
        List.singleton_append]

theorem relexedText_of_kept {text : String} (kept : Kept text) : relexedText text = text := by
  rw [relexedText, flatMap_relexedChar kept, String.ofList_toList]

/-- What is read never needs an escape that is lost. -/
theorem kept_relexedText (text : String) : Kept (relexedText text) := by
  intro d member
  rw [relexedText_toList] at member
  rcases List.mem_flatMap.mp member with ⟨c, _, inside⟩
  cases kept : isKept c with
  | true =>
      rw [relexedChar, if_pos kept] at inside
      rw [List.mem_singleton.mp inside, kept]
  | false =>
      rcases relexedChar_lost kept with ⟨_, _, _, _, all⟩
      exact all d inside

theorem relexedText_eq_iff {text : String} : relexedText text = text <-> Kept text := by
  constructor
  · intro same
    rw [← same]
    exact kept_relexedText text
  · exact relexedText_of_kept

/-- A text that is read without one of the letters of the lost escapes had none. -/
theorem kept_of_clear {text : String}
    (clear : (relexedText text).toList.all (fun d => decide (d ∉ ['b', 'f', 'u'])) = true) :
    Kept text := by
  intro c member
  cases kept : isKept c with
  | true => rfl
  | false =>
      rcases relexedChar_lost kept with ⟨letter, more, form, known, _⟩
      have inside : letter ∈ (relexedText text).toList := by
        rw [relexedText_toList, List.mem_flatMap]
        exact ⟨c, member, by rw [form]; exact List.mem_cons_self⟩
      exact absurd known (of_decide_eq_true (List.all_eq_true.mp clear letter inside))

namespace Lexer

theorem readString_close {quote : Char} {closing : Located} (closes : closing.char = quote)
    (behind : List Located) : readString quote (closing :: behind) = some ([], behind) := by
  rw [readString.eq_def]
  exact if_pos closes

theorem readString_other {quote : Char} {c : Located} (noQuote : c.char ≠ quote)
    (noEscape : c.char ≠ '\\') (behind : List Located) :
    readString quote (c :: behind) =
      (readString quote behind).map (fun read => (c.char :: read.1, read.2)) := by
  rw [readString.eq_def]
  exact (if_neg noQuote).trans (if_neg noEscape)

theorem readString_plain {quote : Char} {plains behind : List Located}
    (plain : forall c, c ∈ plains.map Located.char -> c ≠ quote ∧ c ≠ '\\') :
    readString quote (plains ++ behind) =
      (readString quote behind).map (fun read => (plains.map Located.char ++ read.1, read.2)) := by
  induction plains with
  | nil => exact Option.map_id_apply.symm
  | cons c rest inductionHypothesis =>
      rcases plain c.char List.mem_cons_self with ⟨noQuote, noEscape⟩
      rw [List.cons_append, readString_other noQuote noEscape,
        inductionHypothesis (fun d member => plain d (List.mem_cons_of_mem _ member)),
        Option.map_map]
      rfl

theorem readString_escape {first escaped : Located} (backslash : first.char = '\\')
    (behind : List Located) :
    readString '"' (first :: escaped :: behind) =
      (readString '"' behind).map (fun read => (unescape escaped.char :: read.1, read.2)) := by
  rw [readString, if_neg (by rw [backslash]; decide), if_pos backslash]

/-- What the lexer takes off for one escaped character. -/
theorem readString_escapeChar (c : Char) {chars : List Located} (behind : List Located)
    (same : chars.map Located.char = escapeChar c) :
    readString '"' (chars ++ behind) =
      (readString '"' behind).map (fun read => (relexedChar c ++ read.1, read.2)) := by
  rcases escapeChar_form c with ⟨itself, relexed, noQuote, noEscape⟩ |
    ⟨escaped, more, escapes, relexed, plain⟩
  · rw [itself] at same
    rw [readString_plain, same, relexed]
    intro d member
    rw [same] at member
    rw [List.mem_singleton.mp member]
    exact ⟨noQuote, noEscape⟩
  · rw [escapes] at same
    rcases List.map_eq_cons_iff.mp same with ⟨first, tail, rfl, backslash, tailChars⟩
    rcases List.map_eq_cons_iff.mp tailChars with ⟨second, others, rfl, rfl, othersChars⟩
    rw [List.cons_append, List.cons_append, readString_escape backslash, readString_plain,
      othersChars, relexed, Option.map_map]
    · rfl
    · rw [othersChars]
      exact plain

theorem readString_escaped (text : List Char) {chars : List Located} (behind : List Located)
    (same : chars.map Located.char = text.flatMap escapeChar) :
    readString '"' (chars ++ behind) =
      (readString '"' behind).map
        (fun read => (text.flatMap relexedChar ++ read.1, read.2)) := by
  induction text generalizing chars with
  | nil =>
      rw [List.map_eq_nil_iff.mp same]
      exact Option.map_id_apply.symm
  | cons c rest inductionHypothesis =>
      rw [List.flatMap_cons] at same
      rcases List.map_eq_append_iff.mp same with ⟨front, others, rfl, frontChars, othersChars⟩
      rw [List.append_assoc, readString_escapeChar c _ frontChars,
        inductionHypothesis othersChars, Option.map_map]
      congr 1
      funext read
      rw [List.flatMap_cons, List.append_assoc]
      rfl

/-- One round of the lexer at a quotation mark. -/
theorem scan_quote (T : TextTables) {first : Located} (quote : first.char = '"')
    (rest : List Located) :
    scan T first rest =
      match readString '"' rest with
      | some read => .ok (some (.stringLit (String.ofList read.1)), read.2)
      | none => .error (parseErrorAt "Unterminated string literal" first.span) := by
  have noComment : startsComment first rest = false :=
    startsComment_of_ne (by rw [quote]; decide) (by rw [quote]; decide)
  rw [scan, quote, if_neg (by decide), noComment, if_neg Bool.false_ne_true, scanToken, quote,
    if_pos (Or.inl rfl)]
  cases readString '"' rest <;> rfl

/-- A quotation mark and a text that the string reader takes up to its closing
quote. -/
theorem scans_literal {body rest content : List Char} (T : TextTables)
    (read : forall chars behind : List Located, chars.map Located.char = body ->
      behind.map Located.char = rest -> readString '"' (chars ++ behind) = some (content, behind)) :
    Scans T ('"' :: body) (some (.stringLit (String.ofList content))) rest := by
  intro chars behind same restChars
  rcases List.map_eq_cons_iff.mp same with ⟨first, tail, rfl, quote, tailChars⟩
  exact ⟨first, tail, rfl, by rw [scan_quote T quote, read tail behind tailChars restChars]⟩

theorem readString_closed {chars behind : List Located} {body content : List Char}
    (same : chars.map Located.char = body ++ ['"'])
    (read : forall front later : List Located, front.map Located.char = body ->
      readString '"' (front ++ later) =
        (readString '"' later).map (fun read => (content ++ read.1, read.2))) :
    readString '"' (chars ++ behind) = some (content, behind) := by
  rcases List.map_eq_append_iff.mp same with ⟨front, last, rfl, frontChars, lastChars⟩
  rcases List.map_eq_singleton_iff.mp lastChars with ⟨closing, rfl, quote⟩
  rw [List.append_assoc, List.singleton_append, read front _ frontChars, readString_close quote,
    Option.map_some, List.append_nil]

theorem scans_quoted (T : TextTables) (text : String) (rest : List Char) :
    Scans T (quoted text) (some (.stringLit (relexedText text))) rest := by
  refine scans_literal T ?_
  intro chars behind same _
  exact readString_closed same (fun front later frontChars =>
    readString_escaped text.toList later frontChars)

end Lexer

/-! ## Values -/

mutual

/-- The tokens of the JSON text of a value built from null, booleans, integers,
strings, arrays and objects. -/
def literalKinds : Value -> List TokenKind
  | .null => [.null]
  | .bool true => [.true]
  | .bool false => [.false]
  | .int number => [.int number]
  | .string text => [.stringLit (relexedText text)]
  | .array items => .lBracket :: ([.comma].intercalate (kindsItems items) ++ [.rBracket])
  | .object members => .lBrace :: ([.comma].intercalate (kindsMembers members) ++ [.rBrace])
  | .float _ | .bytes _ | .timestamp _ | .uuid _ => []

def kindsItems : List Value -> List (List TokenKind)
  | [] => []
  | item :: items => literalKinds item :: kindsItems items

def kindsMembers : List (String × Value) -> List (List TokenKind)
  | [] => []
  | (key, value) :: members =>
      (.stringLit (relexedText key) :: .colon :: literalKinds value) :: kindsMembers members

end

/-- `serde_json` writes an integer in decimal. -/
def WritesIntegers (lib : JsonLibrary) (numberText : lib.Number -> List Char) : Prop :=
  forall number : Int64, numberText (lib.fromI64 number) = decimal number.toInt

theorem intercalate_cons_cons {α : Type} (separator first second : List α)
    (rest : List (List α)) :
    separator.intercalate (first :: second :: rest) =
      first ++ (separator ++ separator.intercalate (second :: rest)) :=
  rfl

theorem intercalate_singleton {α : Type} (separator only : List α) :
    separator.intercalate [only] = only :=
  List.append_nil only

namespace Lexer

/-- A comma or a closing bracket follows. -/
def Closes (rest : List Char) : Prop :=
  Exists fun c => Exists fun more => rest = c :: more ∧ c ∈ [',', ']', '}']

theorem Closes.number {rest : List Char} (closes : Closes rest) : NumberStops rest := by
  rcases closes with ⟨c, more, rfl, member⟩
  intro d head
  rw [← Option.some.inj head]
  have all : [',', ']', '}'].all (fun c => !c.isDigit && c != '.') = true := by decide
  have outside := List.all_eq_true.mp all c member
  rw [Bool.and_eq_true, Bool.not_eq_true', bne_iff_ne] at outside
  exact outside

theorem Closes.word {T : TextTables} {rest : List Char} (closes : Closes rest) :
    forall c, rest.head? = some c -> (T.isAlphanumeric c || c == '_') = false := by
  rcases closes with ⟨c, more, rfl, member⟩
  intro d head
  rw [← Option.some.inj head]
  have all : [',', ']', '}'].all (fun c =>
      decide (c.toNat < 128) && !c.isAlphanum && c != '_') = true := by
    decide
  have outside := List.all_eq_true.mp all c member
  simp only [Bool.and_eq_true, Bool.not_eq_true', decide_eq_true_eq, bne_iff_ne] at outside
  exact wordEnds outside.1.1 outside.1.2 outside.2

theorem advances_symbol {T : TextTables} {c : Char} {rest left : List Char} {kind : TokenKind}
    {kinds : List TokenKind} (symbol : isSymbol c = true) (plain : c ≠ '-' ∧ c ≠ '/')
    (read : forall span behind, scanSymbol span c behind = .ok (kind, behind))
    (behind : Advances T rest kinds left) : Advances T (c :: rest) (kind :: kinds) left :=
  .token (scans_single symbol (Lone.of_ne plain.1 plain.2) read) behind

theorem advances_decimal {T : TextTables} (number : Int64) {rest : List Char}
    (stops : NumberStops rest) :
    Advances T (decimal number.toInt ++ rest) [.int number] rest := by
  have least := number.le_toInt
  have most := number.toInt_lt
  have itself : Int64.ofInt number.toInt = number := Int64.ofInt_toInt number
  rw [decimal]
  split
  · rename_i below
    have scans := @scans_negative T number.toInt.natAbs (by omega) rest stops
    rw [show -(number.toInt.natAbs : Int) = number.toInt by omega, itself] at scans
    exact .token scans .stay
  · rename_i above
    have scans := @scans_number T number.toInt.natAbs (by omega) rest stops
    rw [show (number.toInt.natAbs : Int) = number.toInt by omega, itself] at scans
    exact .token scans .stay

section Values

variable {T : TextTables} {lib : JsonLibrary} {numberText : lib.Number -> List Char}

mutual

/-- The text of a value in front of a comma or a closing bracket is read as its
tokens. -/
theorem advances_value (writes : WritesIntegers lib numberText) {value : Value}
    (plain : value.Plain) {rest : List Char} (closes : Closes rest) :
    Advances T ((value.toJson lib).text numberText ++ rest) (literalKinds value) rest := by
  match value with
  | .null => exact .token (scans_ascii (by decide) closes.word) .stay
  | .bool true => exact .token (scans_ascii (by decide) closes.word) .stay
  | .bool false => exact .token (scans_ascii (by decide) closes.word) .stay
  | .int number =>
      rw [Value.toJson, JsonValue.text, writes, literalKinds]
      exact advances_decimal number closes.number
  | .string text =>
      rw [Value.toJson, JsonValue.text, literalKinds]
      exact .token (scans_quoted T text rest) .stay
  | .array items =>
      have inside := advances_items writes plain ⟨']', rest, rfl, by decide⟩
      have closed : Advances T (']' :: rest) [.rBracket] rest :=
        advances_symbol (by decide) (by decide) (fun _ _ => rfl) .stay
      rw [Value.toJson, JsonValue.text, literalKinds, List.cons_append, List.append_assoc]
      exact advances_symbol (by decide) (by decide) (fun _ _ => rfl) (inside.trans closed)
  | .object members =>
      have inside := advances_members writes plain.2 ⟨'}', rest, rfl, by decide⟩
      have closed : Advances T ('}' :: rest) [.rBrace] rest :=
        advances_symbol (by decide) (by decide) (fun _ _ => rfl) .stay
      have arranged := plain.1.of_keys (@Value.keys_toJsonMembers lib members)
      rw [Value.toJson, KeyedList.collect_arranged arranged, JsonValue.text, literalKinds,
        List.cons_append, List.append_assoc]
      exact advances_symbol (by decide) (by decide) (fun _ _ => rfl) (inside.trans closed)

theorem advances_items (writes : WritesIntegers lib numberText) {items : List Value}
    (plain : Value.PlainItems items) {rest : List Char} (closes : Closes rest) :
    Advances T ([','].intercalate (JsonValue.textItems numberText (Value.toJsonItems lib items)) ++
      rest) ([.comma].intercalate (kindsItems items)) rest := by
  match items with
  | [] => exact .stay
  | item :: items =>
      have tail := @advances_items writes items plain.2 rest closes
      cases items with
      | nil =>
          rw [Value.toJsonItems, Value.toJsonItems, JsonValue.textItems, JsonValue.textItems,
            kindsItems, kindsItems, intercalate_singleton, intercalate_singleton]
          exact advances_value writes plain.1 closes
      | cons next more =>
          rw [Value.toJsonItems, Value.toJsonItems, JsonValue.textItems, JsonValue.textItems,
            kindsItems, kindsItems, intercalate_cons_cons, intercalate_cons_cons,
            List.append_assoc, List.append_assoc]
          exact (advances_value writes plain.1 ⟨',', _, rfl, by decide⟩).trans
            (advances_symbol (by decide) (by decide) (fun _ _ => rfl) tail)

theorem advances_members (writes : WritesIntegers lib numberText)
    {members : List (String × Value)} (plain : Value.PlainMembers members) {rest : List Char}
    (closes : Closes rest) :
    Advances T ([','].intercalate (JsonValue.textMembers numberText
      (Value.toJsonMembers lib members)) ++ rest) ([.comma].intercalate (kindsMembers members))
        rest := by
  match members with
  | [] => exact .stay
  | (key, value) :: members =>
      have tail := @advances_members writes members plain.2 rest closes
      have entry : forall {behind : List Char}, Closes behind ->
          Advances T (quoted key ++ ':' :: ((value.toJson lib).text numberText ++ behind))
            (.stringLit (relexedText key) :: .colon :: literalKinds value) behind :=
        fun closes => .token (scans_quoted T key _)
          (advances_symbol (by decide) (by decide) (fun _ _ => rfl)
            (advances_value writes plain.1 closes))
      cases members with
      | nil =>
          rw [Value.toJsonMembers, Value.toJsonMembers, JsonValue.textMembers,
            JsonValue.textMembers, kindsMembers, kindsMembers, intercalate_singleton,
            intercalate_singleton, List.append_assoc, List.cons_append]
          exact entry closes
      | cons next more =>
          rw [Value.toJsonMembers, Value.toJsonMembers, JsonValue.textMembers,
            JsonValue.textMembers, kindsMembers, kindsMembers, intercalate_cons_cons,
            intercalate_cons_cons, List.append_assoc, List.append_assoc, List.append_assoc,
            List.cons_append]
          exact (entry ⟨',', _, rfl, by decide⟩).trans
            (advances_symbol (by decide) (by decide) (fun _ _ => rfl) tail)

end

end Values

end Lexer
mutual

/-- What the JSON text of a value is read as. -/
def relexed : Value -> Value
  | .string text => .string (relexedText text)
  | .array items => .array (relexedItems items)
  | .object members => .object (KeyedList.collect compare (relexedMembers members))
  | other => other

def relexedItems : List Value -> List Value
  | [] => []
  | item :: items => relexed item :: relexedItems items

def relexedMembers : List (String × Value) -> List (String × Value)
  | [] => []
  | (key, value) :: members => (relexedText key, relexed value) :: relexedMembers members

end

mutual

/-- The tokens of the text derive the value it is read as. -/
theorem derives_value {value : Value} (plain : value.Plain) :
    Derives .value (literalKinds value) (relexed value) [] := by
  match value with
  | .null | .int _ | .string _ => exact .scalar rfl
  | .bool true | .bool false => exact .scalar rfl
  | .array [] => exact .emptyArray
  | .array (item :: items) => exact .array (derives_items plain (List.cons_ne_nil _ _) [])
  | .object [] => exact .emptyObject
  | .object (member :: members) =>
      exact .object (derives_members plain.2 (List.cons_ne_nil _ _) [])

theorem derives_items {items : List Value} (plain : Value.PlainItems items) (some : items ≠ [])
    (sofar : List Value) :
    Derives (.values sofar) ([.comma].intercalate (kindsItems items))
      (sofar ++ relexedItems items) [.comma] := by
  match items with
  | [] => exact absurd rfl some
  | item :: items =>
      have first := derives_value plain.1
      have tail := @derives_items items plain.2
      cases items with
      | nil =>
          rw [kindsItems, kindsItems, intercalate_singleton]
          exact .lastValue first
      | cons next more =>
          have behind := tail (List.cons_ne_nil _ _) (sofar ++ [relexed item])
          rw [List.append_assoc, List.singleton_append] at behind
          exact .moreValues first behind

theorem derives_members {members : List (String × Value)} (plain : Value.PlainMembers members)
    (some : members ≠ []) (sofar : List (String × Value)) :
    Derives (.entries sofar) ([.comma].intercalate (kindsMembers members))
      (KeyedList.stored compare sofar (relexedMembers members)) [.comma] := by
  match members with
  | [] => exact absurd rfl some
  | (key, value) :: members =>
      have first := derives_value plain.1
      have tail := @derives_members members plain.2
      cases members with
      | nil =>
          rw [kindsMembers, kindsMembers, intercalate_singleton]
          exact .lastEntry rfl first
      | cons next more => exact .moreEntries rfl first (tail (List.cons_ne_nil _ _) _)

end

mutual

/-- The strings and keys in a value, at any depth. -/
def texts : Value -> List String
  | .string text => [text]
  | .array items => textsItems items
  | .object members => textsMembers members
  | _ => []

def textsItems : List Value -> List String
  | [] => []
  | item :: items => texts item ++ textsItems items

def textsMembers : List (String × Value) -> List String
  | [] => []
  | (key, value) :: members => key :: (texts value ++ textsMembers members)

end

theorem key_of_mem_relexedMembers {members : List (String × Value)} {entry : String × Value}
    (member : entry ∈ relexedMembers members) :
    Exists fun original => original ∈ members ∧ entry.1 = relexedText original.1 := by
  induction members with
  | nil => nomatch member
  | cons first rest inductionHypothesis =>
      rcases List.mem_cons.mp member with rfl | later
      · exact ⟨first, List.mem_cons_self, rfl⟩
      · rcases inductionHypothesis later with ⟨original, known, same⟩
        exact ⟨original, List.mem_cons_of_mem first known, same⟩

theorem keys_relexedMembers {members : List (String × Value)}
    (kept : forall entry, entry ∈ members -> Kept entry.1) :
    (relexedMembers members).map Prod.fst = members.map Prod.fst := by
  induction members with
  | nil => rfl
  | cons first rest inductionHypothesis =>
      rw [relexedMembers, List.map_cons, List.map_cons,
        relexedText_of_kept (kept first List.mem_cons_self),
        inductionHypothesis (fun entry member => kept entry (List.mem_cons_of_mem first member))]

theorem collect_relexedMembers {members : List (String × Value)}
    (arranged : KeyedList.Arranged compare members)
    (kept : forall entry, entry ∈ members -> Kept entry.1) :
    KeyedList.collect compare (relexedMembers members) = relexedMembers members :=
  KeyedList.collect_arranged (arranged.of_keys (keys_relexedMembers kept))

/-- Keys that come out of reading were never in need of a lost escape. -/
theorem kept_of_mem_collect {members : List (String × Value)} {entry : String × Value}
    (member : entry ∈ KeyedList.collect compare (relexedMembers members)) : Kept entry.1 := by
  rcases KeyedList.mem_of_mem_stored KeyedList.lawful_compare List.Pairwise.nil member with
    none | read
  · nomatch none
  · rcases key_of_mem_relexedMembers read with ⟨original, _, same⟩
    rw [same]
    exact kept_relexedText original.1

mutual

/-- A value is read as itself exactly if its strings and keys are. -/
theorem relexed_eq_iff {value : Value} (plain : value.Plain) :
    relexed value = value <-> forall text, text ∈ texts value -> Kept text := by
  match value with
  | .null | .bool _ | .int _ => exact iff_of_true rfl (nofun)
  | .string text =>
      rw [relexed, Value.string.injEq, texts, List.forall_mem_singleton]
      exact relexedText_eq_iff
  | .array items =>
      rw [relexed, Value.array.injEq, texts]
      exact relexedItems_eq_iff plain
  | .object members =>
      have inside := @relexedMembers_eq_iff members plain.2
      rw [relexed, Value.object.injEq, texts, ← inside]
      constructor
      · intro same
        rw [collect_relexedMembers plain.1] at same
        · exact same
        · intro entry member
          rw [← same] at member
          exact kept_of_mem_collect member
      · intro same
        rw [same, KeyedList.collect_arranged plain.1]

theorem relexedItems_eq_iff {items : List Value} (plain : Value.PlainItems items) :
    relexedItems items = items <-> forall text, text ∈ textsItems items -> Kept text := by
  match items with
  | [] => exact iff_of_true rfl (nofun)
  | item :: items =>
      rw [relexedItems, List.cons.injEq, textsItems, List.forall_mem_append]
      exact and_congr (relexed_eq_iff plain.1) (relexedItems_eq_iff plain.2)

theorem relexedMembers_eq_iff {members : List (String × Value)}
    (plain : Value.PlainMembers members) :
    relexedMembers members = members <->
      forall text, text ∈ textsMembers members -> Kept text := by
  match members with
  | [] => exact iff_of_true rfl (nofun)
  | (key, value) :: members =>
      rw [relexedMembers, List.cons.injEq, Prod.mk.injEq, textsMembers, List.forall_mem_cons,
        List.forall_mem_append, and_assoc]
      exact and_congr relexedText_eq_iff
        (and_congr (relexed_eq_iff plain.1) (relexedMembers_eq_iff plain.2))

end

end Query
end NovaDb
