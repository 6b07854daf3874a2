import NovaDb.Query.JsonLiterals
import NovaDb.Query.WholeText

namespace NovaDb
namespace Client

open Core Foundation Query Grammar

/-!
# The text of an INSERT

`CollectionHandle::insert` sends a document as NQL text.  The fields are written
as JSON, the closing brace is taken off again, and the id is appended between
quotation marks as it is.  The server reads the text with its own lexer, and the
id through `DocumentId::new`.
-/

/-- The member the id is sent as. -/
def idPart (id : DocumentId) : List Char :=
  "\"_id\": \"".toList ++ id.asStr.toList ++ ['"']

/-- The object between the parentheses. -/
def fieldsInner (jsonStr : List Char) (id : DocumentId) : List Char :=
  if jsonStr = ['{', '}'] then '{' :: (idPart id ++ ['}'])
  else (trimChars jsonStr).dropLast ++ ", ".toList ++ idPart id ++ ['}']

/-- The query `CollectionHandle::insert` executes. -/
def insertNql (lib : JsonLibrary) (numberText : lib.Number -> List Char) (collection : String)
    (doc : Document) : String :=
  let jsonStr := (JsonValue.object (Value.toJsonMembers lib doc.fields)).text numberText
  String.ofList ("INSERT INTO ".toList ++ collection.toList ++ " VALUES (".toList ++
    fieldsInner jsonStr doc.id ++ [')'])

/-! ## The characters of the text -/

/-- The fields with a comma behind them, if there are any. -/
def leadingFields (lib : JsonLibrary) (numberText : lib.Number -> List Char)
    (fields : List (String × Value)) : List Char :=
  match JsonValue.textMembers numberText (Value.toJsonMembers lib fields) with
  | [] => []
  | piece :: pieces => [','].intercalate (piece :: pieces) ++ [',', ' ']

/-- The text from the opening quotation mark of the id on. -/
def idRegion (id : DocumentId) : List Char :=
  '"' :: (id.asStr.toList ++ ['"', '}', ')'])

theorem trimChars_braced (body : List Char) :
    trimChars ('{' :: (body ++ ['}'])) = '{' :: (body ++ ['}']) := by
  have leading : ('{' :: (body ++ ['}'])).dropWhile isWhitespace = '{' :: (body ++ ['}']) :=
    List.dropWhile_cons_of_neg (by decide)
  rw [trimChars, leading, ← List.cons_append, List.rdropWhile_concat_neg]
  decide

/-- The id behind its key, up to the end of the text. -/
theorem idPart_closed (id : DocumentId) :
    idPart id ++ ['}', ')'] = quoted "_id" ++ ':' :: ' ' :: idRegion id := by
  have key : "\"_id\": \"".toList = quoted "_id" ++ [':', ' ', '"'] := by decide
  unfold idPart idRegion
  rw [key]
  generalize quoted "_id" = front
  simp only [List.append_assoc, List.cons_append, List.nil_append]

theorem intercalate_ne_nil (lib : JsonLibrary) (numberText : lib.Number -> List Char)
    (fields : List (String × Value))
    (some : JsonValue.textMembers numberText (Value.toJsonMembers lib fields) ≠ []) :
    [','].intercalate (JsonValue.textMembers numberText (Value.toJsonMembers lib fields)) ≠ [] := by
  match fields with
  | [] => exact absurd rfl some
  | [(key, value)] =>
      rw [Value.toJsonMembers, Value.toJsonMembers, JsonValue.textMembers, JsonValue.textMembers,
        intercalate_singleton, quoted, List.cons_append]
      exact List.cons_ne_nil _ _
  | (key, value) :: next :: more =>
      rw [Value.toJsonMembers, Value.toJsonMembers, JsonValue.textMembers, JsonValue.textMembers,
        intercalate_cons_cons, quoted, List.cons_append, List.cons_append]
      exact List.cons_ne_nil _ _

theorem fieldsInner_closed (lib : JsonLibrary) (numberText : lib.Number -> List Char)
    (fields : List (String × Value)) (id : DocumentId) :
    fieldsInner ((JsonValue.object (Value.toJsonMembers lib fields)).text numberText) id ++ [')'] =
      '{' :: (leadingFields lib numberText fields ++ (quoted "_id" ++ ':' :: ' ' :: idRegion id)) := by
  have blank : ", ".toList = [',', ' '] := by decide
  simp only [← idPart_closed, JsonValue.text, leadingFields, fieldsInner, trimChars_braced]
  cases pieces : JsonValue.textMembers numberText (Value.toJsonMembers lib fields) with
  | nil => simp [List.intercalate]
  | cons piece rest =>
      have longer : '{' :: ([','].intercalate (piece :: rest) ++ ['}']) ≠ ['{', '}'] := by
        have some := intercalate_ne_nil lib numberText fields
        rw [pieces] at some
        simp [some (List.cons_ne_nil _ _)]
      rw [if_neg longer, ← List.cons_append, List.dropLast_concat, blank]
      simp only [List.append_assoc, List.cons_append, List.nil_append]

theorem insertNql_toList (lib : JsonLibrary) (numberText : lib.Number -> List Char)
    (collection : String) (doc : Document) :
    (insertNql lib numberText collection doc).toList =
      "INSERT INTO ".toList ++ (collection.toList ++ (" VALUES (".toList ++
        '{' :: (leadingFields lib numberText doc.fields ++
          (quoted "_id" ++ ':' :: ' ' :: idRegion doc.id)))) := by
  unfold insertNql
  rw [String.toList_ofList, List.append_assoc, fieldsInner_closed]
  generalize "INSERT INTO ".toList = command
  generalize " VALUES (".toList = opening
  generalize quoted "_id" = key
  simp only [List.append_assoc]

/-! ## The tokens in front of the id -/

/-- The tokens of the fields, each with a comma behind it. -/
def leadingKinds : List (String × Value) -> List TokenKind
  | [] => []
  | (key, value) :: members =>
      .stringLit (relexedText key) :: .colon :: (literalKinds value ++ .comma :: leadingKinds members)

theorem leadingKinds_cons (member : String × Value) (members : List (String × Value)) :
    [.comma].intercalate (kindsMembers (member :: members)) ++ [.comma] =
      leadingKinds (member :: members) := by
  induction members generalizing member with
  | nil =>
      rw [kindsMembers, kindsMembers, intercalate_singleton]
      rfl
  | cons next more inductionHypothesis =>
      rw [kindsMembers, kindsMembers, intercalate_cons_cons, List.append_assoc, List.append_assoc,
        ← kindsMembers, inductionHypothesis]
      rfl

/-- Everything from the command word to the colon behind the key of the id. -/
def headKinds (collection : String) (fields : List (String × Value)) : List TokenKind :=
  .insert :: .into :: .identifier collection :: .values :: .lParen :: .lBrace ::
    (leadingKinds fields ++ [.stringLit "_id", .colon])

section Head

variable {T : TextTables} {lib : JsonLibrary} {numberText : lib.Number -> List Char}

theorem advances_blank {rest left : List Char} {kinds : List TokenKind}
    (behind : Lexer.Advances T rest kinds left) : Lexer.Advances T (' ' :: rest) kinds left :=
  .trivia (Lexer.scans_blank T rest) behind

theorem blank_stops (rest : List Char) {c : Char} (head : (' ' :: rest).head? = some c) :
    (T.isAlphanumeric c || c == '_') = false := by
  rw [← Option.some.inj head]
  exact Lexer.wordEnds (by decide) (by decide) (by decide)

theorem advances_leading (writes : WritesIntegers lib numberText) {fields : List (String × Value)}
    (plain : Value.PlainMembers fields) (rest : List Char) :
    Lexer.Advances T (leadingFields lib numberText fields ++ rest) (leadingKinds fields) rest := by
  cases fields with
  | nil => exact .stay
  | cons member members =>
      have inside := @Lexer.advances_members T lib numberText writes (member :: members) plain
        (',' :: ' ' :: rest) ⟨',', _, rfl, by decide⟩
      have comma : Lexer.Advances T (',' :: ' ' :: rest) [.comma] rest :=
        Lexer.advances_symbol (by decide) (by decide) (fun _ _ => rfl) (advances_blank .stay)
      have shape : leadingFields lib numberText (member :: members) =
          [','].intercalate (JsonValue.textMembers numberText
            (Value.toJsonMembers lib (member :: members))) ++ [',', ' '] :=
        rfl
      rw [← leadingKinds_cons, shape, List.append_assoc]
      exact inside.trans comma

theorem advances_command (rest : List Char) :
    Lexer.Advances T ("INSERT INTO ".toList ++ rest) [.insert, .into] rest := by
  have cut : "INSERT INTO ".toList ++ rest =
      ['I', 'N', 'S', 'E', 'R', 'T'] ++ (' ' :: (['I', 'N', 'T', 'O'] ++ (' ' :: rest))) :=
    rfl
  rw [cut]
  exact .token (Lexer.scans_ascii (by decide) (fun _ => blank_stops _)) (advances_blank
    (.token (Lexer.scans_ascii (by decide) (fun _ => blank_stops _)) (advances_blank .stay)))

theorem advances_opening (name : Lexer.Identifier T) (rest : List Char) :
    Lexer.Advances T (name.text ++ (" VALUES (".toList ++ rest))
      [.identifier name.asString, .values, .lParen] rest := by
  have cut : " VALUES (".toList ++ rest =
      ' ' :: (['V', 'A', 'L', 'U', 'E', 'S'] ++ (' ' :: '(' :: rest)) :=
    rfl
  rw [cut]
  exact .token (Lexer.scans_word name (fun _ => blank_stops _)) (advances_blank
    (.token (Lexer.scans_ascii (by decide) (fun _ => blank_stops _)) (advances_blank
      (Lexer.advances_symbol (by decide) (by decide) (fun _ _ => rfl) .stay))))

/-- The lexer reads everything in front of the id, whatever the id is. -/
theorem advances_head (writes : WritesIntegers lib numberText) (name : Lexer.Identifier T)
    {doc : Document} (plain : Value.PlainMembers doc.fields) :
    Lexer.Advances T (insertNql lib numberText name.asString doc).toList
      (headKinds name.asString doc.fields) (idRegion doc.id) := by
  have key : Lexer.Advances T (quoted "_id" ++ ':' :: ' ' :: idRegion doc.id)
      [.stringLit (relexedText "_id"), .colon] (idRegion doc.id) :=
    .token (Lexer.scans_quoted T "_id" _)
      (Lexer.advances_symbol (by decide) (by decide) (fun _ _ => rfl) (advances_blank .stay))
  rw [relexedText_of_kept (List.all_eq_true.mp (by decide))] at key
  have fields := (advances_leading writes plain _).trans key
  have object := Lexer.advances_symbol (c := '{') (by decide) (by decide) (fun _ _ => rfl) fields
  have spelled : name.asString.toList = name.text := String.toList_ofList
  rw [insertNql_toList, spelled]
  exact (advances_command _).trans ((advances_opening name _).trans object)

end Head

/-! ## A plain id -/

/-- Neither a quotation mark nor a backslash. -/
def PlainId (id : DocumentId) : Prop :=
  forall c, c ∈ id.asStr.toList -> c ≠ '"' ∧ c ≠ '\\'

/-- A literal without quotation marks and backslashes is read as it is written. -/
theorem scans_plain {T : TextTables} {text : String}
    (plain : forall c, c ∈ text.toList -> c ≠ '"' ∧ c ≠ '\\') (rest : List Char) :
    Lexer.Scans T ('"' :: (text.toList ++ ['"'])) (some (.stringLit text)) rest := by
  have literal : Lexer.Scans T ('"' :: (text.toList ++ ['"']))
      (some (.stringLit (String.ofList text.toList))) rest := by
    refine Lexer.scans_literal T ?_
    intro chars behind same _
    refine Lexer.readString_closed same ?_
    intro front later frontChars
    rw [Lexer.readString_plain (by rw [frontChars]; exact plain), frontChars]
  rw [String.ofList_toList] at literal
  exact literal

theorem advances_idRegion {T : TextTables} {id : DocumentId} (plain : PlainId id) :
    Lexer.Advances T (idRegion id) [.stringLit id.asStr, .rBrace, .rParen] [] := by
  have whole : idRegion id = ('"' :: (id.asStr.toList ++ ['"'])) ++ ['}', ')'] := by
    rw [idRegion, List.cons_append, List.append_assoc]
    rfl
  rw [whole]
  exact .token (scans_plain plain _) (Lexer.advances_symbol (by decide) (by decide) (fun _ _ => rfl)
    (Lexer.advances_symbol (by decide) (by decide) (fun _ _ => rfl) .stay))

/-- The entries of the object the text is read as, for a plain id. -/
def readEntries (doc : Document) : List (String × Value) :=
  KeyedList.insert compare "_id" (.string doc.id.asStr)
    (KeyedList.collect compare (relexedMembers doc.fields))

theorem derives_leading {fields sofar map : List (String × Value)} {word extending : List TokenKind}
    (plain : Value.PlainMembers fields)
    (behind : Derives (.entries (KeyedList.stored compare sofar (relexedMembers fields))) word map
      extending) :
    Derives (.entries sofar) (leadingKinds fields ++ word) map extending := by
  induction fields generalizing sofar with
  | nil => exact behind
  | cons member members inductionHypothesis =>
      rw [leadingKinds, List.cons_append, List.cons_append, List.append_assoc, List.cons_append]
      exact .moreEntries rfl (derives_value plain.1) (inductionHypothesis plain.2 behind)

section Plain

variable {T : TextTables} {lib : JsonLibrary} {numberText : lib.Number -> List Char}

/-- With a plain id the text is accepted, and means the document of the entries it
is read as. -/
theorem parseNql_of_plainId (writes : WritesIntegers lib numberText) (draw : Draw)
    (name : Lexer.Identifier T) {doc : Document} (plain : Value.PlainMembers doc.fields)
    (plainId : PlainId doc.id) :
    Exists fun next => parseNql T draw (insertNql lib numberText name.asString doc) =
      .ok (.insert name.asString (Parser.documentOf draw (readEntries doc))) next := by
  have advances := (advances_head writes name plain).trans (advances_idRegion plainId)
  rcases Lexer.tokenize_of_advances T advances with ⟨tokens, final, read, kinds⟩
  have ends := Lexer.tokenize_ends T read
  have reads := Parser.reads_start ends (Parser.length_pos_of_ends ends)
  have within := @Parser.within_start tokens 0
  have entries : Derives (.entries []) (leadingKinds doc.fields ++
      [.stringLit "_id", .colon, .stringLit doc.id.asStr]) (readEntries doc) ([] ++ [.comma]) :=
    derives_leading plain (.lastEntry rfl (.scalar rfl))
  have body : StatementBody draw .insert _
      (.insert name.asString (Parser.documentOf draw (readEntries doc))) [] :=
    .insertParen (Or.inr rfl) (.object entries)
  have split : (tokens.drop 0).map Token.kind = (.insert :: ([.into] ++
      .identifier name.asString :: .values :: .lParen :: ((.lBrace :: ((leadingKinds doc.fields ++
        [.stringLit "_id", .colon, .stringLit doc.id.asStr]) ++ [.rBrace])) ++ [.rParen]))) ++
      .eof :: [] := by
    rw [List.drop_zero, kinds, headKinds]
    simp only [List.append_assoc, List.cons_append, List.nil_append]
  rw [split] at reads within
  rcases (Parser.implements_parseStatement T draw).complete _ reads within ⟨_, _, rfl, body⟩
    List.not_mem_nil with ⟨next, done, _⟩
  exact ⟨next, (parseNql_of_tokens read).trans done⟩

end Plain

/-! ## The document of the entries -/

def isIdKey (key : String) : Bool :=
  decide (key = "_id" ∨ key = "id")

/-- The entries that become fields. -/
def fieldEntries (map : List (String × Value)) : List (String × Value) :=
  map.filter (fun entry => !isIdKey entry.1)

/-- The id an entry gives, if it gives one. -/
def givenId (entry : String × Value) : Option DocumentId :=
  if isIdKey entry.1 then
    match entry.2.asStr with
    | .ok text => (DocumentId.new text).toOption
    | .error _ => none
  else none

theorem givenId_eq_some {entry : String × Value} {id : DocumentId}
    (given : givenId entry = some id) :
    isIdKey entry.1 = true ∧
      Exists fun text => entry.2 = .string text ∧ DocumentId.new text = .ok id := by
  rw [givenId] at given
  split at given
  · rename_i isKey
    refine ⟨isKey, ?_⟩
    split at given
    · rename_i text read
      cases made : DocumentId.new text with
      | error failure =>
          rw [made] at given
          nomatch given
      | ok found =>
          rw [made] at given
          cases given
          refine ⟨text, ?_, made⟩
          cases stored : entry.2 <;> rw [stored] at read <;> cases read
          rfl
    · nomatch given
  · nomatch given

theorem insertEntry_fields (doc : Document) (entry : String × Value) :
    (Parser.insertEntry doc entry).fields =
      KeyedList.stored compare doc.fields (fieldEntries [entry]) := by
  unfold Parser.insertEntry
  split
  · rename_i isKey
    have out : isIdKey entry.1 = true := decide_eq_true isKey
    rw [fieldEntries, List.filter_cons_of_neg (by rw [out]; decide)]
    split
    · split <;> rfl
    · rfl
  · rename_i noKey
    have inside : isIdKey entry.1 = false := decide_eq_false noKey
    rw [fieldEntries, List.filter_cons_of_pos (by rw [inside]; rfl)]
    rfl

theorem insertEntry_id (doc : Document) (entry : String × Value) :
    (Parser.insertEntry doc entry).id = (givenId entry).getD doc.id := by
  unfold Parser.insertEntry givenId isIdKey
  split
  · rename_i isKey
    rw [decide_eq_true isKey, if_pos rfl]
    cases entry.2.asStr with
    | ok text => cases made : DocumentId.new text <;> simp [made, Except.toOption]
    | error failure => rfl
  · rename_i noKey
    rw [decide_eq_false noKey, if_neg Bool.false_ne_true]
    rfl

theorem foldl_insertEntry_fields (map : List (String × Value)) (doc : Document) :
    (map.foldl Parser.insertEntry doc).fields =
      KeyedList.stored compare doc.fields (fieldEntries map) := by
  induction map generalizing doc with
  | nil => rfl
  | cons entry rest inductionHypothesis =>
      have parts : fieldEntries (entry :: rest) = fieldEntries [entry] ++ fieldEntries rest := by
        rw [fieldEntries, fieldEntries, fieldEntries, ← List.filter_append]
        rfl
      rw [List.foldl_cons, inductionHypothesis, insertEntry_fields, parts, KeyedList.stored,
        KeyedList.stored, KeyedList.stored, List.foldl_append]

theorem foldl_insertEntry_id (map : List (String × Value)) (doc : Document) :
    (map.foldl Parser.insertEntry doc).id =
      (map.filterMap givenId).getLast?.getD doc.id := by
  induction map generalizing doc with
  | nil => rfl
  | cons entry rest inductionHypothesis =>
      rw [List.foldl_cons, inductionHypothesis, insertEntry_id]
      cases given : givenId entry with
      | none => rw [List.filterMap_cons_none given, Option.getD_none]
      | some id =>
          rw [List.filterMap_cons_some given, List.getLast?_cons, Option.getD_some, Option.getD_some]

theorem documentOf_fields {map : List (String × Value)} (draw : Draw)
    (arranged : KeyedList.Arranged compare map) :
    (Parser.documentOf draw map).fields = fieldEntries map := by
  rw [Parser.documentOf, foldl_insertEntry_fields]
  exact KeyedList.collect_arranged (arranged.filter _)

/-- The id of the document is one that an entry gives, or the one drawn. -/
theorem documentOf_id_cases (draw : Draw) (map : List (String × Value)) :
    (Exists fun entry => entry ∈ map ∧ givenId entry = some (Parser.documentOf draw map).id) ∨
      (Parser.documentOf draw map).id = DocumentId.generate draw.uuid := by
  rw [Parser.documentOf, foldl_insertEntry_id]
  cases last : (map.filterMap givenId).getLast? with
  | none => exact Or.inr rfl
  | some id =>
      rcases List.mem_filterMap.mp (List.mem_of_getLast? last) with ⟨entry, member, given⟩
      exact Or.inl ⟨entry, member, given⟩

/-- If some entry gives an id and no entry gives another, the document has it. -/
theorem documentOf_id {draw : Draw} {map : List (String × Value)} {id : DocumentId}
    {entry : String × Value} (member : entry ∈ map) (given : givenId entry = some id)
    (only : forall other found, other ∈ map -> givenId other = some found -> found = id) :
    (Parser.documentOf draw map).id = id := by
  have inside : id ∈ map.filterMap givenId := List.mem_filterMap.mpr ⟨entry, member, given⟩
  rw [Parser.documentOf, foldl_insertEntry_id]
  cases last : (map.filterMap givenId).getLast? with
  | none =>
      rw [List.getLast?_eq_none_iff.mp last] at inside
      nomatch inside
  | some found =>
      rcases List.mem_filterMap.mp (List.mem_of_getLast? last) with ⟨other, known, gives⟩
      exact only other found known gives

theorem filter_insert {p : String -> Bool} {key : String} {value : Value} (out : p key = false)
    (list : List (String × Value)) :
    (KeyedList.insert compare key value list).filter (fun entry => p entry.1) =
      list.filter (fun entry => p entry.1) := by
  induction list with
  | nil =>
      rw [KeyedList.insert, KeyedList.alter, List.filter_cons_of_neg (by rw [out]; decide)]
  | cons entry rest inductionHypothesis =>
      rcases entry with ⟨other, current⟩
      rw [KeyedList.insert, KeyedList.alter]
      cases order : compare key other with
      | lt => exact List.filter_cons_of_neg (by rw [out]; decide)
      | eq =>
          have same : key = other := Std.compare_eq_iff_eq.mp order
          rw [← same]
          exact (List.filter_cons_of_neg (by rw [out]; decide)).trans
            (List.filter_cons_of_neg (by rw [out]; decide)).symm
      | gt =>
          rw [KeyedList.insert] at inductionHypothesis
          change List.filter _ ((other, current) :: KeyedList.alter compare key _ rest) = _
          rw [List.filter_cons, List.filter_cons, inductionHypothesis]

/-- No field is named like an id. -/
def NoIdField (fields : List (String × Value)) : Prop :=
  forall entry, entry ∈ fields -> isIdKey entry.1 = false

theorem NoIdField.fieldEntries {fields : List (String × Value)} (clear : NoIdField fields) :
    fieldEntries fields = fields := by
  refine List.filter_eq_self.mpr ?_
  intro entry member
  rw [clear entry member]
  rfl

theorem readEntries_fields (draw : Draw) (doc : Document) :
    (Parser.documentOf draw (readEntries doc)).fields =
      fieldEntries (KeyedList.collect compare (relexedMembers doc.fields)) := by
  have arranged : KeyedList.Arranged compare (readEntries doc) :=
    KeyedList.insert_arranged KeyedList.lawful_compare (KeyedList.arranged_collect _)
  rw [documentOf_fields draw arranged]
  exact @filter_insert (fun key => !isIdKey key) "_id" (.string doc.id.asStr) (by decide)
    (KeyedList.collect compare (relexedMembers doc.fields))

section Fields

variable {doc : Document} (plain : Value.PlainMembers doc.fields)
  (arranged : KeyedList.Arranged compare doc.fields)

include plain arranged

theorem readEntries_fields_iff (draw : Draw) :
    (Parser.documentOf draw (readEntries doc)).fields = doc.fields <->
      NoIdField doc.fields ∧ forall text, text ∈ textsMembers doc.fields -> Kept text := by
  rw [readEntries_fields]
  constructor
  · intro same
    have clear : NoIdField doc.fields := by
      intro entry member
      rw [← same] at member
      simpa using (List.mem_filter.mp member).2
    have kept : forall entry, entry ∈ doc.fields -> Kept entry.1 := by
      intro entry member
      rw [← same] at member
      exact kept_of_mem_collect (List.mem_filter.mp member).1
    have clearRead : NoIdField (relexedMembers doc.fields) := by
      intro entry member
      rcases key_of_mem_relexedMembers member with ⟨original, known, key⟩
      rw [key, relexedText_of_kept (kept original known)]
      exact clear original known
    rw [collect_relexedMembers arranged kept, clearRead.fieldEntries] at same
    exact ⟨clear, (relexedMembers_eq_iff plain).mp same⟩
  · rintro ⟨clear, kept⟩
    rw [(relexedMembers_eq_iff plain).mpr kept, KeyedList.collect_arranged arranged]
    exact clear.fieldEntries

theorem readEntries_id (draw : Draw) (built : doc.id.Built) (clear : NoIdField doc.fields)
    (kept : forall text, text ∈ textsMembers doc.fields -> Kept text) :
    (Parser.documentOf draw (readEntries doc)).id = doc.id := by
  have same : readEntries doc =
      KeyedList.insert compare "_id" (.string doc.id.asStr) doc.fields := by
    rw [readEntries, (relexedMembers_eq_iff plain).mpr kept, KeyedList.collect_arranged arranged]
  have given : givenId ("_id", .string doc.id.asStr) = some doc.id := by
    have isKey : isIdKey "_id" = true := by decide
    rw [givenId, if_pos isKey]
    change (DocumentId.new doc.id.asStr).toOption = _
    rw [DocumentId.new_asStr built]
    rfl
  rw [same]
  refine documentOf_id ((KeyedList.mem_insert KeyedList.lawful_compare arranged).mpr (Or.inl rfl))
    given ?_
  intro other found member gives
  rcases (KeyedList.mem_insert KeyedList.lawful_compare arranged).mp member with rfl | ⟨_, field⟩
  · rw [given] at gives
    exact (Option.some.inj gives).symm
  · rw [givenId, clear other field, if_neg Bool.false_ne_true] at gives
    nomatch gives

end Fields

end Client
end NovaDb
