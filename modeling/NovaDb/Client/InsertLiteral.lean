import NovaDb.Client.InsertText

namespace NovaDb
namespace Client

open Core Foundation Query Grammar

/-!
# What an INSERT keeps of its literal

`parse_insert` makes a field of every entry of the object, apart from `id` and `_id`.
These name the document if `DocumentId::new` takes them.  If it does not, or if the
value is no string, the document keeps the id it was made with and no error is raised.
-/

/-! ## The literal as it is written -/

/-- The entries between the braces, in the order in which they are written. -/
inductive Written : List TokenKind -> List (String × Value) -> Prop where
  | last {token : TokenKind} {key : String} {word extending : List TokenKind} {value : Value}
      (named : token.key = some key) (item : Derives .value word value extending) :
      Written (token :: .colon :: word) [(key, value)]
  | more {token : TokenKind} {key : String} {word rest extending : List TokenKind} {value : Value}
      {entries : List (String × Value)} (named : token.key = some key)
      (item : Derives .value word value extending) (behind : Written rest entries) :
      Written (token :: .colon :: (word ++ .comma :: rest)) ((key, value) :: entries)

/-- An object literal and its entries. -/
inductive ObjectLiteral : List TokenKind -> List (String × Value) -> Prop where
  | empty : ObjectLiteral [.lBrace, .rBrace] []
  | object {word : List TokenKind} {entries : List (String × Value)}
      (written : Written word entries) :
      ObjectLiteral (.lBrace :: (word ++ [.rBrace])) entries

/-- The tokens of an INSERT up to the end of its literal, which may stand in
parentheses. -/
inductive InsertWord (literal : List TokenKind) : List TokenKind -> Prop where
  | plain {into : List TokenKind} {collection : String} (optional : into = [] ∨ into = [.into]) :
      InsertWord literal (.insert :: (into ++ .identifier collection :: .values :: literal))
  | parenthesized {into : List TokenKind} {collection : String}
      (optional : into = [] ∨ into = [.into]) :
      InsertWord literal (.insert ::
        (into ++ .identifier collection :: .values :: .lParen :: (literal ++ [.rParen])))

/-- The text starts with an INSERT of an object literal with these entries. -/
def InsertsLiteral (T : TextTables) (query : String) (entries : List (String × Value)) : Prop :=
  Exists fun tokens => Exists fun final =>
    Lexer.tokenize T (Lexer.new query) = .ok tokens final ∧
      Exists fun literal => Exists fun word => Exists fun rest =>
        ObjectLiteral literal entries ∧ InsertWord literal word ∧
          tokens.map Token.kind = word ++ rest

theorem written_of_derives {sofar map : List (String × Value)} {word extending : List TokenKind}
    (derived : Derives (.entries sofar) word map extending) :
    Exists fun entries => Written word entries ∧ map = KeyedList.stored compare sofar entries := by
  match derived with
  | .lastEntry named item => exact ⟨_, .last named item, rfl⟩
  | .moreEntries named item more =>
      rcases written_of_derives more with ⟨entries, behind, same⟩
      exact ⟨_, .more named item behind, same⟩
termination_by word.length
decreasing_by
  simp only [List.length_cons, List.length_append]
  omega

theorem Written.derives {word : List TokenKind} {entries : List (String × Value)}
    (written : Written word entries) (sofar : List (String × Value)) :
    Exists fun extending =>
      Derives (.entries sofar) word (KeyedList.stored compare sofar entries) extending := by
  induction written generalizing sofar with
  | last named item => exact ⟨_, .lastEntry named item⟩
  | more named item behind inductionHypothesis =>
      rcases inductionHypothesis _ with ⟨extending, derived⟩
      exact ⟨extending, .moreEntries named item derived⟩

theorem ObjectLiteral.derives {literal : List TokenKind} {entries : List (String × Value)}
    (object : ObjectLiteral literal entries) :
    Exists fun extending =>
      Derives .value literal (.object (KeyedList.collect compare entries)) extending := by
  cases object with
  | empty => exact ⟨_, .emptyObject⟩
  | object written =>
      rcases written.derives [] with ⟨_, derived⟩
      exact ⟨_, .object derived⟩

theorem objectLiteral_of_derives {literal extending : List TokenKind}
    {map : List (String × Value)} (derived : Derives .value literal (.object map) extending) :
    Exists fun entries => ObjectLiteral literal entries := by
  cases derived with
  | @scalar token value known => cases token <;> cases known
  | emptyObject => exact ⟨[], .empty⟩
  | object items =>
      rcases written_of_derives items with ⟨entries, written, _⟩
      exact ⟨entries, .object written⟩

/-- The tokens of an INSERT end with a brace or a parenthesis. -/
theorem InsertWord.closed {literal word : List TokenKind} {entries : List (String × Value)}
    (insert : InsertWord literal word) (object : ObjectLiteral literal entries) :
    Exists fun front => Exists fun closing => word = front ++ [closing] ∧ closing ≠ .eof := by
  have braced : Exists fun front => literal = front ++ [.rBrace] := by
    cases object with
    | empty => exact ⟨[.lBrace], rfl⟩
    | object written => exact ⟨_, (List.cons_append).symm⟩
  cases insert with
  | @plain into collection optional =>
      rcases braced with ⟨front, rfl⟩
      refine ⟨.insert :: (into ++ .identifier collection :: .values :: front), .rBrace, ?_, nofun⟩
      simp
  | @parenthesized into collection optional =>
      refine ⟨.insert :: (into ++ .identifier collection :: .values :: .lParen :: literal), .rParen,
        ?_, nofun⟩
      simp

section Text

variable {T : TextTables} {draw : Draw} {query : String}

/-- Every text that is accepted as an INSERT starts with an INSERT of some literal. -/
theorem insertsLiteral_of_parse {collection : String} {document : Document} {next : Parser}
    (done : parseNql T draw query = .ok (.insert collection document) next) :
    Exists fun entries => InsertsLiteral T query entries := by
  rcases tokens_of_parseNql done with ⟨tokens, final, read, parsed⟩
  have ends := Lexer.tokenize_ends T read
  have reads := Parser.reads_start ends (Parser.length_pos_of_ends ends)
  rcases (Parser.implements_parseStatement T draw).sound reads (Parser.within_start 0) parsed with
    ⟨word, token, rest, extending, split, left, ⟨command, body, rfl, phrase⟩, stops⟩
  cases phrase with
  | insert optional derived =>
      rcases objectLiteral_of_derives derived with ⟨entries, object⟩
      exact ⟨entries, tokens, final, read, _, _, _, object, .plain optional, split⟩
  | insertParen optional derived =>
      rcases objectLiteral_of_derives derived with ⟨entries, object⟩
      exact ⟨entries, tokens, final, read, _, _, _, object, .parenthesized optional, split⟩

/-- The document of an accepted INSERT is that of its entries. -/
theorem document_of_literal {collection : String} {document : Document} {next : Parser}
    {entries : List (String × Value)} (literal : InsertsLiteral T query entries)
    (done : parseNql T draw query = .ok (.insert collection document) next) :
    document = Parser.documentOf draw (KeyedList.collect compare entries) := by
  rcases literal with ⟨tokens, final, read, literal, word, rest, object, insert, split⟩
  have ends := Lexer.tokenize_ends T read
  have reads := Parser.reads_start ends (Parser.length_pos_of_ends ends)
  have within := @Parser.within_start tokens 0
  rcases object.derives with ⟨extending, derived⟩
  have closed : extending = [] := List.subset_nil.mp derived.extending_subset
  have phrase : Exists fun name => StatementPhrase draw word
      (.insert name (Parser.documentOf draw (KeyedList.collect compare entries))) [] := by
    rw [closed] at derived
    cases insert with
    | plain optional => exact ⟨_, _, _, rfl, .insert optional derived⟩
    | parenthesized optional => exact ⟨_, _, _, rfl, .insertParen optional derived⟩
  rcases phrase with ⟨name, phrase⟩
  cases rest with
  | nil =>
      rcases insert.closed object with ⟨front, closing, rfl, closes⟩
      rw [split, List.append_nil, List.getLast?_concat] at ends
      exact absurd (Option.some.inj ends) closes
  | cons token rest =>
      rw [List.drop_zero, split] at reads within
      rcases (Parser.implements_parseStatement T draw).complete _ reads within phrase
        List.not_mem_nil with ⟨_, parsed, _⟩
      cases done.symm.trans ((parseNql_of_tokens read).trans parsed)
      rfl

end Text

/-! ## The fields and the id of the document -/

/-- Every entry but `id` and `_id` is a field, and there is no other field. -/
def KeepsFields (document : Document) (entries : List (String × Value)) : Prop :=
  forall key value, (key, value) ∈ document.fields <->
    (key, value) ∈ entries ∧ key ≠ "_id" ∧ key ≠ "id"

/-- The entry is the only one of the two that name the document. -/
def NamesDocument (entries : List (String × Value)) (entry : String × Value) : Prop :=
  entry ∈ entries ∧ (entry.1 = "_id" ∨ entry.1 = "id") ∧
    forall other, other ∈ entries -> other.1 = "_id" ∨ other.1 = "id" -> other = entry

/-- The id that the literal gives is the id of the document, up to surrounding blanks. -/
def KeepsId (document : Document) (entries : List (String × Value)) : Prop :=
  forall entry, NamesDocument entries entry ->
    Exists fun text => entry.2 = .string text ∧ document.id.asStr = trim text

/-- A string of at most 256 bytes that is not blank. -/
def Acceptable (value : Value) : Prop :=
  Exists fun text => value = .string text ∧ trim text ≠ "" ∧ (trim text).utf8ByteSize ≤ 256

theorem new_of_acceptable {text : String} (nonempty : trim text ≠ "")
    (bounded : (trim text).utf8ByteSize ≤ 256) : DocumentId.new text = .ok ⟨trim text⟩ := by
  rw [DocumentId.new, if_neg nonempty, if_neg (Nat.not_lt.mpr bounded)]

theorem acceptable_of_new {text : String} {id : DocumentId} (made : DocumentId.new text = .ok id) :
    trim text ≠ "" ∧ (trim text).utf8ByteSize ≤ 256 := by
  rw [DocumentId.new] at made
  by_cases empty : trim text = ""
  · rw [if_pos empty] at made
    cases made
  · rw [if_neg empty] at made
    by_cases long : 256 < (trim text).utf8ByteSize
    · rw [if_pos long] at made
      cases made
    · exact ⟨empty, Nat.not_lt.mp long⟩

section Document

variable {entries : List (String × Value)}

theorem mem_collect (distinct : (entries.map Prod.fst).Nodup) {entry : String × Value} :
    entry ∈ KeyedList.collect compare entries <-> entry ∈ entries := by
  change entry ∈ KeyedList.stored compare [] entries <-> _
  rw [KeyedList.mem_stored KeyedList.lawful_compare List.Pairwise.nil distinct nofun]
  simp

theorem keepsFields (draw : Draw) (distinct : (entries.map Prod.fst).Nodup) :
    KeepsFields (Parser.documentOf draw (KeyedList.collect compare entries)) entries := by
  intro key value
  rw [documentOf_fields draw (KeyedList.arranged_collect entries), fieldEntries, List.mem_filter,
    mem_collect distinct]
  simp [isIdKey]

/-- The only entry that names the document gives it its id. -/
theorem documentOf_named {draw : Draw} {entry : String × Value} {id : DocumentId}
    (distinct : (entries.map Prod.fst).Nodup) (names : NamesDocument entries entry)
    (given : givenId entry = some id) :
    (Parser.documentOf draw (KeyedList.collect compare entries)).id = id := by
  rcases names with ⟨member, isKey, only⟩
  refine documentOf_id ((mem_collect distinct).mpr member) given ?_
  intro other found inside gives
  have same := only other ((mem_collect distinct).mp inside)
    (of_decide_eq_true (givenId_eq_some gives).1)
  rw [same, given] at gives
  exact (Option.some.inj gives).symm

/-- The id of a document is one the program makes. -/
theorem documentOf_built (draw : Draw) (map : List (String × Value)) :
    (Parser.documentOf draw map).id.Built := by
  rcases documentOf_id_cases draw map with ⟨entry, _, gives⟩ | drawn
  · rcases givenId_eq_some gives with ⟨_, _, _, made⟩
    exact .new made
  · rw [drawn]
    exact .generate draw.uuid

end Document

/-- A text that a document's id is up to blanks is one that `DocumentId::new` takes. -/
theorem acceptable_of_same {id : DocumentId} (built : id.Built) {text : String}
    (same : id.asStr = trim text) : trim text ≠ "" ∧ (trim text).utf8ByteSize ≤ 256 := by
  have made := DocumentId.new_asStr built
  rw [same] at made
  have twice : trim (trim text) = trim text := by
    simp only [trim, String.toList_ofList, trimChars_trimChars]
  rw [← twice]
  exact acceptable_of_new made

/-- An accepted INSERT has a literal.  If it names no field twice, its entries other
than `id` and `_id` are the fields of the document, and the id that it gives is kept, up
to surrounding blanks, exactly if that is a string which is acceptable as an id.  -/
theorem insert_keeps_iff {T : TextTables} {draw : Draw} {query collection : String}
    {document : Document} {next : Parser}
    (done : parseNql T draw query = .ok (.insert collection document) next) :
    (Exists fun entries => InsertsLiteral T query entries) ∧
      forall entries, InsertsLiteral T query entries -> (entries.map Prod.fst).Nodup ->
        (KeepsFields document entries ∧ KeepsId document entries <->
          forall entry, NamesDocument entries entry -> Acceptable entry.2) := by
  refine ⟨insertsLiteral_of_parse done, ?_⟩
  intro entries literal distinct
  rw [document_of_literal literal done]
  constructor
  · rintro ⟨_, keeps⟩ entry names
    rcases keeps entry names with ⟨text, content, same⟩
    exact ⟨text, content, acceptable_of_same (documentOf_built draw _) same⟩
  · intro acceptable
    refine ⟨keepsFields draw distinct, ?_⟩
    intro entry names
    rcases acceptable entry names with ⟨text, content, nonempty, bounded⟩
    refine ⟨text, content, ?_⟩
    have given : givenId entry = some ⟨trim text⟩ := by
      have isKey : isIdKey entry.1 = true := decide_eq_true names.2.1
      rw [givenId, if_pos isKey, content]
      change (DocumentId.new text).toOption = _
      rw [new_of_acceptable nonempty bounded]
      rfl
    rw [documentOf_named distinct names given]

/-- The collection and the id of a text that was parsed as an INSERT. -/
def insertedId (outcome : Parsed NovaError Parser Statement) : Option (String × DocumentId) :=
  match outcome with
  | .ok (.insert collection document) _ => some (collection, document.id)
  | _ => none

theorem insert_of_insertedId {outcome : Parsed NovaError Parser Statement} {collection : String}
    {id : DocumentId} (inserted : insertedId outcome = some (collection, id)) :
    Exists fun document => Exists fun next =>
      outcome = .ok (.insert collection document) next ∧ document.id = id := by
  unfold insertedId at inserted
  split at inserted
  · cases inserted
    exact ⟨_, _, rfl, rfl⟩
  · nomatch inserted

/-- The kinds of the tokens of a text. -/
def readKinds (outcome : Parsed NovaError Lexer (List Token)) : Option (List TokenKind) :=
  match outcome with
  | .ok tokens _ => some (tokens.map Token.kind)
  | _ => none

theorem tokens_of_readKinds {outcome : Parsed NovaError Lexer (List Token)}
    {kinds : List TokenKind} (read : readKinds outcome = some kinds) :
    Exists fun tokens => Exists fun final =>
      outcome = .ok tokens final ∧ tokens.map Token.kind = kinds := by
  unfold readKinds at read
  split at read
  · exact ⟨_, _, rfl, Option.some.inj read⟩
  · nomatch read

/-- A literal of a text and a number. -/
theorem objectLiteral_pair (key other text : String) (number : Int64) :
    ObjectLiteral [.lBrace, .identifier key, .colon, .stringLit text, .comma, .identifier other,
        .colon, .int number, .rBrace]
      [(key, .string text), (other, .int number)] := by
  have item : Derives .value [.stringLit text] (.string text) [] := .scalar rfl
  have written : Written [.identifier other, .colon, .int number] [(other, .int number)] :=
    .last rfl (.scalar rfl)
  exact .object (.more rfl item written)

/-- `INSERT INTO users VALUES ({_id: ' u1 ', age: 41})` -/
def spacedIdInsert : String :=
  "INSERT INTO users VALUES (\x7b_id: ' u1 ', age: 41\x7d)"

theorem insert_keeps_sample :
    Exists fun document => Exists fun next =>
      parseNql referenceTables ⟨Vector.replicate 16 0, 0⟩ spacedIdInsert =
        .ok (.insert "users" document) next ∧
      KeepsFields document [("_id", .string " u1 "), ("age", .int 41)] ∧
        KeepsId document [("_id", .string " u1 "), ("age", .int 41)] := by
  have inserted : insertedId (parseNql referenceTables ⟨Vector.replicate 16 0, 0⟩
      spacedIdInsert) = some ("users", ⟨"u1"⟩) := by
    decide +kernel
  have kinds : readKinds (Lexer.tokenize referenceTables (Lexer.new spacedIdInsert)) =
      some [.insert, .into, .identifier "users", .values, .lParen, .lBrace, .identifier "_id",
        .colon, .stringLit " u1 ", .comma, .identifier "age", .colon, .int 41, .rBrace, .rParen,
        .eof] := by
    decide +kernel
  rcases insert_of_insertedId inserted with ⟨document, next, done, _⟩
  rcases tokens_of_readKinds kinds with ⟨tokens, final, read, named⟩
  have literal : InsertsLiteral referenceTables spacedIdInsert
      [("_id", .string " u1 "), ("age", .int 41)] :=
    ⟨tokens, final, read, _, _, [.eof], objectLiteral_pair _ _ _ _,
      @InsertWord.parenthesized _ [.into] "users" (Or.inr rfl), named⟩
  refine ⟨document, next, done, ((insert_keeps_iff done).2 _ literal (by decide)).mpr ?_⟩
  rintro entry ⟨member, isKey, _⟩
  rcases List.mem_pair.mp member with rfl | rfl
  · exact ⟨" u1 ", rfl, by decide +kernel, by decide +kernel⟩
  · exact absurd isKey (by decide)

/-- `INSERT INTO users VALUES {id: ' ', age: 41}` -/
def blankIdInsert : String :=
  "INSERT INTO users VALUES \x7bid: ' ', age: 41\x7d"

/-- The draw of the lowest random UUID. -/
def lowestDraw : Draw :=
  ⟨#v[0, 0, 0, 0, 0, 0, 0x40, 0, 0x80, 0, 0, 0, 0, 0, 0, 0], 0⟩

/-- A blank id is replaced by a generated one. -/
theorem insert_blank_id_replaced :
    ¬ forall document next,
        parseNql referenceTables lowestDraw blankIdInsert = .ok (.insert "users" document) next ->
      forall entries, InsertsLiteral referenceTables blankIdInsert entries ->
        (entries.map Prod.fst).Nodup -> KeepsFields document entries ∧ KeepsId document entries := by
  intro keeps
  have inserted : insertedId (parseNql referenceTables lowestDraw blankIdInsert) =
      some ("users", ⟨"00000000-0000-4000-8000-000000000000"⟩) := by
    decide +kernel
  have kinds : readKinds (Lexer.tokenize referenceTables (Lexer.new blankIdInsert)) =
      some [.insert, .into, .identifier "users", .values, .lBrace, .identifier "id", .colon,
        .stringLit " ", .comma, .identifier "age", .colon, .int 41, .rBrace, .eof] := by
    decide +kernel
  rcases insert_of_insertedId inserted with ⟨document, next, done, drawn⟩
  rcases tokens_of_readKinds kinds with ⟨tokens, final, read, named⟩
  have literal : InsertsLiteral referenceTables blankIdInsert
      [("id", .string " "), ("age", .int 41)] :=
    ⟨tokens, final, read, _, _, [.eof], objectLiteral_pair _ _ _ _,
      @InsertWord.plain _ [.into] "users" (Or.inr rfl), named⟩
  have names : NamesDocument [("id", .string " "), ("age", .int 41)] ("id", .string " ") := by
    refine ⟨List.mem_cons_self, Or.inr rfl, ?_⟩
    intro other member isKey
    rcases List.mem_pair.mp member with rfl | rfl
    · rfl
    · exact absurd isKey (by decide)
  rcases (keeps document next done _ literal (by decide)).2 _ names with ⟨text, content, same⟩
  cases content
  rw [drawn] at same
  exact absurd same (by decide +kernel)

end Client
end NovaDb
