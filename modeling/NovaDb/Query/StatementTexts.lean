import NovaDb.Query.Layouts
import NovaDb.Query.WholeText

namespace NovaDb
namespace Query

open Core Foundation Grammar

/-!
# Statements and their texts

What a text is read as depends on its tokens alone: white space, comments, the case of
keywords and the kind of quotes make no difference, as long as the tokens stay apart.
The statements that some text is read as are the writable ones over the words of the
lexer, and each of them is read back from every layout of the tokens it is written with.
-/

/-- The statement a text is read as. -/
def readStatement (T : TextTables) (draw : Draw) (query : String) : Option Statement :=
  match parseNql T draw query with
  | .ok statement _ => some statement
  | _ => none

/-- A phrase for the statement stands at the front of the tokens, and the token behind it
does not extend it. -/
def Begins (draw : Draw) (kinds : List TokenKind) (statement : Statement) : Prop :=
  Exists fun word => Exists fun token => Exists fun rest => Exists fun extending =>
    kinds = word ++ token :: rest ∧ StatementPhrase draw word statement extending ∧
      token ∉ extending

section Reading

variable {T : TextTables} {draw : Draw} {query : String} {statement : Statement}
  {tokens : List Token} {final : Lexer}

theorem readStatement_eq_some :
    readStatement T draw query = some statement <->
      Exists fun next => parseNql T draw query = .ok statement next := by
  unfold readStatement
  constructor
  · intro read
    split at read
    · rename_i found next parsed
      cases read
      exact ⟨next, parsed⟩
    · cases read
  · rintro ⟨next, parsed⟩
    rw [parsed]

theorem parseStatement_iff (ends : (tokens.map Token.kind).getLast? = some .eof) :
    (Exists fun next => Parser.parseStatement T draw (Parser.new tokens) = .ok statement next) <->
      Begins draw (tokens.map Token.kind) statement := by
  have reads := Parser.reads_start ends (Parser.length_pos_of_ends ends)
  have within := @Parser.within_start tokens 0
  rw [List.drop_zero] at reads within
  constructor
  · rintro ⟨next, parsed⟩
    rcases (Parser.implements_parseStatement T draw).sound reads within parsed with
      ⟨word, token, rest, extending, split, _, phrase, stops⟩
    exact ⟨word, token, rest, extending, split, phrase, stops⟩
  · rintro ⟨word, token, rest, extending, split, phrase, stops⟩
    rw [split] at reads within
    rcases (Parser.implements_parseStatement T draw).complete word reads within phrase stops with
      ⟨next, done, _⟩
    exact ⟨next, done⟩

theorem readStatement_iff (read : Lexer.tokenize T (Lexer.new query) = .ok tokens final) :
    readStatement T draw query = some statement <->
      Begins draw (tokens.map Token.kind) statement := by
  rw [readStatement_eq_some, parseNql_of_tokens read,
    parseStatement_iff (Lexer.tokenize_ends T read)]

/-- The tokens of a text are words of the lexer and the end marker. -/
theorem hasAll_of_tokenize (read : Lexer.tokenize T (Lexer.new query) = .ok tokens final) :
    Exists fun kinds => tokens.map Token.kind = kinds ++ [.eof] ∧
      (Lexer.vocabulary T).HasAll kinds :=
  Lexer.hasAll_of_tokenizeLoop read

theorem tokenize_layout {kinds : List TokenKind} {text : List Char}
    (layout : Lexer.Layout T kinds text) :
    Exists fun tokens => Exists fun final =>
      Lexer.tokenize T (Lexer.new (String.ofList text)) = .ok tokens final ∧
        tokens.map Token.kind = kinds ++ [.eof] := by
  refine Lexer.tokenize_of_cut T ?_
  rw [String.toList_ofList]
  exact Lexer.cut_layout layout

end Reading

/-! ## The end marker extends no statement -/

theorem not_mem_carry {token : TokenKind} {word before behind : List TokenKind}
    (first : token ∉ before) (second : token ∉ behind) : token ∉ carry word before behind := by
  cases word with
  | nil => exact fun member => (List.mem_append.mp member).elim first second
  | cons => exact second

theorem not_mem_of_within {token : TokenKind} {extending tokens : List TokenKind}
    (within : extending ⊆ tokens) (outside : token ∉ tokens) : token ∉ extending :=
  fun member => outside (within member)

theorem eof_not_extends {draw : Draw} {word extending : List TokenKind} {statement : Statement}
    (phrase : StatementPhrase draw word statement extending) : TokenKind.eof ∉ extending := by
  have filtered : forall {word extending : List TokenKind} {filter : Option Expr},
      FilterClause word filter extending -> TokenKind.eof ∉ extending :=
    fun clause => not_mem_of_within clause.extending_subset (by decide)
  have sorted : forall {word extending : List TokenKind} {sort : Option SortClause},
      SortPhrase word sort extending -> TokenKind.eof ∉ extending :=
    fun clause => not_mem_of_within clause.extending_subset (by decide)
  rcases phrase with ⟨command, rest, rfl, body⟩
  cases body with
  | find filters sorts limits offsets =>
      have limited := not_mem_of_within limits.extending_subset (by decide : TokenKind.eof ∉ _)
      have skipped := not_mem_of_within offsets.extending_subset (by decide : TokenKind.eof ∉ _)
      exact not_mem_carry (filtered filters)
        (not_mem_carry (sorted sorts) (not_mem_carry limited skipped))
  | insert optional derived =>
      exact not_mem_of_within derived.extending_subset List.not_mem_nil
  | update assigns filters =>
      exact not_mem_carry (not_mem_of_within assigns.extending_subset (by decide))
        (filtered filters)
  | remove filters | watch filters | count filters | existing filters => exact filtered filters
  | createIndex targets types =>
      refine not_mem_carry (not_mem_of_within targets.extending_subset (by decide)) ?_
      cases types with
      | absent => decide
      | hash | ordered => exact List.not_mem_nil
  | dropIndex targets =>
      exact not_mem_of_within targets.extending_subset (by decide)
  | insertParen | begin | commit | rollback => exact List.not_mem_nil

/-! ## Writing and reading -/

section Writing

variable {T : TextTables} {draw : Draw} {statement : Statement}

/-- What a text is read as is writable. -/
theorem writable_of_read {query : String}
    (read : readStatement T draw query = some statement) :
    statement.Writable (Lexer.vocabulary T) draw := by
  rcases readStatement_eq_some.mp read with ⟨next, parsed⟩
  rcases tokens_of_parseNql parsed with ⟨tokens, final, tokenized, _⟩
  rcases hasAll_of_tokenize tokenized with ⟨kinds, isKinds, hasAll⟩
  rcases (readStatement_iff tokenized).mp read with
    ⟨word, token, rest, extending, split, phrase, _⟩
  have whole : kinds = word ++ (token :: rest).dropLast := by
    have same := congrArg List.dropLast (isKinds.symm.trans split)
    rw [List.dropLast_concat, List.dropLast_append_of_ne_nil (List.cons_ne_nil _ _)] at same
    exact same
  rw [whole, hasAll_append] at hasAll
  exact writable_of_phrase Lexer.dotless_vocabulary phrase hasAll.1

theorem layout_of_writable (writable : statement.Writable (Lexer.vocabulary T) draw) :
    Exists fun text => Lexer.Layout T statement.kinds text := by
  rcases Lexer.layout_exists fun kind member =>
    Lexer.spelt_of_has (hasAll_kinds writable kind member) with ⟨text, layout, _⟩
  exact ⟨text, layout⟩

/-- Every layout of its tokens is read as the statement, to the last token. -/
theorem parses_layout (writable : statement.Writable (Lexer.vocabulary T) draw)
    {text : List Char} (layout : Lexer.Layout T statement.kinds text) :
    Exists fun next => parseNql T draw (String.ofList text) = .ok statement next ∧
      next.cursor + 1 = next.tokens.length := by
  rcases tokenize_layout layout with ⟨tokens, final, read, isKinds⟩
  rcases derives_kinds writable with ⟨extending, phrase⟩
  have ends := Lexer.tokenize_ends T read
  have reads := Parser.reads_start ends (Parser.length_pos_of_ends ends)
  have within := @Parser.within_start tokens 0
  rw [List.drop_zero, isKinds] at reads within
  rcases (Parser.implements_parseStatement T draw).complete _ reads within phrase
    (eof_not_extends phrase) with ⟨next, done, left⟩
  refine ⟨next, (parseNql_of_tokens read).trans done, ?_⟩
  have counted := congrArg List.length left.ahead
  rw [List.length_map, List.length_drop, List.length_singleton] at counted
  rw [left.same]
  omega

/-- The statements of the language are the writable ones.  What the parser returns for
some text is exactly what the grammar can write down, whatever the tables of letters and
the id drawn for a document without one.  -/
theorem readable_iff_writable (T : TextTables) (draw : Draw) (statement : Statement) :
    (Exists fun query => readStatement T draw query = some statement) <->
      statement.Writable (Lexer.vocabulary T) draw := by
  constructor
  · rintro ⟨query, read⟩
    exact writable_of_read read
  · intro writable
    rcases layout_of_writable writable with ⟨text, layout⟩
    rcases parses_layout writable layout with ⟨next, parsed, _⟩
    exact ⟨String.ofList text, readStatement_eq_some.mpr ⟨next, parsed⟩⟩

end Writing

end Query
end NovaDb
