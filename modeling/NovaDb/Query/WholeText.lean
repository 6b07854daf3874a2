import NovaDb.Query.Lexer
import NovaDb.Query.StatementParser

namespace NovaDb
namespace Query

open Core Foundation Grammar

/-!
# Whether the whole text is parsed

`parse_nql` reads the tokens of a text and parses one statement.  It does not
look whether the statement is all there is.  A statement that ends in front of a
token that does not extend it is accepted, and the rest of the text is ignored.
-/

/-- Parse an NQL query string into an executable AST Statement.  The parser is
kept, to see what it has read. -/
def parseNql (T : TextTables) (draw : Draw) (query : String) :
    Parsed NovaError Parser Statement :=
  match Lexer.tokenize T (Lexer.new query) with
  | .ok tokens _ => Parser.parseStatement T draw (Parser.new tokens)
  | .error failure => .error failure
  | .panic => .panic
  | .outOfFuel => .outOfFuel

namespace Lexer

variable (T : TextTables)

/-! ## The token list -/

theorem tokenizeLoop_ends {finish : Span} {fuel : Nat} {rest : List Located}
    {before tokens : List Token} {final : Lexer}
    (done : tokenizeLoop T finish fuel rest before = .ok tokens final) :
    (tokens.map Token.kind).getLast? = some .eof := by
  induction fuel generalizing rest before with
  | zero =>
      cases rest with
      | nil =>
          rw [tokenizeLoop] at done
          cases done
          rw [List.map_append, List.map_singleton, List.getLast?_concat]
      | cons first rest => cases done
  | succ fuel inductionHypothesis =>
      cases rest with
      | nil =>
          rw [tokenizeLoop] at done
          cases done
          rw [List.map_append, List.map_singleton, List.getLast?_concat]
      | cons first rest =>
          rw [tokenizeLoop] at done
          split at done
          · cases done
          · exact inductionHypothesis done
          · exact inductionHypothesis done

theorem tokenize_ends {tokens : List Token} {lexer final : Lexer}
    (done : tokenize T lexer = .ok tokens final) :
    (tokens.map Token.kind).getLast? = some .eof :=
  tokenizeLoop_ends T done

end Lexer

/-! ## Accepted texts -/

/-- The text is read to its end whenever it is accepted. -/
def ReadsWhole (T : TextTables) (draw : Draw) (query : String) : Prop :=
  forall statement next, parseNql T draw query = .ok statement next ->
    next.cursor + 1 = next.tokens.length

/-- The text has something behind a complete statement: its tokens are a
statement of the grammar, a token that does not extend it, and at least the end
marker after that. -/
def HasLeftover (T : TextTables) (draw : Draw) (query : String) : Prop :=
  Exists fun tokens => Exists fun final =>
    Lexer.tokenize T (Lexer.new query) = .ok tokens final ∧
      Exists fun word => Exists fun statement => Exists fun extending => Exists fun token =>
        Exists fun rest => tokens.map Token.kind = word ++ token :: rest ∧ rest ≠ [] ∧
          StatementPhrase draw word statement extending ∧ token ∉ extending

theorem parseNql_of_tokens {T : TextTables} {draw : Draw} {query : String} {tokens : List Token}
    {final : Lexer} (read : Lexer.tokenize T (Lexer.new query) = .ok tokens final) :
    parseNql T draw query = Parser.parseStatement T draw (Parser.new tokens) := by
  rw [parseNql, read]

theorem tokens_of_parseNql {T : TextTables} {draw : Draw} {query : String}
    {statement : Statement} {next : Parser} (done : parseNql T draw query = .ok statement next) :
    Exists fun tokens => Exists fun final =>
      Lexer.tokenize T (Lexer.new query) = .ok tokens final ∧
        Parser.parseStatement T draw (Parser.new tokens) = .ok statement next := by
  rw [parseNql] at done
  split at done
  · rename_i tokens final read
    exact ⟨tokens, final, read, done⟩
  · nomatch done
  · nomatch done
  · nomatch done

/-- Every text is accepted or refused: neither the lexer nor the parser panics or
runs out of fuel. -/
theorem parseNql_total (T : TextTables) (draw : Draw) (query : String) :
    (Exists fun statement => Exists fun next => parseNql T draw query = .ok statement next) ∨
      Exists fun failure => parseNql T draw query = .error failure := by
  rcases Lexer.tokenizeLoop_total T (Lexer.new query).finish (Nat.le_refl _) [] with
    ⟨tokens, read⟩ | ⟨failure, failed⟩
  · have ends := Lexer.tokenizeLoop_ends T read
    rw [parseNql_of_tokens read]
    have inside := Parser.length_pos_of_ends ends
    exact (Parser.implements_parseStatement T draw).total (Parser.reads_start ends inside)
      (Parser.within_start 0)
  · refine Or.inr ⟨failure, ?_⟩
    rw [parseNql, Lexer.tokenize, failed]

/-- A text is read to its end or refused exactly if it has nothing behind a
complete statement. -/
theorem readsWhole_iff (T : TextTables) (draw : Draw) (query : String) :
    ReadsWhole T draw query <-> ¬ HasLeftover T draw query := by
  constructor
  · rintro whole ⟨tokens, final, read, word, statement, extending, token, rest, split, more,
      phrase, stops⟩
    have ends := Lexer.tokenize_ends T read
    have inside := Parser.length_pos_of_ends ends
    have reads := Parser.reads_start ends inside
    have within := @Parser.within_start tokens 0
    rw [List.drop_zero, split] at reads within
    rcases (Parser.implements_parseStatement T draw).complete word reads within phrase stops with
      ⟨next, done, left⟩
    have last := whole statement next ((parseNql_of_tokens read).trans done)
    have counted := congrArg List.length left.ahead
    have positive := List.length_pos_of_ne_nil more
    rw [List.length_map, List.length_drop, List.length_cons] at counted
    rw [left.same] at last
    omega
  · intro nothing statement next done
    rcases tokens_of_parseNql done with ⟨tokens, final, read, parsed⟩
    have ends := Lexer.tokenize_ends T read
    have inside := Parser.length_pos_of_ends ends
    have reads := Parser.reads_start ends inside
    have within := @Parser.within_start tokens 0
    rw [List.drop_zero] at reads within
    rcases (Parser.implements_parseStatement T draw).sound reads within parsed with
      ⟨word, token, rest, extending, split, left, phrase, stops⟩
    cases rest with
    | nil =>
        have counted := congrArg List.length left.ahead
        rw [List.length_map, List.length_drop, List.length_singleton] at counted
        rw [left.same]
        omega
    | cons second rest =>
        exact absurd ⟨tokens, final, read, word, statement, extending, token, _, split,
          List.cons_ne_nil _ _, phrase, stops⟩ nothing

/-- How far an accepted text was read. -/
def progress (outcome : Parsed NovaError Parser Statement) : Option (Nat × Nat) :=
  match outcome with
  | .ok _ next => some (next.cursor, next.tokens.length)
  | _ => none

/-- A filter without its keyword: the text is accepted and removes every user. -/
theorem removes_all_not_whole :
    ¬ ReadsWhole referenceTables ⟨Vector.replicate 16 0, 0⟩ "REMOVE users age > 100" := by
  intro whole
  have read : progress (parseNql referenceTables ⟨Vector.replicate 16 0, 0⟩
      "REMOVE users age > 100") = some (2, 6) := by
    decide +kernel
  cases parsed : parseNql referenceTables ⟨Vector.replicate 16 0, 0⟩ "REMOVE users age > 100" with
  | ok statement next =>
      have last := whole statement next parsed
      rw [parsed] at read
      injection read with pair
      injection pair with cursor length
      omega
  | error | panic | outOfFuel =>
      rw [parsed] at read
      nomatch read

end Query
end NovaDb
