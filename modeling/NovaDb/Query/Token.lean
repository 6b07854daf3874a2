import NovaDb.Core.Document

namespace NovaDb
namespace Query

open Core

/-!
# Tokens

The tokens of NQL with their place in the text.  Error messages show a token by
its `Debug` text, which depends on tables of the standard library that are not
spelled out here: how a string is escaped and how a float is printed.  The
character classes of identifiers are tables as well.  `TextTables` stands for
all of them, with the laws of the classes that the lexer relies on.
-/

/-- The Unicode tables and number formats of the standard library. -/
structure TextTables where
  isAlphabetic : Char -> Bool
  isNumeric : Char -> Bool
  debugStr : String -> String
  debugF64 : Float64 -> String
  alphabetic_ascii : forall c : Char, c.toNat < 128 -> isAlphabetic c = c.isAlpha
  numeric_ascii : forall c : Char, c.toNat < 128 -> isNumeric c = c.isDigit
  alphabetic_not_whitespace : forall c : Char, isAlphabetic c = true -> isWhitespace c = false

/-- `char::is_alphanumeric`. -/
def TextTables.isAlphanumeric (T : TextTables) (c : Char) : Bool :=
  T.isAlphabetic c || T.isNumeric c

theorem letter_range {c : Char} (letter : c.isAlpha = true) :
    (65 ≤ c.toNat ∧ c.toNat ≤ 90) ∨ (97 ≤ c.toNat ∧ c.toNat ≤ 122) := by
  simpa [Char.isAlpha, Char.isUpper, Char.isLower, UInt32.le_iff_toNat_le] using letter

theorem not_whitespace_of_isAlpha {c : Char} (letter : c.isAlpha = true) :
    isWhitespace c = false := by
  have range := letter_range letter
  simp only [isWhitespace, decide_eq_false_iff_not]
  omega

/-- The tables on ASCII text. -/
def referenceTables : TextTables where
  isAlphabetic := Char.isAlpha
  isNumeric := Char.isDigit
  debugStr text := "\"" ++ text ++ "\""
  debugF64 number := toString number.toFloat
  alphabetic_ascii _ _ := rfl
  numeric_ascii _ _ := rfl
  alphabetic_not_whitespace _ letter := not_whitespace_of_isAlpha letter

structure Span where
  line : Nat
  column : Nat
  deriving DecidableEq, Repr

/-- The kinds of tokens: keywords, literals, symbols and the end of the text. -/
inductive TokenKind where
  | find
  | insert
  | into
  | values
  | update
  | set
  | remove
  | watch
  | count
  | existsKeyword
  | create
  | drop
  | index
  | type
  | whereKeyword
  | sort
  | limit
  | offset
  | asc
  | desc
  | and
  | or
  | not
  | inKeyword
  | between
  | begin
  | commit
  | rollback
  | hash
  | ordered
  | true
  | false
  | null
  | int (number : Int64)
  | float (number : Float64)
  | stringLit (text : String)
  | identifier (name : String)
  | eqEq
  | eq
  | bangEq
  | gt
  | gtEq
  | lt
  | ltEq
  | ampAmp
  | pipePipe
  | bang
  | plus
  | minus
  | star
  | slash
  | percent
  | lParen
  | rParen
  | lBrace
  | rBrace
  | lBracket
  | rBracket
  | comma
  | colon
  | dot
  | eof
  deriving DecidableEq

/-- The `Debug` text of a token kind. -/
def TokenKind.debug (T : TextTables) : TokenKind -> String
  | .find => "Find"
  | .insert => "Insert"
  | .into => "Into"
  | .values => "Values"
  | .update => "Update"
  | .set => "Set"
  | .remove => "Remove"
  | .watch => "Watch"
  | .count => "Count"
  | .existsKeyword => "Exists"
  | .create => "Create"
  | .drop => "Drop"
  | .index => "Index"
  | .type => "Type"
  | .whereKeyword => "Where"
  | .sort => "Sort"
  | .limit => "Limit"
  | .offset => "Offset"
  | .asc => "Asc"
  | .desc => "Desc"
  | .and => "And"
  | .or => "Or"
  | .not => "Not"
  | .inKeyword => "In"
  | .between => "Between"
  | .begin => "Begin"
  | .commit => "Commit"
  | .rollback => "Rollback"
  | .hash => "Hash"
  | .ordered => "Ordered"
  | .true => "True"
  | .false => "False"
  | .null => "Null"
  | .int number => "Int(" ++ toString number.toInt ++ ")"
  | .float number => "Float(" ++ T.debugF64 number ++ ")"
  | .stringLit text => "StringLit(" ++ T.debugStr text ++ ")"
  | .identifier name => "Identifier(" ++ T.debugStr name ++ ")"
  | .eqEq => "EqEq"
  | .eq => "Eq"
  | .bangEq => "BangEq"
  | .gt => "Gt"
  | .gtEq => "GtEq"
  | .lt => "Lt"
  | .ltEq => "LtEq"
  | .ampAmp => "AmpAmp"
  | .pipePipe => "PipePipe"
  | .bang => "Bang"
  | .plus => "Plus"
  | .minus => "Minus"
  | .star => "Star"
  | .slash => "Slash"
  | .percent => "Percent"
  | .lParen => "LParen"
  | .rParen => "RParen"
  | .lBrace => "LBrace"
  | .rBrace => "RBrace"
  | .lBracket => "LBracket"
  | .rBracket => "RBracket"
  | .comma => "Comma"
  | .colon => "Colon"
  | .dot => "Dot"
  | .eof => "Eof"

structure Token where
  kind : TokenKind
  span : Span

/-- A parse error at a place of the text. -/
def parseErrorAt (message : String) (span : Span) : NovaError :=
  NovaError.parseError message span.line span.column

end Query
end NovaDb
