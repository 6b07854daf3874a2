import NovaDb.Foundation.Phrases
import NovaDb.Query.Token

namespace NovaDb
namespace Query

open Core Foundation

/-!
# The lexer

The source numbers the characters of the text by line and column and moves a
cursor over them.  Here the lexer holds the characters from the cursor on.  One
round of the main loop either drops white space or a comment, or reads a token.

A minus sign is decided by the next character alone: a second minus starts a
comment, a digit a negative literal, and anything else is the operator.
-/

structure Located where
  span : Span
  char : Char

/-- The characters of a text with their places. -/
def locate (line column : Nat) : List Char -> List Located
  | [] => []
  | c :: rest =>
      ⟨⟨line, column⟩, c⟩ ::
        (if c = '\n' then locate (line + 1) 1 rest else locate line (column + 1) rest)

/-- The characters from the cursor on, and the place behind the last one. -/
structure Lexer where
  rest : List Located
  finish : Span

namespace Lexer

def new (source : String) : Lexer :=
  let chars := locate 1 1 source.toList
  match chars.getLast? with
  | some last => ⟨chars, ⟨last.span.line, last.span.column + 1⟩⟩
  | none => ⟨chars, ⟨1, 1⟩⟩

def peek (rest : List Located) : Option Char :=
  rest.head?.map Located.char

/-! ## Trivia, strings and numbers -/

/-- A comment ends behind the line. -/
def skipComment : List Located -> List Located
  | [] => []
  | c :: rest => if c.char = '\n' then rest else skipComment rest

def unescape (escaped : Char) : Char :=
  match escaped with
  | 'n' => '\n'
  | 't' => '\t'
  | 'r' => '\r'
  | other => other

/-- The content of a string and the text behind its closing quote, if it is
closed. -/
def readString (quote : Char) : List Located -> Option (List Char × List Located)
  | [] => none
  | c :: rest =>
      if c.char = quote then some ([], rest)
      else if c.char = '\\' then
        match rest with
        | [] => none
        | escaped :: behind =>
            (readString quote behind).map (fun read => (unescape escaped.char :: read.1, read.2))
      else (readString quote rest).map (fun read => (c.char :: read.1, read.2))

def startsWithDigit (rest : List Located) : Bool :=
  match peek rest with
  | some c => c.isDigit
  | none => false

/-- Digits, with one point if a digit follows it, and whether there was one. -/
def readNumber (hasDot : Bool) : List Located -> List Char × Bool × List Located
  | [] => ([], hasDot, [])
  | c :: rest =>
      if c.char.isDigit then
        let read := readNumber hasDot rest
        (c.char :: read.1, read.2)
      else if c.char = '.' ∧ hasDot = false ∧ startsWithDigit rest = true then
        let read := readNumber true rest
        (c.char :: read.1, read.2)
      else ([], hasDot, c :: rest)

def digitsValue (digits : List Char) : Nat :=
  Nat.ofDigitChars 10 digits 0

/-- `str::parse` of an optional minus sign and digits. -/
def parseI64 (negative : Bool) (digits : List Char) : Option Int64 :=
  let number : Int := if negative then -(digitsValue digits : Int) else digitsValue digits
  if -2 ^ 63 ≤ number ∧ number < 2 ^ 63 then some (Int64.ofInt number) else none

/-- `str::parse` of an optional minus sign and digits with one point. -/
def parseF64 (negative : Bool) (text : List Char) : Float64 :=
  Float64.ofDecimal negative (digitsValue (text.filter Char.isDigit))
    (text.length - 1 - (text.takeWhile Char.isDigit).length)

/-- A number.  A literal with a point always has a value. -/
def scanNumber (span : Span) (negative : Bool) (rest : List Located) :
    Except NovaError (TokenKind × List Located) :=
  let read := readNumber false rest
  if read.2.1 then .ok (.float (parseF64 negative read.1), read.2.2)
  else
    match parseI64 negative read.1 with
    | some number => .ok (.int number, read.2.2)
    | none =>
        .error (parseErrorAt ("Invalid integer literal '" ++
          String.ofList (if negative then '-' :: read.1 else read.1) ++ "'") span)

/-! ## Words -/

def keywords : List (String × TokenKind) :=
  [("FIND", .find), ("INSERT", .insert), ("INTO", .into), ("VALUES", .values),
    ("UPDATE", .update), ("SET", .set), ("REMOVE", .remove), ("WATCH", .watch),
    ("COUNT", .count), ("EXISTS", .existsKeyword), ("CREATE", .create), ("DROP", .drop),
    ("INDEX", .index), ("TYPE", .type), ("WHERE", .whereKeyword), ("SORT", .sort),
    ("LIMIT", .limit), ("OFFSET", .offset), ("ASC", .asc), ("DESC", .desc), ("AND", .and),
    ("OR", .or), ("NOT", .not), ("IN", .inKeyword), ("BETWEEN", .between), ("BEGIN", .begin),
    ("COMMIT", .commit), ("ROLLBACK", .rollback), ("HASH", .hash), ("ORDERED", .ordered),
    ("TRUE", .true), ("FALSE", .false), ("NULL", .null)]

/-- `str::to_ascii_uppercase`. -/
def toAsciiUppercase (word : List Char) : String :=
  String.ofList (word.map Char.toUpper)

/-- Keywords are matched without regard to case. -/
def wordKind (word : List Char) : TokenKind :=
  match keywords.lookup (toAsciiUppercase word) with
  | some keyword => keyword
  | none => .identifier (String.ofList word)

variable (T : TextTables)

def isWordChar (c : Located) : Bool :=
  T.isAlphanumeric c.char || c.char == '_'

/-! ## Symbols -/

/-- A symbol that a second character makes another one. -/
def doubled (second : Char) (both single : TokenKind) (rest : List Located) :
    TokenKind × List Located :=
  if peek rest = some second then (both, rest.tail) else (single, rest)

/-- A symbol that only stands doubled. -/
def doubledOnly (second : Char) (both : TokenKind) (message : String) (span : Span)
    (rest : List Located) : Except NovaError (TokenKind × List Located) :=
  if peek rest = some second then .ok (both, rest.tail) else .error (parseErrorAt message span)

def scanSymbol (span : Span) (c : Char) (rest : List Located) :
    Except NovaError (TokenKind × List Located) :=
  match c with
  | '=' => .ok (doubled '=' .eqEq .eq rest)
  | '!' => .ok (doubled '=' .bangEq .bang rest)
  | '>' => .ok (doubled '=' .gtEq .gt rest)
  | '<' => .ok (doubled '=' .ltEq .lt rest)
  | '&' => doubledOnly '&' .ampAmp "Unexpected '&', expected '&&'" span rest
  | '|' => doubledOnly '|' .pipePipe "Unexpected '|', expected '||'" span rest
  | '+' => .ok (.plus, rest)
  | '-' => .ok (.minus, rest)
  | '*' => .ok (.star, rest)
  | '/' => .ok (.slash, rest)
  | '%' => .ok (.percent, rest)
  | '(' => .ok (.lParen, rest)
  | ')' => .ok (.rParen, rest)
  | '{' => .ok (.lBrace, rest)
  | '}' => .ok (.rBrace, rest)
  | '[' => .ok (.lBracket, rest)
  | ']' => .ok (.rBracket, rest)
  | ',' => .ok (.comma, rest)
  | ':' => .ok (.colon, rest)
  | '.' => .ok (.dot, rest)
  | unexpected =>
      .error (parseErrorAt ("Unexpected character: '" ++ String.singleton unexpected ++ "'") span)

/-! ## The main loop -/

/-- A token that starts with a character that is neither white space nor the
start of a comment. -/
def scanToken (first : Located) (rest : List Located) :
    Except NovaError (TokenKind × List Located) :=
  if first.char = '"' ∨ first.char = '\'' then
    match readString first.char rest with
    | some read => .ok (.stringLit (String.ofList read.1), read.2)
    | none => .error (parseErrorAt "Unterminated string literal" first.span)
  else if first.char.isDigit then scanNumber first.span false (first :: rest)
  else if first.char = '-' ∧ startsWithDigit rest = true then scanNumber first.span true rest
  else if T.isAlphabetic first.char || first.char == '_' then
    .ok (wordKind (((first :: rest).takeWhile (isWordChar T)).map Located.char),
      (first :: rest).dropWhile (isWordChar T))
  else scanSymbol first.span first.char rest

/-- Two minus signs or two slashes start a comment. -/
def startsComment (first : Located) (rest : List Located) : Bool :=
  (first.char == '-' && peek rest == some '-') || (first.char == '/' && peek rest == some '/')

/-- One round of the main loop: the token read, if any, and the text behind. -/
def scan (first : Located) (rest : List Located) :
    Except NovaError (Option TokenKind × List Located) :=
  if isWhitespace first.char then .ok (none, rest)
  else if startsComment first rest then .ok (none, skipComment (first :: rest))
  else (scanToken T first rest).map (fun read => (some read.1, read.2))

/-- The rounds from the cursor on, behind the tokens read so far. -/
def tokenizeLoop (finish : Span) :
    Nat -> List Located -> List Token -> Parsed NovaError Lexer (List Token)
  | _, [], tokens => .ok (tokens ++ [⟨.eof, finish⟩]) ⟨[], finish⟩
  | 0, _ :: _, _ => .outOfFuel
  | fuel + 1, first :: rest, tokens =>
      match scan T first rest with
      | .error failure => .error failure
      | .ok (none, left) => tokenizeLoop finish fuel left tokens
      | .ok (some kind, left) => tokenizeLoop finish fuel left (tokens ++ [⟨kind, first.span⟩])

def tokenize : ParseM NovaError Lexer (List Token) := fun lexer =>
  tokenizeLoop T lexer.finish lexer.rest.length lexer.rest []

/-! ## Every round moves on -/

theorem skipComment_suffix (c : Located) (rest : List Located) :
    skipComment (c :: rest) <:+ rest := by
  induction rest generalizing c with
  | nil =>
      rw [skipComment]
      split
      · exact List.suffix_refl _
      · exact List.suffix_refl _
  | cons next rest inductionHypothesis =>
      rw [skipComment]
      split
      · exact List.suffix_refl _
      · exact (inductionHypothesis next).trans (List.suffix_cons next rest)

/-- A string that is closed, its closing quote and the text behind it. -/
theorem readString_split {quote : Char} {rest left : List Located} {content : List Char}
    (read : readString quote rest = some (content, left)) :
    Exists fun front => Exists fun closing : Located =>
      rest = front ++ closing :: left ∧ closing.char = quote ∧ content.length ≤ front.length := by
  fun_induction readString quote rest generalizing content with
  | case1 => nomatch read
  | case2 c rest closes =>
      cases read
      exact ⟨[], c, rfl, closes, Nat.le_refl _⟩
  | case3 c opens escapes => nomatch read
  | case4 c opens escapes escaped behind inductionHypothesis =>
      rcases Option.map_eq_some_iff.mp read with ⟨⟨inner, behindInner⟩, found, same⟩
      cases same
      rcases inductionHypothesis found with ⟨front, closing, rfl, closes, short⟩
      exact ⟨c :: escaped :: front, closing, rfl, closes,
        Nat.le_succ_of_le (Nat.succ_le_succ short)⟩
  | case5 c rest opens plain inductionHypothesis =>
      rcases Option.map_eq_some_iff.mp read with ⟨⟨inner, behindInner⟩, found, same⟩
      cases same
      rcases inductionHypothesis found with ⟨front, closing, rfl, closes, short⟩
      exact ⟨c :: front, closing, rfl, closes, Nat.succ_le_succ short⟩

theorem readNumber_suffix (hasDot : Bool) (rest : List Located) :
    (readNumber hasDot rest).2.2 <:+ rest := by
  fun_induction readNumber hasDot rest with
  | case1 => exact List.suffix_refl _
  | case2 hasDot c rest digit read inductionHypothesis =>
      exact inductionHypothesis.trans (List.suffix_cons c rest)
  | case3 hasDot c rest digit point read inductionHypothesis =>
      exact inductionHypothesis.trans (List.suffix_cons c rest)
  | case4 => exact List.suffix_refl _

theorem scanNumber_left {span : Span} {negative : Bool} {rest left : List Located}
    {kind : TokenKind} (scanned : scanNumber span negative rest = .ok (kind, left)) :
    left = (readNumber false rest).2.2 := by
  simp only [scanNumber] at scanned
  split at scanned
  · cases scanned
    rfl
  · split at scanned
    · cases scanned
      rfl
    · cases scanned

theorem scanSymbol_suffix {span : Span} {c : Char} {rest left : List Located} {kind : TokenKind}
    (scanned : scanSymbol span c rest = .ok (kind, left)) : left <:+ rest := by
  have single : forall {second : Char} {both single : TokenKind},
      .ok (doubled second both single rest) = (.ok (kind, left) : Except NovaError _) ->
        left <:+ rest := by
    intro second both single same
    rw [doubled] at same
    split at same
    · cases same
      exact List.tail_suffix rest
    · cases same
      exact List.suffix_refl _
  have double : forall {second : Char} {both : TokenKind} {message : String},
      doubledOnly second both message span rest = .ok (kind, left) -> left <:+ rest := by
    intro second both message same
    rw [doubledOnly] at same
    split at same
    · cases same
      exact List.tail_suffix rest
    · nomatch same
  unfold scanSymbol at scanned
  split at scanned <;> first
    | exact single scanned
    | exact double scanned
    | (cases scanned; exact List.suffix_refl _)
    | nomatch scanned

theorem scanToken_suffix {first : Located} {rest left : List Located} {kind : TokenKind}
    (scanned : scanToken T first rest = .ok (kind, left)) : left <:+ rest := by
  unfold scanToken at scanned
  split at scanned
  · split at scanned
    · rename_i read found
      cases scanned
      rcases readString_split found with ⟨front, closing, same, _⟩
      exact ⟨front ++ [closing], by rw [same, List.append_assoc, List.singleton_append]⟩
    · nomatch scanned
  · split at scanned
    · rename_i digit
      rw [scanNumber_left scanned, readNumber, if_pos digit]
      exact readNumber_suffix _ _
    · split at scanned
      · rw [scanNumber_left scanned]
        exact readNumber_suffix _ _
      · split at scanned
        · rename_i letter
          have word : isWordChar T first = true := by
            rw [isWordChar, TextTables.isAlphanumeric]
            revert letter
            cases T.isAlphabetic first.char <;> cases T.isNumeric first.char <;> simp
          cases scanned
          rw [List.dropWhile_cons_of_pos word]
          exact List.dropWhile_suffix _
        · exact scanSymbol_suffix scanned

theorem scan_suffix {first : Located} {rest left : List Located} {read : Option TokenKind}
    (scanned : scan T first rest = .ok (read, left)) : left <:+ rest := by
  unfold scan at scanned
  split at scanned
  · cases scanned
    exact List.suffix_refl _
  · split at scanned
    · cases scanned
      exact skipComment_suffix first rest
    · cases token : scanToken T first rest with
      | error failure =>
          rw [token] at scanned
          nomatch scanned
      | ok found =>
          rw [token] at scanned
          cases scanned
          exact scanToken_suffix T token

/-- The lexer ends with tokens or an error: its fuel suffices. -/
theorem tokenizeLoop_total (finish : Span) {fuel : Nat} {rest : List Located}
    (enough : rest.length ≤ fuel) (tokens : List Token) :
    (Exists fun result => tokenizeLoop T finish fuel rest tokens = .ok result ⟨[], finish⟩) ∨
      Exists fun failure => tokenizeLoop T finish fuel rest tokens = .error failure := by
  induction fuel generalizing rest tokens with
  | zero =>
      rw [List.eq_nil_of_length_eq_zero (Nat.le_zero.mp enough)]
      exact Or.inl ⟨_, rfl⟩
  | succ fuel inductionHypothesis =>
      cases rest with
      | nil => exact Or.inl ⟨_, rfl⟩
      | cons first rest =>
          rw [tokenizeLoop]
          split
          · exact Or.inr ⟨_, rfl⟩
          · rename_i left scanned
            exact inductionHypothesis
              (Nat.le_trans (scan_suffix T scanned).length_le (Nat.le_of_succ_le_succ enough)) tokens
          · rename_i kind left scanned
            exact inductionHypothesis
              (Nat.le_trans (scan_suffix T scanned).length_le (Nat.le_of_succ_le_succ enough)) _

end Lexer
end Query
end NovaDb
