import NovaDb.Foundation.Phrases
import NovaDb.Query.Statement
import NovaDb.Query.Token

namespace NovaDb
namespace Query

open Core Foundation

/-!
# The parser

A recursive descent over the token list with one cursor.  The cursor sticks at
the last token, and looking past the end shows the last token again.  An access
outside the list panics.

Recursion and loops of the source have no bound of their own.  Here they count
down a fuel, and a count that runs out is an outcome of its own.  The entry
points give as much fuel as there are tokens.
-/

structure Parser where
  tokens : List Token
  cursor : Nat

abbrev ParserM := ParseM NovaError Parser

/-- What `Document::new` draws for an INSERT: a random UUID and the clock. -/
structure Draw where
  uuid : Vector UInt8 16
  clock : Int64

namespace Parser

def new (tokens : List Token) : Parser :=
  ⟨tokens, 0⟩

/-! ## The cursor -/

def peek : ParserM Token := fun parser =>
  match parser.tokens[parser.cursor]? with
  | some token => .ok token parser
  | none =>
      match parser.tokens.getLast? with
      | some token => .ok token parser
      | none => .panic

def peekKind : ParserM TokenKind := do
  let token <- peek
  pure token.kind

/-- The subtraction cannot wrap on a list with a token.  On the empty list the
access panics in either build. -/
def advance : ParserM Token := fun parser =>
  match parser.tokens[parser.cursor]? with
  | none => .panic
  | some token =>
      if parser.cursor < parser.tokens.length - 1 then
        .ok token { parser with cursor := parser.cursor + 1 }
      else .ok token parser

def currentSpan : ParserM Span := do
  let token <- peek
  pure token.span

def check (kind : TokenKind) : ParserM Bool := do
  let found <- peekKind
  pure (decide (found = kind))

def matchToken (kind : TokenKind) : ParserM Bool := do
  let found <- check kind
  if found then
    let _ <- advance
    pure true
  else pure false

variable (T : TextTables)

def expect (kind : TokenKind) (message : String) : ParserM Token := do
  let found <- check kind
  if found then advance
  else
    let span <- currentSpan
    let other <- peekKind
    ParseM.fail (parseErrorAt (message ++ " (found '" ++ other.debug T ++ "')") span)

def expectIdentifier (message : String) : ParserM String := do
  let span <- currentSpan
  let kind <- peekKind
  match kind with
  | .identifier name =>
      let _ <- advance
      pure name
  | other => ParseM.fail (parseErrorAt (message ++ ", found '" ++ other.debug T ++ "'") span)

/-! ## Loops -/

/-- The loop of the comma-separated lists: one more item, and again after a
comma. -/
def commaLoop {β : Type} (item : β -> ParserM β) : Nat -> β -> ParserM β
  | 0, _ => ParseM.exhausted
  | fuel + 1, sofar => do
      let more <- item sofar
      let comma <- matchToken .comma
      if comma then commaLoop item fuel more else pure more

/-- The items of a list, if its closing token does not follow at once. -/
def openList {β : Type} (item : β -> ParserM β) (closing : TokenKind) (fuel : Nat) (empty : β) :
    ParserM β := do
  if <- check closing then pure empty else commaLoop item fuel empty

def closedList {β : Type} (item : β -> ParserM β) (closing : TokenKind) (message : String)
    (fuel : Nat) (empty : β) : ParserM β := do
  let list <- openList item closing fuel empty
  let _ <- expect T closing message
  pure list

/-- The loop of the left-associative operators. -/
def chainLoop (operator : ParserM (Option BinaryOp)) (operand : ParserM Expr) :
    Nat -> Expr -> ParserM Expr
  | 0, _ => ParseM.exhausted
  | fuel + 1, left => do
      let found <- operator
      match found with
      | none => pure left
      | some op =>
          let right <- operand
          chainLoop operator operand fuel (.binary op left right)

def fieldPathLoop : Nat -> String -> ParserM String
  | 0, _ => ParseM.exhausted
  | fuel + 1, path => do
      let dot <- matchToken .dot
      if dot then
        let sub <- expectIdentifier T "Expected nested field identifier after '.'"
        fieldPathLoop fuel (path ++ "." ++ sub)
      else pure path

def parseFieldPath (fuel : Nat) : ParserM String := do
  let path <- expectIdentifier T "Expected field name"
  fieldPathLoop T fuel path

/-! ## Value literals -/

def objectKey : ParserM String := do
  let kind <- peekKind
  match kind with
  | .stringLit text =>
      let _ <- advance
      pure text
  | .identifier name =>
      let _ <- advance
      pure name
  | other =>
      let span <- currentSpan
      ParseM.fail (parseErrorAt
        ("Expected object key string or identifier, found '" ++ other.debug T ++ "'") span)

def arrayItem (nested : ParserM Value) (list : List Value) : ParserM (List Value) := do
  let item <- nested
  pure (list ++ [item])

def objectItem (nested : ParserM Value) (map : List (String × Value)) :
    ParserM (List (String × Value)) := do
  let key <- objectKey T
  let _ <- expect T .colon "Expected ':' after object key"
  let val <- nested
  pure (KeyedList.insert compare key val map)

/-- The value literal that starts with a given token. -/
def valueAt (nested : ParserM Value) (fuel : Nat) (span : Span) : TokenKind -> ParserM Value
  | .null => do
      let _ <- advance
      pure .null
  | .true => do
      let _ <- advance
      pure (.bool true)
  | .false => do
      let _ <- advance
      pure (.bool false)
  | .int number => do
      let _ <- advance
      pure (.int number)
  | .float number => do
      let _ <- advance
      pure (.float number)
  | .stringLit text => do
      let _ <- advance
      pure (.string text)
  | .lBracket => do
      let _ <- advance
      let list <- closedList T (arrayItem nested) .rBracket "Expected ']' closing array" fuel []
      pure (.array list)
  | .lBrace => do
      let _ <- advance
      let map <- closedList T (objectItem T nested) .rBrace "Expected '\x7d' closing object" fuel []
      pure (.object map)
  | other =>
      ParseM.fail (parseErrorAt ("Expected value literal, found '" ++ other.debug T ++ "'") span)

/-- Parse JSON/NQL literal value (objects, arrays, primitives) -/
def parseValueLiteral : Nat -> ParserM Value
  | 0 => ParseM.exhausted
  | fuel + 1 => do
      let span <- currentSpan
      let kind <- peekKind
      valueAt T (parseValueLiteral fuel) (fuel + 1) span kind

/-! ## Expressions

`nested` is the parser of the expressions inside parentheses and lists. -/

def primaryAt (nested : ParserM Expr) (fuel : Nat) (span : Span) : TokenKind -> ParserM Expr
  | .null => do
      let _ <- advance
      pure (.literal .null)
  | .true => do
      let _ <- advance
      pure (.literal (.bool true))
  | .false => do
      let _ <- advance
      pure (.literal (.bool false))
  | .int number => do
      let _ <- advance
      pure (.literal (.int number))
  | .float number => do
      let _ <- advance
      pure (.literal (.float number))
  | .stringLit text => do
      let _ <- advance
      pure (.literal (.string text))
  | .identifier _ => do
      let path <- parseFieldPath T fuel
      pure (.field path)
  | .lParen => do
      let _ <- advance
      let expr <- nested
      let _ <- expect T .rParen "Expected ')' closing expression"
      pure expr
  | .lBrace | .lBracket => do
      let val <- parseValueLiteral T fuel
      pure (.literal val)
  | other =>
      ParseM.fail (parseErrorAt ("Expected expression, found '" ++ other.debug T ++ "'") span)

def parsePrimary (nested : ParserM Expr) (fuel : Nat) : ParserM Expr := do
  let span <- currentSpan
  let kind <- peekKind
  primaryAt T nested fuel span kind

def parseUnary (primary : ParserM Expr) : Nat -> ParserM Expr
  | 0 => ParseM.exhausted
  | fuel + 1 => do
      let negated <- matchToken .not
      if negated then
        let expr <- parseUnary primary fuel
        pure (.unary .not expr)
      else
        let banged <- matchToken .bang
        if banged then
          let expr <- parseUnary primary fuel
          pure (.unary .not expr)
        else
          let minus <- matchToken .minus
          if minus then
            let expr <- parseUnary primary fuel
            pure (.unary .negate expr)
          else primary

def multiplicativeOperator : ParserM (Option BinaryOp) := do
  let star <- check .star
  let slash <- check .slash
  let percent <- check .percent
  if star || slash || percent then
    let multiplied <- matchToken .star
    if multiplied then pure (some .multiply)
    else
      let divided <- matchToken .slash
      if divided then pure (some .divide)
      else
        let _ <- advance
        pure (some .modulo)
  else pure none

def parseMultiplicative (nested : ParserM Expr) (fuel : Nat) : ParserM Expr := do
  let unary := parseUnary (parsePrimary T nested fuel) fuel
  let left <- unary
  chainLoop multiplicativeOperator unary fuel left

def additiveOperator : ParserM (Option BinaryOp) := do
  let plus <- check .plus
  let minus <- check .minus
  if plus || minus then
    let added <- matchToken .plus
    if added then pure (some .plus)
    else
      let _ <- advance
      pure (some .minus)
  else pure none

def parseAdditive (nested : ParserM Expr) (fuel : Nat) : ParserM Expr := do
  let left <- parseMultiplicative T nested fuel
  chainLoop additiveOperator (parseMultiplicative T nested fuel) fuel left

/-- A comparison whose operator has been read. -/
def comparedWith (additive : ParserM Expr) (op : BinaryOp) (left : Expr) : ParserM Expr := do
  let right <- additive
  pure (.binary op left right)

def betweenTail (additive : ParserM Expr) (left : Expr) : ParserM Expr := do
  let min <- additive
  let _ <- expect T .and "Expected AND in BETWEEN expression"
  let max <- additive
  pure (.between left min max)

def listItem (nested : ParserM Expr) (list : List Expr) : ParserM (List Expr) := do
  let item <- nested
  pure (list ++ [item])

def inTail (nested : ParserM Expr) (fuel : Nat) (left : Expr) : ParserM Expr := do
  let _ <- expect T .lParen "Expected '(' after IN"
  let list <- closedList T (listItem nested) .rParen "Expected ')' closing IN list" fuel []
  pure (.isIn left list)

/-- What follows the left operand of a comparison. -/
def comparisonTail (additive nested : ParserM Expr) (fuel : Nat) (left : Expr) :
    ParserM Expr := do
  if <- matchToken .eqEq then comparedWith additive .eq left
  else if <- matchToken .eq then comparedWith additive .eq left
  else if <- matchToken .bangEq then comparedWith additive .notEq left
  else if <- matchToken .gt then comparedWith additive .gt left
  else if <- matchToken .gtEq then comparedWith additive .gtEq left
  else if <- matchToken .lt then comparedWith additive .lt left
  else if <- matchToken .ltEq then comparedWith additive .ltEq left
  else if <- matchToken .between then betweenTail T additive left
  else if <- matchToken .inKeyword then inTail T nested fuel left
  else pure left

def parseComparison (nested : ParserM Expr) (fuel : Nat) : ParserM Expr := do
  let left <- parseAdditive T nested fuel
  comparisonTail T (parseAdditive T nested fuel) nested fuel left

/-- The operator of a loop that reads either of two spellings. -/
def eitherToken (first second : TokenKind) (op : BinaryOp) : ParserM (Option BinaryOp) := do
  if <- matchToken first then pure (some op)
  else if <- matchToken second then pure (some op)
  else pure none

def parseAnd (nested : ParserM Expr) (fuel : Nat) : ParserM Expr := do
  let left <- parseComparison T nested fuel
  chainLoop (eitherToken .and .ampAmp .and) (parseComparison T nested fuel) fuel left

def parseOr (nested : ParserM Expr) (fuel : Nat) : ParserM Expr := do
  let left <- parseAnd T nested fuel
  chainLoop (eitherToken .or .pipePipe .or) (parseAnd T nested fuel) fuel left

def parseExprWith : Nat -> ParserM Expr
  | 0 => ParseM.exhausted
  | fuel + 1 => parseOr T (parseExprWith fuel) (fuel + 1)

def parseExpr : ParserM Expr := fun parser =>
  parseExprWith T parser.tokens.length parser

/-! ## Statements -/

/-- `[WHERE expr]` -/
def parseFilter (fuel : Nat) : ParserM (Option Expr) := do
  if <- matchToken .whereKeyword then
    let expr <- parseExprWith T fuel
    pure (some expr)
  else pure none

def parseUsize (message : String) : ParserM UInt64 := do
  let span <- currentSpan
  let kind <- peekKind
  match kind with
  | .int number =>
      if 0 ≤ number.toInt then
        let _ <- advance
        pure (UInt64.ofNat number.toInt.toNat)
      else ParseM.fail (parseErrorAt message span)
  | _ => ParseM.fail (parseErrorAt message span)

/-- `[SORT field [ASC|DESC]]` -/
def parseSort (fuel : Nat) : ParserM (Option SortClause) := do
  if <- matchToken .sort then
    let field <- parseFieldPath T fuel
    if <- matchToken .desc then pure (some ⟨field, .desc⟩)
    else
      let _ <- matchToken .asc
      pure (some ⟨field, .asc⟩)
  else pure none

/-- `[LIMIT n]` and `[OFFSET n]` -/
def parseBound (keyword : TokenKind) (message : String) : ParserM (Option UInt64) := do
  if <- matchToken keyword then
    let number <- parseUsize message
    pure (some number)
  else pure none

/-- `FIND users [WHERE expr] [SORT field [ASC|DESC]] [LIMIT n] [OFFSET n]` -/
def parseFind (fuel : Nat) : ParserM Statement := do
  let _ <- advance
  let collection <- expectIdentifier T "Expected collection name after FIND"
  let filter <- parseFilter T fuel
  let sort <- parseSort T fuel
  let limit <- parseBound .limit "Expected integer after LIMIT"
  let offset <- parseBound .offset "Expected integer after OFFSET"
  pure (.find collection filter sort limit offset)

/-- One entry of the object of an INSERT.  An id that is no string, or that
`DocumentId::new` refuses, is passed over. -/
def insertEntry (doc : Document) (entry : String × Value) : Document :=
  if entry.1 = "_id" ∨ entry.1 = "id" then
    match entry.2.asStr with
    | .ok text =>
        match DocumentId.new text with
        | .ok id => { doc with id := id }
        | .error _ => doc
    | .error _ => doc
  else doc.insert entry.1 entry.2

def documentOf (draw : Draw) (map : List (String × Value)) : Document :=
  map.foldl insertEntry (Document.new draw.uuid draw.clock)

/-- The literal of an INSERT must be an object. -/
def insertedDocument (draw : Draw) (collection : String) : Value -> ParserM Statement
  | .object map => pure (.insert collection (documentOf draw map))
  | other => do
      let span <- currentSpan
      ParseM.fail (parseErrorAt
        ("INSERT document must be an object, found '" ++ other.typeName ++ "'") span)

/-- The literal of an INSERT, in parentheses or not. -/
def insertLiteral (fuel : Nat) : ParserM Value := do
  let hasParen <- matchToken .lParen
  let value <- parseValueLiteral T fuel
  if hasParen then
    let _ <- expect T .rParen "Expected ')' closing VALUES"
    pure value
  else pure value

/-- `INSERT [INTO] users VALUES (..)` -/
def parseInsert (draw : Draw) (fuel : Nat) : ParserM Statement := do
  let _ <- advance
  let _ <- matchToken .into
  let collection <- expectIdentifier T "Expected collection name after INSERT"
  let _ <- expect T .values "Expected VALUES keyword"
  let value <- insertLiteral T fuel
  insertedDocument draw collection value

/-- Either spelling of the assignment sign. -/
def assignSign : ParserM Unit := do
  if <- matchToken .eq then pure ()
  else if <- matchToken .eqEq then pure ()
  else
    let span <- currentSpan
    ParseM.fail (parseErrorAt "Expected '=' in SET assignment" span)

def assignmentItem (fuel : Nat) (assignments : List Assignment) :
    ParserM (List Assignment) := do
  let field <- parseFieldPath T fuel
  assignSign
  let expr <- parseExprWith T fuel
  pure (assignments ++ [⟨field, expr⟩])

/-- `UPDATE users SET role = "engineer", age = 29 [WHERE id == "u1"]` -/
def parseUpdate (fuel : Nat) : ParserM Statement := do
  let _ <- advance
  let collection <- expectIdentifier T "Expected collection name after UPDATE"
  let _ <- expect T .set "Expected SET keyword in UPDATE"
  let assignments <- commaLoop (assignmentItem T fuel) fuel []
  let filter <- parseFilter T fuel
  pure (.update collection assignments filter)

/-- A command word, a collection and an optional filter. -/
def parseFiltered (message : String) (build : String -> Option Expr -> Statement) (fuel : Nat) :
    ParserM Statement := do
  let _ <- advance
  let collection <- expectIdentifier T message
  let filter <- parseFilter T fuel
  pure (build collection filter)

def parseRemove : Nat -> ParserM Statement :=
  parseFiltered T "Expected collection name after REMOVE" .remove

def parseWatch : Nat -> ParserM Statement :=
  parseFiltered T "Expected collection name after WATCH" .watch

def parseCount : Nat -> ParserM Statement :=
  parseFiltered T "Expected collection name after COUNT" .count

def parseExists : Nat -> ParserM Statement :=
  parseFiltered T "Expected collection name after EXISTS" .exists

/-- `users.email`, or the two names side by side. -/
def indexTarget (message : String) (fuel : Nat) : ParserM (String × String) := do
  let _ <- advance
  let _ <- expect T .index message
  let target <- expectIdentifier T "Expected collection name or target for index"
  if <- matchToken .dot then
    let field <- parseFieldPath T fuel
    pure (target, field)
  else
    let field <- expectIdentifier T "Expected field name after collection"
    pure (target, field)

/-- `[TYPE ordered|hash]`, ordered by default. -/
def parseIndexType : ParserM Index.IndexType := do
  if <- matchToken .type then
    if <- matchToken .hash then pure .hash
    else if <- matchToken .ordered then pure .ordered
    else
      let span <- currentSpan
      ParseM.fail (parseErrorAt "Index TYPE must be 'hash' or 'ordered'" span)
  else pure .ordered

/-- `CREATE INDEX users.email [TYPE ordered|hash]` -/
def parseCreateIndex (fuel : Nat) : ParserM Statement := do
  let target <- indexTarget T "Expected INDEX after CREATE" fuel
  let indexType <- parseIndexType
  pure (.createIndex target.1 target.2 indexType)

/-- `DROP INDEX users.email` -/
def parseDropIndex (fuel : Nat) : ParserM Statement := do
  let target <- indexTarget T "Expected INDEX after DROP" fuel
  pure (.dropIndex target.1 target.2)

def statementAt (draw : Draw) (fuel : Nat) : TokenKind -> ParserM Statement
  | .find => parseFind T fuel
  | .insert => parseInsert T draw fuel
  | .update => parseUpdate T fuel
  | .remove => parseRemove T fuel
  | .watch => parseWatch T fuel
  | .count => parseCount T fuel
  | .existsKeyword => parseExists T fuel
  | .create => parseCreateIndex T fuel
  | .drop => parseDropIndex T fuel
  | .begin => do
      let _ <- advance
      pure .begin
  | .commit => do
      let _ <- advance
      pure .commit
  | .rollback => do
      let _ <- advance
      pure .rollback
  | other => do
      let span <- currentSpan
      ParseM.fail (parseErrorAt
        ("Expected NQL command (FIND, INSERT, UPDATE, REMOVE, WATCH, etc.), found '" ++
          other.debug T ++ "'") span)

/-- Parse complete statement. -/
def parseStatement (draw : Draw) : ParserM Statement := fun parser =>
  (do
    let kind <- peekKind
    statementAt T draw parser.tokens.length kind : ParserM Statement) parser

end Parser
end Query
end NovaDb
