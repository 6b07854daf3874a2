import NovaDb.Query.ExpressionParser
import NovaDb.Query.Lexemes

namespace NovaDb
namespace Query

open Core Foundation Grammar

/-!
# Blanks around binary operators

An arithmetic expression or a comparison is written with no blank around its
binary operators, or with one on each side.  The second text always reads as the
expression.  The first one does not if a minus sign stands directly in front of a
number: the lexer takes the two for a negative literal, the operator is gone, and
the parser stops in front of the literal.

Both texts put parentheses where precedence needs them, and may have more.
-/

/-! ## Operators -/

inductive Operator where
  | plus
  | minus
  | star
  | slash
  | percent
  | eqEq
  | eq
  | bangEq
  | gt
  | gtEq
  | lt
  | ltEq
  deriving DecidableEq

namespace Operator

def text : Operator -> List Char
  | .plus => ['+']
  | .minus => ['-']
  | .star => ['*']
  | .slash => ['/']
  | .percent => ['%']
  | .eqEq => ['=', '=']
  | .eq => ['=']
  | .bangEq => ['!', '=']
  | .gt => ['>']
  | .gtEq => ['>', '=']
  | .lt => ['<']
  | .ltEq => ['<', '=']

def kind : Operator -> TokenKind
  | .plus => .plus
  | .minus => .minus
  | .star => .star
  | .slash => .slash
  | .percent => .percent
  | .eqEq => .eqEq
  | .eq => .eq
  | .bangEq => .bangEq
  | .gt => .gt
  | .gtEq => .gtEq
  | .lt => .lt
  | .ltEq => .ltEq

def op : Operator -> BinaryOp
  | .plus => .plus
  | .minus => .minus
  | .star => .multiply
  | .slash => .divide
  | .percent => .modulo
  | .eqEq => .eq
  | .eq => .eq
  | .bangEq => .notEq
  | .gt => .gt
  | .gtEq => .gtEq
  | .lt => .lt
  | .ltEq => .ltEq

/-- The level an operation is read at. -/
def level : Operator -> Level
  | .plus | .minus => .chain .additive
  | .star | .slash | .percent => .chain .multiplicative
  | _ => .comparison

/-- Chains associate to the left, and comparisons do not associate. -/
def leftLevel : Operator -> Level
  | .star | .slash | .percent => .chain .multiplicative
  | _ => .chain .additive

def rightLevel : Operator -> Level
  | .plus | .minus => .chain .multiplicative
  | .star | .slash | .percent => .unary
  | _ => .chain .additive

end Operator

namespace Grammar

/-- How tightly a level binds. -/
def Level.rank : Level -> Nat
  | .chain .disjunction => 0
  | .chain .conjunction => 1
  | .comparison => 2
  | .chain .additive => 3
  | .chain .multiplicative => 4
  | .unary => 5
  | .primary => 6

end Grammar

/-! ## Expressions and their texts -/

/-- Expressions over field paths and integer literals, with binary operators and
the parentheses that are written although precedence does not need them. -/
inductive Operation (T : TextTables) where
  | path (first : Lexer.Identifier T) (rest : List (Lexer.Identifier T))
  | int (number : Fin (2 ^ 63))
  | group (inner : Operation T)
  | binary (operator : Operator) (left right : Operation T)

/-- The body between parentheses, if it has to be enclosed. -/
def enclose {τ : Type} (opening closing : τ) (bare : Bool) (body : List τ) : List τ :=
  if bare then body else opening :: (body ++ [closing])

/-- The tokens of a minus sign directly in front of a text: a number takes the
sign for its own. -/
def signed : List TokenKind -> List TokenKind
  | .int number :: rest => .int (-number) :: rest
  | kinds => .minus :: kinds

/-- An operator with a blank on each side, or without. -/
def Operator.spaced (blanks : Bool) (operator : Operator) : List Char :=
  if blanks then ' ' :: (operator.text ++ [' ']) else operator.text

/-- The tokens of an operator and what stands behind it. -/
def Operator.before (blanks : Bool) (operator : Operator) (behind : List TokenKind) :
    List TokenKind :=
  if blanks = false ∧ operator = .minus then signed behind else operator.kind :: behind

namespace Operation

variable {T : TextTables}

def pathString (first : Lexer.Identifier T) (rest : List (Lexer.Identifier T)) : String :=
  rest.foldl (fun path name => path ++ "." ++ name.asString) first.asString

/-- What the expression stands for. -/
def expr : Operation T -> Expr
  | .path first rest => .field (pathString first rest)
  | .int number => .literal (.int (Int64.ofInt number.val))
  | .group inner => inner.expr
  | .binary operator left right => .binary operator.op left.expr right.expr

/-- Whether an operation stands at a level without parentheses. -/
def bare (operator : Operator) (level : Level) : Bool :=
  decide (level.rank ≤ operator.level.rank)

/-- The text, with blanks around the binary operators or without. -/
def text (blanks : Bool) (level : Level) : Operation T -> List Char
  | .path first rest => first.text ++ rest.flatMap (fun name => '.' :: name.text)
  | .int number => Nat.toDigits 10 number.val
  | .group inner => '(' :: (inner.text blanks (.chain .disjunction) ++ [')'])
  | .binary operator left right =>
      enclose '(' ')' (bare operator level)
        (left.text blanks operator.leftLevel ++
          (operator.spaced blanks ++ right.text blanks operator.rightLevel))

/-- The tokens of the text. -/
def kinds (blanks : Bool) (level : Level) : Operation T -> List TokenKind
  | .path first rest =>
      .identifier first.asString :: rest.flatMap (fun name => [.dot, .identifier name.asString])
  | .int number => [.int (Int64.ofInt number.val)]
  | .group inner => .lParen :: (inner.kinds blanks (.chain .disjunction) ++ [.rParen])
  | .binary operator left right =>
      enclose .lParen .rParen (bare operator level)
        (left.kinds blanks operator.leftLevel ++
          operator.before blanks (right.kinds blanks operator.rightLevel))

/-- The text starts with a number. -/
def startsWithNumber (level : Level) : Operation T -> Bool
  | .path _ _ => false
  | .int _ => true
  | .group _ => false
  | .binary operator left _ =>
      bare operator level && left.startsWithNumber operator.leftLevel

/-- Somewhere a number directly follows a minus sign. -/
def glued : Operation T -> Bool
  | .path _ _ => false
  | .int _ => false
  | .group inner => inner.glued
  | .binary operator left right =>
      left.glued || right.glued ||
        (operator == .minus && right.startsWithNumber operator.rightLevel)

/-- The expression as a query text. -/
def render (blanks : Bool) (operation : Operation T) : String :=
  String.ofList (operation.text blanks (.chain .disjunction))

end Operation

/-- Tokenize and parse one expression. -/
def readExpr (T : TextTables) (query : String) : Option Expr :=
  match Lexer.tokenize T (Lexer.new query) with
  | .ok tokens _ =>
      match Parser.parseExpr T (Parser.new tokens) with
      | .ok expr _ => some expr
      | _ => none
  | _ => none

/-! ## The tokens derive the expression -/

namespace Grammar

/-- The word derives the expression at a level. -/
def DerivesAt (level : Level) (word : List TokenKind) (expr : Expr) : Prop :=
  Exists fun extending => Derives (.expr level) word expr extending

/-- The next level up. -/
def Level.up : Level -> Level
  | .primary => .unary
  | .unary => .chain .multiplicative
  | .chain .multiplicative => .chain .additive
  | .chain .additive => .comparison
  | .comparison => .chain .conjunction
  | .chain .conjunction => .chain .disjunction
  | .chain .disjunction => .chain .disjunction

theorem Level.rank_up (level : Level) : level.up.rank = level.rank - 1 := by
  rcases level with _ | _ | _ | (_ | _ | _ | _) <;> rfl

theorem Level.eq_of_rank {first second : Level} (same : first.rank = second.rank) :
    first = second := by
  rcases first with _ | _ | _ | (_ | _ | _ | _) <;>
    rcases second with _ | _ | _ | (_ | _ | _ | _) <;>
      first | rfl | nomatch same

variable {word rest : List TokenKind} {left right expr : Expr}

theorem DerivesAt.alone {chain : Chain} (derived : DerivesAt chain.operand word expr) :
    DerivesAt (.chain chain) word expr := by
  rcases derived with ⟨extending, derived⟩
  refine ⟨carry [] extending (chain.operators.map Prod.fst), ?_⟩
  rw [← List.append_nil word]
  exact .chain derived .chainEnd

theorem DerivesAt.up {level : Level} (derived : DerivesAt level word expr) :
    DerivesAt level.up word expr := by
  rcases level with _ | _ | _ | chain
  · rcases derived with ⟨extending, derived⟩
    exact ⟨extending, .operand derived⟩
  · exact DerivesAt.alone derived
  · exact DerivesAt.alone derived
  · cases chain with
    | multiplicative => exact DerivesAt.alone derived
    | additive =>
        rcases derived with ⟨extending, derived⟩
        refine ⟨carry [] extending (comparators.map Prod.fst ++ [.between, .inKeyword]), ?_⟩
        rw [← List.append_nil word]
        exact .comparison derived .alone
    | conjunction => exact DerivesAt.alone derived
    | disjunction => exact derived

/-- A word that derives at a level derives at every level that binds less. -/
theorem DerivesAt.climb {low high : Level} (looser : high.rank ≤ low.rank)
    (derived : DerivesAt low word expr) : DerivesAt high word expr := by
  by_cases same : high.rank = low.rank
  · rw [Level.eq_of_rank same]
    exact derived
  · have above : high.rank ≤ low.up.rank := by
      rw [low.rank_up]
      omega
    exact derived.up.climb above
termination_by low.rank
decreasing_by
  rw [low.rank_up]
  omega

/-- One more operator behind a chain. -/
theorem chainTail_snoc {chain : Chain} {token : TokenKind} {op : BinaryOp} {word : List TokenKind}
    (sign : (token, op) ∈ chain.operators) (operand : DerivesAt chain.operand word right)
    {rest behind : List TokenKind} {left expr : Expr}
    (tail : Derives (.chainTail chain left) rest expr behind) :
    Exists fun extending =>
      Derives (.chainTail chain left) (rest ++ token :: word) (.binary op expr right) extending := by
  cases tail with
  | chainEnd =>
      rcases operand with ⟨before, operand⟩
      refine ⟨carry [] before (chain.operators.map Prod.fst), ?_⟩
      rw [List.nil_append, ← List.append_nil word]
      exact .chainStep sign operand .chainEnd
  | chainStep first item more =>
      rcases chainTail_snoc sign operand more with ⟨extending, longer⟩
      rw [List.cons_append, List.append_assoc]
      exact ⟨_, .chainStep first item longer⟩
termination_by rest.length

theorem DerivesAt.chainStep {chain : Chain} {token : TokenKind} {op : BinaryOp}
    (sign : (token, op) ∈ chain.operators) (first : DerivesAt (.chain chain) word left)
    (second : DerivesAt chain.operand rest right) :
    DerivesAt (.chain chain) (word ++ token :: rest) (.binary op left right) := by
  rcases first with ⟨extending, derived⟩
  cases derived with
  | chain first tail =>
      rcases chainTail_snoc sign second tail with ⟨behind, longer⟩
      rw [List.append_assoc]
      exact ⟨_, .chain first longer⟩

theorem DerivesAt.compared {token : TokenKind} {op : BinaryOp} (sign : (token, op) ∈ comparators)
    (first : DerivesAt (.chain .additive) word left)
    (second : DerivesAt (.chain .additive) rest right) :
    DerivesAt .comparison (word ++ token :: rest) (.binary op left right) := by
  rcases first with ⟨before, first⟩
  rcases second with ⟨extending, second⟩
  exact ⟨_, .comparison first (.compared sign second)⟩

theorem DerivesAt.ofPrimary {extending : List TokenKind}
    (derived : Derives (.expr .primary) word expr extending) (level : Level) :
    DerivesAt level word expr := by
  have primary : DerivesAt .primary word expr := ⟨extending, derived⟩
  refine primary.climb ?_
  rcases level with _ | _ | _ | (_ | _ | _ | _) <;> decide

theorem DerivesAt.group (inner : DerivesAt (.chain .disjunction) word expr) (level : Level) :
    DerivesAt level (.lParen :: (word ++ [.rParen])) expr := by
  rcases inner with ⟨extending, inner⟩
  exact DerivesAt.ofPrimary (.group inner) level

end Grammar

theorem Operator.derives (operator : Operator) {word rest : List TokenKind} {left right : Expr}
    (first : DerivesAt operator.leftLevel word left)
    (second : DerivesAt operator.rightLevel rest right) :
    DerivesAt operator.level (word ++ operator.kind :: rest) (.binary operator.op left right) := by
  cases operator with
  | plus | minus => exact DerivesAt.chainStep (by decide) first second
  | star | slash | percent => exact DerivesAt.chainStep (by decide) first second
  | eqEq | eq | bangEq | gt | gtEq | lt | ltEq =>
      exact DerivesAt.compared (by decide) first second

namespace Operation

variable {T : TextTables}

theorem derives_pathTail (rest : List (Lexer.Identifier T)) (sofar : String) :
    Exists fun extending => Derives (.pathTail sofar)
      (rest.flatMap (fun name => [.dot, .identifier name.asString]))
      (rest.foldl (fun path name => path ++ "." ++ name.asString) sofar) extending := by
  induction rest generalizing sofar with
  | nil => exact ⟨_, .pathEnd⟩
  | cons name rest inductionHypothesis =>
      rcases inductionHypothesis (sofar ++ "." ++ name.asString) with ⟨extending, derived⟩
      exact ⟨extending, .pathStep derived⟩

/-- The tokens of the text with blanks derive the expression. -/
theorem derives_kinds (operation : Operation T) (level : Level) :
    DerivesAt level (operation.kinds true level) operation.expr := by
  induction operation generalizing level with
  | path first rest =>
      rcases derives_pathTail rest first.asString with ⟨extending, derived⟩
      exact DerivesAt.ofPrimary (.field (.path derived)) level
  | int number => exact DerivesAt.ofPrimary (.literal (.scalar rfl)) level
  | group inner derived => exact DerivesAt.group (derived _) level
  | binary operator left right first second =>
      have body := operator.derives (first operator.leftLevel) (second operator.rightLevel)
      rw [kinds, Operator.before, if_neg (fun both => nomatch both.1), enclose]
      split
      · rename_i fits
        exact body.climb (decide_eq_true_iff.mp fits)
      · exact DerivesAt.group (body.climb (Nat.zero_le _)) level

end Operation

/-! ## The text is cut into its tokens -/

namespace Lexer

variable {T : TextTables} {rest : List Char} {kinds : List TokenKind}

/-- A symbol that an equality sign would change, in front of something else. -/
theorem scans_undoubled {c : Char} {both single : TokenKind} (symbol : isSymbol c = true)
    (lone : Lone c rest) (clear : rest.head? ≠ some '=')
    (read : forall span behind, scanSymbol span c behind = .ok (doubled '=' both single behind)) :
    Scans T [c] (some single) rest := by
  refine scans_symbol symbol lone ?_
  intro span tail behind tailChars restChars
  have absent : peek behind ≠ some '=' := by
    rw [← restChars, List.head?_map] at clear
    exact clear
  rw [List.map_eq_nil_iff.mp tailChars, List.nil_append, read, doubled, if_neg absent]

theorem scans_doubled {c : Char} {both single : TokenKind} (symbol : isSymbol c = true)
    (lone : Lone c ('=' :: rest))
    (read : forall span behind, scanSymbol span c behind = .ok (doubled '=' both single behind)) :
    Scans T [c, '='] (some both) rest := by
  refine scans_symbol symbol lone ?_
  intro span tail behind tailChars _
  rcases List.map_eq_singleton_iff.mp tailChars with ⟨second, rfl, sign⟩
  have present : peek (second :: behind) = some '=' := congrArg some sign
  rw [List.singleton_append, read, doubled, if_pos present]
  rfl

/-- An operator in front of a blank or an operand.  A minus sign needs an operand
that does not start with a digit. -/
theorem scans_operator (operator : Operator) {c : Char} (clear : c ≠ '=' ∧ c ≠ '-' ∧ c ≠ '/')
    (noDigit : operator = .minus -> c.isDigit = false) :
    Scans T operator.text (some operator.kind) (c :: rest) := by
  have unequal : (c :: rest).head? ≠ some '=' := fun equal => clear.1 (Option.some.inj equal)
  cases operator with
  | plus | star | percent =>
      exact scans_single (by decide) (Lone.of_ne (by decide) (by decide)) (fun _ _ => rfl)
  | minus =>
      refine scans_single (by decide) ?_ (fun _ _ => rfl)
      intro d head
      rw [← Option.some.inj head]
      exact ⟨fun _ => ⟨clear.2.1, noDigit rfl⟩, nofun⟩
  | slash =>
      refine scans_single (by decide) ?_ (fun _ _ => rfl)
      intro d head
      rw [← Option.some.inj head]
      exact ⟨nofun, fun _ => clear.2.2⟩
  | eq | gt | lt =>
      exact scans_undoubled (by decide) (Lone.of_ne (by decide) (by decide)) unequal
        (fun _ _ => rfl)
  | eqEq | bangEq | gtEq | ltEq =>
      exact scans_doubled (by decide) (Lone.of_ne (by decide) (by decide)) (fun _ _ => rfl)

/-- The characters that may stand behind an operand. -/
def behindOperand : List Char :=
  [' ', ')', '+', '-', '*', '/', '%', '=', '!', '>', '<']

/-- Nothing follows, or something that ends an operand. -/
def Ends (rest : List Char) : Prop :=
  forall c, rest.head? = some c -> c ∈ behindOperand

theorem Ends.nil : Ends [] :=
  nofun

theorem Ends.cons {c : Char} (member : c ∈ behindOperand) : Ends (c :: rest) := by
  intro d head
  rw [← Option.some.inj head]
  exact member

theorem Ends.number (ends : Ends rest) : NumberStops rest := by
  intro c head
  have all : behindOperand.all (fun c => !c.isDigit && c != '.') = true := by decide
  have plain := List.all_eq_true.mp all c (ends c head)
  rw [Bool.and_eq_true, Bool.not_eq_true', bne_iff_ne] at plain
  exact plain

theorem Ends.word (ends : Ends rest) {c : Char} (head : rest.head? = some c) :
    (T.isAlphanumeric c || c == '_') = false := by
  have all : behindOperand.all (fun c =>
      decide (c.toNat < 128) && !c.isAlphanum && c != '_') = true := by
    decide
  have outside := List.all_eq_true.mp all c (ends c head)
  simp only [Bool.and_eq_true, decide_eq_true_eq, Bool.not_eq_true', bne_iff_ne] at outside
  exact wordEnds outside.1.1 outside.1.2 outside.2

/-! ### Paths and parentheses -/

theorem cut_path (name : Identifier T) (names : List (Identifier T)) (ends : Ends rest)
    (cut : Cut T rest kinds) :
    Cut T (name.text ++ names.flatMap (fun name => '.' :: name.text) ++ rest)
      (.identifier name.asString ::
        (names.flatMap (fun name => [.dot, .identifier name.asString]) ++ kinds)) := by
  induction names generalizing name with
  | nil =>
      rw [List.flatMap_nil, List.append_nil]
      exact .token (scans_word name (fun c head => ends.word head)) cut
  | cons next names inductionHypothesis =>
      have dot : Cut T (['.'] ++ (next.text ++ names.flatMap (fun name => '.' :: name.text) ++ rest))
          (.dot :: _) :=
        .token (scans_single (by decide) (Lone.of_ne (by decide) (by decide)) (fun _ _ => rfl))
          (inductionHypothesis next)
      rw [List.append_assoc]
      refine .token (scans_word name ?_) ?_
      · intro c head
        rw [← Option.some.inj head]
        exact wordEnds (by decide) (by decide) (by decide)
      · rw [List.flatMap_cons, List.append_assoc, List.cons_append]
        rw [List.append_assoc] at dot
        exact dot

theorem cut_closed (cut : Cut T rest kinds) : Cut T (')' :: rest) (.rParen :: kinds) :=
  .token (scans_single (by decide) (Lone.of_ne (by decide) (by decide)) (fun _ _ => rfl)) cut

theorem cut_opened (cut : Cut T rest kinds) : Cut T ('(' :: rest) (.lParen :: kinds) :=
  .token (scans_single (by decide) (Lone.of_ne (by decide) (by decide)) (fun _ _ => rfl)) cut

/-- A body that can be cut in front of any end can be cut in parentheses. -/
theorem cut_enclose {bare : Bool} {body : List Char} {word : List TokenKind}
    (inside : forall {rest kinds}, Ends rest -> Cut T rest kinds ->
      Cut T (body ++ rest) (word ++ kinds)) (ends : Ends rest) (cut : Cut T rest kinds) :
    Cut T (enclose '(' ')' bare body ++ rest) (enclose .lParen .rParen bare word ++ kinds) := by
  cases bare with
  | true => exact inside ends cut
  | false =>
      have closed := inside (Ends.cons (by decide)) (cut_closed cut)
      simpa [enclose] using cut_opened closed

end Lexer

/-! ### Operands -/

namespace Operation

variable {T : TextTables}

/-- The first character of an operand. -/
theorem text_first (operation : Operation T) (blanks : Bool) (level : Level) :
    Exists fun c => Exists fun more => operation.text blanks level = c :: more ∧
      (c ≠ '=' ∧ c ≠ '-' ∧ c ≠ '/') ∧
        (operation.startsWithNumber level = false -> c.isDigit = false) := by
  induction operation generalizing level with
  | path first rest =>
      refine ⟨first.first, _, rfl, ?_, fun _ => Lexer.wordStart_not_digit first.starts⟩
      exact ⟨Lexer.wordStart_ne first.starts (by decide) (by decide) (by decide),
        Lexer.wordStart_ne first.starts (by decide) (by decide) (by decide),
        Lexer.wordStart_ne first.starts (by decide) (by decide) (by decide)⟩
  | int number =>
      have nonempty : Nat.toDigits 10 number.val ≠ [] := Nat.toDigits_ne_nil
      rcases List.exists_cons_of_ne_nil nonempty with ⟨c, more, digits⟩
      have digit : c.isDigit = true := by
        refine Nat.isDigit_of_mem_toDigits (b := 10) (n := number.val) (by decide) (by decide) ?_
        rw [digits]
        exact List.mem_cons_self
      refine ⟨c, more, digits, ?_, nofun⟩
      exact ⟨Lexer.digit_ne digit (by decide), Lexer.digit_ne digit (by decide),
        Lexer.digit_ne digit (by decide)⟩
  | group inner inductionHypothesis => exact ⟨'(', _, rfl, by decide, fun _ => by decide⟩
  | binary operator left right first second =>
      rcases first operator.leftLevel with ⟨c, more, starts, clear, digit⟩
      rw [text, startsWithNumber]
      cases bare operator level with
      | true => exact ⟨c, _, congrArg (· ++ _) starts, clear, digit⟩
      | false => exact ⟨'(', _, rfl, by decide, fun _ => by decide⟩

/-- The first token of an operand. -/
theorem kinds_first (operation : Operation T) (blanks : Bool) (level : Level) :
    Exists fun kind => Exists fun more => operation.kinds blanks level = kind :: more ∧
      (operation.startsWithNumber level = true <-> Exists fun number => kind = .int number) := by
  induction operation generalizing level with
  | path first rest => exact ⟨_, _, rfl, nofun, nofun⟩
  | int number => exact ⟨_, _, rfl, fun _ => ⟨_, rfl⟩, fun _ => rfl⟩
  | group inner inductionHypothesis => exact ⟨_, _, rfl, nofun, nofun⟩
  | binary operator left right first second =>
      rcases first operator.leftLevel with ⟨kind, more, starts, number⟩
      rw [kinds, startsWithNumber]
      cases bare operator level with
      | true => exact ⟨kind, _, congrArg (· ++ _) starts, number⟩
      | false => exact ⟨_, _, rfl, nofun, nofun⟩

theorem signed_append (operation : Operation T) (blanks : Bool) (level : Level)
    (behind : List TokenKind) :
    signed (operation.kinds blanks level ++ behind) =
      signed (operation.kinds blanks level) ++ behind := by
  rcases operation.kinds_first blanks level with ⟨kind, more, starts, _⟩
  rw [starts, List.cons_append]
  cases kind <;> rfl

theorem signed_of_not_number {operation : Operation T} {blanks : Bool} {level : Level}
    (other : operation.startsWithNumber level = false) :
    signed (operation.kinds blanks level) = .minus :: operation.kinds blanks level := by
  rcases operation.kinds_first blanks level with ⟨kind, more, starts, number⟩
  rw [starts]
  cases kind with
  | int value =>
      rw [number.mpr ⟨value, rfl⟩] at other
      nomatch other
  | _ => rfl

/-! ### Operations -/

section Cuts

open Lexer

variable {rest : List Char} {behind : List TokenKind}

/-- An operator and what stands behind it.  Without blanks a minus sign in front
of a number is cut with the number. -/
theorem cut_operator (operator : Operator) (right : Operation T) (blanks : Bool)
    (cut : Cut T (right.text blanks operator.rightLevel ++ rest)
      (right.kinds blanks operator.rightLevel ++ behind))
    (glued : right.startsWithNumber operator.rightLevel = true ->
      Cut T ('-' :: (right.text blanks operator.rightLevel ++ rest))
        (signed (right.kinds blanks operator.rightLevel) ++ behind)) :
    Cut T (operator.spaced blanks ++ (right.text blanks operator.rightLevel ++ rest))
      (operator.before blanks (right.kinds blanks operator.rightLevel) ++ behind) := by
  rcases right.text_first blanks operator.rightLevel with ⟨c, more, starts, clear, digit⟩
  cases blanks with
  | true =>
      have blank := Cut.trivia (scans_blank T _) cut
      have sign : Scans T operator.text (some operator.kind)
          ([' '] ++ (right.text true operator.rightLevel ++ rest)) :=
        scans_operator operator (by decide) (fun _ => by decide)
      rw [Operator.before, if_neg (fun both => nomatch both.1), Operator.spaced, if_pos rfl,
        List.cons_append, List.append_assoc]
      exact .trivia (scans_blank T _) (.token sign blank)
  | false =>
      have sign (noDigit : operator = .minus -> c.isDigit = false) :
          Scans T operator.text (some operator.kind)
            (right.text false operator.rightLevel ++ rest) := by
        rw [starts]
        exact scans_operator operator clear noDigit
      rw [Operator.spaced, if_neg Bool.false_ne_true, Operator.before]
      split
      · rename_i minus
        rcases minus with ⟨_, rfl⟩
        cases number : right.startsWithNumber Operator.minus.rightLevel with
        | true => exact glued number
        | false =>
            rw [signed_of_not_number number]
            exact .token (sign (fun _ => digit number)) cut
      · rename_i other
        exact .token (sign (fun minus => absurd ⟨rfl, minus⟩ other)) cut

theorem ends_operator (operator : Operator) (blanks : Bool) :
    Ends (operator.spaced blanks ++ rest) := by
  cases blanks with
  | true => exact Ends.cons (by decide)
  | false => cases operator <;> exact Ends.cons (by decide)

/-- The text of an operand is cut into its tokens, in front of anything that ends
an operand.  If it starts with a number, a minus sign in front goes with the
number. -/
theorem cut_text (operation : Operation T) (blanks : Bool) (level : Level) (ends : Ends rest)
    (cut : Cut T rest behind) :
    Cut T (operation.text blanks level ++ rest) (operation.kinds blanks level ++ behind) ∧
      (operation.startsWithNumber level = true ->
        Cut T ('-' :: (operation.text blanks level ++ rest))
          (signed (operation.kinds blanks level) ++ behind)) := by
  induction operation generalizing level rest behind with
  | path first names => exact ⟨cut_path first names ends cut, nofun⟩
  | int number =>
      refine ⟨.token (scans_number number.isLt ends.number) cut, fun _ => ?_⟩
      have negated : Int64.ofInt (-(number.val : Int)) = -Int64.ofInt number.val :=
        Int64.ofInt_neg _
      have negative := Cut.token (scans_negative (Nat.le_of_lt number.isLt) ends.number) cut
      rw [negated] at negative
      exact negative
  | group inner inductionHypothesis =>
      refine ⟨?_, nofun⟩
      exact @cut_enclose T rest behind false _ _
        (fun ends cut => (inductionHypothesis _ ends cut).1) ends cut
  | binary operator left right first second =>
      have body {rest : List Char} {behind : List TokenKind} (ends : Ends rest)
          (cut : Cut T rest behind) :=
        first operator.leftLevel (ends_operator operator blanks)
          (cut_operator operator right blanks (second _ ends cut).1 (second _ ends cut).2)
      constructor
      · refine cut_enclose ?_ ends cut
        intro rest behind ends cut
        rw [List.append_assoc, List.append_assoc, List.append_assoc]
        exact (body ends cut).1
      · intro number
        rw [startsWithNumber, Bool.and_eq_true] at number
        have whole := (body ends cut).2 number.2
        rw [text, kinds, number.1, enclose, enclose, if_pos rfl, if_pos rfl, signed_append,
          List.append_assoc, List.append_assoc, List.append_assoc]
        exact whole

end Cuts

end Operation

/-! ## A lost operator is not made up for -/

mutual

/-- The number of binary operations of an expression. -/
def Expr.operations : Expr -> Nat
  | .literal _ => 0
  | .field _ => 0
  | .binary _ left right => left.operations + right.operations + 1
  | .unary _ expr => expr.operations
  | .isIn expr list => expr.operations + listOperations list
  | .between expr min max => expr.operations + min.operations + max.operations

def listOperations : List Expr -> Nat
  | [] => 0
  | expr :: rest => expr.operations + listOperations rest

end

theorem listOperations_snoc (list : List Expr) (expr : Expr) :
    listOperations (list ++ [expr]) = listOperations list + expr.operations := by
  induction list with
  | nil => simp only [List.nil_append, listOperations, Nat.add_comm]
  | cons head rest inductionHypothesis =>
      rw [List.cons_append, listOperations, inductionHypothesis, listOperations, Nat.add_assoc]

/-- The tokens that stand for a binary operation. -/
def TokenKind.isOperator : TokenKind -> Bool
  | .plus | .minus | .star | .slash | .percent => Bool.true
  | .eqEq | .eq | .bangEq | .gt | .gtEq | .lt | .ltEq => Bool.true
  | .and | .ampAmp | .or | .pipePipe => Bool.true
  | _ => Bool.false

namespace Grammar

/-- The operations in what a word stands for, and in what was read before it. -/
def Phrase.operations : (phrase : Phrase) -> phrase.Meaning -> Nat
  | .expr _, meaning => Expr.operations meaning
  | .chainTail _ _, meaning => Expr.operations meaning
  | .comparisonTail _, meaning => Expr.operations meaning
  | .exprs _, meanings => listOperations meanings
  | _, _ => 0

def Phrase.carried : Phrase -> Nat
  | .chainTail _ left => left.operations
  | .comparisonTail left => left.operations
  | .exprs sofar => listOperations sofar
  | _ => 0

theorem isOperator_of_chain {chain : Chain} {token : TokenKind} {op : BinaryOp}
    (sign : (token, op) ∈ chain.operators) : token.isOperator = true := by
  have all : forall pair, pair ∈ chain.operators -> pair.1.isOperator = true := by
    cases chain <;> decide
  exact all _ sign

theorem isOperator_of_comparator {token : TokenKind} {op : BinaryOp}
    (sign : (token, op) ∈ comparators) : token.isOperator = true := by
  have all : forall pair, pair ∈ comparators -> pair.1.isOperator = true := by decide
  exact all _ sign

/-- Every binary operation of an expression has a token of its own. -/
theorem Derives.operations_le {phrase : Phrase} {word extending : List TokenKind}
    {value : phrase.Meaning} (derived : Derives phrase word value extending) :
    phrase.operations value ≤ phrase.carried + word.countP TokenKind.isOperator := by
  induction derived with
  | scalar | emptyArray | array | emptyObject | object => exact Nat.zero_le _
  | lastValue | moreValues | lastEntry | moreEntries => exact Nat.zero_le _
  | path | pathEnd | pathStep => exact Nat.zero_le _
  | literal derived inside => exact Nat.zero_le _
  | field derived inside => exact Nat.zero_le _
  | group derived inside =>
      simp only [Phrase.operations, Phrase.carried, List.countP_cons, List.countP_append] at inside ⊢
      omega
  | operand derived inside => exact inside
  | not sign derived inside =>
      simp only [Phrase.operations, Phrase.carried, List.countP_cons, Expr.operations] at inside ⊢
      omega
  | negate derived inside =>
      simp only [Phrase.operations, Phrase.carried, List.countP_cons, Expr.operations] at inside ⊢
      omega
  | chain first tail before behind =>
      simp only [Phrase.operations, Phrase.carried, List.countP_append] at before behind ⊢
      omega
  | chainEnd => exact Nat.le_add_right _ _
  | chainStep sign operand tail before behind =>
      have counted := isOperator_of_chain sign
      simp only [Phrase.operations, Phrase.carried, List.countP_cons, List.countP_append, counted,
        Expr.operations, if_true] at before behind ⊢
      omega
  | comparison first tail before behind =>
      simp only [Phrase.operations, Phrase.carried, List.countP_append] at before behind ⊢
      omega
  | alone => exact Nat.le_add_right _ _
  | compared sign operand inside =>
      have counted := isOperator_of_comparator sign
      simp only [Phrase.operations, Phrase.carried, List.countP_cons, counted, Expr.operations,
        if_true] at inside ⊢
      omega
  | between lower upper before inside =>
      simp only [Phrase.operations, Phrase.carried, List.countP_cons, List.countP_append,
        Expr.operations] at before inside ⊢
      omega
  | inNothing => exact Nat.le_add_right _ _
  | inList items inside =>
      simp only [Phrase.operations, Phrase.carried, List.countP_cons, List.countP_append,
        Expr.operations, listOperations] at inside ⊢
      omega
  | lastExpr item inside =>
      simp only [Phrase.operations, Phrase.carried, listOperations_snoc] at inside ⊢
      omega
  | moreExprs item more inside rest =>
      simp only [Phrase.operations, Phrase.carried, listOperations_snoc, List.countP_cons,
        List.countP_append] at inside rest ⊢
      omega

end Grammar

namespace Operation

variable {T : TextTables}

theorem count_enclose (bare : Bool) (body : List TokenKind) :
    (enclose .lParen .rParen bare body).countP TokenKind.isOperator =
      body.countP TokenKind.isOperator := by
  cases bare with
  | true => rfl
  | false => simp [enclose, TokenKind.isOperator]

theorem count_path (names : List (Lexer.Identifier T)) :
    (names.flatMap (fun name => [.dot, .identifier name.asString])).countP
      TokenKind.isOperator = 0 := by
  induction names with
  | nil => rfl
  | cons name names inductionHypothesis => simpa [TokenKind.isOperator] using inductionHypothesis

theorem isOperator_kind (operator : Operator) : operator.kind.isOperator = true := by
  cases operator <;> rfl

/-- A minus sign in front of a number is not counted. -/
theorem count_before (operator : Operator) (right : Operation T) (level : Level) :
    (operator.before false (right.kinds false level)).countP TokenKind.isOperator +
        (if operator == .minus && right.startsWithNumber level then 1 else 0) =
      (right.kinds false level).countP TokenKind.isOperator + 1 := by
  rw [Operator.before]
  by_cases minus : operator = .minus
  · subst minus
    rw [if_pos ⟨rfl, rfl⟩]
    cases number : right.startsWithNumber level with
    | true =>
        rcases right.kinds_first false level with ⟨kind, more, starts, integer⟩
        rcases integer.mp number with ⟨value, rfl⟩
        rw [starts]
        rfl
    | false =>
        rw [signed_of_not_number number, List.countP_cons_of_pos rfl]
        rfl
  · have other : (operator == .minus) = false := beq_eq_false_iff_ne.mpr minus
    rw [if_neg (fun both => minus both.2), List.countP_cons_of_pos (isOperator_kind operator), other]
    rfl

/-- The text without blanks has at most one token for each operation, and fewer
if a minus sign is lost. -/
theorem count_kinds (operation : Operation T) (level : Level) :
    (operation.kinds false level).countP TokenKind.isOperator +
      (if operation.glued then 1 else 0) ≤ operation.expr.operations := by
  induction operation generalizing level with
  | path first rest =>
      rw [kinds, List.countP_cons_of_neg Bool.false_ne_true, count_path]
      exact Nat.le_refl _
  | int number => exact Nat.zero_le _
  | group inner inductionHypothesis =>
      have counted := count_enclose false (inner.kinds false (.chain .disjunction))
      rw [enclose, if_neg Bool.false_ne_true] at counted
      rw [kinds, counted, glued, expr]
      exact inductionHypothesis _
  | binary operator left right first second =>
      have before := first operator.leftLevel
      have behind := second operator.rightLevel
      have sign := count_before operator right operator.rightLevel
      rw [kinds, count_enclose, List.countP_append, glued, expr, Expr.operations]
      revert before behind sign
      cases left.glued <;> cases right.glued <;>
        cases (operator == .minus && right.startsWithNumber operator.rightLevel) <;>
          simp only [Bool.or_true, Bool.or_false, Bool.false_eq_true, if_true, if_false] <;>
          omega

theorem kinds_of_not_glued {operation : Operation T} (apart : operation.glued = false)
    (level : Level) : operation.kinds false level = operation.kinds true level := by
  induction operation generalizing level with
  | path first rest => rfl
  | int number => rfl
  | group inner inductionHypothesis => rw [kinds, kinds, inductionHypothesis apart]
  | binary operator left right first second =>
      rw [glued, Bool.or_eq_false_iff, Bool.or_eq_false_iff] at apart
      rcases apart with ⟨⟨leftApart, rightApart⟩, here⟩
      have sign : operator.before false (right.kinds true operator.rightLevel) =
          operator.before true (right.kinds true operator.rightLevel) := by
        have spaced : operator.before true (right.kinds true operator.rightLevel) =
            operator.kind :: right.kinds true operator.rightLevel :=
          if_neg (fun both => nomatch both.1)
        rw [spaced, Operator.before]
        split
        · rename_i minus
          rcases minus with ⟨_, rfl⟩
          exact signed_of_not_number here
        · rfl
      rw [kinds, kinds, first leftApart, second rightApart, sign]

/-! ## Reading the two texts -/

theorem tokenize_render (operation : Operation T) (blanks : Bool) :
    Exists fun tokens => Exists fun final =>
      Lexer.tokenize T (Lexer.new (operation.render blanks)) = .ok tokens final ∧
        tokens.map Token.kind = operation.kinds blanks (.chain .disjunction) ++ [.eof] := by
  have cut := (operation.cut_text blanks (.chain .disjunction) Lexer.Ends.nil .nil).1
  rw [List.append_nil, List.append_nil] at cut
  refine Lexer.tokenize_of_cut T ?_
  rw [render, String.toList_ofList]
  exact cut

end Operation

section ReadExpr

variable {T : TextTables} {query : String} {tokens : List Token} {final : Lexer}
  {word : List TokenKind}
  (read : Lexer.tokenize T (Lexer.new query) = .ok tokens final)
  (split : tokens.map Token.kind = word ++ [.eof])

include read split

theorem readExpr_of_derives {expr : Expr} (derives : DerivesExpr word expr) :
    readExpr T query = some expr := by
  have ends : (tokens.map Token.kind).getLast? = some .eof := by
    rw [split, List.getLast?_concat]
  have inside := Parser.length_pos_of_ends ends
  have parsed := Parser.parseExpr_complete T ends inside (by rw [List.drop_zero, split]) derives
    (by decide)
  simp only [readExpr, read, Parser.new, parsed]

/-- What is read has no more operations than the text has operators. -/
theorem operations_of_readExpr {expr : Expr} (done : readExpr T query = some expr) :
    expr.operations ≤ word.countP TokenKind.isOperator := by
  have ends : (tokens.map Token.kind).getLast? = some .eof := by
    rw [split, List.getLast?_concat]
  have inside := Parser.length_pos_of_ends ends
  rw [readExpr, read] at done
  simp only at done
  cases parsed : Parser.parseExpr T (Parser.new tokens) with
  | ok found next =>
      rw [parsed] at done
      cases done
      rcases Parser.parseExpr_sound T ends inside parsed with ⟨_, _, _, extending, derived⟩
      have shorter : (Parser.kindsBetween tokens 0 next.cursor).Sublist (word ++ [.eof]) := by
        rw [Parser.kindsBetween, List.drop_zero, List.map_take, split]
        exact List.take_sublist _ _
      calc expr.operations
          ≤ 0 + (Parser.kindsBetween tokens 0 next.cursor).countP TokenKind.isOperator :=
            derived.operations_le
        _ = (Parser.kindsBetween tokens 0 next.cursor).countP TokenKind.isOperator :=
            Nat.zero_add _
        _ ≤ (word ++ [TokenKind.eof]).countP TokenKind.isOperator := shorter.countP_le
        _ = word.countP TokenKind.isOperator := by rw [List.countP_append]; rfl
  | error | panic | outOfFuel =>
      rw [parsed] at done
      cases done

end ReadExpr

namespace Operation

variable {T : TextTables}

/-- The text with blanks is read as the expression it was written for. -/
theorem readExpr_spaced (operation : Operation T) :
    readExpr T (operation.render true) = some operation.expr := by
  rcases operation.tokenize_render true with ⟨tokens, final, read, split⟩
  exact readExpr_of_derives read split (operation.derives_kinds _)

/-- Both texts are read as the same expression. -/
def SameReading (operation : Operation T) : Prop :=
  Exists fun expr => readExpr T (operation.render false) = some expr ∧
    readExpr T (operation.render true) = some expr

/-- The two texts of an expression are read as the same expression exactly if no
minus sign stands in front of a number. -/
theorem sameReading_iff (operation : Operation T) :
    operation.SameReading <-> operation.glued = false := by
  rcases operation.tokenize_render false with ⟨tokens, final, read, split⟩
  constructor
  · rintro ⟨expr, compact, spaced⟩
    rw [operation.readExpr_spaced] at spaced
    have bound := operations_of_readExpr read split compact
    have counted := operation.count_kinds (.chain .disjunction)
    rw [Option.some.inj spaced] at counted
    cases lost : operation.glued with
    | false => rfl
    | true =>
        rw [lost, if_pos rfl] at counted
        omega
  · intro apart
    rw [kinds_of_not_glued apart] at split
    exact ⟨operation.expr, readExpr_of_derives read split (operation.derives_kinds _),
      operation.readExpr_spaced⟩

/-- The expression of the texts `a-1` and `a - 1`. -/
def difference : Operation referenceTables :=
  .binary .minus (.path ⟨'a', [], by decide, nofun, by decide⟩ []) (.int 1)

/-- Without blanks the difference is read as the field alone. -/
theorem difference_not_sameReading : ¬ difference.SameReading := by
  rintro ⟨expr, compact, spaced⟩
  have without : (readExpr referenceTables "a-1").map Expr.operations = some 0 := by
    decide +kernel
  have within : (readExpr referenceTables "a - 1").map Expr.operations = some 1 := by
    decide +kernel
  have sameText : difference.render false = "a-1" ∧ difference.render true = "a - 1" := by
    decide +kernel
  rw [sameText.1] at compact
  rw [sameText.2] at spaced
  rw [compact] at without
  rw [spaced, without] at within
  nomatch within

end Operation

end Query
end NovaDb
