import NovaDb.Foundation.Phrases
import NovaDb.Query.Statement
import NovaDb.Query.Token

namespace NovaDb
namespace Query

open Core Foundation

/-!
# The grammar of expressions

    or      := and ((OR | ||) and)*
    and     := cmp ((AND | &&) cmp)*
    cmp     := add [(== | = | != | > | >= | < | <=) add
                   | BETWEEN add AND add | IN '(' [or (',' or)*] ')']
    add     := mul ((+ | -) mul)*
    mul     := unary ((* | / | %) unary)*
    unary   := (NOT | ! | -) unary | primary
    primary := literal | path | '(' or ')'
    path    := identifier ('.' identifier)*
    literal := scalar | '[' [literal (',' literal)*] ']' | '{' [entry (',' entry)*] '}'
    entry   := (string | identifier) ':' literal

A derivation also records the tokens that would extend its word.  They do not
restrict which words derive: they say where a greedy reader cannot stop.
-/

/-- The literal a single token stands for. -/
def TokenKind.scalar : TokenKind -> Option Value
  | .null => some .null
  | .true => some (.bool Bool.true)
  | .false => some (.bool Bool.false)
  | .int number => some (.int number)
  | .float number => some (.float number)
  | .stringLit text => some (.string text)
  | _ => none

/-- The name of an identifier. -/
def TokenKind.name : TokenKind -> Option String
  | .identifier name => some name
  | _ => none

/-- The object key a token stands for. -/
def TokenKind.key : TokenKind -> Option String
  | .stringLit text => some text
  | .identifier name => some name
  | _ => none

namespace Grammar

/-- The levels of left-associative operators. -/
inductive Chain where
  | multiplicative
  | additive
  | conjunction
  | disjunction

inductive Level where
  | primary
  | unary
  | comparison
  | chain (chain : Chain)

/-- The level of the operands of a chain. -/
def Chain.operand : Chain -> Level
  | .multiplicative => .unary
  | .additive => .chain .multiplicative
  | .conjunction => .comparison
  | .disjunction => .chain .conjunction

def Chain.operators : Chain -> List (TokenKind × BinaryOp)
  | .multiplicative => [(.star, .multiply), (.slash, .divide), (.percent, .modulo)]
  | .additive => [(.plus, .plus), (.minus, .minus)]
  | .conjunction => [(.and, .and), (.ampAmp, .and)]
  | .disjunction => [(.or, .or), (.pipePipe, .or)]

def comparators : List (TokenKind × BinaryOp) :=
  [(.eqEq, .eq), (.eq, .eq), (.bangEq, .notEq), (.gt, .gt), (.gtEq, .gtEq), (.lt, .lt),
    (.ltEq, .ltEq)]

/-- The syntactic categories.  A tail carries what has been read before it. -/
inductive Phrase where
  | value
  | values (sofar : List Value)
  | entries (sofar : List (String × Value))
  | path
  | pathTail (sofar : String)
  | expr (level : Level)
  | chainTail (chain : Chain) (left : Expr)
  | comparisonTail (left : Expr)
  | exprs (sofar : List Expr)

abbrev Phrase.Meaning : Phrase -> Type
  | .value => Value
  | .values _ => List Value
  | .entries _ => List (String × Value)
  | .path => String
  | .pathTail _ => String
  | .expr _ => Expr
  | .chainTail _ _ => Expr
  | .comparisonTail _ => Expr
  | .exprs _ => List Expr

/-- Derivations: a category, a word, its meaning and the tokens that would
extend the word. -/
inductive Derives : (phrase : Phrase) -> Phrases TokenKind phrase.Meaning where
  | scalar {token : TokenKind} {value : Value} (known : token.scalar = some value) :
      Derives .value [token] value []
  | emptyArray : Derives .value [.lBracket, .rBracket] (.array []) []
  | array {word extending : List TokenKind} {list : List Value}
      (items : Derives (.values []) word list extending) :
      Derives .value (.lBracket :: (word ++ [.rBracket])) (.array list) []
  | emptyObject : Derives .value [.lBrace, .rBrace] (.object []) []
  | object {word extending : List TokenKind} {map : List (String × Value)}
      (items : Derives (.entries []) word map extending) :
      Derives .value (.lBrace :: (word ++ [.rBrace])) (.object map) []
  | lastValue {sofar : List Value} {word extending : List TokenKind} {value : Value}
      (item : Derives .value word value extending) :
      Derives (.values sofar) word (sofar ++ [value]) (extending ++ [.comma])
  | moreValues {sofar list : List Value} {word rest inner extending : List TokenKind}
      {value : Value} (item : Derives .value word value inner)
      (more : Derives (.values (sofar ++ [value])) rest list extending) :
      Derives (.values sofar) (word ++ .comma :: rest) list extending
  | lastEntry {sofar : List (String × Value)} {token : TokenKind} {key : String}
      {word extending : List TokenKind} {value : Value} (named : token.key = some key)
      (item : Derives .value word value extending) :
      Derives (.entries sofar) (token :: .colon :: word)
        (KeyedList.insert compare key value sofar) (extending ++ [.comma])
  | moreEntries {sofar map : List (String × Value)} {token : TokenKind} {key : String}
      {word rest inner extending : List TokenKind} {value : Value}
      (named : token.key = some key) (item : Derives .value word value inner)
      (more : Derives (.entries (KeyedList.insert compare key value sofar)) rest map extending) :
      Derives (.entries sofar) (token :: .colon :: (word ++ .comma :: rest)) map extending
  | path {name path : String} {word extending : List TokenKind}
      (tail : Derives (.pathTail name) word path extending) :
      Derives .path (.identifier name :: word) path extending
  | pathEnd {sofar : String} : Derives (.pathTail sofar) [] sofar [.dot]
  | pathStep {sofar name path : String} {word extending : List TokenKind}
      (tail : Derives (.pathTail (sofar ++ "." ++ name)) word path extending) :
      Derives (.pathTail sofar) (.dot :: .identifier name :: word) path extending
  | literal {word extending : List TokenKind} {value : Value}
      (derived : Derives .value word value extending) :
      Derives (.expr .primary) word (.literal value) extending
  | field {word extending : List TokenKind} {path : String}
      (derived : Derives .path word path extending) :
      Derives (.expr .primary) word (.field path) extending
  | group {word extending : List TokenKind} {expr : Expr}
      (derived : Derives (.expr (.chain .disjunction)) word expr extending) :
      Derives (.expr .primary) (.lParen :: (word ++ [.rParen])) expr []
  | operand {word extending : List TokenKind} {expr : Expr}
      (derived : Derives (.expr .primary) word expr extending) :
      Derives (.expr .unary) word expr extending
  | not {token : TokenKind} {word extending : List TokenKind} {expr : Expr}
      (sign : token = .not ∨ token = .bang)
      (derived : Derives (.expr .unary) word expr extending) :
      Derives (.expr .unary) (token :: word) (.unary .not expr) extending
  | negate {word extending : List TokenKind} {expr : Expr}
      (derived : Derives (.expr .unary) word expr extending) :
      Derives (.expr .unary) (.minus :: word) (.unary .negate expr) extending
  | chain {chain : Chain} {word rest before behind : List TokenKind} {left expr : Expr}
      (first : Derives (.expr chain.operand) word left before)
      (tail : Derives (.chainTail chain left) rest expr behind) :
      Derives (.expr (.chain chain)) (word ++ rest) expr (carry rest before behind)
  | chainEnd {chain : Chain} {left : Expr} :
      Derives (.chainTail chain left) [] left (chain.operators.map Prod.fst)
  | chainStep {chain : Chain} {token : TokenKind} {op : BinaryOp}
      {word rest before behind : List TokenKind} {left right expr : Expr}
      (sign : (token, op) ∈ chain.operators)
      (operand : Derives (.expr chain.operand) word right before)
      (tail : Derives (.chainTail chain (.binary op left right)) rest expr behind) :
      Derives (.chainTail chain left) (token :: (word ++ rest)) expr (carry rest before behind)
  | comparison {word rest before behind : List TokenKind} {left expr : Expr}
      (first : Derives (.expr (.chain .additive)) word left before)
      (tail : Derives (.comparisonTail left) rest expr behind) :
      Derives (.expr .comparison) (word ++ rest) expr (carry rest before behind)
  | alone {left : Expr} :
      Derives (.comparisonTail left) [] left (comparators.map Prod.fst ++ [.between, .inKeyword])
  | compared {token : TokenKind} {op : BinaryOp} {word extending : List TokenKind}
      {left right : Expr} (sign : (token, op) ∈ comparators)
      (operand : Derives (.expr (.chain .additive)) word right extending) :
      Derives (.comparisonTail left) (token :: word) (.binary op left right) extending
  | between {word rest before extending : List TokenKind} {left min max : Expr}
      (lower : Derives (.expr (.chain .additive)) word min before)
      (upper : Derives (.expr (.chain .additive)) rest max extending) :
      Derives (.comparisonTail left) (.between :: (word ++ .and :: rest)) (.between left min max)
        extending
  | inNothing {left : Expr} :
      Derives (.comparisonTail left) [.inKeyword, .lParen, .rParen] (.isIn left []) []
  | inList {word extending : List TokenKind} {left : Expr} {list : List Expr}
      (items : Derives (.exprs []) word list extending) :
      Derives (.comparisonTail left) (.inKeyword :: .lParen :: (word ++ [.rParen]))
        (.isIn left list) []
  | lastExpr {sofar : List Expr} {word extending : List TokenKind} {expr : Expr}
      (item : Derives (.expr (.chain .disjunction)) word expr extending) :
      Derives (.exprs sofar) word (sofar ++ [expr]) (extending ++ [.comma])
  | moreExprs {sofar list : List Expr} {word rest inner extending : List TokenKind} {expr : Expr}
      (item : Derives (.expr (.chain .disjunction)) word expr inner)
      (more : Derives (.exprs (sofar ++ [expr])) rest list extending) :
      Derives (.exprs sofar) (word ++ .comma :: rest) list extending

/-- The word derives the expression. -/
def DerivesExpr (word : List TokenKind) (expr : Expr) : Prop :=
  Exists fun extending => Derives (.expr (.chain .disjunction)) word expr extending

/-! ## Where words end and start -/

def additiveExtensions : List TokenKind :=
  [.dot, .star, .slash, .percent, .plus, .minus]

def comparisonExtensions : List TokenKind :=
  additiveExtensions ++ comparators.map Prod.fst ++ [.between, .inKeyword]

/-- The tokens that extend some word of an expression level. -/
def Level.extensions : Level -> List TokenKind
  | .primary => [.dot]
  | .unary => [.dot]
  | .chain .multiplicative => [.dot, .star, .slash, .percent]
  | .chain .additive => additiveExtensions
  | .comparison => comparisonExtensions
  | .chain .conjunction => comparisonExtensions ++ [.and, .ampAmp]
  | .chain .disjunction => comparisonExtensions ++ [.and, .ampAmp, .or, .pipePipe]

def Phrase.extensions : Phrase -> List TokenKind
  | .value => []
  | .values _ => [.comma]
  | .entries _ => [.comma]
  | .path => [.dot]
  | .pathTail _ => [.dot]
  | .expr level => level.extensions
  | .chainTail chain _ => (Level.chain chain).extensions
  | .comparisonTail _ => comparisonExtensions
  | .exprs _ => (Level.chain .disjunction).extensions ++ [.comma]

theorem operand_extensions (chain : Chain) :
    chain.operand.extensions ⊆ (Level.chain chain).extensions := by
  cases chain with
  | multiplicative => decide
  | additive => decide
  | conjunction => exact List.subset_append_left _ _
  | disjunction =>
      apply List.append_subset.mpr
      exact ⟨List.subset_append_left _ _, List.subset_append_of_subset_right _ (by decide)⟩

theorem operators_extensions (chain : Chain) :
    chain.operators.map Prod.fst ⊆ (Level.chain chain).extensions := by
  cases chain with
  | multiplicative => decide
  | additive => decide
  | conjunction => exact List.subset_append_right _ _
  | disjunction => exact List.subset_append_of_subset_right _ (by decide)

theorem carry_subset {word before behind bound : List TokenKind} (first : before ⊆ bound)
    (second : behind ⊆ bound) : carry word before behind ⊆ bound := by
  cases word with
  | nil => exact List.append_subset.mpr ⟨first, second⟩
  | cons token rest => exact second

theorem additive_comparison : additiveExtensions ⊆ comparisonExtensions := by
  rw [comparisonExtensions, List.append_assoc]
  exact List.subset_append_left _ _

theorem Derives.extending_subset {phrase : Phrase} {word extending : List TokenKind}
    {value : phrase.Meaning} (derived : Derives phrase word value extending) :
    extending ⊆ phrase.extensions := by
  induction derived with
  | scalar known => exact List.nil_subset _
  | emptyArray => exact List.nil_subset _
  | array items inside => exact List.nil_subset _
  | emptyObject => exact List.nil_subset _
  | object items inside => exact List.nil_subset _
  | lastValue item inside =>
      exact List.append_subset.mpr
        ⟨List.Subset.trans inside (List.nil_subset _), List.Subset.refl _⟩
  | moreValues item more inside rest => exact rest
  | lastEntry named item inside =>
      exact List.append_subset.mpr
        ⟨List.Subset.trans inside (List.nil_subset _), List.Subset.refl _⟩
  | moreEntries named item more inside rest => exact rest
  | path tail inside => exact inside
  | pathEnd => exact List.Subset.refl _
  | pathStep tail inside => exact inside
  | literal derived inside => exact List.Subset.trans inside (List.nil_subset _)
  | field derived inside => exact inside
  | group derived inside => exact List.nil_subset _
  | operand derived inside => exact inside
  | not sign derived inside => exact inside
  | negate derived inside => exact inside
  | chain first tail before behind =>
      exact carry_subset (List.Subset.trans before (operand_extensions _)) behind
  | chainEnd => exact operators_extensions _
  | chainStep sign operand tail before behind =>
      exact carry_subset (List.Subset.trans before (operand_extensions _)) behind
  | comparison first tail before behind =>
      exact carry_subset (List.Subset.trans before additive_comparison) behind
  | alone =>
      change _ ⊆ additiveExtensions ++ _ ++ _
      rw [List.append_assoc]
      exact List.subset_append_right _ _
  | compared sign operand inside => exact List.Subset.trans inside additive_comparison
  | between lower upper before inside => exact List.Subset.trans inside additive_comparison
  | inNothing => exact List.nil_subset _
  | inList items inside => exact List.nil_subset _
  | lastExpr item inside =>
      exact List.append_subset.mpr
        ⟨List.Subset.trans inside (List.subset_append_left _ _), List.subset_append_right _ _⟩
  | moreExprs item more inside rest => exact rest

/-- Tokens an expression, a literal or a path can start with. -/
def opens : TokenKind -> Bool
  | .null | .true | .false | .int _ | .float _ | .stringLit _ | .identifier _ => true
  | .lParen | .lBrace | .lBracket | .not | .bang | .minus => true
  | _ => false

/-- Categories of nonempty words. -/
def Phrase.nonempty : Phrase -> Bool
  | .pathTail _ | .chainTail _ _ | .comparisonTail _ => false
  | _ => true

theorem opens_of_scalar {token : TokenKind} {value : Value} (known : token.scalar = some value) :
    opens token = true := by
  cases token <;> first | rfl | nomatch known

theorem opens_of_key {token : TokenKind} {key : String} (named : token.key = some key) :
    opens token = true := by
  cases token <;> first | rfl | nomatch named

theorem Derives.starts {phrase : Phrase} {word extending : List TokenKind}
    {value : phrase.Meaning} (derived : Derives phrase word value extending)
    (nonempty : phrase.nonempty = true) :
    Exists fun first => Exists fun rest => word = first :: rest ∧ opens first = true := by
  induction derived with
  | scalar known => exact ⟨_, _, rfl, opens_of_scalar known⟩
  | emptyArray => exact ⟨_, _, rfl, rfl⟩
  | array items inside => exact ⟨_, _, rfl, rfl⟩
  | emptyObject => exact ⟨_, _, rfl, rfl⟩
  | object items inside => exact ⟨_, _, rfl, rfl⟩
  | lastValue item inside => exact inside rfl
  | moreValues item more inside rest =>
      rcases inside rfl with ⟨first, tail, rfl, starts⟩
      exact ⟨first, _, rfl, starts⟩
  | lastEntry named item inside => exact ⟨_, _, rfl, opens_of_key named⟩
  | moreEntries named item more inside rest => exact ⟨_, _, rfl, opens_of_key named⟩
  | path tail inside => exact ⟨_, _, rfl, rfl⟩
  | pathEnd => nomatch nonempty
  | pathStep tail inside => nomatch nonempty
  | literal derived inside => exact inside rfl
  | field derived inside => exact inside rfl
  | group derived inside => exact ⟨_, _, rfl, rfl⟩
  | operand derived inside => exact inside rfl
  | not sign derived inside =>
      rcases sign with rfl | rfl
      · exact ⟨_, _, rfl, rfl⟩
      · exact ⟨_, _, rfl, rfl⟩
  | negate derived inside => exact ⟨_, _, rfl, rfl⟩
  | chain first tail before behind =>
      rcases before rfl with ⟨head, rest, rfl, starts⟩
      exact ⟨head, _, rfl, starts⟩
  | chainEnd => nomatch nonempty
  | chainStep sign operand tail before behind => nomatch nonempty
  | comparison first tail before behind =>
      rcases before rfl with ⟨head, rest, rfl, starts⟩
      exact ⟨head, _, rfl, starts⟩
  | alone => nomatch nonempty
  | compared sign operand inside => nomatch nonempty
  | between lower upper before inside => nomatch nonempty
  | inNothing => nomatch nonempty
  | inList items inside => nomatch nonempty
  | lastExpr item inside => exact inside rfl
  | moreExprs item more inside rest =>
      rcases inside rfl with ⟨first, tail, rfl, starts⟩
      exact ⟨first, _, rfl, starts⟩

theorem Derives.not_first {phrase : Phrase} {word extending : List TokenKind}
    {value : phrase.Meaning} (derived : Derives phrase word value extending)
    (nonempty : phrase.nonempty = true) {closing : TokenKind} (closes : opens closing = false) :
    Exists fun first => Exists fun rest => word = first :: rest ∧ first ≠ closing := by
  rcases derived.starts nonempty with ⟨first, rest, rfl, starts⟩
  refine ⟨first, rest, rfl, ?_⟩
  rintro rfl
  rw [closes] at starts
  nomatch starts

/-- A literal starts with a scalar or a bracket. -/
theorem Derives.value_first {word extending : List TokenKind} {value : Value}
    (derived : Derives .value word value extending) :
    Exists fun first => Exists fun rest => word = first :: rest ∧
      (first.scalar ≠ none ∨ first = .lBracket ∨ first = .lBrace) := by
  cases derived with
  | scalar known =>
      refine ⟨_, _, rfl, Or.inl ?_⟩
      rw [known]
      exact Option.some_ne_none _
  | emptyArray => exact ⟨_, _, rfl, Or.inr (Or.inl rfl)⟩
  | array items => exact ⟨_, _, rfl, Or.inr (Or.inl rfl)⟩
  | emptyObject => exact ⟨_, _, rfl, Or.inr (Or.inr rfl)⟩
  | object items => exact ⟨_, _, rfl, Or.inr (Or.inr rfl)⟩

theorem Derives.path_first {word extending : List TokenKind} {path : String}
    (derived : Derives .path word path extending) :
    Exists fun name => Exists fun rest => word = .identifier name :: rest := by
  cases derived with
  | path tail => exact ⟨_, _, rfl⟩

/-- A literal that starts with a scalar is that scalar. -/
theorem Derives.value_scalar {kind : TokenKind} {scalar value : Value}
    {rest extending : List TokenKind} (known : kind.scalar = some scalar)
    (derived : Derives .value (kind :: rest) value extending) :
    rest = [] ∧ value = scalar ∧ extending = [] := by
  cases derived with
  | scalar same =>
      rw [same] at known
      exact ⟨rfl, Option.some.inj known, rfl⟩
  | emptyArray | array _ | emptyObject | object _ => nomatch known

/-- A primary expression starts with no sign. -/
theorem Derives.primary_first {word extending : List TokenKind} {expr : Expr}
    (derived : Derives (.expr .primary) word expr extending) :
    Exists fun first => Exists fun rest => word = first :: rest ∧
      first ≠ .not ∧ first ≠ .bang ∧ first ≠ .minus := by
  cases derived with
  | literal inner =>
      rcases inner.value_first with ⟨first, rest, rfl, scalar | rfl | rfl⟩
      · refine ⟨first, rest, rfl, ?_, ?_, ?_⟩
        · rintro rfl
          exact scalar rfl
        · rintro rfl
          exact scalar rfl
        · rintro rfl
          exact scalar rfl
      · exact ⟨_, _, rfl, nofun, nofun, nofun⟩
      · exact ⟨_, _, rfl, nofun, nofun, nofun⟩
  | field inner =>
      rcases inner.path_first with ⟨name, rest, rfl⟩
      exact ⟨_, _, rfl, nofun, nofun, nofun⟩
  | group inner => exact ⟨_, _, rfl, nofun, nofun, nofun⟩

/-- An operator of a level does not extend the level's operands. -/
theorem operators_clear {chain : Chain} {token : TokenKind} {op : BinaryOp}
    (sign : (token, op) ∈ chain.operators) : token ∉ chain.operand.extensions := by
  have clear : forall entry, entry ∈ chain.operators ->
      entry.1 ∉ chain.operand.extensions := by
    cases chain <;> decide
  exact clear _ sign

/-- The tail of a chain starts with an operator of its level, which leaves the
operand before it closed. -/
theorem Derives.chainTail_clear {chain : Chain} {left operand expr : Expr}
    {word before rest behind : List TokenKind} {token : TokenKind}
    (first : Derives (.expr chain.operand) word operand before)
    (tail : Derives (.chainTail chain left) rest expr behind)
    (starts : rest.head? = some token) : token ∉ before := by
  cases tail with
  | chainEnd => nomatch starts
  | chainStep sign inner more =>
      cases starts
      exact fun member => operators_clear sign (first.extending_subset member)

theorem Derives.comparisonTail_clear {left operand expr : Expr}
    {word before rest behind : List TokenKind} {token : TokenKind}
    (first : Derives (.expr (.chain .additive)) word operand before)
    (tail : Derives (.comparisonTail left) rest expr behind)
    (starts : rest.head? = some token) : token ∉ before := by
  suffices other : token ∉ additiveExtensions from
    fun member => other (first.extending_subset member)
  cases tail with
  | alone => nomatch starts
  | compared sign inner =>
      have clear : forall entry, entry ∈ comparators -> entry.1 ∉ additiveExtensions := by decide
      cases starts
      exact clear _ sign
  | between lower upper =>
      cases starts
      decide
  | inNothing =>
      cases starts
      decide
  | inList items =>
      cases starts
      decide

end Grammar
end Query
end NovaDb
