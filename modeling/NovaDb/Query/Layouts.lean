import NovaDb.Query.Quoting
import NovaDb.Query.Vocabulary

namespace NovaDb
namespace Query
namespace Lexer

open Core Foundation Grammar

/-!
# Layouts of a list of tokens

A list of tokens is laid out as a text by spelling each token in any way and putting
white space between any two of them, with comments and more white space behind it.
Whatever the spellings and the gaps, the lexer reads the tokens back.  Without the white
space it may not: `a -1` has two tokens and `a - 1` three.
-/

variable (T : TextTables)

/-! ## Gaps and layouts -/

def separators : List Char :=
  [' ', '\n', '\t', '\r']

/-- Nothing follows, or a separator. -/
def Parted (rest : List Char) : Prop :=
  forall c, rest.head? = some c -> c ∈ separators

/-- White space and comments up to the end of a line. -/
inductive Gap : List Char -> Prop where
  | nil : Gap []
  | blank {c : Char} {rest : List Char} (isBlank : isWhitespace c = true) (behind : Gap rest) :
      Gap (c :: rest)
  | comment {mark : Char} {body rest : List Char} (isMark : mark = '-' ∨ mark = '/')
      (oneLine : '\n' ∉ body) (behind : Gap rest) :
      Gap ((mark :: mark :: (body ++ ['\n'])) ++ rest)

/-- The text spells the tokens one after another, with any white space and comments
between them, and ends with such a gap.  Behind a token stands something that cannot be
read as part of it. -/
inductive Layout : List TokenKind -> List Char -> Prop where
  | last {gap : List Char} (isGap : Gap gap) : Layout [] gap
  | token {gap text rest : List Char} {kind : TokenKind} {kinds : List TokenKind}
      (isGap : Gap gap) (lexeme : Lexeme T kind text) (parted : Parted rest)
      (behind : Layout kinds rest) : Layout (kind :: kinds) (gap ++ (text ++ rest))

section Rounds

variable {T} {rest : List Char}

theorem separators_plain {c : Char} (member : c ∈ separators) :
    c.toNat < 128 ∧ c.isAlphanum = false ∧ c ≠ '_' ∧ c.isDigit = false ∧ c ≠ '.' ∧
      c ≠ '=' ∧ c ≠ '-' ∧ c ≠ '/' := by
  have each : separators.all (fun c => decide (c.toNat < 128 ∧ c.isAlphanum = false ∧ c ≠ '_' ∧
      c.isDigit = false ∧ c ≠ '.' ∧ c ≠ '=' ∧ c ≠ '-' ∧ c ≠ '/')) = true := by
    decide
  exact of_decide_eq_true (List.all_eq_true.mp each c member)

theorem Parted.nil : Parted [] := nofun

theorem Parted.cons {c : Char} (member : c ∈ separators) : Parted (c :: rest) := by
  intro d head
  rw [← Option.some.inj head]
  exact member

theorem Parted.word (parted : Parted rest) {c : Char} (head : rest.head? = some c) :
    (T.isAlphanumeric c || c == '_') = false := by
  have plain := separators_plain (parted c head)
  exact wordEnds plain.1 plain.2.1 plain.2.2.1

theorem Parted.number (parted : Parted rest) : NumberStops rest := by
  intro c head
  have plain := separators_plain (parted c head)
  exact ⟨plain.2.2.2.1, plain.2.2.2.2.1⟩

theorem Parted.lone (parted : Parted rest) (c : Char) : Lone c rest := by
  intro d head
  rcases separators_plain (parted d head) with ⟨_, _, _, noDigit, _, _, noMinus, noSlash⟩
  exact ⟨fun _ => ⟨noMinus, noDigit⟩, fun _ => noSlash⟩

/-! ## Gaps are dropped -/

theorem scans_whitespace {c : Char} (isBlank : isWhitespace c = true) :
    Scans T [c] none rest := by
  intro chars behind same _
  rcases List.map_eq_singleton_iff.mp same with ⟨first, rfl, rfl⟩
  exact ⟨first, [], rfl, by rw [scan, if_pos isBlank, List.nil_append]⟩

theorem skipComment_line {body behind : List Located} {ending : Located}
    (line : '\n' ∉ body.map Located.char) (ends : ending.char = '\n') :
    skipComment (body ++ ending :: behind) = behind := by
  induction body with
  | nil => rw [List.nil_append, skipComment, if_pos ends]
  | cons c body inductionHypothesis =>
      rw [List.map_cons, List.mem_cons, not_or] at line
      rw [List.cons_append, skipComment, if_neg (Ne.symm line.1), inductionHypothesis line.2]

theorem scans_comment {mark : Char} {body : List Char} (isMark : mark = '-' ∨ mark = '/')
    (oneLine : '\n' ∉ body) : Scans T (mark :: mark :: (body ++ ['\n'])) none rest := by
  intro chars behind same _
  rcases List.map_eq_cons_iff.mp same with ⟨first, others, rfl, isFirst, same⟩
  rcases List.map_eq_cons_iff.mp same with ⟨second, others, rfl, isSecond, same⟩
  rcases List.map_eq_append_iff.mp same with ⟨front, last, rfl, isBody, isLast⟩
  rcases List.map_eq_singleton_iff.mp isLast with ⟨ending, rfl, ends⟩
  have noBlank : isWhitespace first.char = false := by
    rw [isFirst]
    rcases isMark with rfl | rfl <;> decide
  have noBreak : mark ≠ '\n' := by
    rcases isMark with rfl | rfl <;> decide
  have starts : startsComment first (second :: (front ++ [ending] ++ behind)) = true := by
    rw [startsComment, isFirst, peek, List.head?_cons, Option.map_some, isSecond]
    rcases isMark with rfl | rfl <;> decide
  have line : '\n' ∉ (first :: second :: front).map Located.char := by
    rw [List.map_cons, List.map_cons, isFirst, isSecond, isBody]
    simp only [List.mem_cons, not_or]
    exact ⟨noBreak.symm, noBreak.symm, oneLine⟩
  have skipped := @skipComment_line _ behind _ line ends
  refine ⟨first, second :: (front ++ [ending]), rfl, ?_⟩
  rw [List.cons_append, scan, noBlank, if_neg Bool.false_ne_true, if_pos starts]
  rw [List.cons_append, List.cons_append] at skipped
  rw [List.append_assoc, List.singleton_append, skipped]

theorem cut_gap {gap : List Char} {kinds : List TokenKind} (isGap : Gap gap)
    (cut : Cut T rest kinds) : Cut T (gap ++ rest) kinds := by
  induction isGap with
  | nil => exact cut
  | @blank c _ isBlank _ inductionHypothesis =>
      exact @Cut.trivia T [c] _ _ (scans_whitespace isBlank) inductionHypothesis
  | comment isMark oneLine _ inductionHypothesis =>
      rw [List.append_assoc]
      exact .trivia (scans_comment isMark oneLine) inductionHypothesis

/-! ## Lexemes are read -/

theorem locatedDigits {chars : List Located} {digits : List Char}
    (same : chars.map Located.char = digits)
    (allDigits : forall c, c ∈ digits -> c.isDigit = true) :
    forall c, c ∈ chars -> c.char.isDigit = true := by
  intro c member
  refine allDigits c.char ?_
  rw [← same]
  exact List.mem_map_of_mem member

theorem NumberStops.located {behind : List Located} (stops : NumberStops rest)
    (restChars : behind.map Located.char = rest) :
    forall c, behind.head? = some c -> c.char.isDigit = false ∧ c.char ≠ '.' := by
  intro c head
  refine stops c.char ?_
  rw [← restChars, List.head?_map, head]
  rfl

/-- Digits behind the point. -/
theorem readNumber_fraction {fraction behind : List Located}
    (digits : forall c, c ∈ fraction -> c.char.isDigit = true)
    (stops : forall c, behind.head? = some c -> c.char.isDigit = false ∧ c.char ≠ '.') :
    readNumber true (fraction ++ behind) = (fraction.map Located.char, true, behind) := by
  induction fraction with
  | nil =>
      cases behind with
      | nil => rfl
      | cons c rest =>
          rcases stops c rfl with ⟨noDigit, noPoint⟩
          rw [List.nil_append, readNumber, noDigit, if_neg Bool.false_ne_true,
            if_neg (fun both => noPoint both.1)]
          rfl
  | cons c rest inductionHypothesis =>
      rw [List.cons_append, readNumber, if_pos (digits c List.mem_cons_self),
        inductionHypothesis (fun d member => digits d (List.mem_cons_of_mem c member))]
      rfl

/-- Digits, a point and more digits. -/
theorem readNumber_decimal {whole fraction behind : List Located} {point : Located}
    (digits : forall c, c ∈ whole -> c.char.isDigit = true) (isPoint : point.char = '.')
    (nonempty : fraction ≠ []) (more : forall c, c ∈ fraction -> c.char.isDigit = true)
    (stops : forall c, behind.head? = some c -> c.char.isDigit = false ∧ c.char ≠ '.') :
    readNumber false (whole ++ point :: (fraction ++ behind)) =
      (whole.map Located.char ++ '.' :: fraction.map Located.char, true, behind) := by
  induction whole with
  | nil =>
      have goesOn : startsWithDigit (fraction ++ behind) = true := by
        rcases List.exists_cons_of_ne_nil nonempty with ⟨c, later, rfl⟩
        rw [List.cons_append, startsWithDigit, peek]
        exact more c List.mem_cons_self
      have noDigit : point.char.isDigit = false := by
        rw [isPoint]
        decide
      rw [List.nil_append, readNumber, noDigit, if_neg Bool.false_ne_true,
        if_pos ⟨isPoint, rfl, goesOn⟩, readNumber_fraction more stops, isPoint]
      rfl
  | cons c rest inductionHypothesis =>
      rw [List.cons_append, readNumber, if_pos (digits c List.mem_cons_self),
        inductionHypothesis (fun d member => digits d (List.mem_cons_of_mem c member))]
      rfl

/-- A number with or without a sign, by what the reader of numbers makes of its digits. -/
theorem scans_signed {negative : Bool} {digits : List Char} {kind : TokenKind}
    (starts : Exists fun c => digits.head? = some c ∧ c.isDigit = true)
    (read : forall {span : Span} {chars behind : List Located}, chars.map Located.char = digits ->
      behind.map Located.char = rest ->
        scanNumber span negative (chars ++ behind) = .ok (kind, behind)) :
    Scans T (sign negative ++ digits) (some kind) rest := by
  intro chars behind same restChars
  rcases starts with ⟨c, head, digit⟩
  cases digits with
  | nil => cases head
  | cons c' digits =>
      cases head
      cases negative with
      | false =>
          rw [sign, if_neg Bool.false_ne_true, List.nil_append] at same
          rcases List.map_eq_cons_iff.mp same with ⟨first, tail, rfl, isFirst, _⟩
          rw [← isFirst] at digit
          have noQuote : ¬(first.char = '"' ∨ first.char = '\'') :=
            not_or.mpr ⟨digit_ne digit (by decide), digit_ne digit (by decide)⟩
          refine ⟨first, tail, rfl, ?_⟩
          rw [scan, not_whitespace_of_digit digit, if_neg Bool.false_ne_true,
            startsComment_of_ne (digit_ne digit (by decide)) (digit_ne digit (by decide)),
            if_neg Bool.false_ne_true, scanToken, if_neg noQuote, if_pos digit,
            ← List.cons_append, read same restChars]
          rfl
      | true =>
          rw [sign, if_pos rfl, List.singleton_append] at same
          rcases List.map_eq_cons_iff.mp same with ⟨first, tail, rfl, minus, tailChars⟩
          rcases List.map_eq_cons_iff.mp tailChars with ⟨second, others, rfl, isSecond, _⟩
          rw [← isSecond] at digit
          have noMinus : second.char ≠ '-' := digit_ne digit (by decide)
          have single : startsComment first ((second :: others) ++ behind) = false := by
            rw [startsComment, minus]
            simp [peek, noMinus]
          have goesOn : startsWithDigit ((second :: others) ++ behind) = true := by
            rw [startsWithDigit, List.cons_append, peek]
            exact digit
          refine ⟨first, second :: others, rfl, ?_⟩
          rw [scan, single, if_neg Bool.false_ne_true, scanToken, goesOn, minus,
            read tailChars restChars]
          rfl

theorem AllDigits.head {digits : List Char} (allDigits : AllDigits digits) (more : List Char) :
    Exists fun c => (digits ++ more).head? = some c ∧ c.isDigit = true := by
  rcases List.exists_cons_of_ne_nil allDigits.1 with ⟨c, later, rfl⟩
  exact ⟨c, rfl, allDigits.2 c List.mem_cons_self⟩

/-! ### Strings and symbols -/

theorem scans_string {quote : Char} {body content : List Char}
    (isQuote : quote = '"' ∨ quote = '\'') (closed : StringBody quote body content) :
    Scans T (quote :: body ++ [quote]) (some (.stringLit (String.ofList content))) rest := by
  intro chars behind same _
  rw [List.cons_append] at same
  rcases List.map_eq_cons_iff.mp same with ⟨first, others, rfl, opens, same⟩
  rcases List.map_eq_append_iff.mp same with ⟨front, last, rfl, isBody, isLast⟩
  rcases List.map_eq_singleton_iff.mp isLast with ⟨closing, rfl, closes⟩
  have noEscape : quote ≠ '\\' := by
    rcases isQuote with rfl | rfl <;> decide
  rw [← isBody] at closed
  refine ⟨first, front ++ [closing], rfl, ?_⟩
  rw [List.append_assoc, List.singleton_append]
  exact scan_at_quote isQuote opens (readString_of_body closed closes noEscape behind)

section Doubled

variable {second : Char} {both single : TokenKind} {behind : List Located}

theorem doubled_twice {first : Located} (same : first.char = second) :
    doubled second both single (first :: behind) = (both, behind) := by
  rw [doubled, peek, List.head?_cons, Option.map_some, same, if_pos rfl, List.tail_cons]

theorem doubledOnly_twice {first : Located} {message : String} {span : Span}
    (same : first.char = second) :
    doubledOnly second both message span (first :: behind) = .ok (both, behind) := by
  rw [doubledOnly, peek, List.head?_cons, Option.map_some, same, if_pos rfl, List.tail_cons]

theorem doubled_once (parted : Parted (behind.map Located.char)) (other : second ∉ separators) :
    doubled second both single behind = (single, behind) := by
  refine if_neg ?_
  intro head
  rw [peek, ← List.head?_map] at head
  exact other (parted second head)

end Doubled

/-- A symbol of two characters. -/
theorem scans_twice {c d : Char} {kind : TokenKind} (symbol : isSymbol c = true)
    (plain : c ≠ '-' ∧ c ≠ '/')
    (read : forall {span : Span} {first : Located} {behind : List Located}, first.char = d ->
      scanSymbol span c (first :: behind) = .ok (kind, behind)) :
    Scans T [c, d] (some kind) rest := by
  refine scans_symbol symbol (Lone.of_ne plain.1 plain.2) ?_
  intro span tail behind same _
  rcases List.map_eq_singleton_iff.mp same with ⟨first, rfl, isSecond⟩
  exact read isSecond

/-- A symbol of one character in front of a separator or the end. -/
theorem scans_once {c : Char} {kind : TokenKind} (symbol : isSymbol c = true)
    (parted : Parted rest)
    (read : forall {span : Span} {behind : List Located}, Parted (behind.map Located.char) ->
      scanSymbol span c behind = .ok (kind, behind)) :
    Scans T [c] (some kind) rest := by
  refine scans_symbol symbol (parted.lone c) ?_
  intro span tail behind same restChars
  rw [List.map_eq_nil_iff.mp same, List.nil_append]
  rw [← restChars] at parted
  exact read parted

theorem scans_spelt {text : List Char} {kind : TokenKind} (spelt : (text, kind) ∈ symbols)
    (parted : Parted rest) : Scans T text (some kind) rest := by
  have twice : forall {c : Char} {both single : TokenKind}, isSymbol c = true ->
      c ≠ '-' ∧ c ≠ '/' ->
      (forall span behind, scanSymbol span c behind = .ok (doubled '=' both single behind)) ->
        Scans T [c, '='] (some both) rest := by
    intro c both single symbol plain read
    exact scans_twice symbol plain fun same => by rw [read, doubled_twice same]
  have once : forall {c : Char} {both single : TokenKind}, isSymbol c = true ->
      (forall span behind, scanSymbol span c behind = .ok (doubled '=' both single behind)) ->
        Scans T [c] (some single) rest := by
    intro c both single symbol read
    exact scans_once symbol parted fun parted => by rw [read, doubled_once parted (by decide)]
  have alone : forall {c : Char} {kind : TokenKind}, isSymbol c = true ->
      (forall span behind, scanSymbol span c behind = .ok (kind, behind)) ->
        Scans T [c] (some kind) rest :=
    fun symbol read => scans_once symbol parted fun _ => read _ _
  simp only [symbols, List.mem_cons, Prod.mk.injEq, List.not_mem_nil, or_false] at spelt
  rcases spelt with ⟨rfl, rfl⟩ | ⟨rfl, rfl⟩ | ⟨rfl, rfl⟩ | ⟨rfl, rfl⟩ | ⟨rfl, rfl⟩ | ⟨rfl, rfl⟩ |
    ⟨rfl, rfl⟩ | ⟨rfl, rfl⟩ | ⟨rfl, rfl⟩ | ⟨rfl, rfl⟩ | spelt
  · exact twice (by decide) (by decide) fun _ _ => rfl
  · exact once (by decide) fun _ _ => rfl
  · exact twice (by decide) (by decide) fun _ _ => rfl
  · exact once (by decide) fun _ _ => rfl
  · exact twice (by decide) (by decide) fun _ _ => rfl
  · exact once (by decide) fun _ _ => rfl
  · exact twice (by decide) (by decide) fun _ _ => rfl
  · exact once (by decide) fun _ _ => rfl
  · exact scans_twice (by decide) (by decide) fun same => doubledOnly_twice same
  · exact scans_twice (by decide) (by decide) fun same => doubledOnly_twice same
  · rcases spelt with ⟨rfl, rfl⟩ | ⟨rfl, rfl⟩ | ⟨rfl, rfl⟩ | ⟨rfl, rfl⟩ | ⟨rfl, rfl⟩ |
      ⟨rfl, rfl⟩ | ⟨rfl, rfl⟩ | ⟨rfl, rfl⟩ | ⟨rfl, rfl⟩ | ⟨rfl, rfl⟩ | ⟨rfl, rfl⟩ | ⟨rfl, rfl⟩ |
      ⟨rfl, rfl⟩ | ⟨rfl, rfl⟩
    all_goals exact alone (by decide) fun _ _ => rfl

/-- The lexer takes a lexeme off the text in front of a separator or the end. -/
theorem scans_lexeme {text : List Char} {kind : TokenKind} (lexeme : Lexeme T kind text)
    (parted : Parted rest) : Scans T text (some kind) rest := by
  cases lexeme with
  | word starts word => exact scans_letters starts word fun c head => parted.word head
  | string isQuote closed => exact scans_string isQuote closed
  | @integer negative digits number allDigits value =>
      have starts := allDigits.head []
      rw [List.append_nil] at starts
      refine scans_signed starts ?_
      intro span chars behind same restChars
      rw [scanNumber, readNumber_digits (locatedDigits same allDigits.2)
        (NumberStops.located parted.number restChars)]
      simp only [Bool.false_eq_true, if_false, same, value]
  | @decimal negative whole fraction wholeDigits fractionDigits =>
      refine scans_signed (wholeDigits.head _) ?_
      intro span chars behind same restChars
      rcases List.map_eq_append_iff.mp same with ⟨first, others, rfl, isWhole, same⟩
      rcases List.map_eq_cons_iff.mp same with ⟨point, last, rfl, isPoint, isFraction⟩
      have nonempty : last ≠ [] := by
        rintro rfl
        exact fractionDigits.1 isFraction.symm
      rw [scanNumber, List.append_assoc, List.cons_append,
        readNumber_decimal (locatedDigits isWhole wholeDigits.2) isPoint nonempty
          (locatedDigits isFraction fractionDigits.2)
          (NumberStops.located parted.number restChars), isWhole, isFraction]
      rfl
  | symbol spelt => exact scans_spelt spelt parted

/-! ## Layouts are read back -/

theorem cut_layout {kinds : List TokenKind} {text : List Char} (layout : Layout T kinds text) :
    Cut T text kinds := by
  induction layout with
  | @last gap isGap =>
      have cut : Cut T (gap ++ []) [] := cut_gap isGap .nil
      rw [List.append_nil] at cut
      exact cut
  | token isGap lexeme parted _ inductionHypothesis =>
      exact cut_gap isGap (.token (scans_lexeme lexeme parted) inductionHypothesis)

/-- Tokens that can be spelt can be laid out, with one blank in front of each. -/
theorem layout_exists {kinds : List TokenKind}
    (spelt : forall kind, kind ∈ kinds -> Exists fun text => Lexeme T kind text) :
    Exists fun text => Layout T kinds text ∧ Parted text := by
  induction kinds with
  | nil => exact ⟨[], .last .nil, Parted.nil⟩
  | cons kind kinds inductionHypothesis =>
      rw [List.forall_mem_cons] at spelt
      rcases spelt.1 with ⟨lexeme, isLexeme⟩
      rcases inductionHypothesis spelt.2 with ⟨rest, layout, parted⟩
      have blank : isWhitespace ' ' = true := by decide
      exact ⟨_, .token (.blank blank .nil) isLexeme parted layout, Parted.cons (by decide)⟩

end Rounds

/-! ## The tokens that can be spelt -/

/-- The floats and the names that have a lexeme. -/
def vocabulary : Vocabulary where
  floats number := Exists fun text => Lexeme T (.float number) text
  names name := Exists fun text => Lexeme T (.identifier name) text

section Words

variable {T}

theorem wordKind_name {word : List Char} {name : String}
    (isName : wordKind word = .identifier name) : name = String.ofList word := by
  have nameless : forall entry, entry ∈ keywords -> entry.2.name = none := by decide
  unfold wordKind at isName
  split at isName
  · rename_i keyword known
    rcases List.lookup_eq_some_iff.mp known with ⟨front, behind, splits, _⟩
    have clear := nameless (toAsciiUppercase word, keyword) (by rw [splits]; simp)
    rw [isName] at clear
    cases clear
  · cases isName
    rfl

theorem dotless_of_lexeme {kind : TokenKind} {name : String} {text : List Char}
    (lexeme : Lexeme T kind text) (isName : kind = .identifier name) : '.' ∉ name.toList := by
  cases lexeme with
  | @word letter letters starts word =>
      have noDot : (T.isAlphanumeric '.' || '.' == '_') = false :=
        wordEnds (by decide) (by decide) (by decide)
      rw [wordKind_name isName, String.toList_ofList]
      intro member
      rcases List.mem_cons.mp member with same | later
      · have isWord := wordChar_of_start starts
        rw [← same, noDot] at isWord
        cases isWord
      · have isWord := word '.' later
        rw [noDot] at isWord
        cases isWord
  | symbol spelt =>
      have nameless : forall entry, entry ∈ symbols -> entry.2.name = none := by decide
      have clear := nameless _ spelt
      rw [isName] at clear
      cases clear
  | string | integer | decimal => cases isName

theorem dotless_vocabulary : (vocabulary T).Dotless := by
  rintro name ⟨text, lexeme⟩
  exact dotless_of_lexeme lexeme rfl

theorem has_of_lexeme {kind : TokenKind} {text : List Char} (lexeme : Lexeme T kind text) :
    (vocabulary T).Has kind := by
  cases kind with
  | float number => exact ⟨text, lexeme⟩
  | identifier name => exact ⟨text, lexeme⟩
  | eof => exact absurd rfl lexeme.ne_eof
  | _ => exact trivial

theorem spelt_keyword {kind : TokenKind} (member : kind ∈ keywords.map Prod.snd) :
    Exists fun text => Lexeme T kind text := by
  have table : keywords.all (fun entry => decide (wordKind entry.1.toList = entry.2) &&
      decide (entry.1.toList ≠ []) &&
        entry.1.toList.all (fun c => decide (c.toNat < 128) && c.isAlpha)) = true := by
    decide
  rcases List.mem_map.mp member with ⟨⟨word, keyword⟩, isEntry, rfl⟩
  have each := List.all_eq_true.mp table _ isEntry
  rw [Bool.and_eq_true, Bool.and_eq_true, decide_eq_true_iff, decide_eq_true_iff,
    List.all_eq_true] at each
  rcases each with ⟨⟨isKind, nonempty⟩, letterwise⟩
  rcases List.exists_cons_of_ne_nil nonempty with ⟨letter, letters, isWord⟩
  rw [isWord] at isKind letterwise
  have alphabetic : forall c, c ∈ letter :: letters -> T.isAlphabetic c = true := by
    intro c inWord
    have both := letterwise c inWord
    rw [Bool.and_eq_true, decide_eq_true_iff] at both
    rw [T.alphabetic_ascii c both.1, both.2]
  have lexeme : Lexeme T (wordKind (letter :: letters)) (letter :: letters) := by
    refine .word ?_ fun c inWord => ?_
    · rw [alphabetic letter List.mem_cons_self, Bool.true_or]
    · rw [TextTables.isAlphanumeric, alphabetic c (List.mem_cons_of_mem letter inWord),
        Bool.true_or, Bool.true_or]
  rw [isKind] at lexeme
  exact ⟨_, lexeme⟩

theorem spelt_symbol {kind : TokenKind} (member : kind ∈ symbols.map Prod.snd) :
    Exists fun text => Lexeme T kind text := by
  rcases List.mem_map.mp member with ⟨entry, isEntry, rfl⟩
  exact ⟨entry.1, .symbol isEntry⟩

theorem spelt_int (number : Int64) : Exists fun text => Lexeme T (.int number) text := by
  have least := number.le_toInt
  have most := number.toInt_lt
  have itself : Int64.ofInt number.toInt = number := Int64.ofInt_toInt number
  have digits : AllDigits (Nat.toDigits 10 number.toInt.natAbs) :=
    ⟨Nat.toDigits_ne_nil, fun c => Nat.isDigit_of_mem_toDigits (by decide) (by decide)⟩
  by_cases below : number.toInt < 0
  · have small : Fits true number.toInt.natAbs := by
      change number.toInt.natAbs ≤ _
      omega
    have value := parseI64_toDigits small
    rw [if_pos rfl, show -(number.toInt.natAbs : Int) = number.toInt by omega, itself] at value
    exact ⟨_, .integer digits value⟩
  · have small : Fits false number.toInt.natAbs := by
      change number.toInt.natAbs < _
      omega
    have value := parseI64_toDigits small
    rw [if_neg Bool.false_ne_true, show (number.toInt.natAbs : Int) = number.toInt by omega,
      itself] at value
    exact ⟨_, .integer digits value⟩

theorem spelt_string (text : String) : Exists fun body => Lexeme T (.stringLit text) body := by
  have isQuote : '"' = '"' ∨ '"' = '\'' := Or.inl rfl
  have lexeme : Lexeme T (.stringLit (String.ofList text.toList)) _ :=
    .string isQuote (stringBody_escapeFor isQuote text.toList)
  rw [String.ofList_toList] at lexeme
  exact ⟨_, lexeme⟩

/-- Every token of the vocabulary has a lexeme. -/
theorem spelt_of_has {kind : TokenKind} (has : (vocabulary T).Has kind) :
    Exists fun text => Lexeme T kind text := by
  cases kind with
  | int number => exact spelt_int number
  | float number => exact has
  | stringLit text => exact spelt_string text
  | identifier name => exact has
  | eof => exact has.elim
  | eqEq | eq | bangEq | gt | gtEq | lt | ltEq | ampAmp | pipePipe | bang | plus | minus | star
  | slash | percent | lParen | rParen | lBrace | rBrace | lBracket | rBracket | comma | colon
  | dot => exact spelt_symbol (by decide)
  | _ => exact spelt_keyword (by decide)

/-! ## The tokens of any text -/

theorem lexeme_of_scan {first : Located} {rest left : List Located} {kind : TokenKind}
    (scanned : scan T first rest = .ok (some kind, left)) :
    Exists fun text => Lexeme T kind text := by
  rcases piece_of_scan scanned with ⟨_, piece, _, _, isRead, legal⟩
  cases piece with
  | blank | comment => cases isRead
  | lexeme other text =>
      cases isRead
      exact ⟨text, legal⟩

/-- What a run of rounds adds are tokens of the vocabulary and the end marker. -/
theorem hasAll_of_tokenizeLoop {finish : Span} {fuel : Nat} {rest : List Located}
    {before tokens : List Token} {final : Lexer}
    (done : tokenizeLoop T finish fuel rest before = .ok tokens final) :
    Exists fun kinds => tokens.map Token.kind = before.map Token.kind ++ kinds ++ [.eof] ∧
      (vocabulary T).HasAll kinds := by
  induction fuel generalizing rest before with
  | zero =>
      cases rest with
      | nil =>
          rw [tokenizeLoop] at done
          cases done
          exact ⟨[], by simp, hasAll_nil⟩
      | cons first rest => cases done
  | succ fuel inductionHypothesis =>
      cases rest with
      | nil =>
          rw [tokenizeLoop] at done
          cases done
          exact ⟨[], by simp, hasAll_nil⟩
      | cons first rest =>
          rw [tokenizeLoop] at done
          split at done
          · cases done
          · exact inductionHypothesis done
          · rename_i kind left scanned
            rcases lexeme_of_scan scanned with ⟨text, lexeme⟩
            rcases inductionHypothesis done with ⟨kinds, isKinds, hasAll⟩
            refine ⟨kind :: kinds, ?_, hasAll_cons.mpr ⟨has_of_lexeme lexeme, hasAll⟩⟩
            rw [isKinds]
            simp

end Words

end Lexer
end Query
end NovaDb
