import NovaDb.Query.Lexer

namespace NovaDb
namespace Query
namespace Lexer

open Core Foundation

/-!
# Texts cut into lexemes

A text that is cut into pieces, each of which one round of the lexer takes in
front of the rest, lexes to the tokens of the pieces.  What a piece needs to know
of the rest is its first character, and for each kind of piece the lemma says
which characters may not follow.
-/

variable (T : TextTables)

/-- One round takes the text in front of the rest, wherever it stands. -/
def Scans (text : List Char) (read : Option TokenKind) (rest : List Char) : Prop :=
  forall chars behind : List Located, chars.map Located.char = text ->
    behind.map Located.char = rest ->
      Exists fun first => Exists fun tail =>
        chars = first :: tail ∧ scan T first (tail ++ behind) = .ok (read, behind)

/-- A text cut into pieces, and the kinds of its tokens. -/
inductive Cut : List Char -> List TokenKind -> Prop where
  | nil : Cut [] []
  | trivia {text rest : List Char} {kinds : List TokenKind} (scans : Scans T text none rest)
      (behind : Cut rest kinds) : Cut (text ++ rest) kinds
  | token {text rest : List Char} {kind : TokenKind} {kinds : List TokenKind}
      (scans : Scans T text (some kind) rest) (behind : Cut rest kinds) :
      Cut (text ++ rest) (kind :: kinds)

/-- The rounds from one text to the rest behind its front, with the kinds of the
tokens in between. -/
inductive Advances : List Char -> List TokenKind -> List Char -> Prop where
  | stay {text : List Char} : Advances text [] text
  | trivia {text rest left : List Char} {kinds : List TokenKind} (scans : Scans T text none rest)
      (behind : Advances rest kinds left) : Advances (text ++ rest) kinds left
  | token {text rest left : List Char} {kind : TokenKind} {kinds : List TokenKind}
      (scans : Scans T text (some kind) rest) (behind : Advances rest kinds left) :
      Advances (text ++ rest) (kind :: kinds) left

theorem Advances.trans {T : TextTables} {text middle left : List Char} {kinds more : List TokenKind}
    (first : Advances T text kinds middle) (second : Advances T middle more left) :
    Advances T text (kinds ++ more) left := by
  induction first with
  | stay => exact second
  | trivia scans behind inductionHypothesis => exact .trivia scans (inductionHypothesis second)
  | token scans behind inductionHypothesis => exact .token scans (inductionHypothesis second)

theorem Cut.advances {text : List Char} {kinds : List TokenKind} (cut : Cut T text kinds) :
    Advances T text kinds [] := by
  induction cut with
  | nil => exact .stay
  | trivia scans behind inductionHypothesis => exact .trivia scans inductionHypothesis
  | token scans behind inductionHypothesis => exact .token scans inductionHypothesis

theorem tokenizeLoop_of_advances {text left : List Char} {kinds : List TokenKind}
    (advances : Advances T text kinds left) (finish : Span) {chars : List Located}
    (same : chars.map Located.char = text) {fuel : Nat} (enough : chars.length ≤ fuel)
    (before : List Token) :
    Exists fun behind => Exists fun remaining => Exists fun tokens =>
      behind.map Located.char = left ∧ behind.length ≤ remaining ∧
        tokens.map Token.kind = kinds ∧
          tokenizeLoop T finish fuel chars before =
            tokenizeLoop T finish remaining behind (before ++ tokens) := by
  induction advances generalizing chars fuel before with
  | stay => exact ⟨chars, fuel, [], same, enough, rfl, by rw [List.append_nil]⟩
  | trivia scans behind inductionHypothesis =>
      rcases List.map_eq_append_iff.mp same with ⟨piece, rest, rfl, pieceChars, restChars⟩
      rcases scans _ _ pieceChars restChars with ⟨first, tail, rfl, scanned⟩
      rw [List.cons_append, List.length_cons, List.length_append] at enough
      cases fuel with
      | zero => exact absurd enough (Nat.not_succ_le_zero _)
      | succ fuel =>
          rw [List.cons_append, tokenizeLoop, scanned]
          exact inductionHypothesis restChars (by omega) before
  | @token piece rest left kind kinds scans behind inductionHypothesis =>
      rcases List.map_eq_append_iff.mp same with ⟨piece, rest, rfl, pieceChars, restChars⟩
      rcases scans _ _ pieceChars restChars with ⟨first, tail, rfl, scanned⟩
      rw [List.cons_append, List.length_cons, List.length_append] at enough
      cases fuel with
      | zero => exact absurd enough (Nat.not_succ_le_zero _)
      | succ fuel =>
          rw [List.cons_append, tokenizeLoop, scanned]
          have fits : rest.length ≤ fuel := by omega
          rcases inductionHypothesis restChars fits (before ++ [⟨kind, first.span⟩]) with
            ⟨last, remaining, tokens, lastChars, enoughLeft, named, done⟩
          refine ⟨last, remaining, ⟨kind, first.span⟩ :: tokens, lastChars, enoughLeft, ?_, ?_⟩
          · rw [List.map_cons, named]
          · change tokenizeLoop T finish fuel rest (before ++ [⟨kind, first.span⟩]) = _
            rw [done, List.append_assoc, List.singleton_append]

/-- Each token of a run was read in one round, at some place of the text, except the one
for the end. -/
theorem tokenizeLoop_scanned {T : TextTables} {finish : Span} {fuel : Nat} {rest : List Located}
    {before tokens : List Token} {final : Lexer}
    (done : tokenizeLoop T finish fuel rest before = .ok tokens final) :
    Exists fun more => tokens = before ++ more ∧ forall token, token ∈ more ->
      token.kind = .eof ∨ Exists fun first => Exists fun tail => Exists fun left =>
        (first :: tail) <:+ rest ∧ scan T first tail = .ok (some token.kind, left) := by
  induction fuel generalizing rest before with
  | zero =>
      cases rest with
      | nil =>
          rw [tokenizeLoop] at done
          cases done
          exact ⟨[⟨.eof, finish⟩], rfl, fun token member =>
            Or.inl (congrArg Token.kind (List.mem_singleton.mp member))⟩
      | cons first rest => cases done
  | succ fuel inductionHypothesis =>
      cases rest with
      | nil =>
          rw [tokenizeLoop] at done
          cases done
          exact ⟨[⟨.eof, finish⟩], rfl, fun token member =>
            Or.inl (congrArg Token.kind (List.mem_singleton.mp member))⟩
      | cons first rest =>
          rw [tokenizeLoop] at done
          cases scanned : scan T first rest with
          | error failure =>
              rw [scanned] at done
              cases done
          | ok round =>
              rcases round with ⟨read, left⟩
              have suffix := (scan_suffix T scanned).trans (List.suffix_cons first rest)
              have later : forall {sofar : List Token},
                  tokenizeLoop T finish fuel left sofar = .ok tokens final ->
                  Exists fun more => tokens = sofar ++ more ∧ forall token, token ∈ more ->
                    token.kind = .eof ∨ Exists fun head => Exists fun tail => Exists fun behind =>
                      (head :: tail) <:+ first :: rest ∧
                        scan T head tail = .ok (some token.kind, behind) := by
                intro sofar doneLater
                rcases inductionHypothesis doneLater with ⟨more, splits, each⟩
                refine ⟨more, splits, ?_⟩
                intro token member
                rcases each token member with isEnd | ⟨head, tail, behind, within, read⟩
                · exact Or.inl isEnd
                · exact Or.inr ⟨head, tail, behind, within.trans suffix, read⟩
              rw [scanned] at done
              cases read with
              | none => exact later done
              | some kind =>
                  rcases later done with ⟨more, splits, each⟩
                  refine ⟨⟨kind, first.span⟩ :: more, by rw [splits, List.append_assoc]; rfl, ?_⟩
                  intro token member
                  rcases List.mem_cons.mp member with rfl | behind
                  · exact Or.inr ⟨first, rest, left, List.suffix_refl _, scanned⟩
                  · exact each token behind

theorem map_locate (line column : Nat) (text : List Char) :
    (locate line column text).map Located.char = text := by
  induction text generalizing line column with
  | nil => rfl
  | cons c rest inductionHypothesis =>
      rw [locate, List.map_cons]
      split
      · rw [inductionHypothesis]
      · rw [inductionHypothesis]

theorem chars_new (query : String) : (Lexer.new query).rest.map Located.char = query.toList := by
  have rest : (Lexer.new query).rest = locate 1 1 query.toList := by
    rw [Lexer.new]
    split
    · rfl
    · rfl
  rw [rest, map_locate]

/-- A text whose rounds reach its end is lexed to the tokens read on the way. -/
theorem tokenize_of_advances {query : String} {kinds : List TokenKind}
    (advances : Advances T query.toList kinds []) :
    Exists fun tokens => Exists fun final =>
      tokenize T (Lexer.new query) = .ok tokens final ∧
        tokens.map Token.kind = kinds ++ [.eof] := by
  rcases tokenizeLoop_of_advances T advances (Lexer.new query).finish (chars_new query)
    (Nat.le_refl _) [] with ⟨behind, remaining, tokens, ended, _, named, done⟩
  rw [List.map_eq_nil_iff.mp ended] at done
  refine ⟨_, _, by rw [tokenize, done, tokenizeLoop], ?_⟩
  rw [List.nil_append, List.map_append, named]
  rfl

/-- A text that can be cut is lexed to the tokens of its pieces. -/
theorem tokenize_of_cut {query : String} {kinds : List TokenKind} (cut : Cut T query.toList kinds) :
    Exists fun tokens => Exists fun final =>
      tokenize T (Lexer.new query) = .ok tokens final ∧
        tokens.map Token.kind = kinds ++ [.eof] :=
  tokenize_of_advances T cut.advances

/-! ## Blanks -/

theorem scans_blank (rest : List Char) : Scans T [' '] none rest := by
  intro chars behind same _
  rcases List.map_eq_singleton_iff.mp same with ⟨first, rfl, blank⟩
  refine ⟨first, [], rfl, ?_⟩
  rw [scan, blank, if_pos (by decide), List.nil_append]

/-! ## Words -/

/-- A name that is no keyword. -/
structure Identifier where
  first : Char
  rest : List Char
  starts : (T.isAlphabetic first || first == '_') = true
  continues : forall c, c ∈ rest -> (T.isAlphanumeric c || c == '_') = true
  plain : keywords.lookup (toAsciiUppercase (first :: rest)) = none

def Identifier.text {T : TextTables} (name : Identifier T) : List Char :=
  name.first :: name.rest

def Identifier.asString {T : TextTables} (name : Identifier T) : String :=
  String.ofList name.text

variable {T}

/-- A name starts with none of the ASCII characters that are no letters. -/
theorem wordStart_ne {c other : Char} (starts : (T.isAlphabetic c || c == '_') = true)
    (ascii : other.toNat < 128) (noLetter : other.isAlpha = false) (noUnderscore : other ≠ '_') :
    c ≠ other := by
  rintro rfl
  rw [T.alphabetic_ascii c ascii, noLetter, Bool.false_or] at starts
  exact noUnderscore (beq_iff_eq.mp starts)

theorem digit_range {c : Char} (digit : c.isDigit = true) : 48 ≤ c.toNat ∧ c.toNat ≤ 57 := by
  simpa [Char.isDigit, UInt32.le_iff_toNat_le] using digit

theorem not_letter_of_digit {c : Char} (digit : c.isDigit = true) : c.isAlpha = false := by
  have range := digit_range digit
  cases letter : c.isAlpha with
  | false => rfl
  | true =>
      have other := letter_range letter
      omega

theorem wordStart_not_digit {c : Char} (starts : (T.isAlphabetic c || c == '_') = true) :
    c.isDigit = false := by
  cases digit : c.isDigit with
  | false => rfl
  | true =>
      have range := digit_range digit
      have noUnderscore : c ≠ '_' := by
        rintro rfl
        nomatch digit
      exact absurd rfl (wordStart_ne starts (by omega) (not_letter_of_digit digit) noUnderscore)

theorem wordStart_not_whitespace {c : Char} (starts : (T.isAlphabetic c || c == '_') = true) :
    isWhitespace c = false := by
  cases letter : T.isAlphabetic c with
  | true => exact T.alphabetic_not_whitespace c letter
  | false =>
      rw [letter, Bool.false_or] at starts
      rw [beq_iff_eq.mp starts]
      decide

theorem wordChar_of_start {c : Char} (starts : (T.isAlphabetic c || c == '_') = true) :
    (T.isAlphanumeric c || c == '_') = true := by
  rw [TextTables.isAlphanumeric]
  revert starts
  cases T.isAlphabetic c <;> cases T.isNumeric c <;> simp

/-- A character that neither starts a comment with the next one nor a string nor
a number. -/
theorem startsComment_of_ne {first : Located} {rest : List Located} (noMinus : first.char ≠ '-')
    (noSlash : first.char ≠ '/') : startsComment first rest = false := by
  rw [startsComment, beq_eq_false_iff_ne.mpr noMinus, beq_eq_false_iff_ne.mpr noSlash]
  rfl

theorem scan_word {first : Located} {rest : List Located}
    (starts : (T.isAlphabetic first.char || first.char == '_') = true) :
    scan T first rest =
      .ok (some (wordKind (((first :: rest).takeWhile (isWordChar T)).map Located.char)),
        (first :: rest).dropWhile (isWordChar T)) := by
  have noMinus : first.char ≠ '-' := wordStart_ne starts (by decide) (by decide) (by decide)
  have noSlash : first.char ≠ '/' := wordStart_ne starts (by decide) (by decide) (by decide)
  have noQuote : first.char ≠ '"' := wordStart_ne starts (by decide) (by decide) (by decide)
  have noApostrophe : first.char ≠ '\'' :=
    wordStart_ne starts (by decide) (by decide) (by decide)
  rw [scan, wordStart_not_whitespace starts, if_neg Bool.false_ne_true,
    startsComment_of_ne noMinus noSlash, if_neg Bool.false_ne_true, scanToken,
    if_neg (not_or.mpr ⟨noQuote, noApostrophe⟩), wordStart_not_digit starts,
    if_neg Bool.false_ne_true, if_neg (fun both => noMinus both.1), if_pos starts]
  rfl

/-- A word in front of a character that does not continue it. -/
theorem scans_letters {letter : Char} {letters rest : List Char}
    (starts : (T.isAlphabetic letter || letter == '_') = true)
    (continues : forall c, c ∈ letters -> (T.isAlphanumeric c || c == '_') = true)
    (stops : forall c, rest.head? = some c -> (T.isAlphanumeric c || c == '_') = false) :
    Scans T (letter :: letters) (some (wordKind (letter :: letters))) rest := by
  intro chars behind same restChars
  rcases List.map_eq_cons_iff.mp same with ⟨first, tail, rfl, firstChar, tailChars⟩
  refine ⟨first, tail, rfl, ?_⟩
  rw [← firstChar] at starts
  have inside : forall c, c ∈ first :: tail -> isWordChar T c = true := by
    intro c member
    rcases List.mem_cons.mp member with rfl | later
    · exact wordChar_of_start starts
    · refine continues c.char ?_
      rw [← tailChars]
      exact List.mem_map_of_mem later
  have outside : forall c, behind.head? = some c -> isWordChar T c = false := by
    intro c head
    refine stops c.char ?_
    rw [← restChars, List.head?_map, head]
    rfl
  have taken : behind.takeWhile (isWordChar T) = [] ∧ behind.dropWhile (isWordChar T) = behind := by
    cases behind with
    | nil => exact ⟨rfl, rfl⟩
    | cons c later =>
        have stopped := outside c rfl
        exact ⟨List.takeWhile_cons_of_neg (by rw [stopped]; exact Bool.false_ne_true),
          List.dropWhile_cons_of_neg (by rw [stopped]; exact Bool.false_ne_true)⟩
  rw [scan_word starts, ← List.cons_append, List.takeWhile_append_of_pos inside,
    List.dropWhile_append_of_pos inside, taken.1, taken.2, List.append_nil, same]

theorem scans_word (name : Identifier T) {rest : List Char}
    (stops : forall c, rest.head? = some c -> (T.isAlphanumeric c || c == '_') = false) :
    Scans T name.text (some (.identifier name.asString)) rest := by
  have scans := scans_letters name.starts name.continues stops
  rw [wordKind, name.plain] at scans
  exact scans

/-- No word goes on with an ASCII character that is neither a letter, a digit nor
an underscore. -/
theorem wordEnds {c : Char} (ascii : c.toNat < 128) (plain : c.isAlphanum = false)
    (noUnderscore : c ≠ '_') : (T.isAlphanumeric c || c == '_') = false := by
  rw [TextTables.isAlphanumeric, T.alphabetic_ascii c ascii, T.numeric_ascii c ascii,
    beq_eq_false_iff_ne.mpr noUnderscore, Bool.or_false]
  exact plain

/-- An ASCII word in front of a character that does not continue it. -/
theorem scans_ascii {letter : Char} {letters rest : List Char}
    (letterwise : (letter :: letters).all (fun c => decide (c.toNat < 128) && c.isAlpha) = true)
    (stops : forall c, rest.head? = some c -> (T.isAlphanumeric c || c == '_') = false) :
    Scans T (letter :: letters) (some (wordKind (letter :: letters))) rest := by
  have alphabetic : forall c, c ∈ letter :: letters -> T.isAlphabetic c = true := by
    intro c member
    have both := List.all_eq_true.mp letterwise c member
    rw [Bool.and_eq_true, decide_eq_true_iff] at both
    rw [T.alphabetic_ascii c both.1, both.2]
  refine scans_letters ?_ ?_ stops
  · rw [alphabetic letter List.mem_cons_self, Bool.true_or]
  · intro c member
    rw [TextTables.isAlphanumeric, alphabetic c (List.mem_cons_of_mem letter member),
      Bool.true_or, Bool.true_or]

/-! ## Numbers -/

theorem readNumber_digits {digits behind : List Located}
    (all : forall c, c ∈ digits -> c.char.isDigit = true)
    (stops : forall c, behind.head? = some c -> c.char.isDigit = false ∧ c.char ≠ '.') :
    readNumber false (digits ++ behind) = (digits.map Located.char, false, behind) := by
  induction digits with
  | nil =>
      cases behind with
      | nil => rfl
      | cons c rest =>
          rcases stops c rfl with ⟨noDigit, noPoint⟩
          rw [List.nil_append, readNumber, noDigit, if_neg Bool.false_ne_true,
            if_neg (fun both => noPoint both.1)]
          rfl
  | cons c rest inductionHypothesis =>
      rw [List.cons_append, readNumber, if_pos (all c List.mem_cons_self),
        inductionHypothesis (fun d member => all d (List.mem_cons_of_mem c member))]
      rfl

/-- The magnitudes of the machine words of either sign. -/
def Fits : Bool -> Nat -> Prop
  | true, number => number ≤ 2 ^ 63
  | false, number => number < 2 ^ 63

theorem parseI64_toDigits {negative : Bool} {number : Nat} (small : Fits negative number) :
    parseI64 negative (Nat.toDigits 10 number) =
      some (Int64.ofInt (if negative then -(number : Int) else number)) := by
  rw [parseI64, digitsValue, Nat.ofDigitChars_toDigits (by decide) (by decide)]
  refine if_pos ?_
  cases negative with
  | true =>
      have least : number ≤ 2 ^ 63 := small
      rw [if_pos rfl]
      omega
  | false =>
      have below : number < 2 ^ 63 := small
      rw [if_neg Bool.false_ne_true]
      omega

/-- What may not follow a number. -/
def NumberStops (rest : List Char) : Prop :=
  forall c, rest.head? = some c -> c.isDigit = false ∧ c ≠ '.'

theorem scanNumber_toDigits {span : Span} {negative : Bool} {number : Nat}
    (small : Fits negative number) {chars behind : List Located} {rest : List Char}
    (same : chars.map Located.char = Nat.toDigits 10 number)
    (restChars : behind.map Located.char = rest) (stops : NumberStops rest) :
    scanNumber span negative (chars ++ behind) =
      .ok (.int (Int64.ofInt (if negative then -(number : Int) else number)), behind) := by
  have all : forall c, c ∈ chars -> c.char.isDigit = true := by
    intro c member
    have inside : c.char ∈ Nat.toDigits 10 number := by
      rw [← same]
      exact List.mem_map_of_mem member
    exact Nat.isDigit_of_mem_toDigits (by decide) (by decide) inside
  have outside : forall c, behind.head? = some c -> c.char.isDigit = false ∧ c.char ≠ '.' := by
    intro c head
    refine stops c.char ?_
    rw [← restChars, List.head?_map, head]
    rfl
  rw [scanNumber, readNumber_digits all outside]
  simp only [Bool.false_eq_true, if_false, same, parseI64_toDigits small]

theorem not_whitespace_of_digit {c : Char} (digit : c.isDigit = true) :
    isWhitespace c = false := by
  have range := digit_range digit
  simp only [isWhitespace, decide_eq_false_iff_not]
  omega

theorem digit_ne {c other : Char} (digit : c.isDigit = true) (noDigit : other.isDigit = false) :
    c ≠ other := by
  rintro rfl
  rw [noDigit] at digit
  nomatch digit

theorem scans_number {number : Nat} (small : number < 2 ^ 63) {rest : List Char}
    (stops : NumberStops rest) :
    Scans T (Nat.toDigits 10 number) (some (.int (Int64.ofInt number))) rest := by
  intro chars behind same restChars
  have nonempty : chars ≠ [] := by
    rintro rfl
    exact Nat.toDigits_ne_nil same.symm
  rcases List.exists_cons_of_ne_nil nonempty with ⟨first, tail, rfl⟩
  have digit : first.char.isDigit = true := by
    refine Nat.isDigit_of_mem_toDigits (b := 10) (n := number) (by decide) (by decide) ?_
    rw [← same]
    exact List.mem_cons_self
  have noMinus : first.char ≠ '-' := digit_ne digit (by decide)
  have noSlash : first.char ≠ '/' := digit_ne digit (by decide)
  have noQuote : first.char ≠ '"' := digit_ne digit (by decide)
  have noApostrophe : first.char ≠ '\'' := digit_ne digit (by decide)
  have fits : Fits false number := small
  refine ⟨first, tail, rfl, ?_⟩
  rw [scan, not_whitespace_of_digit digit, if_neg Bool.false_ne_true,
    startsComment_of_ne noMinus noSlash, if_neg Bool.false_ne_true, scanToken,
    if_neg (not_or.mpr ⟨noQuote, noApostrophe⟩), if_pos digit, ← List.cons_append,
    scanNumber_toDigits fits same restChars stops]
  rfl

/-- A minus sign in front of a digit starts a negative literal. -/
theorem scans_negative {number : Nat} (small : number ≤ 2 ^ 63) {rest : List Char}
    (stops : NumberStops rest) :
    Scans T ('-' :: Nat.toDigits 10 number) (some (.int (Int64.ofInt (-(number : Int))))) rest := by
  intro chars behind same restChars
  rcases List.map_eq_cons_iff.mp same with ⟨first, tail, rfl, minus, tailChars⟩
  have nonempty : tail ≠ [] := by
    rintro rfl
    exact Nat.toDigits_ne_nil tailChars.symm
  rcases List.exists_cons_of_ne_nil nonempty with ⟨second, others, rfl⟩
  have digit : second.char.isDigit = true := by
    refine Nat.isDigit_of_mem_toDigits (b := 10) (n := number) (by decide) (by decide) ?_
    rw [← tailChars]
    exact List.mem_cons_self
  have noMinus : second.char ≠ '-' := digit_ne digit (by decide)
  have single : startsComment first ((second :: others) ++ behind) = false := by
    rw [startsComment, minus]
    simp [peek, noMinus]
  have starts : startsWithDigit ((second :: others) ++ behind) = true := by
    rw [startsWithDigit, List.cons_append, peek]
    exact digit
  have fits : Fits true number := small
  refine ⟨first, second :: others, rfl, ?_⟩
  rw [scan, single, if_neg Bool.false_ne_true, scanToken, starts, minus,
    scanNumber_toDigits fits tailChars restChars stops]
  rfl

/-! ## Symbols -/

/-- The ASCII characters that start neither white space, a string, a number nor a
word. -/
def isSymbol (c : Char) : Bool :=
  decide (c.toNat < 128) && !isWhitespace c && !c.isAlpha && !c.isDigit && c != '_' && c != '"' &&
    c != '\''

/-- A symbol that makes neither a comment nor a negative literal with what
follows. -/
def Lone (c : Char) (rest : List Char) : Prop :=
  forall d, rest.head? = some d -> (c = '-' -> d ≠ '-' ∧ d.isDigit = false) ∧ (c = '/' -> d ≠ '/')

theorem scan_symbol {first : Located} {rest : List Located} (symbol : isSymbol first.char = true)
    (lone : Lone first.char (rest.map Located.char)) :
    scan T first rest =
      (scanSymbol first.span first.char rest).map (fun read => (some read.1, read.2)) := by
  simp only [isSymbol, Bool.and_eq_true, Bool.not_eq_true', decide_eq_true_eq, bne_iff_ne] at symbol
  rcases symbol with ⟨⟨⟨⟨⟨⟨ascii, noBlank⟩, noLetter⟩, noDigit⟩, noUnderscore⟩, noQuote⟩,
    noApostrophe⟩
  have next : forall c, peek rest = some c ->
      (first.char = '-' -> c ≠ '-' ∧ c.isDigit = false) ∧ (first.char = '/' -> c ≠ '/') := by
    intro c ahead
    refine lone c ?_
    rw [List.head?_map]
    exact ahead
  have noComment : startsComment first rest = false := by
    cases ahead : peek rest with
    | none => simp [startsComment, ahead]
    | some c =>
        simp only [startsComment, ahead, Bool.or_eq_false_iff, Bool.and_eq_false_imp, beq_iff_eq,
          beq_eq_false_iff_ne, ne_eq, Option.some.injEq]
        exact ⟨fun minus => ((next c ahead).1 minus).1, (next c ahead).2⟩
  have noNegative : ¬ (first.char = '-' ∧ startsWithDigit rest = true) := by
    rintro ⟨minus, digit⟩
    rw [startsWithDigit] at digit
    split at digit
    · rename_i c ahead
      rw [((next c ahead).1 minus).2] at digit
      nomatch digit
    · nomatch digit
  have noWord : (T.isAlphabetic first.char || first.char == '_') = false := by
    rw [T.alphabetic_ascii _ ascii, noLetter, beq_eq_false_iff_ne.mpr noUnderscore]
    rfl
  rw [scan, noBlank, if_neg Bool.false_ne_true, noComment, if_neg Bool.false_ne_true, scanToken,
    if_neg (not_or.mpr ⟨noQuote, noApostrophe⟩), noDigit, if_neg Bool.false_ne_true,
    if_neg noNegative, noWord, if_neg Bool.false_ne_true]

theorem scans_symbol {c : Char} {more rest : List Char} {kind : TokenKind}
    (symbol : isSymbol c = true) (lone : Lone c (more ++ rest))
    (read : forall {span : Span} {tail behind : List Located}, tail.map Located.char = more ->
      behind.map Located.char = rest ->
        scanSymbol span c (tail ++ behind) = .ok (kind, behind)) :
    Scans T (c :: more) (some kind) rest := by
  intro chars behind same restChars
  rcases List.map_eq_cons_iff.mp same with ⟨first, tail, rfl, rfl, tailChars⟩
  refine ⟨first, tail, rfl, ?_⟩
  rw [← tailChars, ← restChars, ← List.map_append] at lone
  rw [scan_symbol symbol lone, read tailChars restChars]
  rfl

theorem Lone.of_ne {c : Char} {rest : List Char} (noMinus : c ≠ '-')
    (noSlash : c ≠ '/') : Lone c rest :=
  fun _ _ => ⟨fun minus => absurd minus noMinus, fun slash => absurd slash noSlash⟩

/-- A symbol of one character that no other one changes. -/
theorem scans_single {c : Char} {rest : List Char} {kind : TokenKind} (symbol : isSymbol c = true)
    (lone : Lone c rest)
    (read : forall span behind, scanSymbol span c behind = .ok (kind, behind)) :
    Scans T [c] (some kind) rest := by
  refine scans_symbol symbol lone ?_
  intro span tail behind tailChars _
  rw [List.map_eq_nil_iff.mp tailChars, List.nil_append]
  exact read span behind

end Lexer
end Query
end NovaDb
