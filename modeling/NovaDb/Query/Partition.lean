import NovaDb.Query.Lexemes

namespace NovaDb
namespace Query
namespace Lexer

open Core Foundation

/-!
# The lexer partitions its text

Each round of the lexer takes one piece off the front of the text: a white space, a
comment or the lexeme of a token.  What a lexeme of each kind of token looks like is
said here without the lexer, and so is where a piece begins: by the line breaks in
front of it and the characters since the last one.
-/

variable (T : TextTables)

/-! ## Pieces -/

/-- The text between the quotes of a string literal, and what it stands for. -/
inductive StringBody (quote : Char) : List Char -> List Char -> Prop where
  | nil : StringBody quote [] []
  | plain {c : Char} {body content : List Char} (noQuote : c ≠ quote) (noEscape : c ≠ '\\')
      (behind : StringBody quote body content) : StringBody quote (c :: body) (c :: content)
  | escape {c : Char} {body content : List Char} (behind : StringBody quote body content) :
      StringBody quote ('\\' :: c :: body) (unescape c :: content)

/-- The spellings of the symbols. -/
def symbols : List (List Char × TokenKind) :=
  [(['=', '='], .eqEq), (['='], .eq), (['!', '='], .bangEq), (['!'], .bang),
    (['>', '='], .gtEq), (['>'], .gt), (['<', '='], .ltEq), (['<'], .lt),
    (['&', '&'], .ampAmp), (['|', '|'], .pipePipe), (['+'], .plus), (['-'], .minus),
    (['*'], .star), (['/'], .slash), (['%'], .percent), (['('], .lParen), ([')'], .rParen),
    (['{'], .lBrace), (['}'], .rBrace), (['['], .lBracket), ([']'], .rBracket),
    ([','], .comma), ([':'], .colon), (['.'], .dot)]

def AllDigits (text : List Char) : Prop :=
  text ≠ [] ∧ forall c, c ∈ text -> c.isDigit = true

def sign (negative : Bool) : List Char :=
  if negative then ['-'] else []

/-- The text is a spelling of the token. -/
inductive Lexeme : TokenKind -> List Char -> Prop where
  | word {letter : Char} {letters : List Char}
      (starts : (T.isAlphabetic letter || letter == '_') = true)
      (word : forall c, c ∈ letters -> (T.isAlphanumeric c || c == '_') = true) :
      Lexeme (wordKind (letter :: letters)) (letter :: letters)
  | string {quote : Char} {body content : List Char} (isQuote : quote = '"' ∨ quote = '\'')
      (closed : StringBody quote body content) :
      Lexeme (.stringLit (String.ofList content)) (quote :: body ++ [quote])
  | integer {negative : Bool} {digits : List Char} {number : Int64} (allDigits : AllDigits digits)
      (value : parseI64 negative digits = some number) :
      Lexeme (.int number) (sign negative ++ digits)
  | decimal {negative : Bool} {whole fraction : List Char} (wholeDigits : AllDigits whole)
      (fractionDigits : AllDigits fraction) :
      Lexeme (.float (parseF64 negative (whole ++ '.' :: fraction)))
        (sign negative ++ (whole ++ '.' :: fraction))
  | symbol {text : List Char} {kind : TokenKind} (spelt : (text, kind) ∈ symbols) : Lexeme kind text

/-- What one round takes off the text. -/
inductive Piece where
  | blank (c : Char)
  | comment (text : List Char)
  | lexeme (kind : TokenKind) (text : List Char)

namespace Piece

def text : Piece -> List Char
  | .blank c => [c]
  | .comment text => text
  | .lexeme _ text => text

/-- The kind of the token read, if the piece is a lexeme. -/
def read : Piece -> Option TokenKind
  | .lexeme kind _ => some kind
  | .blank _ | .comment _ => none

/-- The piece is what it says it is, in front of some text.  A comment ends behind the
line, or with the whole text. -/
def Legal (piece : Piece) (behind : List Char) : Prop :=
  match piece with
  | .blank c => isWhitespace c = true
  | .comment text => Exists fun body => Exists fun ending =>
      (text = '-' :: '-' :: body ++ ending ∨ text = '/' :: '/' :: body ++ ending) ∧
        '\n' ∉ body ∧ (ending = ['\n'] ∨ ending = [] ∧ behind = [])
  | .lexeme kind text => Lexeme T kind text

end Piece

/-! ## One round -/

section Rounds

variable {T} {first : Located} {rest left : List Located} {kind : TokenKind}

theorem readString_of_body {quote : Char} {front : List Located} {content : List Char}
    (body : StringBody quote (front.map Located.char) content) {closing : Located}
    (closes : closing.char = quote) (noEscape : quote ≠ '\\') (left : List Located) :
    readString quote (front ++ closing :: left) = some (content, left) := by
  generalize isBody : front.map Located.char = text at body
  induction body generalizing front with
  | nil =>
      rw [List.map_eq_nil_iff.mp isBody, List.nil_append, readString.eq_def]
      exact if_pos closes
  | plain noQuote plain behind ih =>
      rcases List.map_eq_cons_iff.mp isBody with ⟨first, others, rfl, rfl, isOthers⟩
      rw [List.cons_append, readString.eq_def]
      simp only [noQuote, plain, if_false, ih isOthers, Option.map_some]
  | escape behind ih =>
      rcases List.map_eq_cons_iff.mp isBody with ⟨first, others, rfl, isEscape, isOthers⟩
      rcases List.map_eq_cons_iff.mp isOthers with ⟨escaped, more, rfl, rfl, isMore⟩
      rw [List.cons_append, List.cons_append, readString, isEscape, if_neg (Ne.symm noEscape),
        if_pos rfl, ih isMore]
      rfl

/-- What the reader of strings takes is the body of a literal. -/
theorem body_of_readString {quote : Char} {content : List Char}
    (read : readString quote rest = some (content, left)) :
    Exists fun front => Exists fun closing : Located => rest = front ++ closing :: left ∧
      closing.char = quote ∧ StringBody quote (front.map Located.char) content := by
  fun_induction readString quote rest generalizing content with
  | case1 => cases read
  | case2 c rest closes =>
      cases read
      exact ⟨[], c, rfl, closes, .nil⟩
  | case3 c opens escapes => cases read
  | case4 c opens escapes escaped behind ih =>
      rcases Option.map_eq_some_iff.mp read with ⟨⟨inner, behindInner⟩, found, same⟩
      cases same
      rcases ih found with ⟨front, closing, rfl, closes, body⟩
      refine ⟨c :: escaped :: front, closing, rfl, closes, ?_⟩
      rw [List.map_cons, List.map_cons, escapes]
      exact .escape body
  | case5 c rest opens plain ih =>
      rcases Option.map_eq_some_iff.mp read with ⟨⟨inner, behindInner⟩, found, same⟩
      cases same
      rcases ih found with ⟨front, closing, rfl, closes, body⟩
      exact ⟨c :: front, closing, rfl, closes, .plain opens plain body⟩

/-- Behind the point a number goes on with digits only. -/
theorem readNumber_dotted (rest : List Located) :
    Exists fun front => rest = front ++ (readNumber true rest).2.2 ∧
      (readNumber true rest).1 = front.map Located.char ∧ (readNumber true rest).2.1 = true ∧
      (forall c, c ∈ front.map Located.char -> c.isDigit = true) ∧
      (startsWithDigit rest = true -> front ≠ []) := by
  induction rest with
  | nil => exact ⟨[], rfl, rfl, rfl, nofun, nofun⟩
  | cons c rest ih =>
      by_cases digit : c.char.isDigit = true
      · rcases ih with ⟨front, splits, isFront, dotted, digits, _⟩
        rw [readNumber, if_pos digit]
        refine ⟨c :: front, congrArg (List.cons c) splits, congrArg (List.cons c.char) isFront, dotted,
          ?_, fun _ => List.cons_ne_nil _ _⟩
        rw [List.map_cons, List.forall_mem_cons]
        exact ⟨digit, digits⟩
      · have stops : readNumber true (c :: rest) = ([], true, c :: rest) := by
          rw [readNumber, if_neg digit, if_neg (by simp)]
        rw [stops]
        refine ⟨[], rfl, rfl, rfl, nofun, ?_⟩
        intro starts
        exact absurd starts digit

/-- Digits up to the end of the number, or up to a point with more digits behind it. -/
theorem readNumber_cases (rest : List Located) :
    Exists fun front => rest = front ++ (readNumber false rest).2.2 ∧
      (readNumber false rest).1 = front.map Located.char ∧
      (startsWithDigit rest = true -> front ≠ []) ∧
      ((readNumber false rest).2.1 = false ∧
          (forall c, c ∈ front.map Located.char -> c.isDigit = true) ∨
        (readNumber false rest).2.1 = true ∧ Exists fun whole => Exists fun fraction =>
          front.map Located.char = whole ++ '.' :: fraction ∧
            (forall c, c ∈ whole -> c.isDigit = true) ∧
            (startsWithDigit rest = true -> whole ≠ []) ∧ AllDigits fraction) := by
  induction rest with
  | nil =>
      exact ⟨[], rfl, rfl, fun starts => Bool.noConfusion starts, Or.inl ⟨rfl, List.forall_mem_nil _⟩⟩
  | cons c rest ih =>
      by_cases digit : c.char.isDigit = true
      · rcases ih with ⟨front, splits, isFront, _, shape⟩
        rw [readNumber, if_pos digit]
        refine ⟨c :: front, congrArg (List.cons c) splits, congrArg (List.cons c.char) isFront,
          fun _ => List.cons_ne_nil _ _, ?_⟩
        rcases shape with ⟨plain, digits⟩ | ⟨dotted, whole, fraction, parts, digits, _, behind⟩
        · refine Or.inl ⟨plain, ?_⟩
          rw [List.map_cons, List.forall_mem_cons]
          exact ⟨digit, digits⟩
        · refine Or.inr ⟨dotted, c.char :: whole, fraction, ?_, ?_, ?_, behind⟩
          · rw [List.map_cons, parts, List.cons_append]
          · rw [List.forall_mem_cons]
            exact ⟨digit, digits⟩
          · exact fun _ => List.cons_ne_nil _ _
      · by_cases point : c.char = '.' ∧ startsWithDigit rest = true
        · rcases readNumber_dotted rest with ⟨front, splits, isFront, dotted, digits, some⟩
          have reads : readNumber false (c :: rest) =
              (c.char :: (readNumber true rest).1, (readNumber true rest).2) := by
            rw [readNumber, if_neg digit, if_pos ⟨point.1, rfl, point.2⟩]
          have noDigit : startsWithDigit (c :: rest) = false := Bool.eq_false_iff.mpr digit
          rw [reads, noDigit]
          refine ⟨c :: front, congrArg (List.cons c) splits, congrArg (List.cons c.char) isFront,
            fun starts => Bool.noConfusion starts, Or.inr ⟨dotted, [], front.map Located.char, ?_,
              List.forall_mem_nil _, fun starts => Bool.noConfusion starts, ?_, digits⟩⟩
          · rw [List.map_cons, point.1, List.nil_append]
          · intro empty
            exact some point.2 (List.map_eq_nil_iff.mp empty)
        · have stops : readNumber false (c :: rest) = ([], false, c :: rest) := by
            rw [readNumber, if_neg digit, if_neg (by simpa using point)]
          rw [stops]
          refine ⟨[], rfl, rfl, ?_, Or.inl ⟨rfl, List.forall_mem_nil _⟩⟩
          intro starts
          exact absurd starts digit

theorem lexeme_of_scanNumber {span : Span} {negative : Bool} (starts : startsWithDigit rest = true)
    (scanned : scanNumber span negative rest = .ok (kind, left)) :
    Exists fun front => rest = front ++ left ∧ front ≠ [] ∧
      Lexeme T kind (sign negative ++ front.map Located.char) := by
  rcases readNumber_cases rest with ⟨front, splits, isFront, some, shape⟩
  have nonempty : front.map Located.char ≠ [] := by
    intro empty
    exact some starts (List.map_eq_nil_iff.mp empty)
  refine ⟨front, by rw [scanNumber_left scanned]; exact splits, some starts, ?_⟩
  simp only [scanNumber, isFront] at scanned
  rcases shape with ⟨plain, digits⟩ | ⟨dotted, whole, fraction, parts, digits, wholeSome, behind⟩
  · rw [plain, if_neg Bool.false_ne_true] at scanned
    cases value : parseI64 negative (front.map Located.char) with
    | none =>
        rw [value] at scanned
        cases scanned
    | some number =>
        rw [value] at scanned
        cases scanned
        exact .integer ⟨nonempty, digits⟩ value
  · rw [dotted, if_pos rfl] at scanned
    cases scanned
    rw [parts]
    exact .decimal ⟨wholeSome starts, digits⟩ behind

theorem lexeme_of_scanSymbol {span : Span} {c : Char}
    (scanned : scanSymbol span c rest = .ok (kind, left)) :
    Exists fun front => rest = front ++ left ∧ Lexeme T kind (c :: front.map Located.char) := by
  have alone : forall {single : TokenKind}, ([c], single) ∈ symbols ->
      (.ok (single, rest) : Except NovaError _) = .ok (kind, left) ->
      Exists fun front => rest = front ++ left ∧ Lexeme T kind (c :: front.map Located.char) := by
    intro single spelt same
    cases same
    exact ⟨[], rfl, .symbol spelt⟩
  have next : forall {second : Char} {both : TokenKind}, ([c, second], both) ∈ symbols ->
      peek rest = some second -> (.ok (both, rest.tail) : Except NovaError _) = .ok (kind, left) ->
      Exists fun front => rest = front ++ left ∧ Lexeme T kind (c :: front.map Located.char) := by
    intro second both spelt ahead same
    cases same
    cases rest with
    | nil => cases ahead
    | cons head tail =>
        cases ahead
        exact ⟨[head], rfl, .symbol spelt⟩
  have single : forall {second : Char} {both single : TokenKind}, ([c, second], both) ∈ symbols ->
      ([c], single) ∈ symbols ->
      .ok (doubled second both single rest) = (.ok (kind, left) : Except NovaError _) ->
      Exists fun front => rest = front ++ left ∧ Lexeme T kind (c :: front.map Located.char) := by
    intro second both single speltBoth speltSingle same
    rw [doubled] at same
    split at same
    · exact next speltBoth ‹_› same
    · exact alone speltSingle same
  have double : forall {second : Char} {both : TokenKind} {message : String},
      ([c, second], both) ∈ symbols -> doubledOnly second both message span rest = .ok (kind, left) ->
      Exists fun front => rest = front ++ left ∧ Lexeme T kind (c :: front.map Located.char) := by
    intro second both message spelt same
    rw [doubledOnly] at same
    split at same
    · exact next spelt ‹_› same
    · cases same
  unfold scanSymbol at scanned
  split at scanned <;> first
    | exact alone (by decide) scanned
    | exact single (by decide) (by decide) scanned
    | exact double (by decide) scanned
    | cases scanned

theorem lexeme_of_scanToken (scanned : scanToken T first rest = .ok (kind, left)) :
    Exists fun front => rest = front ++ left ∧
      Lexeme T kind (first.char :: front.map Located.char) := by
  unfold scanToken at scanned
  split at scanned
  · rename_i isQuote
    split at scanned
    · rename_i read found
      cases scanned
      rcases body_of_readString found with ⟨front, closing, splits, closes, body⟩
      refine ⟨front ++ [closing], by rw [splits, List.append_assoc]; rfl, ?_⟩
      rw [List.map_append, List.map_singleton, closes]
      exact .string isQuote body
    · cases scanned
  · split at scanned
    · rename_i digit
      have starts : startsWithDigit (first :: rest) = true := digit
      rcases lexeme_of_scanNumber (T := T) starts scanned with
        ⟨front, splits, nonempty, lexeme⟩
      cases front with
      | nil => exact absurd rfl nonempty
      | cons head front =>
          cases splits
          exact ⟨front, rfl, lexeme⟩
    · split at scanned
      · rename_i minus
        rcases lexeme_of_scanNumber (T := T) minus.2 scanned with ⟨front, splits, _, lexeme⟩
        refine ⟨front, splits, ?_⟩
        rw [minus.1]
        exact lexeme
      · split at scanned
        · rename_i starts
          cases scanned
          have word : isWordChar T first = true := wordChar_of_start starts
          rw [List.takeWhile_cons_of_pos word, List.dropWhile_cons_of_pos word, List.map_cons]
          refine ⟨rest.takeWhile (isWordChar T), List.takeWhile_append_dropWhile.symm,
            .word starts ?_⟩
          intro c member
          rcases List.mem_map.mp member with ⟨next, inWord, rfl⟩
          have continues : isWordChar T next = true := List.mem_takeWhile_imp inWord
          exact continues
        · exact lexeme_of_scanSymbol scanned

theorem skipComment_cases (text : List Located) :
    (Exists fun body => Exists fun ending : Located => text = body ++ ending :: skipComment text ∧
      ending.char = '\n' ∧ '\n' ∉ body.map Located.char) ∨
    skipComment text = [] ∧ '\n' ∉ text.map Located.char := by
  induction text with
  | nil => exact Or.inr ⟨rfl, List.not_mem_nil⟩
  | cons c rest ih =>
      by_cases breaks : c.char = '\n'
      · rw [skipComment, if_pos breaks]
        exact Or.inl ⟨[], c, rfl, breaks, List.not_mem_nil⟩
      · rw [skipComment, if_neg breaks]
        have notHead : '\n' ≠ c.char := fun same => breaks same.symm
        rcases ih with ⟨body, ending, splits, ends, clear⟩ | ⟨ended, clear⟩
        · refine Or.inl ⟨c :: body, ending, congrArg (List.cons c) splits, ends, ?_⟩
          rw [List.map_cons, List.mem_cons, not_or]
          exact ⟨notHead, clear⟩
        · refine Or.inr ⟨ended, ?_⟩
          rw [List.map_cons, List.mem_cons, not_or]
          exact ⟨notHead, clear⟩

/-- The text of a comment, from its two marks to the end of the line or of the text. -/
theorem piece_of_comment (starts : startsComment first rest = true) :
    Exists fun front => first :: rest = front ++ skipComment (first :: rest) ∧
      (Piece.comment (front.map Located.char)).Legal T
        ((skipComment (first :: rest)).map Located.char) := by
  have marks : Exists fun second => Exists fun behind => rest = second :: behind ∧
      (first.char = '-' ∧ second.char = '-' ∨ first.char = '/' ∧ second.char = '/') := by
    cases rest with
    | nil => simp [startsComment, peek] at starts
    | cons second behind =>
        refine ⟨second, behind, rfl, ?_⟩
        simpa [startsComment, peek] using starts
  rcases marks with ⟨second, behind, rfl, marks⟩
  have skips : skipComment (first :: second :: behind) = skipComment behind := by
    rcases marks with ⟨isFirst, isSecond⟩ | ⟨isFirst, isSecond⟩ <;>
      rw [skipComment, isFirst, if_neg (by decide), skipComment, isSecond, if_neg (by decide)]
  have marked : forall body ending : List Char,
      first.char :: second.char :: body ++ ending = '-' :: '-' :: body ++ ending ∨
        first.char :: second.char :: body ++ ending = '/' :: '/' :: body ++ ending := by
    intro body ending
    rcases marks with ⟨isFirst, isSecond⟩ | ⟨isFirst, isSecond⟩
    · exact Or.inl (by rw [isFirst, isSecond])
    · exact Or.inr (by rw [isFirst, isSecond])
  rw [skips]
  rcases skipComment_cases behind with ⟨body, ending, splits, ends, clear⟩ | ⟨ended, clear⟩
  · refine ⟨first :: second :: (body ++ [ending]), ?_, body.map Located.char, ['\n'], ?_, clear,
      Or.inl rfl⟩
    · conv_lhs => rw [splits]
      simp
    · rw [List.map_cons, List.map_cons, List.map_append, List.map_singleton, ends]
      exact marked _ _
  · refine ⟨first :: second :: behind, ?_, behind.map Located.char, [], ?_, clear,
      Or.inr ⟨rfl, ?_⟩⟩
    · rw [ended, List.append_nil]
    · have shape := marked (behind.map Located.char) []
      rw [List.append_nil] at shape
      exact shape
    · rw [ended, List.map_nil]

/-- One round takes a piece off the text. -/
theorem piece_of_scan {read : Option TokenKind} (scanned : scan T first rest = .ok (read, left)) :
    Exists fun front => Exists fun piece : Piece => first :: rest = front ++ left ∧
      piece.text = front.map Located.char ∧ piece.read = read ∧
      piece.Legal T (left.map Located.char) := by
  unfold scan at scanned
  split at scanned
  · rename_i blank
    cases scanned
    exact ⟨[first], .blank first.char, rfl, rfl, rfl, blank⟩
  · split at scanned
    · rename_i starts
      cases scanned
      rcases piece_of_comment (T := T) starts with ⟨front, splits, legal⟩
      exact ⟨front, .comment _, splits, rfl, rfl, legal⟩
    · cases token : scanToken T first rest with
      | error failure =>
          rw [token] at scanned
          cases scanned
      | ok found =>
          rw [token] at scanned
          cases scanned
          rcases lexeme_of_scanToken token with ⟨front, splits, lexeme⟩
          refine ⟨first :: front, .lexeme _ _, congrArg (List.cons first) splits, rfl, rfl, lexeme⟩

end Rounds

/-! ## Places -/

/-- Where the next character stands behind a text: the line is counted by the line breaks
in the text, the column by the characters since the last one. -/
def placeBehind (front : List Char) : Span :=
  ⟨1 + front.count '\n', 1 + (front.reverse.takeWhile (· != '\n')).length⟩

/-- The place behind one more character. -/
def following (place : Span) (c : Char) : Span :=
  if c = '\n' then ⟨place.line + 1, 1⟩ else ⟨place.line, place.column + 1⟩

theorem locate_append (place : Span) (front rest : List Char) :
    locate place.line place.column (front ++ rest) =
      locate place.line place.column front ++
        locate (front.foldl following place).line (front.foldl following place).column rest := by
  induction front generalizing place with
  | nil => rfl
  | cons c front ih =>
      have step := ih (following place c)
      rw [List.cons_append, locate, locate, List.foldl_cons, List.cons_append]
      apply congrArg (List.cons _)
      by_cases breaks : c = '\n'
      · rw [if_pos breaks, if_pos breaks]
        rw [following, if_pos breaks] at step ⊢
        exact step
      · rw [if_neg breaks, if_neg breaks]
        rw [following, if_neg breaks] at step ⊢
        exact step

theorem placeBehind_eq (front : List Char) : front.foldl following ⟨1, 1⟩ = placeBehind front := by
  induction front using List.reverseRecOn with
  | nil => rfl
  | append_singleton front c ih =>
      rw [List.foldl_append, List.foldl_cons, List.foldl_nil, ih, following, placeBehind, placeBehind,
        List.count_append, List.reverse_append, List.reverse_singleton, List.singleton_append]
      by_cases breaks : c = '\n'
      · subst breaks
        simp [Nat.add_assoc]
      · simp [breaks, Nat.add_comm]

/-- The characters behind a front of the text, with their places in it. -/
def locateBehind (front rest : List Char) : List Located :=
  locate (placeBehind front).line (placeBehind front).column rest

theorem locateBehind_append (front middle rest : List Char) :
    locateBehind front (middle ++ rest) =
      locateBehind front middle ++ locateBehind (front ++ middle) rest := by
  rw [locateBehind, locate_append, locateBehind, locateBehind, ← placeBehind_eq (front ++ middle),
    List.foldl_append, placeBehind_eq]

theorem rest_new (source : String) : (Lexer.new source).rest = locateBehind [] source.toList := by
  rw [Lexer.new]
  split <;> rfl

/-! ## The whole text -/

/-- The tokens of the pieces behind a front of the text. -/
def tokensOf (front : List Char) : List Piece -> List Token
  | [] => []
  | .lexeme kind text :: rest => ⟨kind, placeBehind front⟩ :: tokensOf (front ++ text) rest
  | piece :: rest => tokensOf (front ++ piece.text) rest

/-- Every piece is what it says it is, in front of the pieces behind it. -/
def Pieces (T : TextTables) (pieces : List Piece) : Prop :=
  forall front piece behind, pieces = front ++ piece :: behind ->
    piece.Legal T (behind.flatMap Piece.text)

section Runs

variable {T}

theorem Pieces.cons {piece : Piece} {pieces : List Piece}
    (legal : piece.Legal T (pieces.flatMap Piece.text)) (others : Pieces T pieces) :
    Pieces T (piece :: pieces) := by
  intro front other behind splits
  cases front with
  | nil =>
      cases splits
      exact legal
  | cons head front =>
      cases splits
      exact others front other behind rfl

theorem tokensOf_cons (front : List Char) (piece : Piece) (pieces : List Piece) :
    tokensOf front (piece :: pieces) =
      (piece.read.toList.map fun kind => ⟨kind, placeBehind front⟩) ++
        tokensOf (front ++ piece.text) pieces := by
  cases piece <;> rfl

theorem wordKind_ne_eof (word : List Char) : wordKind word ≠ .eof := by
  have inner : forall entry, entry ∈ keywords -> entry.2 ≠ .eof := by decide
  unfold wordKind
  split
  · rename_i keyword known
    rcases List.lookup_eq_some_iff.mp known with ⟨front, behind, splits, _⟩
    exact inner (toAsciiUppercase word, keyword) (by rw [splits]; simp)
  · nofun

theorem Lexeme.ne_eof {kind : TokenKind} {text : List Char} (lexeme : Lexeme T kind text) :
    kind ≠ .eof := by
  have inner : forall entry, entry ∈ symbols -> entry.2 ≠ .eof := by decide
  cases lexeme with
  | word => exact wordKind_ne_eof _
  | symbol spelt => exact inner _ spelt
  | _ => nofun

/-- The end of the text is no lexeme. -/
theorem Pieces.ne_eof {pieces : List Piece} (legal : Pieces T pieces) (front : List Char) :
    forall token, token ∈ tokensOf front pieces -> token.kind ≠ .eof := by
  induction pieces generalizing front with
  | nil => exact nofun
  | cons piece pieces ih =>
      have others : Pieces T pieces := fun front other behind splits =>
        legal (piece :: front) other behind (by rw [splits]; rfl)
      have first := legal [] piece pieces rfl
      intro token member
      rw [tokensOf_cons, List.mem_append] at member
      rcases member with inPiece | behind
      · cases piece with
        | lexeme kind text =>
            rw [List.mem_singleton.mp inPiece]
            exact Lexeme.ne_eof first
        | _ => cases inPiece
      · exact ih others _ token behind

/-- What a run of rounds takes off the text. -/
theorem pieces_of_tokenizeLoop {finish : Span} {fuel : Nat} {front chars : List Char}
    {before result : List Token} {final : Lexer}
    (done : tokenizeLoop T finish fuel (locateBehind front chars) before = .ok result final) :
    Exists fun pieces => chars = pieces.flatMap Piece.text ∧ Pieces T pieces ∧
      result = before ++ tokensOf front pieces ++ [⟨.eof, finish⟩] := by
  induction fuel generalizing front chars before with
  | zero =>
      cases chars with
      | nil =>
          change Parsed.ok (before ++ [⟨.eof, finish⟩]) _ = _ at done
          cases done
          exact ⟨[], rfl, fun front piece behind splits => absurd splits (by simp), by simp [tokensOf]⟩
      | cons c chars => cases done
  | succ fuel ih =>
      cases chars with
      | nil =>
          change Parsed.ok (before ++ [⟨.eof, finish⟩]) _ = _ at done
          cases done
          exact ⟨[], rfl, fun front piece behind splits => absurd splits (by simp), by simp [tokensOf]⟩
      | cons c chars =>
          rcases List.exists_cons_of_ne_nil (by simp [locateBehind, locate] :
            locateBehind front (c :: chars) ≠ []) with ⟨first, rest, located⟩
          have place : first.span = placeBehind front := by
            rw [locateBehind, locate] at located
            cases located
            rfl
          rw [located, tokenizeLoop] at done
          cases scanned : scan T first rest with
          | error failure =>
              rw [scanned] at done
              cases done
          | ok round =>
              rcases round with ⟨read, left⟩
              rcases piece_of_scan scanned with ⟨taken, piece, splits, isText, isRead, legal⟩
              -- the characters left, with their places behind the piece
              have chars_eq : c :: chars = piece.text ++ left.map Located.char := by
                have mapped := congrArg (List.map Located.char) (located.trans splits)
                rw [locateBehind, map_locate, List.map_append, ← isText] at mapped
                exact mapped
              have behind : left = locateBehind (front ++ piece.text) (left.map Located.char) := by
                have both := located.symm.trans (congrArg (locateBehind front) chars_eq)
                rw [splits, locateBehind_append] at both
                refine (List.append_inj both ?_).2
                have lengths := congrArg List.length (map_locate (placeBehind front).line
                  (placeBehind front).column piece.text)
                rw [List.length_map] at lengths
                rw [locateBehind, lengths, isText, List.length_map]
              have continues : tokenizeLoop T finish fuel
                  (locateBehind (front ++ piece.text) (left.map Located.char))
                  (before ++ piece.read.toList.map fun kind => ⟨kind, placeBehind front⟩) =
                    .ok result final := by
                rw [← behind, isRead, ← place]
                rw [scanned] at done
                cases read with
                | none => simpa using done
                | some kind => exact done
              rcases ih continues with ⟨pieces, isPieces, others, isResult⟩
              rw [isPieces] at legal
              refine ⟨piece :: pieces, ?_, .cons legal others, ?_⟩
              · rw [chars_eq, isPieces, List.flatMap_cons]
              · rw [isResult, tokensOf_cons]
                simp only [List.append_assoc]

end Runs

/-- The text of an accepted query splits into white space, comments and the lexemes of
the tokens, each of which begins where its span says.  One token for the end of the text
follows them, and no token before it is one.  -/
theorem lexer_partitions {source : String} {tokens : List Token} {final : Lexer}
    (done : tokenize T (Lexer.new source) = .ok tokens final) :
    Exists fun pieces => Exists fun finish => source.toList = pieces.flatMap Piece.text ∧
      Pieces T pieces ∧ tokens = tokensOf [] pieces ++ [⟨.eof, finish⟩] ∧
        forall token, token ∈ tokensOf [] pieces -> token.kind ≠ .eof := by
  rw [tokenize, rest_new] at done
  rcases pieces_of_tokenizeLoop done with ⟨pieces, isPieces, legal, isResult⟩
  exact ⟨pieces, (Lexer.new source).finish, isPieces, legal, isResult, legal.ne_eof []⟩

theorem lexer_partitions_sample :
    Exists fun pieces => Exists fun finish =>
      "FIND users -- all".toList = pieces.flatMap Piece.text ∧ Pieces referenceTables pieces ∧
        [⟨.find, ⟨1, 1⟩⟩, ⟨.identifier "users", ⟨1, 6⟩⟩, ⟨.eof, ⟨1, 18⟩⟩] =
          tokensOf [] pieces ++ [⟨.eof, finish⟩] ∧
        forall token, token ∈ tokensOf [] pieces -> token.kind ≠ .eof :=
  @lexer_partitions referenceTables "FIND users -- all" _ ⟨[], ⟨1, 18⟩⟩ rfl

end Lexer
end Query
end NovaDb
