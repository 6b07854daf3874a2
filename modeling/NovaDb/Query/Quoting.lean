import NovaDb.Query.Partition

namespace NovaDb
namespace Query
namespace Lexer

open Core Foundation

/-!
# Quoting a string

Any string can be written as a literal: a backslash goes in front of each backslash and
each quote of the kind that encloses it.  The lexer reads the string back from it and
goes on with the text behind the closing quote.
-/

/-- A backslash in front of each backslash and each quote. -/
def escapeFor (quote : Char) (text : List Char) : List Char :=
  text.flatMap fun c => if c = '\\' ∨ c = quote then ['\\', c] else [c]

/-- The literal of a string between the quotes. -/
def quotedWith (quote : Char) (text : List Char) : List Char :=
  quote :: (escapeFor quote text ++ [quote])

/-- The lexer of a text whose cursor stands behind the front of it. -/
def cursorBehind (front rest : List Char) : Lexer :=
  ⟨locateBehind front rest, (Lexer.new (String.ofList (front ++ rest))).finish⟩

/-- The tokens read before, and what the rest of the text comes to. -/
def prefixed (before : List Token) :
    Parsed NovaError Lexer (List Token) -> Parsed NovaError Lexer (List Token)
  | .ok tokens final => .ok (before ++ tokens) final
  | .error failure => .error failure
  | .panic => .panic
  | .outOfFuel => .outOfFuel

section Quotes

variable {T : TextTables} {quote : Char} (isQuote : quote = '"' ∨ quote = '\'')

include isQuote

theorem unescape_of_special {c : Char} (special : c = '\\' ∨ c = quote) : unescape c = c := by
  rcases special with rfl | rfl
  · rfl
  · rcases isQuote with rfl | rfl <;> rfl

theorem stringBody_escapeFor (text : List Char) : StringBody quote (escapeFor quote text) text := by
  induction text with
  | nil => exact .nil
  | cons c text ih =>
      rw [escapeFor, List.flatMap_cons]
      by_cases special : c = '\\' ∨ c = quote
      · rw [if_pos special]
        have body : StringBody quote ('\\' :: c :: escapeFor quote text) (unescape c :: text) :=
          .escape ih
        rw [unescape_of_special isQuote special] at body
        exact body
      · rw [if_neg special]
        rw [not_or] at special
        exact .plain special.2 special.1 ih

/-- One round of the lexer at a quote of either kind. -/
theorem scan_at_quote {first : Located} (opens : first.char = quote) {rest left : List Located}
    {content : List Char} (read : readString quote rest = some (content, left)) :
    scan T first rest = .ok (some (.stringLit (String.ofList content)), left) := by
  have noBlank : isWhitespace quote = false := by rcases isQuote with rfl | rfl <;> decide
  have noMinus : quote ≠ '-' := by rcases isQuote with rfl | rfl <;> decide
  have noSlash : quote ≠ '/' := by rcases isQuote with rfl | rfl <;> decide
  have noComment : startsComment first rest = false :=
    startsComment_of_ne (by rw [opens]; exact noMinus) (by rw [opens]; exact noSlash)
  rw [scan, opens, noBlank, if_neg Bool.false_ne_true, noComment, if_neg Bool.false_ne_true,
    scanToken, opens, if_pos isQuote, read]
  rfl

omit isQuote

/-- With enough fuel the loop adds to the tokens read before what it adds to none. -/
theorem tokenizeLoop_prefixed (finish : Span) {fuel other : Nat} {rest : List Located}
    (enough : rest.length ≤ fuel) (enoughToo : rest.length ≤ other) (before tokens : List Token) :
    tokenizeLoop T finish fuel rest (before ++ tokens) =
      prefixed before (tokenizeLoop T finish other rest tokens) := by
  induction fuel generalizing other rest tokens with
  | zero =>
      rw [List.eq_nil_of_length_eq_zero (Nat.le_zero.mp enough)]
      simp only [tokenizeLoop, prefixed, List.append_assoc]
  | succ fuel ih =>
      cases rest with
      | nil => simp only [tokenizeLoop, prefixed, List.append_assoc]
      | cons first rest =>
          cases other with
          | zero => cases enoughToo
          | succ other =>
              rw [tokenizeLoop, tokenizeLoop]
              cases scanned : scan T first rest with
              | error failure => rfl
              | ok round =>
                  rcases round with ⟨read, left⟩
                  have shorter := (scan_suffix T scanned).length_le
                  rw [List.length_cons] at enough enoughToo
                  cases read with
                  | none => exact ih (by omega) (by omega) tokens
                  | some kind =>
                      simp only [List.append_assoc]
                      exact ih (by omega) (by omega) _

include isQuote

/-- The round that reads the literal in front of any text. -/
theorem scan_quotedWith (text rest : List Char) :
    Exists fun tail =>
      locateBehind [] (quotedWith quote text ++ rest) = ⟨⟨1, 1⟩, quote⟩ :: tail ∧
        scan T ⟨⟨1, 1⟩, quote⟩ tail =
          .ok (some (.stringLit (String.ofList text)), locateBehind (quotedWith quote text) rest) := by
  have noBreak : quote ≠ '\n' := by rcases isQuote with rfl | rfl <;> decide
  have noEscape : quote ≠ '\\' := by rcases isQuote with rfl | rfl <;> decide
  have opened : locateBehind [] (quotedWith quote text) =
      ⟨⟨1, 1⟩, quote⟩ :: locate 1 2 (escapeFor quote text ++ [quote]) := by
    rw [locateBehind, quotedWith, locate, if_neg noBreak]
    rfl
  have chars := map_locate 1 2 (escapeFor quote text ++ [quote])
  rcases List.map_eq_append_iff.mp chars with ⟨front, last, splits, isFront, isLast⟩
  rcases List.map_eq_singleton_iff.mp isLast with ⟨closing, rfl, closes⟩
  have body := stringBody_escapeFor isQuote text
  rw [← isFront] at body
  refine ⟨front ++ closing :: locateBehind (quotedWith quote text) rest, ?_, ?_⟩
  · rw [locateBehind_append, List.nil_append, opened, splits, List.cons_append, List.append_assoc]
    rfl
  · exact scan_at_quote isQuote rfl (readString_of_body body closes noEscape _)

/-- Quoting is inverted by the lexer: its first round reads the literal and leaves the
text behind it; the tokens are the literal and those of that text, and where that text
is refused the whole is.  The lexer always comes to one or the other. -/
theorem quoting_inverted (text rest : String) :
    let whole := Lexer.new (String.ofList (quotedWith quote text.toList ++ rest.toList))
    let behind := cursorBehind (quotedWith quote text.toList) rest.toList
    (Exists fun tail => whole.rest = ⟨⟨1, 1⟩, quote⟩ :: tail ∧
      scan T ⟨⟨1, 1⟩, quote⟩ tail = .ok (some (.stringLit text), behind.rest)) ∧
    tokenize T whole = prefixed [⟨.stringLit text, ⟨1, 1⟩⟩] (tokenize T behind) ∧
    ((Exists fun tokens => tokenize T whole =
        .ok (⟨.stringLit text, ⟨1, 1⟩⟩ :: tokens) ⟨[], whole.finish⟩) ∨
      Exists fun failure => tokenize T whole = .error failure ∧
        tokenize T behind = .error failure) := by
  intro whole behind
  rcases scan_quotedWith (T := T) isQuote text.toList rest.toList with ⟨tail, located, scanned⟩
  rw [String.ofList_toList] at scanned
  have isRest : whole.rest = ⟨⟨1, 1⟩, quote⟩ :: tail := by
    rw [rest_new, String.toList_ofList, located]
  have equation : tokenize T whole =
      prefixed [⟨.stringLit text, ⟨1, 1⟩⟩] (tokenize T behind) := by
    have shorter := (scan_suffix T scanned).length_le
    rw [tokenize, isRest, List.length_cons, tokenizeLoop, scanned]
    change tokenizeLoop T _ tail.length _ ([⟨.stringLit text, ⟨1, 1⟩⟩] ++ []) = _
    exact tokenizeLoop_prefixed _ shorter (Nat.le_refl _) _ []
  refine ⟨⟨tail, isRest, scanned⟩, equation, ?_⟩
  rcases tokenizeLoop_total T behind.finish (Nat.le_refl behind.rest.length) [] with
    ⟨tokens, read⟩ | ⟨failure, failed⟩
  · rw [← tokenize] at read
    rw [equation, read]
    exact Or.inl ⟨tokens, rfl⟩
  · rw [← tokenize] at failed
    rw [equation, failed]
    exact Or.inr ⟨failure, rfl, rfl⟩

end Quotes

/-- The kinds of the tokens, if the text is accepted. -/
def kindsIn (text : String) : Option (List TokenKind) :=
  match tokenize referenceTables (Lexer.new text) with
  | .ok tokens _ => some (tokens.map Token.kind)
  | _ => none

theorem quoting_inverted_sample :
    let whole := String.ofList (quotedWith '\'' "it's \\ \"here\"".toList ++ " AND".toList)
    kindsIn whole = some [.stringLit "it's \\ \"here\"", .and, .eof] ∧
      Exists fun tokens => tokenize referenceTables (Lexer.new whole) =
        .ok (⟨.stringLit "it's \\ \"here\"", ⟨1, 1⟩⟩ :: tokens) ⟨[], (Lexer.new whole).finish⟩ := by
  intro whole
  have kinds : kindsIn whole = some [.stringLit "it's \\ \"here\"", .and, .eof] := by decide +kernel
  refine ⟨kinds, ?_⟩
  rcases (quoting_inverted (T := referenceTables) (Or.inr rfl) "it's \\ \"here\"" " AND").2.2 with
    accepted | ⟨failure, refused, _⟩
  · exact accepted
  · change tokenize referenceTables (Lexer.new whole) = .error failure at refused
    rw [kindsIn, refused] at kinds
    cases kinds

end Lexer
end Query
end NovaDb
