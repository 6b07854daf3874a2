import NovaDb.Query.Grammar
import NovaDb.Query.Parser

namespace NovaDb
namespace Query
namespace Parser

open Core Foundation Grammar

/-!
# The expression parser implements its grammar

Each function of the parser is shown to implement its syntactic category on the
inputs its fuel suffices for: as many tokens as there is fuel.  The proofs follow
the functions, one rule a step.  Fuel goes down only behind a token that has
been taken, so the tokens left never outnumber it.
-/

variable {tokens : List Token} (T : TextTables)

/-! ## The cursor -/

/-- The parser works on the token list and has the input in front of it, up to
the end marker. -/
structure Reads (tokens : List Token) (parser : Parser) (input : List TokenKind) : Prop where
  same : parser.tokens = tokens
  ahead : (tokens.drop parser.cursor).map Token.kind = input
  ends : input.getLast? = some .eof

theorem Reads.nonempty {parser : Parser} {input : List TokenKind}
    (reads : Reads tokens parser input) : input ≠ [] := by
  intro empty
  have ends := reads.ends
  rw [empty] at ends
  nomatch ends

/-- The token under the cursor and the tokens behind it. -/
theorem Reads.token {parser : Parser} {kind : TokenKind} {rest : List TokenKind}
    (reads : Reads tokens parser (kind :: rest)) :
    Exists fun token => parser.tokens[parser.cursor]? = some token ∧ token.kind = kind ∧
      (tokens.drop (parser.cursor + 1)).map Token.kind = rest := by
  rcases List.map_eq_cons_iff.mp reads.ahead with ⟨token, behind, dropped, named, left⟩
  refine ⟨token, ?_, named, ?_⟩
  · rw [reads.same, ← List.head?_drop, dropped, List.head?_cons]
  · rw [← List.tail_drop, dropped, List.tail_cons, left]

theorem peek_eq {parser : Parser} {kind : TokenKind} {rest : List TokenKind}
    (reads : Reads tokens parser (kind :: rest)) :
    Exists fun token => token.kind = kind ∧ peek parser = .ok token parser := by
  rcases reads.token with ⟨token, found, named, _⟩
  exact ⟨token, named, by simp only [peek, found]⟩

theorem peekKind_looks {parser : Parser} {input : List TokenKind}
    (reads : Reads tokens parser input) :
    Exists fun kind => input.head? = some kind ∧ peekKind parser = .ok kind parser := by
  rcases List.exists_cons_of_ne_nil reads.nonempty with ⟨kind, rest, rfl⟩
  rcases peek_eq reads with ⟨token, named, looked⟩
  refine ⟨kind, rfl, ?_⟩
  rw [peekKind, ParseM.bind_of_ok looked, ParseM.pure_apply, named]

theorem currentSpan_looks {parser : Parser} {input : List TokenKind}
    (reads : Reads tokens parser input) :
    Exists fun span => currentSpan parser = .ok span parser := by
  rcases List.exists_cons_of_ne_nil reads.nonempty with ⟨kind, rest, rfl⟩
  rcases peek_eq reads with ⟨token, _, looked⟩
  exact ⟨token.span, by rw [currentSpan, ParseM.bind_of_ok looked, ParseM.pure_apply]⟩

theorem check_eq {parser : Parser} {kind : TokenKind} {rest : List TokenKind} (wanted : TokenKind)
    (reads : Reads tokens parser (kind :: rest)) :
    check wanted parser = .ok (decide (kind = wanted)) parser := by
  rcases peekKind_looks reads with ⟨found, first, looked⟩
  cases first
  rw [check, ParseM.bind_of_ok looked, ParseM.pure_apply]

/-- Only the end marker may be the last token, so behind any other token there
is one more. -/
theorem advance_takes {kind : TokenKind} (inner : kind ≠ .eof) {parser : Parser}
    {rest : List TokenKind} (reads : Reads tokens parser (kind :: rest)) :
    Exists fun token => Exists fun next => advance parser = .ok token next ∧
      Reads tokens next rest := by
  rcases reads.token with ⟨token, found, _, behind⟩
  have more : rest ≠ [] := by
    intro empty
    have ends := reads.ends
    rw [empty] at ends
    exact inner (Option.some.inj ends)
  have counted := congrArg List.length behind
  rw [List.length_map, List.length_drop] at counted
  have positive := List.length_pos_of_ne_nil more
  have inside : parser.cursor < parser.tokens.length - 1 := by
    rw [reads.same]
    omega
  refine ⟨token, { parser with cursor := parser.cursor + 1 }, ?_, reads.same, behind, ?_⟩
  · simp only [advance, found, inside, if_true]
  · rw [← reads.ends, List.getLast?_cons_of_ne_nil more]

theorem matchToken_advance {kind : TokenKind} {parser next : Parser} {token : Token}
    {rest : List TokenKind} (reads : Reads tokens parser (kind :: rest))
    (advanced : advance parser = .ok token next) : matchToken kind parser = .ok true next := by
  rw [matchToken, ParseM.bind_of_ok (check_eq kind reads), decide_eq_true rfl, if_pos rfl,
    ParseM.bind_of_ok advanced, ParseM.pure_apply]

theorem matchToken_takes {kind : TokenKind} (inner : kind ≠ .eof) {parser : Parser}
    {rest : List TokenKind} (reads : Reads tokens parser (kind :: rest)) :
    Exists fun next => matchToken kind parser = .ok true next ∧ Reads tokens next rest := by
  rcases advance_takes inner reads with ⟨token, next, advanced, left⟩
  exact ⟨next, matchToken_advance reads advanced, left⟩

theorem matchToken_skips {kind first : TokenKind} {parser : Parser} {rest : List TokenKind}
    (reads : Reads tokens parser (first :: rest)) (other : first ≠ kind) :
    matchToken kind parser = .ok false parser := by
  rw [matchToken, ParseM.bind_of_ok (check_eq kind reads), decide_eq_false other,
    if_neg Bool.false_ne_true, ParseM.pure_apply]

/-! ## Rules of the cursor operations -/

section Rules

variable {α β : Type} {domain behind : List TokenKind -> Prop}

theorem implements_pure (value : α) :
    Implements (Reads tokens) domain (pure value : ParserM α) (Phrases.nothing value) :=
  Implements.pure value Reads.nonempty

theorem implements_matchToken {kind : TokenKind} (inner : kind ≠ .eof)
    {next : Bool -> ParserM β} {present absent : Phrases TokenKind β}
    (within : forall {rest}, domain (kind :: rest) -> behind rest)
    (yes : Implements (Reads tokens) behind (next true) present)
    (no : Implements (Reads tokens) domain (next false) absent) :
    Implements (Reads tokens) domain (matchToken kind >>= next)
      (Phrases.choose kind present absent) :=
  Implements.branch Reads.nonempty (matchToken_takes inner) matchToken_skips within yes no

theorem implements_advance {kind : TokenKind} (inner : kind ≠ .eof) {next : Token -> ParserM β}
    {result : Phrases TokenKind β} (within : forall {rest}, domain (kind :: rest) -> behind rest)
    (rest : forall token, Implements (Reads tokens) behind (next token) result) :
    Implements (Reads tokens) (fun input => input.head? = some kind ∧ domain input)
      (advance >>= next) (Phrases.after kind result) :=
  Implements.consume (advance_takes inner) within rest

/-- A step that takes the token it reads by `advance`. -/
theorem implements_reading {step : ParserM α} {pick : TokenKind -> Option α}
    {next : α -> ParserM β} {result : α -> Phrases TokenKind β}
    (inner : pick .eof = none)
    (takes : forall {parser : Parser} {kind : TokenKind} {rest : List TokenKind} {value : α},
      Reads tokens parser (kind :: rest) -> pick kind = some value ->
        step parser = (advance >>= fun _ => pure value) parser)
    (refuses : forall {parser : Parser} {kind : TokenKind} {rest : List TokenKind},
      Reads tokens parser (kind :: rest) -> pick kind = none ->
        Exists fun failure => step parser = .error failure)
    (within : forall {kind rest}, domain (kind :: rest) -> behind rest)
    (rest : forall value, Implements (Reads tokens) behind (next value) (result value)) :
    Implements (Reads tokens) domain (step >>= next) (Phrases.reading pick result) := by
  refine @Implements.read _ _ _ _ _ _ domain step next α pick (fun value read => value = read)
    result behind Reads.nonempty ?_ refuses within ?_
  · intro parser kind tail value reads picked
    have notEnd : kind ≠ .eof := by
      rintro rfl
      rw [inner] at picked
      nomatch picked
    rcases advance_takes notEnd reads with ⟨token, middle, advanced, left⟩
    refine ⟨value, middle, ?_, rfl, left⟩
    rw [takes reads picked, ParseM.bind_of_ok advanced, ParseM.pure_apply]
  · rintro value read rfl
    exact rest value

theorem implements_expect {kind : TokenKind} (inner : kind ≠ .eof) (message : String)
    {next : Token -> ParserM β} {result : Phrases TokenKind β}
    (within : forall {rest}, domain (kind :: rest) -> behind rest)
    (rest : forall token, Implements (Reads tokens) behind (next token) result) :
    Implements (Reads tokens) domain (expect T kind message >>= next)
      (Phrases.after kind result) := by
  refine Implements.byNext Reads.nonempty (fun first => ?_)
  by_cases same : first = kind
  · subst same
    refine Implements.consume (fun reads => ?_) within rest
    rcases advance_takes inner reads with ⟨token, middle, advanced, left⟩
    refine ⟨token, middle, ?_, left⟩
    rw [expect, ParseM.bind_of_ok (check_eq first reads), decide_eq_true rfl, if_pos rfl, advanced]
  · have refused : forall {parser : Parser} {input : List TokenKind}, Reads tokens parser input ->
        input.head? = some first -> Exists fun failure =>
          (expect T kind message >>= next) parser = .error failure := by
      intro parser input reads starts
      rcases List.head?_eq_some_iff.mp starts with ⟨tail, rfl⟩
      rcases currentSpan_looks reads with ⟨span, looked⟩
      rcases peekKind_looks reads with ⟨found, _, seen⟩
      refine ⟨parseErrorAt (message ++ " (found '" ++ found.debug T ++ "')") span,
        ParseM.bind_of_error ?_⟩
      rw [expect, ParseM.bind_of_ok (check_eq kind reads), decide_eq_false same,
        if_neg Bool.false_ne_true, ParseM.bind_of_ok looked, ParseM.bind_of_ok seen]
      rfl
    refine ⟨?_, ?_, ?_⟩
    · intro parser final input value reads inside done
      rcases refused reads inside.1 with ⟨failure, failed⟩
      rw [failed] at done
      nomatch done
    · rintro parser word tail extending token value reads inside ⟨inner, rfl, _⟩ stops
      exact absurd (Option.some.inj inside.1).symm same
    · intro parser input reads inside
      exact Or.inr (refused reads inside.1)

end Rules

theorem implements_expectIdentifier {β : Type} {domain behind : List TokenKind -> Prop}
    (message : String) {next : String -> ParserM β} {result : String -> Phrases TokenKind β}
    (within : forall {kind rest}, domain (kind :: rest) -> behind rest)
    (rest : forall name, Implements (Reads tokens) behind (next name) (result name)) :
    Implements (Reads tokens) domain (expectIdentifier T message >>= next)
      (Phrases.reading TokenKind.name result) := by
  refine implements_reading rfl ?_ ?_ within rest
  · intro parser kind tail name reads named
    rcases currentSpan_looks reads with ⟨span, looked⟩
    rcases peekKind_looks reads with ⟨found, first, seen⟩
    cases first
    rw [expectIdentifier, ParseM.bind_of_ok looked, ParseM.bind_of_ok seen]
    cases kind <;> cases named
    rfl
  · intro parser kind tail reads unnamed
    rcases currentSpan_looks reads with ⟨span, looked⟩
    rcases peekKind_looks reads with ⟨found, first, seen⟩
    cases first
    rw [expectIdentifier, ParseM.bind_of_ok looked, ParseM.bind_of_ok seen]
    cases kind <;> first | exact ⟨_, rfl⟩ | nomatch unnamed

theorem name_eq_some {kind : TokenKind} {name : String} (named : kind.name = some name) :
    kind = .identifier name := by
  cases kind <;> cases named
  rfl

/-- A continuation for each kind of token. -/
theorem implements_onKind {β : Type} {domain : List TokenKind -> Prop}
    {next : TokenKind -> ParserM β} {result : Phrases TokenKind β}
    (each : forall kind, Implements (Reads tokens)
      (fun input => input.head? = some kind ∧ domain input) (next kind) result) :
    Implements (Reads tokens) domain (peekKind >>= next) result := by
  refine Implements.byNext Reads.nonempty (fun first => ?_)
  refine @Implements.inspect _ _ _ _ _ _ _ _ _ _ (fun kind => kind = first) ?_ ?_
  · intro parser input reads inside
    rcases peekKind_looks reads with ⟨kind, starts, looked⟩
    exact ⟨kind, looked, Option.some.inj (starts.symm.trans inside.1)⟩
  · rintro kind rfl
    exact each kind

theorem implements_currentSpan {β : Type} {domain : List TokenKind -> Prop}
    {next : Span -> ParserM β} {result : Phrases TokenKind β}
    (each : forall span, Implements (Reads tokens) domain (next span) result) :
    Implements (Reads tokens) domain (currentSpan >>= next) result := by
  refine @Implements.inspect _ _ _ _ _ _ _ _ _ _ (fun _ => True) ?_ (fun _ => each _)
  intro parser input reads _
  rcases currentSpan_looks reads with ⟨span, looked⟩
  exact ⟨span, looked, trivial⟩

/-! ## Fuel -/

/-- Inputs with no more tokens than there is fuel. -/
def Within (fuel : Nat) (input : List TokenKind) : Prop :=
  input.length ≤ fuel

theorem Within.after {fuel : Nat} {kind : TokenKind} {rest : List TokenKind}
    (within : Within (fuel + 1) (kind :: rest)) : Within fuel rest :=
  Nat.le_of_succ_le_succ within

theorem Within.tail {fuel : Nat} {kind : TokenKind} {rest : List TokenKind}
    (within : Within fuel (kind :: rest)) : Within fuel rest :=
  Nat.le_of_succ_le within

theorem Within.behind {fuel : Nat} {word rest : List TokenKind}
    (within : Within fuel (word ++ rest)) : Within fuel rest := by
  rw [Within, List.length_append] at within
  exact Nat.le_trans (Nat.le_add_left _ _) within

theorem Within.mono {fuel more : Nat} {input : List TokenKind} (small : fuel ≤ more)
    (within : Within fuel input) : Within more input :=
  Nat.le_trans within small

/-- Without fuel there is no input to fail on. -/
theorem implements_exhausted {α : Type} {parser : ParserM α} {phrases : Phrases TokenKind α} :
    Implements (Reads tokens) (Within 0) parser phrases where
  sound reads within := absurd (List.eq_nil_of_length_eq_zero (Nat.le_zero.mp within))
    reads.nonempty
  complete _ _ _ _ _ reads within := absurd (List.eq_nil_of_length_eq_zero (Nat.le_zero.mp within))
    reads.nonempty
  total reads within := absurd (List.eq_nil_of_length_eq_zero (Nat.le_zero.mp within))
    reads.nonempty

/-! ## Field paths -/

theorem implements_fieldPathLoop (fuel : Nat) (path : String) :
    Implements (Reads tokens) (Within fuel) (fieldPathLoop T fuel path)
      (Derives (.pathTail path)) := by
  induction fuel generalizing path with
  | zero => exact implements_exhausted
  | succ fuel inductionHypothesis =>
      have parsed : Implements (Reads tokens) (Within (fuel + 1))
          (fieldPathLoop T (fuel + 1) path) _ := implements_matchToken (by decide) Within.after
        (implements_expectIdentifier T "Expected nested field identifier after '.'" Within.tail
          (fun sub => inductionHypothesis (path ++ "." ++ sub)))
        (implements_pure path)
      refine Implements.congr parsed ?_
      intro word rest extending token value _
      constructor
      · rintro (⟨behind, rfl, kind, tail, name, rfl, named, derived⟩ |
          ⟨inner, ⟨rfl, rfl, rfl⟩, _, rfl⟩)
        · rw [name_eq_some named]
          exact .pathStep derived
        · exact .pathEnd
      · intro derived
        cases derived with
        | pathEnd => exact Phrases.choose_nil ⟨rfl, rfl, rfl⟩
        | pathStep tail => exact Phrases.choose_present ⟨_, _, _, rfl, rfl, tail⟩

theorem implements_parseFieldPath (fuel : Nat) :
    Implements (Reads tokens) (Within fuel) (parseFieldPath T fuel) (Derives .path) := by
  have parsed : Implements (Reads tokens) (Within fuel) (parseFieldPath T fuel) _ :=
    implements_expectIdentifier T "Expected field name" Within.tail
      (fun name => implements_fieldPathLoop T fuel name)
  refine Implements.congr parsed ?_
  intro word rest extending token value _
  constructor
  · rintro ⟨kind, tail, name, rfl, named, derived⟩
    rw [name_eq_some named]
    exact .path derived
  · intro derived
    cases derived with
    | path tail => exact ⟨_, _, _, rfl, rfl, tail⟩

/-! ## Lists -/

/-- The comma loop reads the lists whose first item is followed by nothing or by
a comma and another list. -/
theorem implements_commaLoop {β : Type} {item : β -> ParserM β} {bound : Nat}
    {one lists : β -> Phrases TokenKind β}
    (items : forall sofar, Implements (Reads tokens) (Within bound) (item sofar) (one sofar))
    (unfolds : forall {sofar list : β} {word extending : List TokenKind},
      Phrases.seq (one sofar)
          (fun more => Phrases.choose .comma (lists more) (Phrases.nothing more))
          word list extending <-> lists sofar word list extending)
    (fuel : Nat) (enough : bound ≤ fuel) (sofar : β) :
    Implements (Reads tokens) (Within bound) (commaLoop item fuel sofar) (lists sofar) := by
  induction fuel generalizing bound sofar with
  | zero =>
      rw [Nat.le_zero.mp enough]
      exact implements_exhausted
  | succ fuel inductionHypothesis =>
      cases bound with
      | zero => exact implements_exhausted
      | succ bound =>
          have again : forall more, Implements (Reads tokens) (Within bound)
              (commaLoop item fuel more) (lists more) :=
            inductionHypothesis (fun sofar => (items sofar).restrict (Within.mono (Nat.le_succ _)))
              (Nat.le_of_succ_le_succ enough)
          have parsed : Implements (Reads tokens) (Within (bound + 1))
              (commaLoop item (fuel + 1) sofar) _ :=
            Implements.bind (items sofar) (fun _ within => Within.behind within)
              (fun more => implements_matchToken (by decide) Within.after (again more)
                (implements_pure more))
          exact Implements.congr parsed (fun _ => unfolds)

theorem implements_closedList {β : Type} {item : β -> ParserM β} {empty : β} {bound fuel : Nat}
    {lists : Phrases TokenKind β} (closing : TokenKind) (inner : closing ≠ .eof)
    (message : String)
    (loop : Implements (Reads tokens) (Within bound) (commaLoop item fuel empty) lists)
    (starts : forall {word extending : List TokenKind} {list : β}, lists word list extending ->
      Exists fun first => Exists fun rest => word = first :: rest ∧ first ≠ closing)
    (ends : forall {word extending : List TokenKind} {list : β}, lists word list extending ->
      closing ∉ extending) :
    Implements (Reads tokens) (Within bound) (closedList T item closing message fuel empty)
      (fun word list extending => extending = [] ∧ ((word = [closing] ∧ list = empty) ∨
        Exists fun items => Exists fun open' =>
          word = items ++ [closing] ∧ lists items list open')) := by
  refine Implements.byNext Reads.nonempty (fun first => ?_)
  have finish : forall list : β, Implements (Reads tokens) (Within bound)
      (expect T closing message >>= fun _ => pure list)
      (Phrases.after closing (Phrases.nothing list)) :=
    fun list => implements_expect T inner message Within.tail (fun _ => implements_pure list)
  by_cases same : first = closing
  · subst same
    have parsed := @Implements.inspect _ _ _ _ _ (Reads tokens)
      (fun input => input.head? = some first ∧ Within bound input)
      (openList item first fuel empty) (fun list => expect T first message >>= fun _ => pure list)
      _ (fun list => list = empty)
      (by
        intro parser input reads inside
        rcases List.head?_eq_some_iff.mp inside.1 with ⟨tail, rfl⟩
        refine ⟨empty, ?_, rfl⟩
        rw [openList, ParseM.bind_of_ok (check_eq first reads), decide_eq_true rfl, if_pos rfl,
          ParseM.pure_apply])
      (by
        rintro list rfl
        exact (finish list).restrict And.right)
    refine Implements.congr parsed ?_
    intro word rest extending token value inside
    constructor
    · rintro ⟨behind, rfl, rfl, rfl, rfl⟩
      exact ⟨rfl, Or.inl ⟨rfl, rfl⟩⟩
    · rintro ⟨rfl, ⟨rfl, rfl⟩ | ⟨items, open', rfl, derived⟩⟩
      · exact ⟨[], rfl, rfl, rfl, rfl⟩
      · rcases starts derived with ⟨head, tail, rfl, other⟩
        exact absurd (Option.some.inj inside.1) other
  · have opened : Implements (Reads tokens)
        (fun input => input.head? = some first ∧ Within bound input)
        (openList item closing fuel empty) lists := by
      refine Implements.of_eq (loop.restrict And.right) ?_
      intro parser input reads inside
      rcases List.head?_eq_some_iff.mp inside.1 with ⟨tail, rfl⟩
      rw [openList, ParseM.bind_of_ok (check_eq closing reads), decide_eq_false same,
        if_neg Bool.false_ne_true]
    have parsed := Implements.bind opened (fun _ inside => Within.behind inside.2) finish
    refine Implements.congr parsed ?_
    intro word rest extending token value inside
    rw [Phrases.seq_after]
    constructor
    · rintro ⟨items, right, list, before, rfl, derived, _, rfl, rfl, rfl⟩
      exact ⟨rfl, Or.inr ⟨items, before, rfl, derived⟩⟩
    · rintro ⟨rfl, ⟨rfl, rfl⟩ | ⟨items, open', rfl, derived⟩⟩
      · exact absurd (Option.some.inj inside.1).symm same
      · exact ⟨items, [], value, open', rfl, derived, ends derived, rfl, rfl, rfl⟩

/-! ## Value literals -/

theorem comma_not_extends_value {word extending : List TokenKind} {value : Value}
    (derived : Derives .value word value extending) : .comma ∉ extending :=
  fun member => nomatch derived.extending_subset member

theorem implements_arrayItem {nested : ParserM Value} {fuel : Nat}
    (inner : Implements (Reads tokens) (Within fuel) nested (Derives .value))
    (list : List Value) :
    Implements (Reads tokens) (Within fuel) (arrayItem nested list)
      (Phrases.seq (Derives .value) (fun item => Phrases.nothing (list ++ [item]))) :=
  Implements.bind inner (fun _ within => Within.behind within) (fun _ => implements_pure _)

theorem values_unfold {sofar list : List Value} {word extending : List TokenKind} :
    Phrases.seq (Phrases.seq (Derives .value) (fun item => Phrases.nothing (sofar ++ [item])))
        (fun more => Phrases.choose .comma (Derives (.values more)) (Phrases.nothing more))
        word list extending <-> Derives (.values sofar) word list extending := by
  simp only [Phrases.seq_choose, Phrases.seq_nothing]
  constructor
  · rintro (⟨inner, ⟨value, item, rfl⟩, rfl⟩ |
      ⟨left, right, more, before, rfl, ⟨value, item, rfl⟩, _, tail⟩)
    · exact .lastValue item
    · exact .moreValues item tail
  · intro derived
    cases derived with
    | lastValue item => exact Or.inl ⟨_, ⟨_, item, rfl⟩, rfl⟩
    | moreValues item more =>
        exact Or.inr ⟨_, _, _, _, rfl, ⟨_, item, rfl⟩, comma_not_extends_value item, more⟩

theorem implements_objectKey {β : Type} {domain behind : List TokenKind -> Prop}
    {next : String -> ParserM β} {result : String -> Phrases TokenKind β}
    (within : forall {kind rest}, domain (kind :: rest) -> behind rest)
    (rest : forall key, Implements (Reads tokens) behind (next key) (result key)) :
    Implements (Reads tokens) domain (objectKey T >>= next)
      (Phrases.reading TokenKind.key result) := by
  refine implements_reading rfl ?_ ?_ within rest
  · intro parser kind tail key reads named
    rcases peekKind_looks reads with ⟨found, first, seen⟩
    cases first
    rw [objectKey, ParseM.bind_of_ok seen]
    cases kind <;> cases named <;> rfl
  · intro parser kind tail reads unnamed
    rcases peekKind_looks reads with ⟨found, first, seen⟩
    rcases currentSpan_looks reads with ⟨span, looked⟩
    cases first
    refine ⟨parseErrorAt
      ("Expected object key string or identifier, found '" ++ kind.debug T ++ "'") span, ?_⟩
    rw [objectKey, ParseM.bind_of_ok seen]
    cases kind <;> first | exact ParseM.bind_of_ok looked | nomatch unnamed

/-- The phrases of one entry, which is put into the object read so far. -/
def entryPhrases (sofar : List (String × Value)) : Phrases TokenKind (List (String × Value)) :=
  Phrases.reading TokenKind.key (fun key => Phrases.after .colon
    (Phrases.seq (Derives .value)
      (fun value => Phrases.nothing (KeyedList.insert compare key value sofar))))

theorem implements_objectItem {nested : ParserM Value} {fuel : Nat}
    (inner : Implements (Reads tokens) (Within fuel) nested (Derives .value))
    (map : List (String × Value)) :
    Implements (Reads tokens) (Within fuel) (objectItem T nested map) (entryPhrases map) :=
  implements_objectKey T Within.tail
    (fun _ => implements_expect T (by decide) "Expected ':' after object key" Within.tail
      (fun _ => Implements.bind inner (fun _ within => Within.behind within)
        (fun _ => implements_pure _)))

theorem entries_unfold {sofar map : List (String × Value)} {word extending : List TokenKind} :
    Phrases.seq (entryPhrases sofar)
        (fun more => Phrases.choose .comma (Derives (.entries more)) (Phrases.nothing more))
        word map extending <-> Derives (.entries sofar) word map extending := by
  simp only [Phrases.seq_choose, entryPhrases, Phrases.reading, Phrases.after, Phrases.seq_nothing]
  constructor
  · rintro (⟨inner, ⟨kind, rest, key, rfl, named, behind, rfl, value, item, rfl⟩, rfl⟩ |
      ⟨left, right, more, before, rfl, ⟨kind, rest, key, rfl, named, behind, rfl, value, item, rfl⟩,
        _, tail⟩)
    · exact .lastEntry named item
    · exact .moreEntries named item tail
  · intro derived
    cases derived with
    | lastEntry named item =>
        exact Or.inl ⟨_, ⟨_, _, _, rfl, named, _, rfl, _, item, rfl⟩, rfl⟩
    | moreEntries named item more =>
        exact Or.inr ⟨_, _, _, _, rfl, ⟨_, _, _, rfl, named, _, rfl, _, item, rfl⟩,
          comma_not_extends_value item, more⟩

theorem valueAt_scalar {nested : ParserM Value} {fuel : Nat} {span : Span} {kind : TokenKind}
    {value : Value} (known : kind.scalar = some value) :
    valueAt T nested fuel span kind = (advance >>= fun _ => pure value) := by
  cases kind <;> cases known <;> rfl

theorem valueAt_other {nested : ParserM Value} {fuel : Nat} {span : Span} {kind : TokenKind}
    (unknown : kind.scalar = none) (noArray : kind ≠ .lBracket) (noObject : kind ≠ .lBrace) :
    Exists fun failure => valueAt T nested fuel span kind = ParseM.fail failure := by
  cases kind <;> first
    | exact ⟨_, rfl⟩
    | exact absurd rfl noArray
    | exact absurd rfl noObject
    | exact absurd unknown (Option.some_ne_none _)

theorem scalar_ne_eof {kind : TokenKind} {value : Value} (known : kind.scalar = some value) :
    kind ≠ .eof := by
  rintro rfl
  nomatch known

section ValueAt

variable {nested : ParserM Value} {fuel : Nat} {span : Span}

theorem implements_valueAt_scalar {kind : TokenKind} {scalar : Value}
    (known : kind.scalar = some scalar) :
    Implements (Reads tokens) (fun input => input.head? = some kind ∧ Within (fuel + 1) input)
      (valueAt T nested (fuel + 1) span kind) (Derives .value) := by
  rw [valueAt_scalar T known]
  refine Implements.congr (implements_advance (scalar_ne_eof known) Within.tail
    (fun _ => implements_pure scalar)) ?_
  intro word rest extending token value inside
  constructor
  · rintro ⟨behind, rfl, rfl, rfl, rfl⟩
    exact .scalar known
  · intro derived
    rcases derived.value_first with ⟨first, tail, rfl, _⟩
    cases inside.1
    rcases derived.value_scalar known with ⟨rfl, rfl, rfl⟩
    exact ⟨[], rfl, rfl, rfl, rfl⟩

theorem implements_valueAt_array
    (inner : Implements (Reads tokens) (Within fuel) nested (Derives .value)) :
    Implements (Reads tokens)
      (fun input => input.head? = some .lBracket ∧ Within (fuel + 1) input)
      (valueAt T nested (fuel + 1) span .lBracket) (Derives .value) := by
  have lists := implements_closedList T .rBracket (by decide) "Expected ']' closing array"
    (implements_commaLoop (implements_arrayItem inner) values_unfold (fuel + 1)
      (Nat.le_succ fuel) [])
    (fun derived => derived.not_first rfl rfl)
    (fun derived member => nomatch derived.extending_subset member)
  refine Implements.congr (implements_advance (by decide) Within.after
    (fun _ => Implements.bind lists (fun _ within => Within.behind within)
      (fun list => implements_pure (Value.array list)))) ?_
  intro word rest extending token value inside
  simp only [Phrases.after, Phrases.seq_nothing]
  constructor
  · rintro ⟨behind, rfl, list, ⟨rfl, ⟨rfl, rfl⟩ | ⟨items, open', rfl, derived⟩⟩, rfl⟩
    · exact .emptyArray
    · exact .array derived
  · intro derived
    cases derived with
    | emptyArray => exact ⟨_, rfl, _, ⟨rfl, Or.inl ⟨rfl, rfl⟩⟩, rfl⟩
    | array items => exact ⟨_, rfl, _, ⟨rfl, Or.inr ⟨_, _, rfl, items⟩⟩, rfl⟩
    | scalar same =>
        cases inside.1
        nomatch same
    | emptyObject | object _ => nomatch inside.1

theorem implements_valueAt_object
    (inner : Implements (Reads tokens) (Within fuel) nested (Derives .value)) :
    Implements (Reads tokens) (fun input => input.head? = some .lBrace ∧ Within (fuel + 1) input)
      (valueAt T nested (fuel + 1) span .lBrace) (Derives .value) := by
  have maps := implements_closedList T .rBrace (by decide) "Expected '\x7d' closing object"
    (implements_commaLoop (implements_objectItem T inner) entries_unfold (fuel + 1)
      (Nat.le_succ fuel) [])
    (fun derived => derived.not_first rfl rfl)
    (fun derived member => nomatch derived.extending_subset member)
  refine Implements.congr (implements_advance (by decide) Within.after
    (fun _ => Implements.bind maps (fun _ within => Within.behind within)
      (fun map => implements_pure (Value.object map)))) ?_
  intro word rest extending token value inside
  simp only [Phrases.after, Phrases.seq_nothing]
  constructor
  · rintro ⟨behind, rfl, map, ⟨rfl, ⟨rfl, rfl⟩ | ⟨items, open', rfl, derived⟩⟩, rfl⟩
    · exact .emptyObject
    · exact .object derived
  · intro derived
    cases derived with
    | emptyObject => exact ⟨_, rfl, _, ⟨rfl, Or.inl ⟨rfl, rfl⟩⟩, rfl⟩
    | object items => exact ⟨_, rfl, _, ⟨rfl, Or.inr ⟨_, _, rfl, items⟩⟩, rfl⟩
    | scalar same =>
        cases inside.1
        nomatch same
    | emptyArray | array _ => nomatch inside.1

theorem implements_valueAt_other {kind : TokenKind} (unknown : kind.scalar = none)
    (noArray : kind ≠ .lBracket) (noObject : kind ≠ .lBrace) :
    Implements (Reads tokens) (fun input => input.head? = some kind ∧ Within (fuel + 1) input)
      (valueAt T nested (fuel + 1) span kind) (Derives .value) := by
  rcases valueAt_other T unknown noArray noObject with ⟨failure, failed⟩
  rw [failed]
  refine Implements.congr (Implements.fail failure) ?_
  intro word rest extending token value inside
  constructor
  · exact False.elim
  · intro derived
    cases derived with
    | scalar same =>
        cases inside.1
        rw [same] at unknown
        nomatch unknown
    | emptyArray | array _ => exact noArray (Option.some.inj inside.1).symm
    | emptyObject | object _ => exact noObject (Option.some.inj inside.1).symm

end ValueAt

theorem implements_parseValueLiteral (fuel : Nat) :
    Implements (Reads tokens) (Within fuel) (parseValueLiteral T fuel) (Derives .value) := by
  induction fuel with
  | zero => exact implements_exhausted
  | succ fuel inductionHypothesis =>
      refine implements_currentSpan (fun span => implements_onKind (fun kind => ?_))
      cases known : kind.scalar with
      | some scalar => exact implements_valueAt_scalar T known
      | none =>
          by_cases isArray : kind = .lBracket
          · rw [isArray]
            exact implements_valueAt_array T inductionHypothesis
          · by_cases isObject : kind = .lBrace
            · rw [isObject]
              exact implements_valueAt_object T inductionHypothesis
            · exact implements_valueAt_other T known isArray isObject

/-! ## Primary and unary expressions -/

section PrimaryAt

variable {nested : ParserM Expr} {fuel : Nat} {span : Span}

theorem primaryAt_scalar {kind : TokenKind} {value : Value} (known : kind.scalar = some value) :
    primaryAt T nested fuel span kind = (advance >>= fun _ => pure (.literal value)) := by
  cases kind <;> cases known <;> rfl

theorem implements_primaryAt_scalar {kind : TokenKind} {scalar : Value}
    (known : kind.scalar = some scalar) :
    Implements (Reads tokens) (fun input => input.head? = some kind ∧ Within fuel input)
      (primaryAt T nested fuel span kind) (Derives (.expr .primary)) := by
  rw [primaryAt_scalar T known]
  refine Implements.congr (implements_advance (scalar_ne_eof known) Within.tail
    (fun _ => implements_pure (Expr.literal scalar))) ?_
  intro word rest extending token value inside
  constructor
  · rintro ⟨behind, rfl, rfl, rfl, rfl⟩
    exact .literal (.scalar known)
  · intro derived
    cases derived with
    | literal inner =>
        rcases inner.value_first with ⟨first, tail, rfl, _⟩
        cases inside.1
        rcases inner.value_scalar known with ⟨rfl, rfl, rfl⟩
        exact ⟨[], rfl, rfl, rfl, rfl⟩
    | field inner =>
        rcases inner.path_first with ⟨name, tail, rfl⟩
        cases inside.1
        nomatch known
    | group inner =>
        cases inside.1
        nomatch known

theorem implements_primaryAt_field (name : String) :
    Implements (Reads tokens)
      (fun input => input.head? = some (.identifier name) ∧ Within fuel input)
      (primaryAt T nested fuel span (.identifier name)) (Derives (.expr .primary)) := by
  refine Implements.congr (Implements.bind
    ((implements_parseFieldPath T fuel).restrict And.right)
    (fun _ inside => Within.behind inside.2) (fun path => implements_pure (Expr.field path))) ?_
  intro word rest extending token value inside
  rw [Phrases.seq_nothing]
  constructor
  · rintro ⟨path, derived, rfl⟩
    exact .field derived
  · intro derived
    cases derived with
    | field inner => exact ⟨_, inner, rfl⟩
    | literal inner =>
        rcases inner.value_first with ⟨first, tail, rfl, starts⟩
        cases inside.1
        rcases starts with scalar | other | other
        · exact absurd rfl scalar
        · nomatch other
        · nomatch other
    | group inner => nomatch inside.1

theorem implements_primaryAt_group
    (inner : Implements (Reads tokens) (Within fuel) nested
      (Derives (.expr (.chain .disjunction)))) :
    Implements (Reads tokens) (fun input => input.head? = some .lParen ∧ Within (fuel + 1) input)
      (primaryAt T nested (fuel + 1) span .lParen) (Derives (.expr .primary)) := by
  refine Implements.congr (implements_advance (by decide) Within.after
    (fun _ => Implements.bind inner (fun _ within => Within.behind within)
      (fun expr => implements_expect T (by decide) "Expected ')' closing expression" Within.tail
        (fun _ => implements_pure expr)))) ?_
  intro word rest extending token value inside
  simp only [Phrases.after, Phrases.seq_after]
  constructor
  · rintro ⟨behind, rfl, left, right, expr, before, rfl, derived, _, rfl, rfl, rfl⟩
    exact .group derived
  · intro derived
    cases derived with
    | group inner =>
        have clear : TokenKind.rParen ∉ (Level.chain .disjunction).extensions := by decide
        exact ⟨_, rfl, _, [], _, _, rfl, inner,
          fun member => clear (inner.extending_subset member), rfl, rfl, rfl⟩
    | field inner =>
        rcases inner.path_first with ⟨name, tail, rfl⟩
        nomatch inside.1
    | literal inner =>
        rcases inner.value_first with ⟨first, tail, rfl, starts⟩
        cases inside.1
        rcases starts with scalar | other | other
        · exact absurd rfl scalar
        · nomatch other
        · nomatch other

theorem implements_primaryAt_literal {kind : TokenKind}
    (bracket : kind = .lBracket ∨ kind = .lBrace) :
    Implements (Reads tokens) (fun input => input.head? = some kind ∧ Within fuel input)
      (primaryAt T nested fuel span kind) (Derives (.expr .primary)) := by
  have body : primaryAt T nested fuel span kind =
      (parseValueLiteral T fuel >>= fun val => pure (.literal val)) := by
    rcases bracket with rfl | rfl
    · rfl
    · rfl
  rw [body]
  refine Implements.congr (Implements.bind
    ((implements_parseValueLiteral T fuel).restrict And.right)
    (fun _ inside => Within.behind inside.2) (fun val => implements_pure (Expr.literal val))) ?_
  intro word rest extending token value inside
  rw [Phrases.seq_nothing]
  constructor
  · rintro ⟨value, derived, rfl⟩
    exact .literal derived
  · intro derived
    cases derived with
    | literal inner => exact ⟨_, inner, rfl⟩
    | field inner =>
        rcases inner.path_first with ⟨name, tail, rfl⟩
        rcases bracket with rfl | rfl
        · nomatch inside.1
        · nomatch inside.1
    | group inner =>
        rcases bracket with rfl | rfl
        · nomatch inside.1
        · nomatch inside.1

theorem primaryAt_other {kind : TokenKind} (unknown : kind.scalar = none)
    (noName : kind.name = none) (noArray : kind ≠ .lBracket) (noObject : kind ≠ .lBrace)
    (noGroup : kind ≠ .lParen) :
    Exists fun failure => primaryAt T nested fuel span kind = ParseM.fail failure := by
  cases kind <;> first
    | exact ⟨_, rfl⟩
    | exact absurd rfl noArray
    | exact absurd rfl noObject
    | exact absurd rfl noGroup
    | exact absurd noName (Option.some_ne_none _)
    | exact absurd unknown (Option.some_ne_none _)

theorem implements_primaryAt_other {kind : TokenKind} (unknown : kind.scalar = none)
    (noName : kind.name = none) (noArray : kind ≠ .lBracket) (noObject : kind ≠ .lBrace)
    (noGroup : kind ≠ .lParen) :
    Implements (Reads tokens) (fun input => input.head? = some kind ∧ Within fuel input)
      (primaryAt T nested fuel span kind) (Derives (.expr .primary)) := by
  rcases primaryAt_other T unknown noName noArray noObject noGroup with ⟨failure, failed⟩
  rw [failed]
  refine Implements.congr (Implements.fail failure) ?_
  intro word rest extending token value inside
  constructor
  · exact False.elim
  · intro derived
    cases derived with
    | literal inner =>
        rcases inner.value_first with ⟨first, tail, rfl, starts⟩
        cases inside.1
        rcases starts with scalar | other | other
        · exact absurd unknown scalar
        · exact absurd other noArray
        · exact absurd other noObject
    | field inner =>
        rcases inner.path_first with ⟨name, tail, rfl⟩
        cases inside.1
        nomatch noName
    | group inner => exact noGroup (Option.some.inj inside.1).symm

end PrimaryAt

theorem implements_parsePrimary {nested : ParserM Expr} {fuel : Nat}
    (inner : Implements (Reads tokens) (Within fuel) nested
      (Derives (.expr (.chain .disjunction)))) :
    Implements (Reads tokens) (Within (fuel + 1)) (parsePrimary T nested (fuel + 1))
      (Derives (.expr .primary)) := by
  refine implements_currentSpan (fun span => implements_onKind (fun kind => ?_))
  cases known : kind.scalar with
  | some scalar => exact implements_primaryAt_scalar T known
  | none =>
      cases named : kind.name with
      | some name =>
          rw [name_eq_some named]
          exact implements_primaryAt_field T name
      | none =>
          by_cases isArray : kind = .lBracket
          · exact implements_primaryAt_literal T (Or.inl isArray)
          · by_cases isObject : kind = .lBrace
            · exact implements_primaryAt_literal T (Or.inr isObject)
            · by_cases isGroup : kind = .lParen
              · rw [isGroup]
                exact implements_primaryAt_group T inner
              · exact implements_primaryAt_other T known named isArray isObject isGroup

theorem implements_parseUnary {primary : ParserM Expr} {bound : Nat}
    (base : Implements (Reads tokens) (Within bound) primary (Derives (.expr .primary)))
    (fuel : Nat) (enough : bound ≤ fuel) :
    Implements (Reads tokens) (Within bound) (parseUnary primary fuel)
      (Derives (.expr .unary)) := by
  induction fuel generalizing bound with
  | zero =>
      rw [Nat.le_zero.mp enough]
      exact implements_exhausted
  | succ fuel inductionHypothesis =>
      cases bound with
      | zero => exact implements_exhausted
      | succ bound =>
          have again : Implements (Reads tokens) (Within bound) (parseUnary primary fuel)
              (Derives (.expr .unary)) :=
            inductionHypothesis (base.restrict (Within.mono (Nat.le_succ _)))
              (Nat.le_of_succ_le_succ enough)
          have signed : forall op : UnaryOp, Implements (Reads tokens) (Within bound)
              (parseUnary primary fuel >>= fun expr => pure (Expr.unary op expr)) _ :=
            fun op => Implements.bind again (fun _ within => Within.behind within)
              (fun expr => implements_pure (Expr.unary op expr))
          have parsed : Implements (Reads tokens) (Within (bound + 1))
              (parseUnary primary (fuel + 1)) _ :=
            implements_matchToken (by decide) Within.after (signed .not)
              (implements_matchToken (by decide) Within.after (signed .not)
                (implements_matchToken (by decide) Within.after (signed .negate) base))
          refine Implements.congr parsed ?_
          intro word rest extending token value _
          constructor
          · rintro (⟨tail, rfl, inner⟩ | ⟨_, ⟨tail, rfl, inner⟩ | ⟨_, ⟨tail, rfl, inner⟩ |
              ⟨_, inner, _, rfl⟩, _, rfl⟩, _, rfl⟩)
            · rcases Phrases.seq_nothing.mp inner with ⟨expr, derived, rfl⟩
              exact .not (Or.inl rfl) derived
            · rcases Phrases.seq_nothing.mp inner with ⟨expr, derived, rfl⟩
              exact .not (Or.inr rfl) derived
            · rcases Phrases.seq_nothing.mp inner with ⟨expr, derived, rfl⟩
              exact .negate derived
            · rcases inner.primary_first with ⟨first, tail, rfl, _⟩
              exact .operand inner
          · intro derived
            cases derived with
            | not sign inner =>
                rcases sign with rfl | rfl
                · exact Phrases.choose_present (Phrases.seq_nothing.mpr ⟨_, inner, rfl⟩)
                · exact Phrases.choose_absent nofun
                    (Phrases.choose_present (Phrases.seq_nothing.mpr ⟨_, inner, rfl⟩))
            | negate inner =>
                exact Phrases.choose_absent nofun (Phrases.choose_absent nofun
                  (Phrases.choose_present (Phrases.seq_nothing.mpr ⟨_, inner, rfl⟩)))
            | operand inner =>
                rcases inner.primary_first with ⟨first, tail, rfl, noNot, noBang, noMinus⟩
                exact Phrases.choose_absent noNot
                  (Phrases.choose_absent noBang (Phrases.choose_absent noMinus inner))

/-! ## Operators -/

/-- One of the tokens of a table, or none of them. -/
def operatorPhrases (table : List (TokenKind × BinaryOp)) :
    Phrases TokenKind (Option BinaryOp) :=
  fun word found extending =>
    (Exists fun token => Exists fun op => (token, op) ∈ table ∧ word = [token] ∧
      found = some op ∧ extending = []) ∨
    (word = [] ∧ found = none ∧ extending = table.map Prod.fst)

/-- The operators of a table tried in order. -/
def tokenTable : List (TokenKind × BinaryOp) -> ParserM (Option BinaryOp)
  | [] => pure none
  | (token, op) :: table => do
      if <- matchToken token then pure (some op) else tokenTable table

theorem implements_tokenTable {domain : List TokenKind -> Prop}
    {table : List (TokenKind × BinaryOp)}
    (distinct : (TokenKind.eof :: table.map Prod.fst).Nodup) :
    Implements (Reads tokens) domain (tokenTable table) (operatorPhrases table) := by
  induction table generalizing domain with
  | nil =>
      refine Implements.congr (implements_pure none) ?_
      intro word rest extending token found _
      constructor
      · exact Or.inr
      · rintro (⟨_, _, member, _⟩ | none)
        · nomatch member
        · exact none
  | cons entry table inductionHypothesis =>
      rcases entry with ⟨first, op⟩
      rw [List.map_cons, List.nodup_cons, List.nodup_cons, List.mem_cons, not_or] at distinct
      rcases distinct with ⟨⟨notEnd, endLater⟩, notLater, later⟩
      have parsed : Implements (Reads tokens) domain (tokenTable ((first, op) :: table)) _ :=
        implements_matchToken (Ne.symm notEnd) (fun {_} _ => trivial)
          (implements_pure (some op))
          (inductionHypothesis (List.nodup_cons.mpr ⟨endLater, later⟩))
      refine Implements.congr parsed ?_
      intro word rest extending token found _
      constructor
      · rintro (⟨tail, rfl, rfl, rfl, rfl⟩ |
          ⟨_, ⟨other, sign, member, rfl, rfl, rfl⟩ | ⟨rfl, rfl, rfl⟩, _, rfl⟩)
        · exact Or.inl ⟨first, op, List.mem_cons_self, rfl, rfl, rfl⟩
        · exact Or.inl ⟨other, sign, List.mem_cons_of_mem _ member, rfl, rfl, rfl⟩
        · exact Or.inr ⟨rfl, rfl, rfl⟩
      · rintro (⟨other, sign, member, rfl, rfl, rfl⟩ | ⟨rfl, rfl, rfl⟩)
        · rcases List.mem_cons.mp member with same | later
          · cases same
            exact Phrases.choose_present ⟨rfl, rfl, rfl⟩
          · have different : other ≠ first := by
              rintro rfl
              exact notLater (List.mem_map.mpr ⟨_, later, rfl⟩)
            exact Phrases.choose_absent different (Or.inl ⟨other, sign, later, rfl, rfl, rfl⟩)
        · exact Phrases.choose_nil (Or.inr ⟨rfl, rfl, rfl⟩)

theorem tokenTable_bind {β : Type} (token : TokenKind) (op : BinaryOp)
    (table : List (TokenKind × BinaryOp)) (next : Option BinaryOp -> ParserM β) :
    (tokenTable ((token, op) :: table) >>= next) =
      (matchToken token >>= fun found =>
        if found then next (some op) else tokenTable table >>= next) := by
  rw [tokenTable, ParseM.bind_assoc]
  congr 1
  funext found
  cases found <;> rfl

theorem tokenTable_present {kind : TokenKind} {op : BinaryOp} {parser next : Parser}
    {token : Token} {rest : List TokenKind} {table : List (TokenKind × BinaryOp)}
    (reads : Reads tokens parser (kind :: rest)) (advanced : advance parser = .ok token next) :
    tokenTable ((kind, op) :: table) parser = .ok (some op) next := by
  rw [tokenTable, ParseM.bind_of_ok (matchToken_advance reads advanced), if_pos rfl,
    ParseM.pure_apply]

theorem tokenTable_absent {kind other : TokenKind} {op : BinaryOp} {parser : Parser}
    {rest : List TokenKind} {table : List (TokenKind × BinaryOp)}
    (reads : Reads tokens parser (kind :: rest)) (different : kind ≠ other) :
    tokenTable ((other, op) :: table) parser = tokenTable table parser := by
  rw [tokenTable, ParseM.bind_of_ok (matchToken_skips reads different),
    if_neg Bool.false_ne_true]

theorem implements_additiveOperator {domain : List TokenKind -> Prop} :
    Implements (Reads tokens) domain additiveOperator
      (operatorPhrases Chain.additive.operators) := by
  refine Implements.of_eq (implements_tokenTable (by decide)) ?_
  intro parser input reads _
  rcases List.exists_cons_of_ne_nil reads.nonempty with ⟨kind, rest, rfl⟩
  rw [additiveOperator, ParseM.bind_of_ok (check_eq .plus reads),
    ParseM.bind_of_ok (check_eq .minus reads), Chain.operators]
  by_cases plus : kind = .plus
  · subst plus
    rcases advance_takes (by decide) reads with ⟨token, next, advanced, _⟩
    rw [if_pos (by decide), ParseM.bind_of_ok (matchToken_advance reads advanced), if_pos rfl,
      ParseM.pure_apply, tokenTable_present reads advanced]
  · rw [tokenTable_absent reads plus]
    by_cases minus : kind = .minus
    · subst minus
      rcases advance_takes (by decide) reads with ⟨token, next, advanced, _⟩
      rw [if_pos (by decide), ParseM.bind_of_ok (matchToken_skips reads plus),
        if_neg Bool.false_ne_true, ParseM.bind_of_ok advanced, ParseM.pure_apply,
        tokenTable_present reads advanced]
    · rw [tokenTable_absent reads minus, decide_eq_false plus, decide_eq_false minus]
      rfl

theorem implements_multiplicativeOperator {domain : List TokenKind -> Prop} :
    Implements (Reads tokens) domain multiplicativeOperator
      (operatorPhrases Chain.multiplicative.operators) := by
  refine Implements.of_eq (implements_tokenTable (by decide)) ?_
  intro parser input reads _
  rcases List.exists_cons_of_ne_nil reads.nonempty with ⟨kind, rest, rfl⟩
  rw [multiplicativeOperator, ParseM.bind_of_ok (check_eq .star reads),
    ParseM.bind_of_ok (check_eq .slash reads), ParseM.bind_of_ok (check_eq .percent reads),
    Chain.operators]
  by_cases star : kind = .star
  · subst star
    rcases advance_takes (by decide) reads with ⟨token, next, advanced, _⟩
    rw [if_pos (by decide), ParseM.bind_of_ok (matchToken_advance reads advanced), if_pos rfl,
      ParseM.pure_apply, tokenTable_present reads advanced]
  · rw [tokenTable_absent reads star]
    by_cases slash : kind = .slash
    · subst slash
      rcases advance_takes (by decide) reads with ⟨token, next, advanced, _⟩
      rw [if_pos (by decide), ParseM.bind_of_ok (matchToken_skips reads star),
        if_neg Bool.false_ne_true, ParseM.bind_of_ok (matchToken_advance reads advanced),
        if_pos rfl, ParseM.pure_apply, tokenTable_present reads advanced]
    · rw [tokenTable_absent reads slash]
      by_cases percent : kind = .percent
      · subst percent
        rcases advance_takes (by decide) reads with ⟨token, next, advanced, _⟩
        rw [if_pos (by decide), ParseM.bind_of_ok (matchToken_skips reads star),
          if_neg Bool.false_ne_true, ParseM.bind_of_ok (matchToken_skips reads slash),
          if_neg Bool.false_ne_true, ParseM.bind_of_ok advanced, ParseM.pure_apply,
          tokenTable_present reads advanced]
      · rw [tokenTable_absent reads percent, decide_eq_false star, decide_eq_false slash,
          decide_eq_false percent]
        rfl

theorem implements_conjunctionOperator {domain : List TokenKind -> Prop} :
    Implements (Reads tokens) domain (eitherToken .and .ampAmp .and)
      (operatorPhrases Chain.conjunction.operators) :=
  @implements_tokenTable tokens domain Chain.conjunction.operators (by decide)

theorem implements_disjunctionOperator {domain : List TokenKind -> Prop} :
    Implements (Reads tokens) domain (eitherToken .or .pipePipe .or)
      (operatorPhrases Chain.disjunction.operators) :=
  @implements_tokenTable tokens domain Chain.disjunction.operators (by decide)

/-! ## Chains of operators -/

/-- What follows the operator that was found. -/
def chainNext (chain : Chain) (left : Expr) : Option BinaryOp -> Phrases TokenKind Expr
  | none => Phrases.nothing left
  | some op => Phrases.seq (Derives (.expr chain.operand))
      (fun right => Derives (.chainTail chain (.binary op left right)))

theorem chainTail_unfold {chain : Chain} {left expr : Expr} {word extending : List TokenKind} :
    Phrases.seq (operatorPhrases chain.operators) (chainNext chain left) word expr extending <->
      Derives (.chainTail chain left) word expr extending := by
  constructor
  · rintro ⟨sign, rest, found, before, behind, rfl,
      ⟨token, op, member, rfl, rfl, rfl⟩ | ⟨rfl, rfl, rfl⟩, next, _, rfl⟩
    · rcases next with ⟨operand, tail, right, inner, outer, rfl, derived, more, _, rfl⟩
      rw [carry_closed]
      exact .chainStep member derived more
    · rcases next with ⟨rfl, rfl, rfl⟩
      rw [carry_nil, List.append_nil, List.append_nil]
      exact .chainEnd
  · intro derived
    cases derived with
    | chainEnd =>
        refine ⟨[], [], none, _, [], rfl, Or.inr ⟨rfl, rfl, rfl⟩, ⟨rfl, rfl, rfl⟩, nofun, ?_⟩
        rw [carry_nil, List.append_nil]
    | chainStep member operand more =>
        refine ⟨[_], _, some _, [], _, rfl, Or.inl ⟨_, _, member, rfl, rfl, rfl⟩,
          ⟨_, _, _, _, _, rfl, operand, more, fun token => operand.chainTail_clear more, rfl⟩,
          fun _ _ => List.not_mem_nil, (carry_closed _ _).symm⟩

theorem implements_chainLoop {chain : Chain} {operator : ParserM (Option BinaryOp)}
    {operand : ParserM Expr} {bound : Nat}
    (signs : forall {domain}, Implements (Reads tokens) domain operator
      (operatorPhrases chain.operators))
    (operands : Implements (Reads tokens) (Within bound) operand
      (Derives (.expr chain.operand)))
    (fuel : Nat) (enough : bound ≤ fuel) (left : Expr) :
    Implements (Reads tokens) (Within bound) (chainLoop operator operand fuel left)
      (Derives (.chainTail chain left)) := by
  induction fuel generalizing bound left with
  | zero =>
      rw [Nat.le_zero.mp enough]
      exact implements_exhausted
  | succ fuel inductionHypothesis =>
      cases bound with
      | zero => exact implements_exhausted
      | succ bound =>
          have fewer := operands.restrict (Within.mono (Nat.le_succ bound))
          have again := inductionHypothesis fewer (Nat.le_of_succ_le_succ enough)
          -- The loop goes on behind an operator only, with one token fewer.
          refine Implements.congr (@Implements.bind _ _ _ _ _ _ _ _ _ _ (chainNext chain left)
            (fun found => match found with
              | none => Within (bound + 1)
              | some _ => Within bound) signs ?_ ?_) (fun _ => chainTail_unfold)
          · rintro word rest extending token found
              (⟨sign, op, _, rfl, rfl, rfl⟩ | ⟨rfl, rfl, rfl⟩) within
            · exact Within.after within
            · exact within
          · intro found
            cases found with
            | none => exact implements_pure left
            | some op =>
                exact Implements.bind fewer (fun _ within => Within.behind within)
                  (fun right => again (.binary op left right))

/-- A level of left-associative operators. -/
theorem implements_chain {chain : Chain} {operator : ParserM (Option BinaryOp)}
    {operand : ParserM Expr} {fuel : Nat}
    (signs : forall {domain}, Implements (Reads tokens) domain operator
      (operatorPhrases chain.operators))
    (operands : Implements (Reads tokens) (Within fuel) operand
      (Derives (.expr chain.operand))) :
    Implements (Reads tokens) (Within fuel)
      (operand >>= fun left => chainLoop operator operand fuel left)
      (Derives (.expr (.chain chain))) := by
  refine Implements.congr (Implements.bind operands (fun _ within => Within.behind within)
    (fun left => implements_chainLoop signs operands fuel (Nat.le_refl fuel) left)) ?_
  intro word rest extending token value _
  constructor
  · rintro ⟨first, tail, left, before, behind, rfl, derived, more, _, rfl⟩
    exact .chain derived more
  · intro derived
    cases derived with
    | chain first tail =>
        exact ⟨_, _, _, _, _, rfl, first, tail, fun token => first.chainTail_clear tail, rfl⟩

/-! ## Comparisons -/

theorem implements_listItem {nested : ParserM Expr} {fuel : Nat}
    (inner : Implements (Reads tokens) (Within fuel) nested
      (Derives (.expr (.chain .disjunction)))) (list : List Expr) :
    Implements (Reads tokens) (Within fuel) (listItem nested list)
      (Phrases.seq (Derives (.expr (.chain .disjunction)))
        (fun item => Phrases.nothing (list ++ [item]))) :=
  Implements.bind inner (fun _ within => Within.behind within) (fun _ => implements_pure _)

theorem exprs_unfold {sofar list : List Expr} {word extending : List TokenKind} :
    Phrases.seq (Phrases.seq (Derives (.expr (.chain .disjunction)))
          (fun item => Phrases.nothing (sofar ++ [item])))
        (fun more => Phrases.choose .comma (Derives (.exprs more)) (Phrases.nothing more))
        word list extending <-> Derives (.exprs sofar) word list extending := by
  have clear : TokenKind.comma ∉ (Level.chain .disjunction).extensions := by decide
  simp only [Phrases.seq_choose, Phrases.seq_nothing]
  constructor
  · rintro (⟨inner, ⟨value, item, rfl⟩, rfl⟩ |
      ⟨left, right, more, before, rfl, ⟨value, item, rfl⟩, _, tail⟩)
    · exact .lastExpr item
    · exact .moreExprs item tail
  · intro derived
    cases derived with
    | lastExpr item => exact Or.inl ⟨_, ⟨_, item, rfl⟩, rfl⟩
    | moreExprs item more =>
        exact Or.inr ⟨_, _, _, _, rfl, ⟨_, item, rfl⟩,
          fun member => clear (item.extending_subset member), more⟩

/-- What follows the left operand when no comparison operator does. -/
def rangeTail (additive nested : ParserM Expr) (fuel : Nat) (left : Expr) : ParserM Expr := do
  if <- matchToken .between then betweenTail T additive left
  else if <- matchToken .inKeyword then inTail T nested fuel left
  else pure left

theorem comparisonTail_eq (additive nested : ParserM Expr) (fuel : Nat) (left : Expr) :
    comparisonTail T additive nested fuel left =
      (tokenTable comparators >>= fun found => match found with
        | none => rangeTail T additive nested fuel left
        | some op => comparedWith additive op left) := by
  simp only [comparators, tokenTable_bind]
  rfl

section ComparisonTail

variable {additive nested : ParserM Expr} {fuel : Nat} {left : Expr}

theorem implements_comparedWith (op : BinaryOp)
    (operands : Implements (Reads tokens) (Within fuel) additive
      (Derives (.expr (.chain .additive)))) :
    Implements (Reads tokens) (Within fuel) (comparedWith additive op left)
      (Phrases.seq (Derives (.expr (.chain .additive)))
        (fun right => Phrases.nothing (.binary op left right))) :=
  Implements.bind operands (fun _ within => Within.behind within) (fun _ => implements_pure _)

theorem implements_betweenTail
    (operands : Implements (Reads tokens) (Within fuel) additive
      (Derives (.expr (.chain .additive)))) :
    Implements (Reads tokens) (Within fuel) (betweenTail T additive left)
      (Phrases.seq (Derives (.expr (.chain .additive))) (fun min => Phrases.after .and
        (Phrases.seq (Derives (.expr (.chain .additive)))
          (fun max => Phrases.nothing (.between left min max))))) :=
  Implements.bind operands (fun _ within => Within.behind within)
    (fun _ => implements_expect T (by decide) "Expected AND in BETWEEN expression" Within.tail
      (fun _ => Implements.bind operands (fun _ within => Within.behind within)
        (fun _ => implements_pure _)))

/-- The phrases of an IN list with its parentheses. -/
def inPhrases (left : Expr) : Phrases TokenKind Expr :=
  fun word expr extending => extending = [] ∧
    ((word = [.lParen, .rParen] ∧ expr = .isIn left []) ∨
      Exists fun items => Exists fun list => Exists fun open' =>
        word = .lParen :: (items ++ [.rParen]) ∧ Derives (.exprs []) items list open' ∧
          expr = .isIn left list)

theorem implements_inTail
    (inner : Implements (Reads tokens) (Within fuel) nested
      (Derives (.expr (.chain .disjunction)))) :
    Implements (Reads tokens) (Within fuel) (inTail T nested (fuel + 1) left)
      (inPhrases left) := by
  have clear : TokenKind.rParen ∉ (Phrase.exprs []).extensions := by decide
  have lists := implements_closedList T .rParen (by decide) "Expected ')' closing IN list"
    (implements_commaLoop (implements_listItem inner) exprs_unfold (fuel + 1)
      (Nat.le_succ fuel) [])
    (fun derived => derived.not_first rfl rfl)
    (fun derived member => clear (derived.extending_subset member))
  refine Implements.congr (implements_expect T (by decide) "Expected '(' after IN" Within.tail
    (fun _ => Implements.bind lists (fun _ within => Within.behind within)
      (fun list => implements_pure (Expr.isIn left list)))) ?_
  intro word rest extending token value _
  simp only [Phrases.after, Phrases.seq_nothing, inPhrases]
  constructor
  · rintro ⟨behind, rfl, list, ⟨rfl, ⟨rfl, rfl⟩ | ⟨items, open', rfl, derived⟩⟩, rfl⟩
    · exact ⟨rfl, Or.inl ⟨rfl, rfl⟩⟩
    · exact ⟨rfl, Or.inr ⟨items, list, open', rfl, derived, rfl⟩⟩
  · rintro ⟨rfl, ⟨rfl, rfl⟩ | ⟨items, list, open', rfl, derived, rfl⟩⟩
    · exact ⟨_, rfl, _, ⟨rfl, Or.inl ⟨rfl, rfl⟩⟩, rfl⟩
    · exact ⟨_, rfl, _, ⟨rfl, Or.inr ⟨_, _, rfl, derived⟩⟩, rfl⟩

/-- What follows the comparison operator that was found, or its absence. -/
def comparisonNext (left : Expr) : Option BinaryOp -> Phrases TokenKind Expr
  | none => Phrases.choose .between
      (Phrases.seq (Derives (.expr (.chain .additive))) (fun min => Phrases.after .and
        (Phrases.seq (Derives (.expr (.chain .additive)))
          (fun max => Phrases.nothing (.between left min max)))))
      (Phrases.choose .inKeyword (inPhrases left) (Phrases.nothing left))
  | some op => Phrases.seq (Derives (.expr (.chain .additive)))
      (fun right => Phrases.nothing (.binary op left right))

/-- A tail without a comparison operator starts with another word. -/
theorem seq_of_absent {token : TokenKind} {word extending : List TokenKind} {expr : Expr}
    (other : token ∉ comparators.map Prod.fst)
    (phrase : comparisonNext left none (token :: word) expr extending) :
    Phrases.seq (operatorPhrases comparators) (comparisonNext left) (token :: word) expr
      extending := by
  refine ⟨[], token :: word, none, _, extending, rfl, Or.inr ⟨rfl, rfl, rfl⟩, phrase, ?_, rfl⟩
  intro first starts
  rw [← Option.some.inj starts]
  exact other

theorem comparisonTail_unfold {expr : Expr} {word extending : List TokenKind} :
    Phrases.seq (operatorPhrases comparators) (comparisonNext left) word expr extending <->
      Derives (.comparisonTail left) word expr extending := by
  constructor
  · rintro ⟨sign, rest, found, before, behind, rfl,
      ⟨token, op, member, rfl, rfl, rfl⟩ | ⟨rfl, rfl, rfl⟩, next, _, rfl⟩
    · rcases Phrases.seq_nothing.mp next with ⟨right, derived, rfl⟩
      rw [carry_closed]
      exact .compared member derived
    · rcases next with ⟨tail, rfl, range⟩ | ⟨_, ⟨tail, rfl, rfl, listed⟩ | ⟨_, ⟨rfl, rfl, rfl⟩, _,
        rfl⟩, _, rfl⟩
      · rcases Phrases.seq_after.mp range with ⟨first, second, min, _, rfl, lower, _, inner⟩
        rcases Phrases.seq_nothing.mp inner with ⟨max, upper, rfl⟩
        exact .between lower upper
      · rcases listed with ⟨rfl, rfl⟩ | ⟨items, list, _, rfl, derived, rfl⟩
        · exact .inNothing
        · exact .inList derived
      · exact .alone
  · intro derived
    cases derived with
    | alone =>
        exact ⟨[], [], none, _, _, rfl, Or.inr ⟨rfl, rfl, rfl⟩,
          Phrases.choose_nil (Phrases.choose_nil ⟨rfl, rfl, rfl⟩), nofun, rfl⟩
    | compared member operand =>
        exact ⟨[_], _, some _, [], _, rfl, Or.inl ⟨_, _, member, rfl, rfl, rfl⟩,
          Phrases.seq_nothing.mpr ⟨_, operand, rfl⟩, fun _ _ => List.not_mem_nil,
          (carry_closed _ _).symm⟩
    | between lower upper =>
        have clear : TokenKind.and ∉ (Level.chain .additive).extensions := by decide
        exact seq_of_absent (by decide) (Phrases.choose_present (Phrases.seq_after.mpr
          ⟨_, _, _, _, rfl, lower, fun member => clear (lower.extending_subset member),
            Phrases.seq_nothing.mpr ⟨_, upper, rfl⟩⟩))
    | inNothing =>
        exact seq_of_absent (by decide) (Phrases.choose_absent nofun
          (Phrases.choose_present ⟨rfl, Or.inl ⟨rfl, rfl⟩⟩))
    | inList items =>
        exact seq_of_absent (by decide) (Phrases.choose_absent nofun
          (Phrases.choose_present ⟨rfl, Or.inr ⟨_, _, _, rfl, items, rfl⟩⟩))

theorem implements_comparisonTail
    (operands : Implements (Reads tokens) (Within (fuel + 1)) additive
      (Derives (.expr (.chain .additive))))
    (inner : Implements (Reads tokens) (Within fuel) nested
      (Derives (.expr (.chain .disjunction)))) (left : Expr) :
    Implements (Reads tokens) (Within (fuel + 1))
      (comparisonTail T additive nested (fuel + 1) left) (Derives (.comparisonTail left)) := by
  have fewer := operands.restrict (Within.mono (Nat.le_succ fuel))
  rw [comparisonTail_eq]
  refine Implements.congr (@Implements.bind _ _ _ _ _ _ _ _ _ _ (comparisonNext left)
    (fun found => match found with
      | none => Within (fuel + 1)
      | some _ => Within fuel) (implements_tokenTable (by decide)) ?_ ?_)
    (fun _ => comparisonTail_unfold)
  · rintro word rest extending token found (⟨sign, op, _, rfl, rfl, rfl⟩ | ⟨rfl, rfl, rfl⟩) within
    · exact Within.after within
    · exact within
  · intro found
    cases found with
    | none =>
        exact implements_matchToken (by decide) Within.after (implements_betweenTail T fewer)
          (implements_matchToken (by decide) Within.after (implements_inTail T inner)
            (implements_pure left))
    | some op => exact implements_comparedWith op fewer

end ComparisonTail

/-! ## All levels -/

section Levels

variable {nested : ParserM Expr} {fuel : Nat}
  (inner : Implements (Reads tokens) (Within fuel) nested (Derives (.expr (.chain .disjunction))))

include inner

theorem implements_parseMultiplicative :
    Implements (Reads tokens) (Within (fuel + 1)) (parseMultiplicative T nested (fuel + 1))
      (Derives (.expr (.chain .multiplicative))) :=
  @implements_chain tokens .multiplicative _ _ _ implements_multiplicativeOperator
    (implements_parseUnary (implements_parsePrimary T inner) (fuel + 1) (Nat.le_refl _))

theorem implements_parseAdditive :
    Implements (Reads tokens) (Within (fuel + 1)) (parseAdditive T nested (fuel + 1))
      (Derives (.expr (.chain .additive))) :=
  @implements_chain tokens .additive _ _ _ implements_additiveOperator
    (implements_parseMultiplicative T inner)

theorem implements_parseComparison :
    Implements (Reads tokens) (Within (fuel + 1)) (parseComparison T nested (fuel + 1))
      (Derives (.expr .comparison)) := by
  have operands := implements_parseAdditive T inner
  refine Implements.congr (Implements.bind operands (fun _ within => Within.behind within)
    (fun left => implements_comparisonTail T operands inner left)) ?_
  intro word rest extending token value _
  constructor
  · rintro ⟨first, tail, left, before, behind, rfl, derived, more, _, rfl⟩
    exact .comparison derived more
  · intro derived
    cases derived with
    | comparison first tail =>
        exact ⟨_, _, _, _, _, rfl, first, tail, fun token => first.comparisonTail_clear tail, rfl⟩

theorem implements_parseAnd :
    Implements (Reads tokens) (Within (fuel + 1)) (parseAnd T nested (fuel + 1))
      (Derives (.expr (.chain .conjunction))) :=
  @implements_chain tokens .conjunction _ _ _ implements_conjunctionOperator
    (implements_parseComparison T inner)

theorem implements_parseOr :
    Implements (Reads tokens) (Within (fuel + 1)) (parseOr T nested (fuel + 1))
      (Derives (.expr (.chain .disjunction))) :=
  @implements_chain tokens .disjunction _ _ _ implements_disjunctionOperator
    (implements_parseAnd T inner)

end Levels

theorem implements_parseExprWith (fuel : Nat) :
    Implements (Reads tokens) (Within fuel) (parseExprWith T fuel)
      (Derives (.expr (.chain .disjunction))) := by
  induction fuel with
  | zero => exact implements_exhausted
  | succ fuel inductionHypothesis => exact implements_parseOr T inductionHypothesis

/-- The tokens that can go on with an expression: its operators, the dot, BETWEEN
and IN. -/
def continuesExpr : List TokenKind :=
  [.or, .pipePipe, .and, .ampAmp, .eqEq, .eq, .bangEq, .gt, .gtEq, .lt, .ltEq, .between,
    .inKeyword, .plus, .minus, .star, .slash, .percent, .dot]

theorem extensions_continue : (Level.chain .disjunction).extensions ⊆ continuesExpr := by
  decide

/-- The kinds of the tokens between two places. -/
def kindsBetween (tokens : List Token) (start finish : Nat) : List TokenKind :=
  ((tokens.drop start).take (finish - start)).map Token.kind

theorem length_pos_of_ends (ends : (tokens.map Token.kind).getLast? = some .eof) :
    0 < tokens.length := by
  cases tokens with
  | nil => nomatch ends
  | cons token rest => exact Nat.succ_pos _

theorem reads_start {cursor : Nat}
    (ends : (tokens.map Token.kind).getLast? = some .eof) (inside : cursor < tokens.length) :
    Reads tokens ⟨tokens, cursor⟩ ((tokens.drop cursor).map Token.kind) := by
  refine ⟨rfl, rfl, ?_⟩
  rw [List.map_drop, List.getLast?_drop, List.length_map, if_neg (Nat.not_le.mpr inside), ends]

/-- Where a word was read, and that the cursor is right behind it. -/
theorem Reads.behind_word {parser next : Parser} {word rest : List TokenKind}
    (start : Reads tokens parser (word ++ rest)) (finish : Reads tokens next rest) :
    next = ⟨tokens, parser.cursor + word.length⟩ ∧ next.cursor < tokens.length ∧
      kindsBetween tokens parser.cursor next.cursor = word := by
  have startLength := congrArg List.length start.ahead
  have finishLength := congrArg List.length finish.ahead
  have positive := List.length_pos_of_ne_nil finish.nonempty
  rw [List.length_map, List.length_drop, List.length_append] at startLength
  rw [List.length_map, List.length_drop] at finishLength
  have moved : next.cursor = parser.cursor + word.length := by omega
  refine ⟨?_, by omega, ?_⟩
  · rw [← moved, ← finish.same]
  · have width : next.cursor - parser.cursor = word.length := by omega
    rw [kindsBetween, List.map_take, start.ahead, width, List.take_left]

theorem within_start (cursor : Nat) :
    Within tokens.length ((tokens.drop cursor).map Token.kind) := by
  rw [Within, List.length_map, List.length_drop]
  exact Nat.sub_le _ _

section ParseExpr

variable (ends : (tokens.map Token.kind).getLast? = some .eof) {cursor : Nat}
  (inside : cursor < tokens.length)

include ends inside

theorem parseExpr_total :
    (Exists fun expr => Exists fun next => parseExpr T ⟨tokens, cursor⟩ = .ok expr next) ∨
      Exists fun failure => parseExpr T ⟨tokens, cursor⟩ = .error failure :=
  (implements_parseExprWith T tokens.length).total (reads_start ends inside) (within_start cursor)

theorem parseExpr_sound {expr : Expr} {next : Parser}
    (done : parseExpr T ⟨tokens, cursor⟩ = .ok expr next) :
    next.tokens = tokens ∧ cursor ≤ next.cursor ∧ next.cursor < tokens.length ∧
      DerivesExpr (kindsBetween tokens cursor next.cursor) expr := by
  have reads := reads_start ends inside
  rcases (implements_parseExprWith T tokens.length).sound reads (within_start cursor) done with
    ⟨word, token, rest, extending, split, left, derived, _⟩
  rw [split] at reads
  rcases reads.behind_word left with ⟨same, bound, read⟩
  rw [read]
  refine ⟨left.same, ?_, bound, extending, derived⟩
  rw [same]
  exact Nat.le_add_right _ _

theorem parseExpr_complete {word rest : List TokenKind} {expr : Expr} {token : TokenKind}
    (split : (tokens.drop cursor).map Token.kind = word ++ token :: rest)
    (derives : DerivesExpr word expr) (stops : token ∉ continuesExpr) :
    parseExpr T ⟨tokens, cursor⟩ = .ok expr ⟨tokens, cursor + word.length⟩ := by
  rcases derives with ⟨extending, derived⟩
  have reads := reads_start ends inside
  have within := @within_start tokens cursor
  rw [split] at reads within
  rcases (implements_parseExprWith T tokens.length).complete word reads within derived
    (fun member => stops (extensions_continue (derived.extending_subset member))) with
    ⟨next, done, left⟩
  rw [← (reads.behind_word left).1]
  exact done

end ParseExpr

/-- On every token list that ends with the end marker, parsing an expression at
any place of the list ends with an expression or an error, and neither panics nor
runs out of fuel.  What it returns is what the tokens it consumed derive, and it
returns every expression that a stretch of the tokens derives and that the next
token does not go on with. -/
theorem parseExpr_implements_grammar (tokens : List Token)
    (ends : (tokens.map Token.kind).getLast? = some .eof) (cursor : Nat)
    (inside : cursor < tokens.length) :
    ((Exists fun expr => Exists fun next => parseExpr T ⟨tokens, cursor⟩ = .ok expr next) ∨
      Exists fun failure => parseExpr T ⟨tokens, cursor⟩ = .error failure) ∧
    (forall expr next, parseExpr T ⟨tokens, cursor⟩ = .ok expr next ->
      next.tokens = tokens ∧ cursor ≤ next.cursor ∧ next.cursor < tokens.length ∧
        DerivesExpr (kindsBetween tokens cursor next.cursor) expr) ∧
    (forall word expr token rest,
      (tokens.drop cursor).map Token.kind = word ++ token :: rest -> DerivesExpr word expr ->
        token ∉ continuesExpr ->
          parseExpr T ⟨tokens, cursor⟩ = .ok expr ⟨tokens, cursor + word.length⟩) := by
  refine ⟨parseExpr_total T ends inside, ?_, ?_⟩
  · intro expr next done
    exact parseExpr_sound T ends inside done
  · intro word expr token rest split derives stops
    exact parseExpr_complete T ends inside split derives stops

/-- The tokens of `a - 1 < b AND c`. -/
def sampleTokens : List Token :=
  [.identifier "a", .minus, .int 1, .lt, .identifier "b", .and, .identifier "c", .eof].map
    (fun kind => ⟨kind, ⟨1, 1⟩⟩)

theorem parseExpr_implements_grammar_sample :
    Exists fun expr => Exists fun next =>
      parseExpr referenceTables ⟨sampleTokens, 4⟩ = .ok expr next ∧
        next.tokens = sampleTokens ∧ 4 ≤ next.cursor ∧ next.cursor < 8 ∧
          DerivesExpr (kindsBetween sampleTokens 4 next.cursor) expr := by
  have accepted : (parseExpr referenceTables ⟨sampleTokens, 4⟩).isOk = true := by
    decide +kernel
  cases parsed : parseExpr referenceTables ⟨sampleTokens, 4⟩ with
  | ok expr next =>
      exact ⟨expr, next, rfl, (parseExpr_implements_grammar referenceTables sampleTokens (by decide)
        4 (by decide)).2.1 expr next parsed⟩
  | error | panic | outOfFuel =>
      rw [parsed] at accepted
      nomatch accepted

end Parser
end Query
end NovaDb
