import NovaDb.Query.ExpressionParser

namespace NovaDb
namespace Query
namespace Grammar

open Core Foundation

/-!
# The statement parser and what it leaves behind

The twelve statements as phrases, and that the statement parser implements them.
The tokens that extend a statement are those of its last clause and of the
optional clauses that may still follow it.  Nothing behind the statement is looked
at, so whatever does not extend it is left unread.
-/

/-- `[WHERE expr]` -/
inductive FilterClause : Phrases TokenKind (Option Expr) where
  | absent : FilterClause [] none [.whereKeyword]
  | present {word extending : List TokenKind} {expr : Expr}
      (derived : Derives (.expr (.chain .disjunction)) word expr extending) :
      FilterClause (.whereKeyword :: word) (some expr) extending

/-- `[SORT field [ASC|DESC]]` -/
inductive SortPhrase : Phrases TokenKind (Option SortClause) where
  | absent : SortPhrase [] none [.sort]
  | undirected {word extending : List TokenKind} {field : String}
      (derived : Derives .path word field extending) :
      SortPhrase (.sort :: word) (some ⟨field, .asc⟩) (extending ++ [.desc, .asc])
  | ascending {word extending : List TokenKind} {field : String}
      (derived : Derives .path word field extending) :
      SortPhrase (.sort :: (word ++ [.asc])) (some ⟨field, .asc⟩) []
  | descending {word extending : List TokenKind} {field : String}
      (derived : Derives .path word field extending) :
      SortPhrase (.sort :: (word ++ [.desc])) (some ⟨field, .desc⟩) []

/-- `[LIMIT n]` and `[OFFSET n]` -/
inductive BoundClause (keyword : TokenKind) : Phrases TokenKind (Option UInt64) where
  | absent : BoundClause keyword [] none [keyword]
  | present {number : Int64} (natural : 0 ≤ number.toInt) :
      BoundClause keyword [keyword, .int number] (some (UInt64.ofNat number.toInt.toNat)) []

/-- `field = expr (, field = expr)*` behind the assignments read so far. -/
inductive Assignments : List Assignment -> Phrases TokenKind (List Assignment) where
  | last {sofar : List Assignment} {sign : TokenKind} {path word inner extending : List TokenKind}
      {field : String} {expr : Expr} (target : Derives .path path field inner)
      (assigns : sign = .eq ∨ sign = .eqEq)
      (derived : Derives (.expr (.chain .disjunction)) word expr extending) :
      Assignments sofar (path ++ sign :: word) (sofar ++ [⟨field, expr⟩]) (extending ++ [.comma])
  | more {sofar list : List Assignment} {sign : TokenKind}
      {path word inner before rest extending : List TokenKind} {field : String} {expr : Expr}
      (target : Derives .path path field inner) (assigns : sign = .eq ∨ sign = .eqEq)
      (derived : Derives (.expr (.chain .disjunction)) word expr before)
      (tail : Assignments (sofar ++ [⟨field, expr⟩]) rest list extending) :
      Assignments sofar ((path ++ sign :: word) ++ .comma :: rest) list extending

/-- `collection.field`, or the two names side by side. -/
inductive Target : Phrases TokenKind (String × String) where
  | dotted {collection field : String} {word extending : List TokenKind}
      (derived : Derives .path word field extending) :
      Target (.identifier collection :: .dot :: word) (collection, field) extending
  | apart {collection field : String} :
      Target [.identifier collection, .identifier field] (collection, field) []

/-- `[TYPE ordered|hash]` -/
inductive TypeClause : Phrases TokenKind Index.IndexType where
  | absent : TypeClause [] .ordered [.type]
  | hash : TypeClause [.type, .hash] .hash []
  | ordered : TypeClause [.type, .ordered] .ordered []

/-- What follows the command word of each of the twelve statements. -/
inductive StatementBody (draw : Draw) : TokenKind -> Phrases TokenKind Statement where
  | find {collection : String} {filtered sorted limited skipped : List TokenKind}
      {afterFilter afterSort afterLimit extending : List TokenKind} {filter : Option Expr}
      {sort : Option SortClause} {limit offset : Option UInt64}
      (filters : FilterClause filtered filter afterFilter)
      (sorts : SortPhrase sorted sort afterSort)
      (limits : BoundClause .limit limited limit afterLimit)
      (offsets : BoundClause .offset skipped offset extending) :
      StatementBody draw .find
        (.identifier collection :: (filtered ++ (sorted ++ (limited ++ skipped))))
        (.find collection filter sort limit offset)
        (carry (sorted ++ (limited ++ skipped)) afterFilter
          (carry (limited ++ skipped) afterSort (carry skipped afterLimit extending)))
  | insert {collection : String} {into word extending : List TokenKind}
      {map : List (String × Value)} (optional : into = [] ∨ into = [.into])
      (derived : Derives .value word (.object map) extending) :
      StatementBody draw .insert (into ++ .identifier collection :: .values :: word)
        (.insert collection (Parser.documentOf draw map)) extending
  | insertParen {collection : String} {into word extending : List TokenKind}
      {map : List (String × Value)} (optional : into = [] ∨ into = [.into])
      (derived : Derives .value word (.object map) extending) :
      StatementBody draw .insert
        (into ++ .identifier collection :: .values :: .lParen :: (word ++ [.rParen]))
        (.insert collection (Parser.documentOf draw map)) []
  | update {collection : String} {assigned filtered before extending : List TokenKind}
      {assignments : List Assignment} {filter : Option Expr}
      (assigns : Assignments [] assigned assignments before)
      (filters : FilterClause filtered filter extending) :
      StatementBody draw .update (.identifier collection :: .set :: (assigned ++ filtered))
        (.update collection assignments filter) (carry filtered before extending)
  | remove {collection : String} {word extending : List TokenKind} {filter : Option Expr}
      (filters : FilterClause word filter extending) :
      StatementBody draw .remove (.identifier collection :: word) (.remove collection filter)
        extending
  | watch {collection : String} {word extending : List TokenKind} {filter : Option Expr}
      (filters : FilterClause word filter extending) :
      StatementBody draw .watch (.identifier collection :: word) (.watch collection filter)
        extending
  | count {collection : String} {word extending : List TokenKind} {filter : Option Expr}
      (filters : FilterClause word filter extending) :
      StatementBody draw .count (.identifier collection :: word) (.count collection filter)
        extending
  | existing {collection : String} {word extending : List TokenKind} {filter : Option Expr}
      (filters : FilterClause word filter extending) :
      StatementBody draw .existsKeyword (.identifier collection :: word) (.exists collection filter)
        extending
  | createIndex {collection field : String} {indexType : Index.IndexType}
      {target typed before extending : List TokenKind}
      (targets : Target target (collection, field) before)
      (types : TypeClause typed indexType extending) :
      StatementBody draw .create (.index :: (target ++ typed))
        (.createIndex collection field indexType) (carry typed before extending)
  | dropIndex {collection field : String} {target extending : List TokenKind}
      (targets : Target target (collection, field) extending) :
      StatementBody draw .drop (.index :: target) (.dropIndex collection field) extending
  | begin : StatementBody draw .begin [] .begin []
  | commit : StatementBody draw .commit [] .commit []
  | rollback : StatementBody draw .rollback [] .rollback []

/-- The complete statements. -/
def StatementPhrase (draw : Draw) : Phrases TokenKind Statement :=
  fun word statement extending =>
    Exists fun command => Exists fun rest =>
      word = command :: rest ∧ StatementBody draw command rest statement extending

/-! ## Where clauses end and start -/

theorem FilterClause.extending_subset {word extending : List TokenKind} {filter : Option Expr}
    (clause : FilterClause word filter extending) :
    extending ⊆ .whereKeyword :: (Level.chain .disjunction).extensions := by
  cases clause with
  | absent => exact List.cons_subset_cons _ (List.nil_subset _)
  | present derived => exact List.subset_cons_of_subset _ derived.extending_subset

theorem SortPhrase.extending_subset {word extending : List TokenKind}
    {sort : Option SortClause} (clause : SortPhrase word sort extending) :
    extending ⊆ [.sort, .dot, .desc, .asc] := by
  cases clause with
  | absent => decide
  | undirected derived =>
      apply List.append_subset.mpr
      exact ⟨List.Subset.trans derived.extending_subset (by decide), by decide⟩
  | ascending derived => exact List.nil_subset _
  | descending derived => exact List.nil_subset _

theorem BoundClause.extending_subset {keyword : TokenKind} {word extending : List TokenKind}
    {bound : Option UInt64} (clause : BoundClause keyword word bound extending) :
    extending ⊆ [keyword] := by
  cases clause with
  | absent => exact List.Subset.refl _
  | present natural => exact List.nil_subset _

theorem Assignments.extending_subset {sofar list : List Assignment}
    {word extending : List TokenKind} (phrase : Assignments sofar word list extending) :
    extending ⊆ .comma :: (Level.chain .disjunction).extensions := by
  induction phrase with
  | last target assigns derived =>
      apply List.append_subset.mpr
      exact ⟨List.subset_cons_of_subset _ derived.extending_subset,
        List.cons_subset_cons _ (List.nil_subset _)⟩
  | more target assigns derived tail inside => exact inside

theorem Target.extending_subset {word extending : List TokenKind} {target : String × String}
    (phrase : Target word target extending) : extending ⊆ [.dot] := by
  cases phrase with
  | dotted derived => exact derived.extending_subset
  | apart => exact List.nil_subset _

theorem SortPhrase.head {word extending : List TokenKind} {sort : Option SortClause}
    (clause : SortPhrase word sort extending) : word.head? = none ∨ word.head? = some .sort := by
  cases clause with
  | absent => exact Or.inl rfl
  | undirected _ | ascending _ | descending _ => exact Or.inr rfl

theorem BoundClause.head {keyword : TokenKind} {word extending : List TokenKind}
    {bound : Option UInt64} (clause : BoundClause keyword word bound extending) :
    word.head? = none ∨ word.head? = some keyword := by
  cases clause with
  | absent => exact Or.inl rfl
  | present natural => exact Or.inr rfl

theorem FilterClause.head {word extending : List TokenKind} {filter : Option Expr}
    (clause : FilterClause word filter extending) :
    word.head? = none ∨ word.head? = some .whereKeyword := by
  cases clause with
  | absent => exact Or.inl rfl
  | present derived => exact Or.inr rfl

theorem TypeClause.head {word extending : List TokenKind} {indexType : Index.IndexType}
    (clause : TypeClause word indexType extending) :
    word.head? = none ∨ word.head? = some .type := by
  cases clause with
  | absent => exact Or.inl rfl
  | hash | ordered => exact Or.inr rfl

/-- The first token of a clause that may be missing. -/
theorem head_of_last {word : List TokenKind} {keyword token : TokenKind}
    (starts : word.head? = some token)
    (head : word.head? = none ∨ word.head? = some keyword) : token = keyword := by
  rcases head with empty | first
  · rw [empty] at starts
    nomatch starts
  · exact Option.some.inj (starts.symm.trans first)

theorem head_of_optional {word rest : List TokenKind} {keyword token : TokenKind}
    (starts : (word ++ rest).head? = some token)
    (head : word.head? = none ∨ word.head? = some keyword) :
    token = keyword ∨ rest.head? = some token := by
  rw [List.head?_append] at starts
  rcases head with empty | first
  · rw [empty, Option.none_or] at starts
    exact Or.inr starts
  · rw [first, Option.some_or] at starts
    exact Or.inl (Option.some.inj starts).symm

/-- The later clauses of a FIND do not start with a token that extends an earlier
one. -/
theorem find_clear {filtered sorted limited skipped afterFilter afterSort afterLimit
      afterOffset : List TokenKind}
    {filter : Option Expr} {sort : Option SortClause} {limit offset : Option UInt64}
    (filters : FilterClause filtered filter afterFilter) (sorts : SortPhrase sorted sort afterSort)
    (limits : BoundClause .limit limited limit afterLimit)
    (offsets : BoundClause .offset skipped offset afterOffset) (token : TokenKind) :
    (skipped.head? = some token -> token ∉ afterLimit) ∧
      ((limited ++ skipped).head? = some token -> token ∉ afterSort) ∧
        ((sorted ++ (limited ++ skipped)).head? = some token -> token ∉ afterFilter) := by
  refine ⟨?_, ?_, ?_⟩
  · intro starts member
    rw [head_of_last starts offsets.head] at member
    nomatch List.mem_singleton.mp (limits.extending_subset member)
  · intro starts member
    have inside := sorts.extending_subset member
    rcases head_of_optional starts limits.head with rfl | starts
    · exact absurd inside (by decide)
    · rw [head_of_last starts offsets.head] at inside
      exact absurd inside (by decide)
  · intro starts member
    have inside := filters.extending_subset member
    rcases head_of_optional starts sorts.head with rfl | starts
    · exact absurd inside (by decide)
    · rcases head_of_optional starts limits.head with rfl | starts
      · exact absurd inside (by decide)
      · rw [head_of_last starts offsets.head] at inside
        exact absurd inside (by decide)

end Grammar

namespace Parser

open Core Foundation Grammar

variable {tokens : List Token} (T : TextTables)

/-! ## Clauses -/

theorem implements_parseFilter (fuel : Nat) :
    Implements (Reads tokens) (Within fuel) (parseFilter T fuel) FilterClause := by
  have parsed : Implements (Reads tokens) (Within fuel) (parseFilter T fuel) _ :=
    implements_matchToken (by decide) Within.tail
      (Implements.bind (implements_parseExprWith T fuel) (fun _ within => Within.behind within)
        (fun expr => implements_pure (some expr)))
      (implements_pure none)
  refine Implements.congr parsed ?_
  intro word rest extending token filter _
  constructor
  · rintro (⟨tail, rfl, inner⟩ | ⟨_, ⟨rfl, rfl, rfl⟩, _, rfl⟩)
    · rcases Phrases.seq_nothing.mp inner with ⟨expr, derived, rfl⟩
      exact .present derived
    · exact .absent
  · intro clause
    cases clause with
    | absent => exact Phrases.choose_nil ⟨rfl, rfl, rfl⟩
    | present derived =>
        exact Phrases.choose_present (Phrases.seq_nothing.mpr ⟨_, derived, rfl⟩)

theorem implements_parseSort (fuel : Nat) :
    Implements (Reads tokens) (Within fuel) (parseSort T fuel) SortPhrase := by
  have direction : forall field : String, Implements (Reads tokens) (Within fuel)
      (matchToken .desc >>= fun found =>
        if found then pure (some (⟨field, .desc⟩ : SortClause))
        else matchToken .asc >>= fun _ => pure (some ⟨field, .asc⟩)) _ :=
    fun field => implements_matchToken (by decide) Within.tail (implements_pure _)
      (implements_matchToken (by decide) Within.tail (implements_pure _) (implements_pure _))
  have parsed : Implements (Reads tokens) (Within fuel) (parseSort T fuel) _ :=
    implements_matchToken (by decide) Within.tail
      (Implements.bind (implements_parseFieldPath T fuel) (fun _ within => Within.behind within)
        direction)
      (implements_pure none)
  refine Implements.congr parsed ?_
  intro word rest extending token sort _
  constructor
  · rintro (⟨tail, rfl, path, last, field, before, behind, rfl, derived, next, _, rfl⟩ |
      ⟨_, ⟨rfl, rfl, rfl⟩, _, rfl⟩)
    · rcases next with ⟨tail, rfl, rfl, rfl, rfl⟩ |
        ⟨_, ⟨tail, rfl, rfl, rfl, rfl⟩ | ⟨_, ⟨rfl, rfl, rfl⟩, _, rfl⟩, _, rfl⟩
      · exact .descending derived
      · exact .ascending derived
      · rw [List.append_nil]
        exact .undirected derived
    · exact .absent
  · intro clause
    have clear : forall {path extending : List TokenKind} {field : String} {first last : TokenKind},
        Derives .path path field extending -> last ≠ .dot ->
          [last].head? = some first -> first ∉ extending := by
      intro path extending field first last derived other starts member
      cases starts
      exact other (List.mem_singleton.mp (derived.extending_subset member))
    cases clause with
    | absent => exact Phrases.choose_nil ⟨rfl, rfl, rfl⟩
    | undirected derived =>
        exact Phrases.choose_present ⟨_, [], _, _, _, (List.append_nil _).symm, derived,
          Phrases.choose_nil (Phrases.choose_nil ⟨rfl, rfl, rfl⟩), nofun, rfl⟩
    | ascending derived =>
        exact Phrases.choose_present ⟨_, [.asc], _, _, _, rfl, derived,
          Phrases.choose_absent nofun (Phrases.choose_present ⟨rfl, rfl, rfl⟩),
          fun _ => clear derived nofun, rfl⟩
    | descending derived =>
        exact Phrases.choose_present ⟨_, [.desc], _, _, _, rfl, derived,
          Phrases.choose_present ⟨rfl, rfl, rfl⟩, fun _ => clear derived nofun, rfl⟩

/-- The number of an integer literal that is not negative. -/
def natural : TokenKind -> Option UInt64
  | .int number => if 0 ≤ number.toInt then some (UInt64.ofNat number.toInt.toNat) else none
  | _ => none

theorem natural_eq_some {kind : TokenKind} {number : UInt64}
    (known : natural kind = some number) :
    Exists fun literal : Int64 => kind = .int literal ∧ 0 ≤ literal.toInt ∧
      number = UInt64.ofNat literal.toInt.toNat := by
  cases kind with
  | int literal =>
      rw [natural] at known
      split at known
      · rename_i bound
        exact ⟨literal, rfl, bound, (Option.some.inj known).symm⟩
      · nomatch known
  | _ => nomatch known

theorem implements_parseUsize {β : Type} {domain behind : List TokenKind -> Prop}
    (message : String) {next : UInt64 -> ParserM β} {result : UInt64 -> Phrases TokenKind β}
    (within : forall {kind rest}, domain (kind :: rest) -> behind rest)
    (rest : forall number, Implements (Reads tokens) behind (next number) (result number)) :
    Implements (Reads tokens) domain (parseUsize message >>= next)
      (Phrases.reading natural result) := by
  refine implements_reading rfl ?_ ?_ within rest
  · intro parser kind tail number reads known
    rcases natural_eq_some known with ⟨literal, rfl, bound, rfl⟩
    rcases currentSpan_looks reads with ⟨span, looked⟩
    rcases peekKind_looks reads with ⟨found, first, seen⟩
    cases first
    rw [parseUsize, ParseM.bind_of_ok looked, ParseM.bind_of_ok seen]
    simp only [bound, if_true]
  · intro parser kind tail reads unknown
    rcases currentSpan_looks reads with ⟨span, looked⟩
    rcases peekKind_looks reads with ⟨found, first, seen⟩
    cases first
    refine ⟨parseErrorAt message span, ?_⟩
    rw [parseUsize, ParseM.bind_of_ok looked, ParseM.bind_of_ok seen]
    cases kind with
    | int literal =>
        rw [natural] at unknown
        split at unknown
        · nomatch unknown
        · rename_i bound
          simp only [bound, if_false]
          rfl
    | _ => rfl

theorem implements_parseBound {keyword : TokenKind} (inner : keyword ≠ .eof) (message : String)
    (fuel : Nat) :
    Implements (Reads tokens) (Within fuel) (parseBound keyword message)
      (BoundClause keyword) := by
  have parsed : Implements (Reads tokens) (Within fuel) (parseBound keyword message) _ :=
    implements_matchToken inner Within.tail
      (implements_parseUsize message Within.tail (fun number => implements_pure (some number)))
      (implements_pure none)
  refine Implements.congr parsed ?_
  intro word rest extending token bound _
  constructor
  · rintro (⟨tail, rfl, kind, behind, number, rfl, known, rfl, rfl, rfl⟩ |
      ⟨_, ⟨rfl, rfl, rfl⟩, _, rfl⟩)
    · rcases natural_eq_some known with ⟨literal, rfl, natural, rfl⟩
      exact .present natural
    · exact .absent
  · intro clause
    cases clause with
    | absent => exact Phrases.choose_nil ⟨rfl, rfl, rfl⟩
    | present bound =>
        exact Phrases.choose_present ⟨_, _, _, rfl, if_pos bound, rfl, rfl, rfl⟩

/-! ## Statements -/

theorem implements_parseFind (draw : Draw) (fuel : Nat) :
    Implements (Reads tokens) (fun input => input.head? = some .find ∧ Within fuel input)
      (parseFind T fuel) (Phrases.after .find (StatementBody draw .find)) := by
  have bounds := fun {keyword} inner message =>
    @implements_parseBound tokens keyword inner message fuel
  refine implements_advance (by decide) Within.tail (fun _ => Implements.congr
    (implements_expectIdentifier T "Expected collection name after FIND" Within.tail
      (fun collection => Implements.bind (implements_parseFilter T fuel)
        (fun _ within => Within.behind within)
        (fun filter => Implements.bind (implements_parseSort T fuel)
          (fun _ within => Within.behind within)
          (fun sort => Implements.bind (bounds (by decide) "Expected integer after LIMIT")
            (fun _ within => Within.behind within)
            (fun limit => Implements.bind (bounds (by decide) "Expected integer after OFFSET")
              (fun _ within => Within.behind within)
              (fun offset => implements_pure
                (Statement.find collection filter sort limit offset))))))) ?_)
  intro word rest extending token statement _
  constructor
  · rintro ⟨kind, behind, collection, rfl, named, filtered, _, filter, afterFilter, _,
      rfl, filters, ⟨sorted, _, sort, afterSort, _, rfl, sorts, ⟨limited, _, limit, afterLimit, _,
        rfl, limits, skipping, _, rfl⟩, _, rfl⟩, _, rfl⟩
    rcases Phrases.seq_nothing.mp skipping with ⟨offset, offsets, rfl⟩
    rw [name_eq_some named]
    exact .find filters sorts limits offsets
  · intro phrase
    cases phrase with
    | find filters sorts limits offsets =>
        have clear := find_clear filters sorts limits offsets
        exact ⟨_, _, _, rfl, rfl, _, _, _, _, _, rfl, filters,
          ⟨_, _, _, _, _, rfl, sorts, ⟨_, _, _, _, _, rfl, limits,
            Phrases.seq_nothing.mpr ⟨_, offsets, rfl⟩, fun token => (clear token).1, rfl⟩,
            fun token => (clear token).2.1, rfl⟩, fun token => (clear token).2.2, rfl⟩

/-- A collection and an optional filter. -/
def filteredPhrases (build : String -> Option Expr -> Statement) : Phrases TokenKind Statement :=
  fun word statement extending =>
    Exists fun collection => Exists fun rest => Exists fun filter =>
      word = .identifier collection :: rest ∧ FilterClause rest filter extending ∧
        statement = build collection filter

theorem implements_parseFiltered {command : TokenKind} (inner : command ≠ .eof)
    (message : String) (build : String -> Option Expr -> Statement) (fuel : Nat) :
    Implements (Reads tokens) (fun input => input.head? = some command ∧ Within fuel input)
      (parseFiltered T message build fuel)
      (Phrases.after command (filteredPhrases build)) := by
  refine implements_advance inner Within.tail (fun _ => Implements.congr
    (implements_expectIdentifier T message Within.tail
      (fun collection => Implements.bind (implements_parseFilter T fuel)
        (fun _ within => Within.behind within)
        (fun filter => implements_pure (build collection filter)))) ?_)
  intro word rest extending token statement _
  constructor
  · rintro ⟨kind, behind, collection, rfl, named, filtered⟩
    rcases Phrases.seq_nothing.mp filtered with ⟨filter, filters, rfl⟩
    rw [name_eq_some named]
    exact ⟨collection, behind, filter, rfl, filters, rfl⟩
  · rintro ⟨collection, behind, filter, rfl, filters, rfl⟩
    exact ⟨_, _, _, rfl, rfl, Phrases.seq_nothing.mpr ⟨filter, filters, rfl⟩⟩

/-! ### INSERT -/

theorem implements_insertLiteral (fuel : Nat) :
    Implements (Reads tokens) (Within fuel) (insertLiteral T fuel)
      (Phrases.choose .lParen
        (Phrases.seq (Derives .value) (fun value =>
          Phrases.after .rParen (Phrases.nothing value)))
        (Phrases.seq (Derives .value) (fun value => Phrases.nothing value))) :=
  implements_matchToken (by decide) Within.tail
    (Implements.bind (implements_parseValueLiteral T fuel) (fun _ within => Within.behind within)
      (fun value => implements_expect T (by decide) "Expected ')' closing VALUES" Within.tail
        (fun _ => implements_pure value)))
    (Implements.bind (implements_parseValueLiteral T fuel) (fun _ within => Within.behind within)
      (fun value => implements_pure value))

/-- The document of an object, and nothing for any other value. -/
def documentPhrases (draw : Draw) (collection : String) : Value -> Phrases TokenKind Statement
  | .object map => Phrases.nothing (.insert collection (documentOf draw map))
  | _ => Phrases.never

theorem implements_insertedDocument (draw : Draw) (collection : String) (fuel : Nat)
    (value : Value) :
    Implements (Reads tokens) (Within fuel) (insertedDocument draw collection value)
      (documentPhrases draw collection value) := by
  cases value with
  | object map => exact implements_pure _
  | _ => exact implements_currentSpan (fun _ => Implements.fail _)

theorem documentPhrases_iff {draw : Draw} {collection : String} {value : Value}
    {word extending : List TokenKind} {statement : Statement} :
    documentPhrases draw collection value word statement extending <->
      Exists fun map => value = .object map ∧ word = [] ∧ extending = [] ∧
        statement = .insert collection (documentOf draw map) := by
  cases value with
  | object map =>
      constructor
      · rintro ⟨rfl, rfl, rfl⟩
        exact ⟨map, rfl, rfl, rfl, rfl⟩
      · rintro ⟨_, same, rfl, rfl, rfl⟩
        cases same
        exact ⟨rfl, rfl, rfl⟩
  | _ =>
      constructor
      · exact False.elim
      · rintro ⟨map, same, _⟩
        nomatch same

/-- The literal of an INSERT and the document it stands for. -/
theorem insertLiteral_document {draw : Draw} {collection : String}
    {word extending : List TokenKind} {statement : Statement} :
    Phrases.seq (Phrases.choose .lParen
          (Phrases.seq (Derives .value) (fun value =>
            Phrases.after .rParen (Phrases.nothing value)))
          (Phrases.seq (Derives .value) (fun value => Phrases.nothing value)))
        (documentPhrases draw collection) word statement extending <->
      Exists fun map => Exists fun literal => Exists fun inner =>
        Derives .value literal (.object map) inner ∧
          statement = .insert collection (documentOf draw map) ∧
            ((word = literal ∧ extending = inner) ∨
              (word = .lParen :: (literal ++ [.rParen]) ∧ extending = [])) := by
  constructor
  · rintro ⟨literal, tail, value, before, behind, rfl, phrase, document, _, rfl⟩
    rcases documentPhrases_iff.mp document with ⟨map, rfl, rfl, rfl, rfl⟩
    rw [List.append_nil, carry_nil, List.append_nil]
    rcases phrase with ⟨rest, rfl, closed⟩ | ⟨inner, bare, starts, rfl⟩
    · rcases Phrases.seq_after.mp closed with ⟨left, right, value, _, rfl, derived, _, rfl, rfl,
        rfl⟩
      exact ⟨map, left, _, derived, rfl, Or.inr ⟨rfl, rfl⟩⟩
    · rcases Phrases.seq_nothing.mp bare with ⟨_, derived, rfl⟩
      rcases derived.value_first with ⟨first, rest, rfl, _⟩
      exact ⟨map, _, _, derived, rfl, Or.inl ⟨rfl, rfl⟩⟩
  · rintro ⟨map, literal, inner, derived, rfl, ⟨rfl, rfl⟩ | ⟨rfl, rfl⟩⟩
    · rcases derived.value_first with ⟨first, rest, rfl, starts⟩
      have bare : first ≠ .lParen := by
        rintro rfl
        rcases starts with scalar | other | other
        · exact scalar rfl
        · nomatch other
        · nomatch other
      refine ⟨_, [], _, extending, [], (List.append_nil _).symm, Phrases.choose_absent bare
        (Phrases.seq_nothing.mpr ⟨_, derived, rfl⟩),
        documentPhrases_iff.mpr ⟨map, rfl, rfl, rfl, rfl⟩, nofun, ?_⟩
      rw [carry_nil, List.append_nil]
    · exact ⟨_, [], _, [], [], (List.append_nil _).symm, Phrases.choose_present
        (Phrases.seq_after.mpr ⟨_, [], _, _, rfl, derived,
          fun member => (nomatch derived.extending_subset member), rfl, rfl, rfl⟩),
        documentPhrases_iff.mpr ⟨map, rfl, rfl, rfl, rfl⟩, nofun, rfl⟩

theorem implements_parseInsert (draw : Draw) (fuel : Nat) :
    Implements (Reads tokens) (fun input => input.head? = some .insert ∧ Within fuel input)
      (parseInsert T draw fuel) (Phrases.after .insert (StatementBody draw .insert)) := by
  have named : Implements (Reads tokens) (Within fuel)
      (expectIdentifier T "Expected collection name after INSERT" >>= fun collection =>
        expect T .values "Expected VALUES keyword" >>= fun _ =>
          insertLiteral T fuel >>= insertedDocument draw collection) _ :=
    implements_expectIdentifier T _ Within.tail (fun collection =>
      implements_expect T (by decide) _ Within.tail (fun _ =>
        Implements.bind (implements_insertLiteral T fuel) (fun _ within => Within.behind within)
          (implements_insertedDocument draw collection fuel)))
  refine implements_advance (by decide) Within.tail (fun _ => Implements.congr
    (implements_matchToken (by decide) Within.tail named named) ?_)
  intro word rest extending token statement _
  constructor
  · rintro (⟨tail, rfl, kind, behind, collection, rfl, named, _, rfl, document⟩ |
      ⟨_, ⟨kind, behind, collection, rfl, named, _, rfl, document⟩, _, rfl⟩)
    · rcases insertLiteral_document.mp document with
        ⟨map, literal, inner, derived, rfl, ⟨rfl, rfl⟩ | ⟨rfl, rfl⟩⟩
      · rw [name_eq_some named]
        exact .insert (Or.inr rfl) derived
      · rw [name_eq_some named]
        exact .insertParen (Or.inr rfl) derived
    · rcases insertLiteral_document.mp document with
        ⟨map, literal, inner, derived, rfl, ⟨rfl, rfl⟩ | ⟨rfl, rfl⟩⟩
      · rw [name_eq_some named]
        exact .insert (Or.inl rfl) derived
      · rw [name_eq_some named]
        exact .insertParen (Or.inl rfl) derived
  · intro phrase
    cases phrase with
    | insert optional derived =>
        rcases optional with rfl | rfl
        · exact Phrases.choose_absent nofun ⟨_, _, _, rfl, rfl, _, rfl,
            insertLiteral_document.mpr ⟨_, _, _, derived, rfl, Or.inl ⟨rfl, rfl⟩⟩⟩
        · exact Phrases.choose_present ⟨_, _, _, rfl, rfl, _, rfl,
            insertLiteral_document.mpr ⟨_, _, _, derived, rfl, Or.inl ⟨rfl, rfl⟩⟩⟩
    | insertParen optional derived =>
        rcases optional with rfl | rfl
        · exact Phrases.choose_absent nofun ⟨_, _, _, rfl, rfl, _, rfl,
            insertLiteral_document.mpr ⟨_, _, _, derived, rfl, Or.inr ⟨rfl, rfl⟩⟩⟩
        · exact Phrases.choose_present ⟨_, _, _, rfl, rfl, _, rfl,
            insertLiteral_document.mpr ⟨_, _, _, derived, rfl, Or.inr ⟨rfl, rfl⟩⟩⟩

/-! ### UPDATE -/

/-- The two spellings of the assignment sign. -/
def assigns : TokenKind -> Option Unit
  | .eq => some ()
  | .eqEq => some ()
  | _ => none

theorem assigns_eq_some {kind : TokenKind} {read : Unit} (known : assigns kind = some read) :
    kind = .eq ∨ kind = .eqEq := by
  cases kind <;> first
    | exact Or.inl rfl
    | exact Or.inr rfl
    | nomatch known

theorem implements_assignSign {β : Type} {domain behind : List TokenKind -> Prop}
    {next : Unit -> ParserM β} {result : Phrases TokenKind β}
    (within : forall {kind rest}, domain (kind :: rest) -> behind rest)
    (rest : Implements (Reads tokens) behind (next ()) result) :
    Implements (Reads tokens) domain (assignSign >>= next)
      (Phrases.reading assigns (fun _ => result)) := by
  refine implements_reading rfl ?_ ?_ within (fun _ => rest)
  · intro parser kind tail read reads known
    have sign := assigns_eq_some known
    have inner : kind ≠ .eof := by
      rintro rfl
      nomatch known
    rcases advance_takes inner reads with ⟨token, middle, advanced, _⟩
    rw [ParseM.bind_of_ok advanced, ParseM.pure_apply]
    rcases sign with rfl | rfl
    · rw [assignSign, ParseM.bind_of_ok (matchToken_advance reads advanced), if_pos rfl,
        ParseM.pure_apply]
    · have skipped : matchToken .eq parser = .ok false parser := matchToken_skips reads nofun
      rw [assignSign, ParseM.bind_of_ok skipped,
        if_neg Bool.false_ne_true, ParseM.bind_of_ok (matchToken_advance reads advanced),
        if_pos rfl, ParseM.pure_apply]
  · intro parser kind tail reads unknown
    rcases currentSpan_looks reads with ⟨span, looked⟩
    refine ⟨parseErrorAt "Expected '=' in SET assignment" span, ?_⟩
    have notSingle : kind ≠ .eq := by
      rintro rfl
      nomatch unknown
    have notDouble : kind ≠ .eqEq := by
      rintro rfl
      nomatch unknown
    rw [assignSign, ParseM.bind_of_ok (matchToken_skips reads notSingle),
      if_neg Bool.false_ne_true, ParseM.bind_of_ok (matchToken_skips reads notDouble),
      if_neg Bool.false_ne_true, ParseM.bind_of_ok looked]
    rfl

/-- One assignment, put behind those read so far. -/
def assignmentPhrases (sofar : List Assignment) : Phrases TokenKind (List Assignment) :=
  fun word list extending =>
    Exists fun path => Exists fun sign => Exists fun rest => Exists fun field =>
      Exists fun expr => Exists fun inner =>
        word = path ++ sign :: rest ∧ Derives .path path field inner ∧
          (sign = .eq ∨ sign = .eqEq) ∧
            Derives (.expr (.chain .disjunction)) rest expr extending ∧
              list = sofar ++ [⟨field, expr⟩]

theorem implements_assignmentItem (fuel : Nat) (sofar : List Assignment) :
    Implements (Reads tokens) (Within fuel) (assignmentItem T fuel sofar)
      (assignmentPhrases sofar) := by
  refine Implements.congr (Implements.bind (implements_parseFieldPath T fuel)
    (fun _ within => Within.behind within)
    (fun field => implements_assignSign Within.tail
      (Implements.bind (implements_parseExprWith T fuel) (fun _ within => Within.behind within)
        (fun expr => implements_pure (sofar ++ [(⟨field, expr⟩ : Assignment)]))))) ?_
  intro word rest extending token list _
  rw [Phrases.seq_reading]
  constructor
  · rintro ⟨path, sign, tail, field, read, inner, rfl, target, _, known, assigned⟩
    rcases Phrases.seq_nothing.mp assigned with ⟨expr, derived, rfl⟩
    exact ⟨path, sign, tail, field, expr, inner, rfl, target, assigns_eq_some known, derived, rfl⟩
  · rintro ⟨path, sign, tail, field, expr, inner, rfl, target, assigned, derived, rfl⟩
    have known : assigns sign = some () := by
      rcases assigned with rfl | rfl
      · rfl
      · rfl
    have clear : sign ∉ inner := by
      intro member
      have dotted := List.mem_singleton.mp (target.extending_subset member)
      rw [dotted] at known
      nomatch known
    exact ⟨path, sign, tail, field, (), inner, rfl, target, clear, known,
      Phrases.seq_nothing.mpr ⟨expr, derived, rfl⟩⟩

theorem assignments_unfold {sofar list : List Assignment} {word extending : List TokenKind} :
    Phrases.seq (assignmentPhrases sofar)
        (fun more => Phrases.choose .comma (Assignments more) (Phrases.nothing more))
        word list extending <-> Assignments sofar word list extending := by
  have clear : TokenKind.comma ∉ (Level.chain .disjunction).extensions := by decide
  rw [Phrases.seq_choose]
  constructor
  · rintro (⟨inner, ⟨path, sign, tail, field, expr, before, rfl, target, assigned, derived, rfl⟩,
      rfl⟩ | ⟨left, right, more, _, rfl, ⟨path, sign, tail, field, expr, before, rfl, target,
        assigned, derived, rfl⟩, _, others⟩)
    · exact .last target assigned derived
    · exact .more target assigned derived others
  · intro phrase
    cases phrase with
    | last target assigned derived =>
        exact Or.inl ⟨_, ⟨_, _, _, _, _, _, rfl, target, assigned, derived, rfl⟩, rfl⟩
    | more target assigned derived tail =>
        exact Or.inr ⟨_, _, _, _, rfl, ⟨_, _, _, _, _, _, rfl, target, assigned, derived, rfl⟩,
          fun member => clear (derived.extending_subset member), tail⟩

theorem implements_parseUpdate (draw : Draw) (fuel : Nat) :
    Implements (Reads tokens) (fun input => input.head? = some .update ∧ Within fuel input)
      (parseUpdate T fuel) (Phrases.after .update (StatementBody draw .update)) := by
  have assignments : Implements (Reads tokens) (Within fuel)
      (commaLoop (assignmentItem T fuel) fuel []) (Assignments []) :=
    implements_commaLoop (implements_assignmentItem T fuel) assignments_unfold fuel
      (Nat.le_refl fuel) []
  refine implements_advance (by decide) Within.tail (fun _ => Implements.congr
    (implements_expectIdentifier T "Expected collection name after UPDATE" Within.tail
      (fun collection => implements_expect T (by decide) "Expected SET keyword in UPDATE"
        Within.tail
        (fun _ => Implements.bind assignments (fun _ within => Within.behind within)
          (fun list => Implements.bind (implements_parseFilter T fuel)
            (fun _ within => Within.behind within)
            (fun filter => implements_pure (Statement.update collection list filter)))))) ?_)
  intro word rest extending token statement _
  constructor
  · rintro ⟨kind, behind, collection, rfl, named, tail, rfl, assigned, _, list, before, _, rfl,
      assigns, filtering, _, rfl⟩
    rcases Phrases.seq_nothing.mp filtering with ⟨filter, filters, rfl⟩
    rw [name_eq_some named]
    exact .update assigns filters
  · intro phrase
    cases phrase with
    | update assigns filters =>
        refine ⟨_, _, _, rfl, rfl, _, rfl, _, _, _, _, _, rfl, assigns,
          Phrases.seq_nothing.mpr ⟨_, filters, rfl⟩, ?_, rfl⟩
        intro first starts member
        rw [head_of_last starts filters.head] at member
        exact absurd (assigns.extending_subset member) (by decide)

/-! ### Index definitions -/

theorem implements_indexTarget {command : TokenKind} (inner : command ≠ .eof) (message : String)
    (fuel : Nat) :
    Implements (Reads tokens) (fun input => input.head? = some command ∧ Within fuel input)
      (indexTarget T message fuel) (Phrases.after command (Phrases.after .index Target)) := by
  refine implements_advance inner Within.tail (fun _ =>
    implements_expect T (by decide) message Within.tail (fun _ => Implements.congr
      (implements_expectIdentifier T "Expected collection name or target for index" Within.tail
        (fun target => implements_matchToken (by decide) Within.tail
          (Implements.bind (implements_parseFieldPath T fuel)
            (fun _ within => Within.behind within) (fun field => implements_pure (target, field)))
          (implements_expectIdentifier T "Expected field name after collection" Within.tail
            (fun field => implements_pure (target, field))))) ?_))
  intro word rest extending token target _
  constructor
  · rintro ⟨kind, behind, collection, rfl, named, ⟨tail, rfl, dotted⟩ |
      ⟨_, ⟨other, tail, field, rfl, second, rfl, rfl, rfl⟩, _, rfl⟩⟩
    · rcases Phrases.seq_nothing.mp dotted with ⟨field, derived, rfl⟩
      rw [name_eq_some named]
      exact .dotted derived
    · rw [name_eq_some named, name_eq_some second]
      exact .apart
  · intro phrase
    cases phrase with
    | dotted derived =>
        exact ⟨_, _, _, rfl, rfl,
          Phrases.choose_present (Phrases.seq_nothing.mpr ⟨_, derived, rfl⟩)⟩
    | apart =>
        exact ⟨_, _, _, rfl, rfl,
          Phrases.choose_absent nofun ⟨_, _, _, rfl, rfl, rfl, rfl, rfl⟩⟩

theorem implements_parseIndexType (fuel : Nat) :
    Implements (Reads tokens) (Within fuel) parseIndexType TypeClause := by
  have parsed : Implements (Reads tokens) (Within fuel) parseIndexType _ :=
    implements_matchToken (by decide) Within.tail
      (implements_matchToken (by decide) Within.tail (implements_pure Index.IndexType.hash)
        (implements_matchToken (by decide) Within.tail (implements_pure Index.IndexType.ordered)
          (implements_currentSpan (fun _ => Implements.fail _))))
      (implements_pure Index.IndexType.ordered)
  refine Implements.congr parsed ?_
  intro word rest extending token indexType _
  constructor
  · rintro (⟨tail, rfl, ⟨_, rfl, rfl, rfl, rfl⟩ | ⟨_, ⟨_, rfl, rfl, rfl, rfl⟩ | ⟨_, none, _⟩, _,
      rfl⟩⟩ | ⟨_, ⟨rfl, rfl, rfl⟩, _, rfl⟩)
    · exact .hash
    · exact .ordered
    · exact none.elim
    · exact .absent
  · intro clause
    cases clause with
    | absent => exact Phrases.choose_nil ⟨rfl, rfl, rfl⟩
    | hash => exact Phrases.choose_present (Phrases.choose_present ⟨rfl, rfl, rfl⟩)
    | ordered =>
        exact Phrases.choose_present
          (Phrases.choose_absent nofun (Phrases.choose_present ⟨rfl, rfl, rfl⟩))

theorem implements_parseCreateIndex (draw : Draw) (fuel : Nat) :
    Implements (Reads tokens) (fun input => input.head? = some .create ∧ Within fuel input)
      (parseCreateIndex T fuel) (Phrases.after .create (StatementBody draw .create)) := by
  refine Implements.congr (Implements.bind
    (implements_indexTarget T (by decide) "Expected INDEX after CREATE" fuel)
    (fun _ inside => Within.behind inside.2)
    (fun target => Implements.bind (implements_parseIndexType fuel)
      (fun _ within => Within.behind within)
      (fun indexType => implements_pure
        (Statement.createIndex target.1 target.2 indexType)))) ?_
  intro word rest extending token statement _
  constructor
  · rintro ⟨_, typed, ⟨collection, field⟩, before, _, rfl, ⟨_, rfl, _, rfl, targets⟩, typing, _,
      rfl⟩
    rcases Phrases.seq_nothing.mp typing with ⟨indexType, types, rfl⟩
    exact ⟨_, rfl, .createIndex targets types⟩
  · rintro ⟨tail, rfl, phrase⟩
    cases phrase with
    | createIndex targets types =>
        refine ⟨_ :: _ :: _, _, _, _, _, rfl, ⟨_, rfl, _, rfl, targets⟩,
          Phrases.seq_nothing.mpr ⟨_, types, rfl⟩, ?_, rfl⟩
        intro first starts member
        rw [head_of_last starts types.head] at member
        nomatch List.mem_singleton.mp (targets.extending_subset member)

theorem implements_parseDropIndex (draw : Draw) (fuel : Nat) :
    Implements (Reads tokens) (fun input => input.head? = some .drop ∧ Within fuel input)
      (parseDropIndex T fuel) (Phrases.after .drop (StatementBody draw .drop)) := by
  refine Implements.congr (Implements.bind
    (implements_indexTarget T (by decide) "Expected INDEX after DROP" fuel)
    (fun _ inside => Within.behind inside.2)
    (fun target => implements_pure (Statement.dropIndex target.1 target.2))) ?_
  intro word rest extending token statement _
  rw [Phrases.seq_nothing]
  constructor
  · rintro ⟨⟨collection, field⟩, ⟨_, rfl, _, rfl, targets⟩, rfl⟩
    exact ⟨_, rfl, .dropIndex targets⟩
  · rintro ⟨tail, rfl, phrase⟩
    cases phrase with
    | dropIndex targets => exact ⟨_, ⟨_, rfl, _, rfl, targets⟩, rfl⟩

/-! ### All statements -/

theorem implements_transaction {command : TokenKind} (inner : command ≠ .eof) (draw : Draw)
    (fuel : Nat) (statement : Statement) (simple : StatementBody draw command [] statement [])
    (only : forall {word extending : List TokenKind} {other : Statement},
      StatementBody draw command word other extending ->
        word = [] ∧ other = statement ∧ extending = []) :
    Implements (Reads tokens) (fun input => input.head? = some command ∧ Within fuel input)
      (advance >>= fun _ => pure statement)
      (Phrases.after command (StatementBody draw command)) := by
  refine implements_advance inner Within.tail (fun _ => Implements.congr
    (implements_pure statement) ?_)
  intro word rest extending token other _
  constructor
  · rintro ⟨rfl, rfl, rfl⟩
    exact simple
  · exact only

theorem implements_statementAt (draw : Draw) (fuel : Nat) (kind : TokenKind) :
    Implements (Reads tokens) (fun input => input.head? = some kind ∧ Within fuel input)
      (statementAt T draw fuel kind) (Phrases.after kind (StatementBody draw kind)) := by
  -- The filtered commands differ in the statement they build only.
  have filtered : forall {command : TokenKind} {message : String}
      {build : String -> Option Expr -> Statement}, command ≠ .eof ->
      (forall {word extending : List TokenKind} {statement : Statement},
        filteredPhrases build word statement extending <->
          StatementBody draw command word statement extending) ->
      Implements (Reads tokens) (fun input => input.head? = some command ∧ Within fuel input)
        (parseFiltered T message build fuel)
        (Phrases.after command (StatementBody draw command)) := by
    intro command message build inner same
    refine Implements.congr (implements_parseFiltered T inner message build fuel) ?_
    intro word rest extending token statement _
    constructor
    · rintro ⟨tail, rfl, phrase⟩
      exact ⟨tail, rfl, same.mp phrase⟩
    · rintro ⟨tail, rfl, phrase⟩
      exact ⟨tail, rfl, same.mpr phrase⟩
  cases kind with
  | find => exact implements_parseFind T draw fuel
  | insert => exact implements_parseInsert T draw fuel
  | update => exact implements_parseUpdate T draw fuel
  | remove =>
      refine filtered (by decide) ⟨?_, ?_⟩
      · rintro ⟨collection, rest, filter, rfl, filters, rfl⟩
        exact .remove filters
      · rintro ⟨⟩
        rename_i filters
        exact ⟨_, _, _, rfl, filters, rfl⟩
  | watch =>
      refine filtered (by decide) ⟨?_, ?_⟩
      · rintro ⟨collection, rest, filter, rfl, filters, rfl⟩
        exact .watch filters
      · rintro ⟨⟩
        rename_i filters
        exact ⟨_, _, _, rfl, filters, rfl⟩
  | count =>
      refine filtered (by decide) ⟨?_, ?_⟩
      · rintro ⟨collection, rest, filter, rfl, filters, rfl⟩
        exact .count filters
      · rintro ⟨⟩
        rename_i filters
        exact ⟨_, _, _, rfl, filters, rfl⟩
  | existsKeyword =>
      refine filtered (by decide) ⟨?_, ?_⟩
      · rintro ⟨collection, rest, filter, rfl, filters, rfl⟩
        exact .existing filters
      · rintro ⟨⟩
        rename_i filters
        exact ⟨_, _, _, rfl, filters, rfl⟩
  | create => exact implements_parseCreateIndex T draw fuel
  | drop => exact implements_parseDropIndex T draw fuel
  | begin =>
      refine implements_transaction (by decide) draw fuel _ .begin ?_
      rintro word extending other ⟨⟩
      exact ⟨rfl, rfl, rfl⟩
  | commit =>
      refine implements_transaction (by decide) draw fuel _ .commit ?_
      rintro word extending other ⟨⟩
      exact ⟨rfl, rfl, rfl⟩
  | rollback =>
      refine implements_transaction (by decide) draw fuel _ .rollback ?_
      rintro word extending other ⟨⟩
      exact ⟨rfl, rfl, rfl⟩
  | _ =>
      refine Implements.congr (implements_currentSpan (fun _ => Implements.fail _)) ?_
      intro word rest extending token statement _
      constructor
      · exact False.elim
      · rintro ⟨tail, rfl, phrase⟩
        nomatch phrase

theorem implements_parseStatement (draw : Draw) :
    Implements (Reads tokens) (Within tokens.length) (parseStatement T draw)
      (StatementPhrase draw) := by
  have dispatched : Implements (Reads tokens) (Within tokens.length)
      (peekKind >>= statementAt T draw tokens.length) (StatementPhrase draw) := by
    refine implements_onKind (fun kind => Implements.congr
      (implements_statementAt T draw tokens.length kind) ?_)
    intro word rest extending token statement inside
    constructor
    · rintro ⟨tail, rfl, phrase⟩
      exact ⟨kind, tail, rfl, phrase⟩
    · rintro ⟨command, tail, rfl, phrase⟩
      cases inside.1
      exact ⟨tail, rfl, phrase⟩
  refine Implements.of_eq dispatched ?_
  intro parser input reads _
  rw [parseStatement, reads.same]

end Parser
end Query
end NovaDb
