import NovaDb.Client.CollectionInsert
import NovaDb.Query.Spacing

namespace NovaDb
namespace Client

open Core Foundation Query Grammar

/-!
# Looking a document up by its id

`CollectionHandle::find_by_id` puts the id between quotation marks without escaping it.
The query asks for that id exactly if the id has neither a quotation mark nor a
backslash: a quotation mark ends the literal, and an escape leaves one character of two.
-/

/-- The query `CollectionHandle::find_by_id` executes. -/
def findByIdNql (collection id : String) : String :=
  "FIND " ++ collection ++ " WHERE id == \"" ++ id ++ "\""

/-- The comparison of the id with a string. -/
def idFilter (id : String) : Expr :=
  .binary .eq (.field "id") (.literal (.string id))

/-! ## The strings of an expression -/

mutual

/-- The string literals of an expression. -/
def stringLiterals : Expr -> List String
  | .literal value =>
      match value with
      | .string text => [text]
      | _ => []
  | .field _ => []
  | .binary _ left right => stringLiterals left ++ stringLiterals right
  | .unary _ expr => stringLiterals expr
  | .isIn expr list => stringLiterals expr ++ stringLiteralsOf list
  | .between expr min max => stringLiterals expr ++ (stringLiterals min ++ stringLiterals max)

def stringLiteralsOf : List Expr -> List String
  | [] => []
  | expr :: list => stringLiterals expr ++ stringLiteralsOf list

end

theorem stringLiteralsOf_snoc (list : List Expr) (expr : Expr) :
    stringLiteralsOf (list ++ [expr]) = stringLiteralsOf list ++ stringLiterals expr := by
  induction list with
  | nil => simp only [List.nil_append, stringLiteralsOf, List.append_nil]
  | cons first list ih => rw [List.cons_append, stringLiteralsOf, stringLiteralsOf, ih, List.append_assoc]

/-- The string literals in what a word stands for. -/
def stringsOf : (phrase : Phrase) -> phrase.Meaning -> List String
  | .value, meaning => stringLiterals (.literal meaning)
  | .expr _, meaning => stringLiterals meaning
  | .chainTail _ _, meaning => stringLiterals meaning
  | .comparisonTail _, meaning => stringLiterals meaning
  | .exprs _, meanings => stringLiteralsOf meanings
  | _, _ => []

/-- The string literals in what was read before a word. -/
def stringsBefore : Phrase -> List String
  | .chainTail _ left => stringLiterals left
  | .comparisonTail left => stringLiterals left
  | .exprs sofar => stringLiteralsOf sofar
  | _ => []

/-- Every string literal of an expression is one of its tokens. -/
theorem string_of_derives {phrase : Phrase} {word extending : List TokenKind}
    {value : phrase.Meaning} (derived : Derives phrase word value extending) {text : String}
    (member : text ∈ stringsOf phrase value) :
    text ∈ stringsBefore phrase ∨ .stringLit text ∈ word := by
  induction derived with
  | @scalar token value known =>
      cases value with
      | string found =>
          rw [List.mem_singleton.mp member, scalar_string known]
          exact Or.inr (List.mem_singleton_self _)
      | _ => cases member
  | emptyArray | array | emptyObject | object => cases member
  | lastValue | moreValues | lastEntry | moreEntries => cases member
  | path | pathEnd | pathStep => cases member
  | literal derived inside => exact inside member
  | field derived inside => cases member
  | group derived inside =>
      rcases inside member with before | within
      · cases before
      · exact Or.inr (List.mem_cons_of_mem _ (List.mem_append_left _ within))
  | operand derived inside => exact inside member
  | not sign derived inside =>
      rcases inside member with before | within
      · cases before
      · exact Or.inr (List.mem_cons_of_mem _ within)
  | negate derived inside =>
      rcases inside member with before | within
      · cases before
      · exact Or.inr (List.mem_cons_of_mem _ within)
  | chain first tail insideFirst insideTail =>
      rcases insideTail member with before | within
      · rcases insideFirst before with before | within
        · cases before
        · exact Or.inr (List.mem_append_left _ within)
      · exact Or.inr (List.mem_append_right _ within)
  | chainEnd => exact Or.inl member
  | chainStep sign operand tail insideOperand insideTail =>
      rcases insideTail member with before | within
      · rcases List.mem_append.mp before with before | before
        · exact Or.inl before
        · rcases insideOperand before with before | within
          · cases before
          · exact Or.inr (List.mem_cons_of_mem _ (List.mem_append_left _ within))
      · exact Or.inr (List.mem_cons_of_mem _ (List.mem_append_right _ within))
  | comparison first tail insideFirst insideTail =>
      rcases insideTail member with before | within
      · rcases insideFirst before with before | within
        · cases before
        · exact Or.inr (List.mem_append_left _ within)
      · exact Or.inr (List.mem_append_right _ within)
  | alone => exact Or.inl member
  | compared sign operand inside =>
      rcases List.mem_append.mp member with before | later
      · exact Or.inl before
      · rcases inside later with before | within
        · cases before
        · exact Or.inr (List.mem_cons_of_mem _ within)
  | between lower upper insideLower insideUpper =>
      rcases List.mem_append.mp member with before | later
      · exact Or.inl before
      · rcases List.mem_append.mp later with low | high
        · rcases insideLower low with before | within
          · cases before
          · exact Or.inr (List.mem_cons_of_mem _ (List.mem_append_left _ within))
        · rcases insideUpper high with before | within
          · cases before
          · exact Or.inr (List.mem_cons_of_mem _ (List.mem_append_right _
              (List.mem_cons_of_mem _ within)))
  | inNothing =>
      rcases List.mem_append.mp member with before | later
      · exact Or.inl before
      · cases later
  | inList items inside =>
      rcases List.mem_append.mp member with before | later
      · exact Or.inl before
      · rcases inside later with before | within
        · cases before
        · exact Or.inr (List.mem_cons_of_mem _ (List.mem_cons_of_mem _
            (List.mem_append_left _ within)))
  | lastExpr item inside =>
      rw [stringsOf, stringLiteralsOf_snoc] at member
      rcases List.mem_append.mp member with before | later
      · exact Or.inl before
      · rcases inside later with before | within
        · cases before
        · exact Or.inr within
  | moreExprs item more insideItem insideMore =>
      rcases insideMore member with before | within
      · rw [stringsBefore, stringLiteralsOf_snoc] at before
        rcases List.mem_append.mp before with before | later
        · exact Or.inl before
        · rcases insideItem later with before | within
          · cases before
          · exact Or.inr (List.mem_append_left _ within)
      · exact Or.inr (List.mem_append_right _ (List.mem_cons_of_mem _ within))

/-! ## The tokens of the query -/

section Query

variable {T : TextTables}

theorem findByIdNql_toList (collection id : String) :
    (findByIdNql collection id).toList =
      "FIND ".toList ++ (collection.toList ++ (" WHERE id == ".toList ++
        '"' :: (id.toList ++ ['"']))) := by
  have ending : " WHERE id == \"".toList = " WHERE id == ".toList ++ ['"'] := by decide
  simp only [findByIdNql, String.toList_append, List.append_assoc, ending]
  rfl

/-- The tokens in front of the id. -/
def lookupKinds (collection : String) : List TokenKind :=
  [.find, .identifier collection, .whereKeyword, .identifier "id", .eqEq]

/-- The lexer reads everything in front of the id, whatever the id is. -/
theorem advances_lookup (name : Lexer.Identifier T) (id : String) :
    Lexer.Advances T (findByIdNql name.asString id).toList (lookupKinds name.asString)
      ('"' :: (id.toList ++ ['"'])) := by
  have spelled : name.asString.toList = name.text := String.toList_ofList
  have idWord : Lexer.wordKind ['i', 'd'] = .identifier "id" := by decide
  generalize isRest : '"' :: (id.toList ++ ['"']) = rest
  have cut : "FIND ".toList ++ (name.text ++ (" WHERE id == ".toList ++ rest)) =
      ['F', 'I', 'N', 'D'] ++ (' ' :: (name.text ++ (' ' :: (['W', 'H', 'E', 'R', 'E'] ++
        (' ' :: (['i', 'd'] ++ (' ' :: (['=', '='] ++ (' ' :: rest))))))))) := by
    rfl
  rw [findByIdNql_toList, spelled, isRest, cut]
  have compared : Lexer.Advances T (['=', '='] ++ (' ' :: rest)) [.eqEq] rest :=
    .token (Lexer.scans_doubled (by decide) (Lexer.Lone.of_ne (by decide) (by decide))
      (fun _ _ => rfl)) (advances_blank .stay)
  have field : Lexer.Advances T (['i', 'd'] ++ (' ' :: (['=', '='] ++ (' ' :: rest))))
      [Lexer.wordKind ['i', 'd'], .eqEq] rest :=
    .token (Lexer.scans_ascii (by decide) (fun _ => blank_stops _)) (advances_blank compared)
  rw [idWord] at field
  exact .token (Lexer.scans_ascii (by decide) (fun _ => blank_stops _)) (advances_blank
    (.token (Lexer.scans_word name (fun _ => blank_stops _)) (advances_blank
      (.token (Lexer.scans_ascii (by decide) (fun _ => blank_stops _)) (advances_blank field)))))

/-- The lookup by an id. -/
def lookup (collection id : String) : Statement :=
  .find collection (some (idFilter id)) none none none

theorem derivesAt_idFilter (id : String) :
    DerivesAt (.chain .disjunction) [.identifier "id", .eqEq, .stringLit id] (idFilter id) := by
  have field : DerivesAt (.chain .additive) [.identifier "id"] (.field "id") :=
    DerivesAt.ofPrimary (.field (.path .pathEnd)) _
  have literal : DerivesAt (.chain .additive) [.stringLit id] (.literal (.string id)) :=
    DerivesAt.ofPrimary (.literal (.scalar rfl)) _
  exact (DerivesAt.compared (by decide) field literal).climb (by decide)

/-- Neither a quotation mark nor a backslash. -/
def PlainText (text : String) : Prop :=
  forall c, c ∈ text.toList -> c ≠ '"' ∧ c ≠ '\\'

/-- A plain id is looked up. -/
theorem parseNql_of_plainText (draw : Draw) (name : Lexer.Identifier T) {id : String}
    (plain : PlainText id) :
    Exists fun next =>
      parseNql T draw (findByIdNql name.asString id) = .ok (lookup name.asString id) next := by
  have literal : Lexer.Advances T (('"' :: (id.toList ++ ['"'])) ++ []) [.stringLit id] [] :=
    .token (scans_plain plain []) .stay
  rw [List.append_nil] at literal
  rcases Lexer.tokenize_of_advances T ((advances_lookup name id).trans literal) with
    ⟨tokens, final, read, kinds⟩
  have ends := Lexer.tokenize_ends T read
  have reads := Parser.reads_start ends (Parser.length_pos_of_ends ends)
  have within := @Parser.within_start tokens 0
  rcases derivesAt_idFilter id with ⟨extending, derived⟩
  have body : StatementBody draw .find _ (lookup name.asString id) _ :=
    .find (.present derived) .absent .absent .absent
  have closed : TokenKind.eof ∉ carry [] extending (carry [] [.sort] (carry [] [.limit] [.offset])) := by
    intro member
    rcases List.mem_append.mp member with inside | clauses
    · exact absurd (derived.extending_subset inside) (by decide)
    · exact absurd clauses (by decide)
  have split : (tokens.drop 0).map Token.kind = (.find :: .identifier name.asString ::
      ((.whereKeyword :: [.identifier "id", .eqEq, .stringLit id]) ++ ([] ++ ([] ++ [])))) ++
        .eof :: [] := by
    rw [List.drop_zero, kinds]
    rfl
  rw [split] at reads within
  rcases (Parser.implements_parseStatement T draw).complete _ reads within ⟨_, _, rfl, body⟩
    closed with ⟨next, done, _⟩
  exact ⟨next, (parseNql_of_tokens read).trans done⟩

/-! ## An id that is not plain

Such an id ends its own literal early or escapes its closing quotation mark, and no
string token is then as long as the id. -/

/-- The string tokens from an id that is not plain on are shorter than the id. -/
theorem shorter_literals {id : String} (special : ¬ PlainText id) {finish : Span} {fuel : Nat}
    {rest : List Located} {before tokens : List Token} {final : Lexer}
    (same : rest.map Located.char = '"' :: (id.toList ++ ['"']))
    (done : Lexer.tokenizeLoop T finish fuel rest before = .ok tokens final) :
    Exists fun more => tokens = before ++ more ∧
      forall token text, token ∈ more -> literalText token.kind = some text ->
        text.toList.length < id.toList.length := by
  rcases List.map_eq_cons_iff.mp same with ⟨first, tail, rfl, quote, tailChars⟩
  cases fuel with
  | zero => cases done
  | succ fuel =>
      rw [Lexer.tokenizeLoop, Lexer.scan_quote T quote] at done
      cases read : Lexer.readString '"' tail with
      | none =>
          rw [read] at done
          cases done
      | some found =>
          rcases found with ⟨content, left⟩
          rw [read] at done
          have shorter : content.length < id.toList.length :=
            (@readString_short _ [] _ _ _ tailChars (List.forall_mem_nil _) read).2.resolve_left special
          rcases Lexer.readString_split read with ⟨front, closing, rfl, _, _⟩
          have sized := congrArg List.length tailChars
          simp only [List.length_map, List.length_append, List.length_cons, List.length_nil] at sized
          rcases Lexer.tokenizeLoop_scanned done with ⟨more, splits, each⟩
          refine ⟨⟨.stringLit (String.ofList content), first.span⟩ :: more,
            by rw [splits, List.append_assoc]; rfl, ?_⟩
          intro token text member literal
          rcases List.mem_cons.mp member with rfl | later
          · cases literal
            rw [String.toList_ofList]
            exact shorter
          · rcases each token later with isEnd | ⟨opening, behind, beyond, suffix, scanned⟩
            · rw [isEnd] at literal
              cases literal
            · rcases scan_literal scanned literal with ⟨_, readAgain⟩
              rcases Lexer.readString_split readAgain with ⟨chars, last, rfl, _, fits⟩
              have within := suffix.length_le
              simp only [List.length_cons, List.length_append] at within
              omega

/-- The tokens of a lookup hold the id only if it is plain. -/
theorem plain_of_literal {name : Lexer.Identifier T} {id : String} {tokens : List Token}
    {final : Lexer}
    (read : Lexer.tokenize T (Lexer.new (findByIdNql name.asString id)) = .ok tokens final)
    (member : .stringLit id ∈ tokens.map Token.kind) : PlainText id := by
  by_contra special
  rcases Lexer.tokenizeLoop_of_advances T (advances_lookup name id)
    (Lexer.new (findByIdNql name.asString id)).finish (Lexer.chars_new _) (Nat.le_refl _) [] with
    ⟨region, remaining, front, regionChars, _, named, continues⟩
  rw [Lexer.tokenize, continues] at read
  rcases shorter_literals special regionChars read with ⟨more, rfl, short⟩
  rw [List.nil_append, List.map_append, named] at member
  rcases List.mem_append.mp member with head | behind
  · simp [lookupKinds] at head
  · rcases List.mem_map.mp behind with ⟨token, inside, kind⟩
    have literal : literalText token.kind = some id := by rw [kind]; rfl
    exact absurd (short token id inside literal) (Nat.lt_irrefl _)

/-- A text that is parsed to the lookup has the id among its tokens. -/
theorem literal_of_lookup {draw : Draw} {tokens : List Token} {collection id : String}
    {next : Parser} (ends : (tokens.map Token.kind).getLast? = some .eof)
    (parsed : Parser.parseStatement T draw (Parser.new tokens) = .ok (lookup collection id) next) :
    .stringLit id ∈ tokens.map Token.kind := by
  have reads := Parser.reads_start ends (Parser.length_pos_of_ends ends)
  rcases (Parser.implements_parseStatement T draw).sound reads (Parser.within_start 0) parsed with
    ⟨word, token, rest, extending, split, left, ⟨command, body, rfl, phrase⟩, stops⟩
  rw [List.drop_zero] at split
  cases phrase with
  | find filters sorts limits offsets =>
      cases filters with
      | present derived =>
          have inside := (string_of_derives derived (List.mem_singleton_self id)).resolve_left
            List.not_mem_nil
          rw [split]
          simp [inside]

/-- For every identifier and every id, `parse_nql` reads the query of `find_by_id` as
the lookup of that id exactly if the id has neither a quotation mark nor a backslash in
it: the id is put into the text as it is.  -/
theorem find_by_id_iff (T : TextTables) (draw : Draw) (name : Lexer.Identifier T) (id : String) :
    (Exists fun next => parseNql T draw (findByIdNql name.asString id) =
        .ok (.find name.asString (some (idFilter id)) none none none) next) <->
      forall c, c ∈ id.toList -> c ≠ '"' ∧ c ≠ '\\' := by
  constructor
  · rintro ⟨next, done⟩
    rcases tokens_of_parseNql done with ⟨tokens, final, read, parsed⟩
    exact plain_of_literal read (literal_of_lookup (Lexer.tokenize_ends T read) parsed)
  · intro plain
    exact parseNql_of_plainText draw name plain

end Query

/-- Whether a text was parsed as a FIND by either of two conditions. -/
def findsEither (outcome : Parsed NovaError Parser Statement) : Bool :=
  match outcome with
  | .ok (.find _ (some (.binary .or _ _)) _ _ _) _ => true
  | _ => false

/-- An id that ends its literal and brings in a condition that always holds. -/
def hostileId : String :=
  "a\" OR \"\" == \""

/-- The lookup of that id finds every user. -/
theorem find_by_id_injected :
    ¬ Exists fun next => parseNql referenceTables ⟨Vector.replicate 16 0, 0⟩
        (findByIdNql usersName.asString hostileId) =
      .ok (.find usersName.asString (some (idFilter hostileId)) none none none) next := by
  rintro ⟨next, done⟩
  have either : findsEither (parseNql referenceTables ⟨Vector.replicate 16 0, 0⟩
      (findByIdNql usersName.asString hostileId)) = true := by
    decide +kernel
  rw [done] at either
  nomatch either

end Client
end NovaDb
