import NovaDb.Client.InsertText
import NovaDb.Storage.StoredValues

namespace NovaDb
namespace Client

open Core Foundation Query Grammar
open Storage (referenceJson)

/-!
# When the text of an INSERT means the document

The text stands for the document if the lexer undoes every escape in the fields,
no field is taken for the id, and the id ends its own literal.  These conditions
are also necessary.  An id that does not end its literal could bring in tokens of
its own, but none of them is a string as long as the id itself.
-/

/-! ## An id that is not plain

Such an id ends its own literal early or escapes its closing quotation mark.  No
literal behind the key of the id is then as long as the id. -/

section Literals

variable {T : TextTables}

/-- The content of a string token. -/
def literalText : TokenKind -> Option String
  | .stringLit text => some text
  | _ => none

theorem wordKind_no_literal (word : List Char) : literalText (Lexer.wordKind word) = none := by
  have all : Lexer.keywords.all (fun entry => (literalText entry.2).isNone) = true := by decide
  rw [Lexer.wordKind]
  split
  · rename_i keyword found
    rcases List.lookup_eq_some_iff.mp found with ⟨front, behind, same, _⟩
    have member : (Lexer.toAsciiUppercase word, keyword) ∈ Lexer.keywords := by
      rw [same]
      exact List.mem_append_right _ List.mem_cons_self
    exact Option.isNone_iff_eq_none.mp (List.all_eq_true.mp all _ member)
  · rfl

theorem scanNumber_no_literal {span : Span} {negative : Bool} {rest left : List Located}
    {kind : TokenKind} (scanned : Lexer.scanNumber span negative rest = .ok (kind, left)) :
    literalText kind = none := by
  simp only [Lexer.scanNumber] at scanned
  split at scanned
  · cases scanned
    rfl
  · split at scanned
    · cases scanned
      rfl
    · nomatch scanned

theorem scanSymbol_no_literal {span : Span} {c : Char} {rest left : List Located}
    {kind : TokenKind} (scanned : Lexer.scanSymbol span c rest = .ok (kind, left)) :
    literalText kind = none := by
  have single : forall {second : Char} {both single : TokenKind},
      .ok (Lexer.doubled second both single rest) = (.ok (kind, left) : Except NovaError _) ->
        literalText both = none -> literalText single = none -> literalText kind = none := by
    intro second both single same none noneToo
    rw [Lexer.doubled] at same
    split at same
    · cases same
      exact none
    · cases same
      exact noneToo
  have double : forall {second : Char} {both : TokenKind} {message : String},
      Lexer.doubledOnly second both message span rest = .ok (kind, left) ->
        literalText both = none -> literalText kind = none := by
    intro second both message same none
    rw [Lexer.doubledOnly] at same
    split at same
    · cases same
      exact none
    · cases same
  unfold Lexer.scanSymbol at scanned
  split at scanned <;> first
    | exact single scanned rfl rfl
    | exact double scanned rfl
    | (cases scanned; rfl)
    | cases scanned

/-- A string token was read between two quotation marks. -/
theorem scan_literal {first : Located} {rest left : List Located} {kind : TokenKind}
    {text : String} (scanned : Lexer.scan T first rest = .ok (some kind, left))
    (literal : literalText kind = some text) :
    (first.char = '"' ∨ first.char = '\'') ∧
      Lexer.readString first.char rest = some (text.toList, left) := by
  have other : forall {found : TokenKind} {Claim : Prop}, found = kind ->
      literalText found = none -> Claim := by
    intro found Claim same none
    rw [same, literal] at none
    nomatch none
  unfold Lexer.scan at scanned
  split at scanned
  · nomatch scanned
  · split at scanned
    · nomatch scanned
    · cases token : Lexer.scanToken T first rest with
      | error failure =>
          rw [token] at scanned
          nomatch scanned
      | ok found =>
          rcases found with ⟨found, behind⟩
          rw [token] at scanned
          cases scanned
          unfold Lexer.scanToken at token
          split at token
          · rename_i quote
            split at token
            · rename_i read done
              cases token
              cases literal
              exact ⟨quote, by rw [done, String.toList_ofList]⟩
            · nomatch token
          · split at token
            · exact other rfl (scanNumber_no_literal token)
            · split at token
              · exact other rfl (scanNumber_no_literal token)
              · split at token
                · cases token
                  exact other rfl (wordKind_no_literal _)
                · exact other rfl (scanSymbol_no_literal token)

/-- Every quotation mark has at least two characters behind it. -/
def QuotesInside (rest : List Located) : Prop :=
  forall front c behind, rest = front ++ c :: behind -> c.char = '"' ∨ c.char = '\'' ->
    2 ≤ behind.length

theorem QuotesInside.suffix {rest left : List Located} (inside : QuotesInside rest)
    (suffix : left <:+ rest) : QuotesInside left := by
  intro front c behind same quote
  rcases suffix with ⟨before, rfl⟩
  exact inside (before ++ front) c behind (by rw [same, List.append_assoc]) quote

/-- Where every quotation mark is inside, a string token is shorter than the text
by both its quotation marks and two more. -/
theorem tokenizeLoop_literals {finish : Span} {fuel : Nat} {rest : List Located}
    {before tokens : List Token} {final : Lexer} (inside : QuotesInside rest)
    (done : Lexer.tokenizeLoop T finish fuel rest before = .ok tokens final) :
    Exists fun more => tokens = before ++ more ∧
      forall token text, token ∈ more -> literalText token.kind = some text ->
        text.toList.length + 4 ≤ rest.length := by
  rcases Lexer.tokenizeLoop_scanned done with ⟨more, splits, each⟩
  refine ⟨more, splits, ?_⟩
  intro token text member literal
  rcases each token member with isEnd | ⟨first, tail, left, suffix, scanned⟩
  · rw [isEnd] at literal
    nomatch literal
  · rcases scan_literal scanned literal with ⟨quote, read⟩
    rcases Lexer.readString_split read with ⟨front, closing, rfl, closes, fits⟩
    rw [← closes] at quote
    have room := inside.suffix suffix (first :: front) closing left rfl quote
    have within := suffix.length_le
    rw [List.length_cons, List.length_append, List.length_cons] at within
    omega

/-- Characters that are checked to be neither quotation marks nor backslashes. -/
theorem plain_of_all {chars : List Char}
    (all : chars.all (fun c => c != '"' && c != '\\') = true) :
    forall c, c ∈ chars -> c ≠ '"' ∧ c ≠ '\\' := by
  intro c member
  have plain := List.all_eq_true.mp all c member
  rw [Bool.and_eq_true, bne_iff_ne, bne_iff_ne] at plain
  exact plain

/-- What the string reader takes for an id that is not plain is shorter. -/
theorem readString_short {chars ending : List Char} {rest left : List Located}
    {content : List Char} (same : rest.map Located.char = chars ++ '"' :: ending)
    (clear : forall c, c ∈ ending -> c ≠ '"' ∧ c ≠ '\\')
    (read : Lexer.readString '"' rest = some (content, left)) :
    content.length ≤ chars.length ∧
      ((forall c, c ∈ chars -> c ≠ '"' ∧ c ≠ '\\') ∨ content.length < chars.length) := by
  fun_induction Lexer.readString '"' rest generalizing chars content with
  | case1 => cases read
  | case2 c rest closes =>
      cases read
      cases chars with
      | nil => exact ⟨Nat.le_refl _, Or.inl (List.forall_mem_nil _)⟩
      | cons d chars => exact ⟨Nat.zero_le _, Or.inr (Nat.succ_pos _)⟩
  | case3 c opens escapes => cases read
  | case4 c opens escapes escaped behind inductionHypothesis =>
      rcases Option.map_eq_some_iff.mp read with ⟨⟨inner, behindInner⟩, found, pair⟩
      cases pair
      rcases List.cons_eq_append_iff.mp same with ⟨rfl, quote⟩ | ⟨others, rfl, sameTail⟩
      · exact absurd (List.cons.inj quote).1.symm opens
      · rcases List.cons_eq_append_iff.mp sameTail with ⟨rfl, quote⟩ | ⟨chars, rfl, sameRest⟩
        · have unclosed := @Lexer.readString_plain '"' behind []
            (by rw [← (List.cons.inj quote).2]; exact clear)
          rw [List.append_nil, found] at unclosed
          cases unclosed
        · have short := (inductionHypothesis sameRest found).1
          simp only [List.length_cons]
          exact ⟨by omega, Or.inr (by omega)⟩
  | case5 c rest opens plain inductionHypothesis =>
      rcases Option.map_eq_some_iff.mp read with ⟨⟨inner, behindInner⟩, found, pair⟩
      cases pair
      rcases List.cons_eq_append_iff.mp same with ⟨rfl, quote⟩ | ⟨chars, rfl, sameTail⟩
      · exact absurd (List.cons.inj quote).1.symm opens
      · rcases inductionHypothesis sameTail found with ⟨fits, others⟩
        refine ⟨Nat.succ_le_succ fits, ?_⟩
        rcases others with plains | short
        · refine Or.inl ?_
          intro d member
          rcases List.mem_cons.mp member with rfl | later
          · exact ⟨opens, plain⟩
          · exact plains d later
        · exact Or.inr (Nat.succ_lt_succ short)

theorem quotesInside_region {chars : List Char} {rest : List Located}
    (same : rest.map Located.char = chars ++ ['"', '}', ')']) : QuotesInside rest := by
  intro front c behind split quote
  rw [split, List.map_append, List.map_cons] at same
  match behind with
  | [] =>
      have last := congrArg List.getLast? same
      simp only [List.map_nil, List.getLast?_append, List.getLast?_cons, Option.some_or,
        List.getLast?_nil, Option.getD_some, Option.getD_none] at last
      rw [Option.some.inj last] at quote
      revert quote
      decide
  | [d] =>
      have last := congrArg (fun list => list.dropLast.getLast?) same
      simp at last
      rw [last] at quote
      exact absurd quote (by decide)
  | d :: e :: rest => exact Nat.le_add_left 2 rest.length

/-- The string tokens from an id that is not plain on are shorter than the id. -/
theorem idRegion_literals {id : DocumentId} (special : ¬ PlainId id) {finish : Span} {fuel : Nat}
    {rest : List Located} {before tokens : List Token} {final : Lexer}
    (same : rest.map Located.char = idRegion id)
    (done : Lexer.tokenizeLoop T finish fuel rest before = .ok tokens final) :
    Exists fun more => tokens = before ++ more ∧
      forall token text, token ∈ more -> literalText token.kind = some text ->
        text.toList.length < id.asStr.toList.length := by
  rcases List.map_eq_cons_iff.mp same with ⟨first, tail, rfl, quote, tailChars⟩
  cases fuel with
  | zero => cases done
  | succ fuel =>
      rw [Lexer.tokenizeLoop, Lexer.scan_quote T quote] at done
      cases read : Lexer.readString '"' tail with
      | none =>
          rw [read] at done
          cases done
      | some found =>
          rcases found with ⟨content, left⟩
          rw [read] at done
          have shorter : content.length < id.asStr.toList.length :=
            (readString_short tailChars (plain_of_all (by decide)) read).2.resolve_left special
          have sized := congrArg List.length tailChars
          rw [List.length_map, List.length_append] at sized
          rcases Lexer.readString_split read with ⟨front, closing, rfl, _, _⟩
          have inside : QuotesInside left := (quotesInside_region tailChars).suffix
            ⟨front ++ [closing], by rw [List.append_assoc, List.singleton_append]⟩
          rcases tokenizeLoop_literals inside done with ⟨more, split, short⟩
          refine ⟨⟨.stringLit (String.ofList content), first.span⟩ :: more,
            by rw [split, List.append_assoc]; rfl, ?_⟩
          intro token text member literal
          rcases List.mem_cons.mp member with rfl | later
          · cases literal
            rw [String.toList_ofList]
            exact shorter
          · have bounded := short token text later literal
            rw [List.length_append, List.length_cons] at sized
            simp only [List.length_cons, List.length_nil] at sized
            omega

end Literals

/-! ## Reading the tokens back -/

theorem getLast?_behind {front rest : List TokenKind} {last : TokenKind}
    (ends : rest.getLast? = some last) : (front ++ rest).getLast? = some last := by
  rw [List.getLast?_append, ends, Option.some_or]

/-- Tokens do not start with two literals. -/
theorem value_unique {word other rest left extending beyond : List TokenKind}
    {token last : TokenKind} {value twin : Value} (first : Derives .value word value extending)
    (second : Derives .value other twin beyond)
    (same : word ++ token :: rest = other ++ last :: left)
    (ends : (token :: rest).getLast? = some .eof) :
    value = twin ∧ token :: rest = last :: left := by
  have closed : forall {word extending : List TokenKind} {value : Value} {next : TokenKind},
      Derives .value word value extending -> next ∉ extending :=
    fun derived member => nomatch derived.extending_subset member
  have reads : Parser.Reads ((word ++ token :: rest).map (fun kind => ⟨kind, ⟨1, 1⟩⟩))
      (Parser.new ((word ++ token :: rest).map (fun kind => ⟨kind, ⟨1, 1⟩⟩)))
      (word ++ token :: rest) := by
    refine ⟨rfl, ?_, getLast?_behind ends⟩
    rw [Parser.new, List.drop_zero, List.map_map]
    exact List.map_id _
  rcases (Parser.implements_parseValueLiteral referenceTables _).unique reads
    (Nat.le_refl _) same first (closed first) second (closed second) with
    ⟨sameValue, next, behind, behindOther⟩
  exact ⟨sameValue, behind.ahead.symm.trans behindOther.ahead⟩

/-- An object whose tokens start with those of the fields goes on behind them. -/
theorem derives_behind_leading {fields sofar map : List (String × Value)}
    {word extending tail rest : List TokenKind} (plain : Value.PlainMembers fields)
    (derived : Derives (.entries sofar) word map extending)
    (same : word ++ .rBrace :: tail = leadingKinds fields ++ rest)
    (ends : (TokenKind.rBrace :: tail).getLast? = some .eof) :
    Exists fun left =>
      Derives (.entries (KeyedList.stored compare sofar (relexedMembers fields))) left map
        extending ∧ left ++ .rBrace :: tail = rest := by
  induction fields generalizing sofar word with
  | nil => exact ⟨word, derived, same⟩
  | cons member members inductionHypothesis =>
      have field := derives_value plain.1
      rw [leadingKinds, List.cons_append, List.cons_append, List.append_assoc,
        List.cons_append] at same
      cases derived with
      | lastEntry named item =>
          rw [List.cons_append, List.cons_append] at same
          injection same with keys same
          injection same with colons same
          cases (value_unique item field same ends).2
      | moreEntries named item more =>
          rw [List.cons_append, List.cons_append, List.append_assoc, List.cons_append] at same
          injection same with keys same
          injection same with colons same
          rcases value_unique item field same (@getLast?_behind (.comma :: _) _ _ ends) with
            ⟨rfl, behind⟩
          injection behind with commas behind
          rw [keys] at named
          cases named
          exact inductionHypothesis plain.2 more behind

theorem scalar_string {token : TokenKind} {text : String}
    (known : token.scalar = some (.string text)) : token = .stringLit text := by
  cases token <;> cases known
  rfl

/-- A string literal is one of its tokens. -/
theorem literal_of_value {word extending : List TokenKind} {text : String}
    (derived : Derives .value word (.string text) extending) : .stringLit text ∈ word := by
  cases derived with
  | scalar known =>
      rw [scalar_string known]
      exact List.mem_singleton_self _

/-- A string among the entries of an object is one of its tokens. -/
theorem literal_of_entries {sofar map : List (String × Value)} {word extending : List TokenKind}
    {key text : String} (arranged : KeyedList.Arranged compare sofar)
    (derived : Derives (.entries sofar) word map extending) (member : (key, .string text) ∈ map) :
    (key, .string text) ∈ sofar ∨ .stringLit text ∈ word := by
  have value : forall {word extending : List TokenKind} {value : Value},
      Derives .value word value extending -> value = .string text -> .stringLit text ∈ word := by
    intro word extending value derived same
    subst same
    exact literal_of_value derived
  match derived with
  | .lastEntry named item =>
      rcases (KeyedList.mem_insert KeyedList.lawful_compare arranged).mp member with
        same | ⟨_, older⟩
      · refine Or.inr (List.mem_cons_of_mem _ (List.mem_cons_of_mem _ (value item ?_)))
        exact (Prod.mk.inj same).2.symm
      · exact Or.inl older
  | .moreEntries named item more =>
      rcases literal_of_entries (KeyedList.insert_arranged KeyedList.lawful_compare arranged) more
        member with inMap | later
      · rcases (KeyedList.mem_insert KeyedList.lawful_compare arranged).mp inMap with
          same | ⟨_, older⟩
        · refine Or.inr (List.mem_cons_of_mem _ (List.mem_cons_of_mem _
            (List.mem_append_left _ (value item ?_))))
          exact (Prod.mk.inj same).2.symm
        · exact Or.inl older
      · exact Or.inr (List.mem_cons_of_mem _ (List.mem_cons_of_mem _
          (List.mem_append_right _ (List.mem_cons_of_mem _ later))))
termination_by word.length
decreasing_by
  simp only [List.length_cons, List.length_append]
  omega

theorem plainId_generate (uuid : Vector UInt8 16) : PlainId (DocumentId.generate uuid) := by
  intro c member
  rw [DocumentId.generate, String.toList_ofList] at member
  have hex : forall bytes : List UInt8, c ∈ bytes.flatMap hexByte -> c ≠ '"' ∧ c ≠ '\\' := by
    intro bytes inside
    rcases List.mem_flatMap.mp inside with ⟨byte, _, digit⟩
    exact hexByte_plain_char digit
  have hyphen : forall bytes : List UInt8, c ∈ '-' :: bytes.flatMap hexByte ->
      c ≠ '"' ∧ c ≠ '\\' := by
    intro bytes inside
    rcases List.mem_cons.mp inside with rfl | digits
    · decide
    · exact hex bytes digits
  simp only [uuidChars, List.mem_append] at member
  rcases member with (((first | second) | third) | fourth) | fifth
  · exact hex _ first
  · exact hyphen _ second
  · exact hyphen _ third
  · exact hyphen _ fourth
  · exact hyphen _ fifth

theorem length_of_new {text : String} {id : DocumentId} (made : DocumentId.new text = .ok id) :
    id.asStr.toList.length ≤ text.toList.length := by
  rw [DocumentId.new] at made
  split at made
  · cases made
  · split at made
    · cases made
    · cases made
      rw [trim, String.toList_ofList, trimChars]
      exact Nat.le_trans (List.rdropWhile_prefix _ _).length_le
        (List.dropWhile_suffix _).length_le

section Special

variable {T : TextTables} {lib : JsonLibrary} {numberText : lib.Number -> List Char}

/-- The tokens of a text whose id is not plain: the known head, and string tokens
shorter than the id. -/
theorem tokens_of_special (writes : WritesIntegers lib numberText) {name : Lexer.Identifier T}
    {doc : Document} (plain : Value.PlainMembers doc.fields) (special : ¬ PlainId doc.id)
    {tokens : List Token} {final : Lexer}
    (read : Lexer.tokenize T (Lexer.new (insertNql lib numberText name.asString doc)) =
      .ok tokens final) :
    Exists fun behind => tokens.map Token.kind = headKinds name.asString doc.fields ++ behind ∧
      forall text, .stringLit text ∈ behind ->
        text.toList.length < doc.id.asStr.toList.length := by
  rcases Lexer.tokenizeLoop_of_advances T (advances_head writes name plain)
    (Lexer.new (insertNql lib numberText name.asString doc)).finish (Lexer.chars_new _)
    (Nat.le_refl _) [] with ⟨region, remaining, front, regionChars, _, named, continues⟩
  rw [Lexer.tokenize, continues] at read
  rcases idRegion_literals special regionChars read with ⟨more, same, short⟩
  refine ⟨more.map Token.kind, by rw [same, List.nil_append, List.map_append, named], ?_⟩
  intro text member
  rcases List.mem_map.mp member with ⟨token, inside, kind⟩
  exact short token text inside (by rw [kind]; rfl)

theorem object_word {map : List (String × Value)} {word extending : List TokenKind}
    (derived : Derives .value word (.object map) extending) :
    word = [.lBrace, .rBrace] ∨ Exists fun items => Exists fun inner =>
      word = .lBrace :: (items ++ [.rBrace]) ∧ Derives (.entries []) items map inner := by
  cases derived with
  | @scalar token value known => cases token <;> cases known
  | emptyObject => exact Or.inl rfl
  | object items => exact Or.inr ⟨_, _, rfl, items⟩

/-- Behind the command word of the text stands an object. -/
theorem object_of_insertBody {draw : Draw} {collection : String} {document : Document}
    {body extending rest behind : List TokenKind} {token : TokenKind} {name : String}
    {fields : List (String × Value)}
    (phrase : StatementBody draw .insert body (.insert collection document) extending)
    (same : body ++ token :: rest = (headKinds name fields).tail ++ behind) :
    Exists fun map => Exists fun word => Exists fun inner =>
      document = Parser.documentOf draw map ∧ Derives (.entries []) word map inner ∧
        word ++ .rBrace :: .rParen :: token :: rest =
          leadingKinds fields ++ (.stringLit "_id" :: .colon :: behind) := by
  rw [headKinds, List.tail_cons] at same
  cases phrase with
  | insert optional derived =>
      rcases optional with rfl | rfl
      · cases (List.cons.inj same).1
      · rcases derived.value_first with ⟨first, more, rfl, starts⟩
        rw [List.cons_append, List.cons_append, List.cons_append] at same
        injection same with intos same
        injection same with names same
        injection same with values same
        injection same with opening same
        rw [opening] at starts
        rcases starts with scalar | other | other
        · exact absurd rfl scalar
        · cases other
        · cases other
  | insertParen optional derived =>
      rcases optional with rfl | rfl
      · cases (List.cons.inj same).1
      · rw [List.cons_append, List.cons_append, List.cons_append, List.cons_append,
          List.append_assoc] at same
        injection same with intos same
        injection same with names same
        injection same with values same
        injection same with opening same
        rcases object_word derived with rfl | ⟨items, inner, rfl, entries⟩
        · rw [List.cons_append] at same
          injection same with braces same
          cases fields with
          | nil => cases (List.cons.inj same).1
          | cons member members => cases (List.cons.inj same).1
        · rw [List.cons_append, List.append_assoc] at same
          injection same with braces same
          refine ⟨_, items, inner, rfl, entries, ?_⟩
          simpa using same

/-- No document of an accepted text has a field named like an id. -/
theorem noIdField_documentOf (draw : Draw) (map : List (String × Value)) :
    NoIdField (Parser.documentOf draw map).fields := by
  intro entry member
  rw [Parser.documentOf, foldl_insertEntry_fields] at member
  rcases KeyedList.mem_of_mem_stored KeyedList.lawful_compare List.Pairwise.nil member with
    none | field
  · cases none
  · simpa using (List.mem_filter.mp field).2

theorem noIdField_of_parse {draw : Draw} {query : String} {collection : String}
    {document : Document} {next : Parser}
    (done : parseNql T draw query = .ok (.insert collection document) next) :
    NoIdField document.fields := by
  rcases tokens_of_parseNql done with ⟨tokens, final, read, parsed⟩
  have ends := Lexer.tokenize_ends T read
  have reads := Parser.reads_start ends (Parser.length_pos_of_ends ends)
  rcases (Parser.implements_parseStatement T draw).sound reads (Parser.within_start 0) parsed with
    ⟨word, token, rest, extending, split, left, ⟨command, body, rfl, phrase⟩, stops⟩
  cases phrase with
  | insert optional derived => exact noIdField_documentOf draw _
  | insertParen optional derived => exact noIdField_documentOf draw _

/-- With an id that is not plain, no accepted text means a document with that id. -/
theorem special_id_lost (writes : WritesIntegers lib numberText) {draw : Draw}
    {name : Lexer.Identifier T} {doc document : Document} {collection : String} {next : Parser}
    (plain : Value.PlainMembers doc.fields) (clear : NoIdField doc.fields)
    (special : ¬ PlainId doc.id)
    (done : parseNql T draw (insertNql lib numberText name.asString doc) =
      .ok (.insert collection document) next) : document.id ≠ doc.id := by
  rcases tokens_of_parseNql done with ⟨tokens, final, read, parsed⟩
  rcases tokens_of_special writes plain special read with ⟨behind, kinds, short⟩
  have ends := Lexer.tokenize_ends T read
  have reads := Parser.reads_start ends (Parser.length_pos_of_ends ends)
  rcases (Parser.implements_parseStatement T draw).sound reads (Parser.within_start 0) parsed with
    ⟨word, token, rest, extending, split, left, ⟨command, body, rfl, phrase⟩, stops⟩
  rw [List.drop_zero, kinds] at split
  have started : TokenKind.insert = command := (List.cons.inj split).1
  subst started
  rcases object_of_insertBody phrase (List.cons.inj split).2.symm with
    ⟨map, items, inner, rfl, derived, same⟩
  have closes : (TokenKind.rBrace :: .rParen :: token :: rest).getLast? = some .eof := by
    have last := left.ends
    exact @getLast?_behind [.rBrace, .rParen] _ _ last
  rcases derives_behind_leading plain derived same closes with ⟨entries, more, sameEntries⟩
  intro sameId
  rcases documentOf_id_cases draw map with ⟨entry, member, given⟩ | drawn
  · rcases givenId_eq_some given with ⟨isKey, text, content, made⟩
    rw [sameId] at made
    rcases entry with ⟨key, value⟩
    cases content
    rcases literal_of_entries (KeyedList.arranged_collect _) more member with field | literal
    · rcases KeyedList.mem_of_mem_stored KeyedList.lawful_compare List.Pairwise.nil field with
        none | field
      · cases none
      · rcases key_of_mem_relexedMembers field with ⟨original, known, sameKey⟩
        have idText : relexedText original.1 = "_id" ∨ relexedText original.1 = "id" := by
          rw [← sameKey]
          exact of_decide_eq_true isKey
        have kept : Kept original.1 := by
          refine kept_of_clear ?_
          rcases idText with same | same <;> rw [same] <;> decide
        rw [relexedText_of_kept kept] at sameKey
        have isId := clear original known
        rw [← sameKey, isKey] at isId
        cases isId
    · have inside : .stringLit text ∈ TokenKind.stringLit "_id" :: .colon :: behind := by
        rw [← sameEntries]
        exact List.mem_append_left _ literal
      rcases List.mem_cons.mp inside with isKeyText | inside
      · have key : DocumentId.new "_id" = .ok ⟨"_id"⟩ := by decide
        cases isKeyText
        rw [key] at made
        rw [← Except.ok.inj made] at special
        exact special (plain_of_all (by decide))
      · rcases List.mem_cons.mp inside with colon | inside
        · cases colon
        · exact absurd (length_of_new made) (Nat.not_le_of_lt (short text inside))
  · rw [← sameId, drawn] at special
    exact special (plainId_generate draw.uuid)

end Special

/-! ## What the text means -/

/-- The text is accepted, as an INSERT into the collection of a document with the id
and the fields of the given one. -/
def MeansDocument (T : TextTables) (lib : JsonLibrary) (numberText : lib.Number -> List Char)
    (draw : Draw) (collection : String) (doc : Document) : Prop :=
  Exists fun document => Exists fun next =>
    parseNql T draw (insertNql lib numberText collection doc) =
        .ok (.insert collection document) next ∧
      document.id = doc.id ∧ document.fields = doc.fields

/-- The id has neither a quotation mark nor a backslash, no field is named like an
id, and no string or key needs an escape that the lexer does not undo. -/
structure Insertable (doc : Document) : Prop where
  plainId : PlainId doc.id
  noIdField : NoIdField doc.fields
  kept : forall text, text ∈ textsMembers doc.fields -> Kept text

/-- The text of an INSERT means the document exactly if the document is insertable.  The
id of the document is from a constructor, its fields are in the order of a `BTreeMap`
and have plain values, and the JSON library writes integers in decimal.  -/
theorem insertNql_means_iff {T : TextTables} {lib : JsonLibrary}
    {numberText : lib.Number -> List Char} (writes : WritesIntegers lib numberText) (draw : Draw)
    (name : Lexer.Identifier T) {doc : Document} (built : doc.id.Built)
    (arranged : KeyedList.Arranged compare doc.fields) (plain : Value.PlainMembers doc.fields) :
    MeansDocument T lib numberText draw name.asString doc <-> Insertable doc := by
  constructor
  · rintro ⟨document, next, done, sameId, sameFields⟩
    have plainId : PlainId doc.id := by
      by_contra special
      have clear : NoIdField doc.fields := by
        rw [← sameFields]
        exact noIdField_of_parse done
      exact special_id_lost writes plain clear special done sameId
    rcases parseNql_of_plainId writes draw name plain plainId with ⟨_, parsed⟩
    rw [done] at parsed
    cases parsed
    rcases (readEntries_fields_iff plain arranged draw).mp sameFields with ⟨clear, kept⟩
    exact ⟨plainId, clear, kept⟩
  · rintro ⟨plainId, clear, kept⟩
    rcases parseNql_of_plainId writes draw name plain plainId with ⟨next, parsed⟩
    exact ⟨_, next, parsed, readEntries_id plain arranged draw built clear kept,
      (readEntries_fields_iff plain arranged draw).mpr ⟨clear, kept⟩⟩

def decimalText : referenceJson.Number -> List Char
  | .inl integer => decimal integer.toInt
  | .inr double => double.toFloat.toString.toList

theorem writesIntegers_decimalText : WritesIntegers referenceJson decimalText :=
  fun _ => rfl

def usersName : Lexer.Identifier referenceTables where
  first := 'u'
  rest := ['s', 'e', 'r', 's']
  starts := by decide
  continues := List.all_eq_true.mp (by decide)
  plain := by decide

def sampleInsert : Document :=
  ⟨⟨"u1"⟩, 1, 0, 0, [("bio", .string "a \"quoted\" line\nand \\ more"),
    ("tags", .array [.int (-3), .bool true, .null])]⟩

theorem insertNql_means_sample :
    MeansDocument referenceTables referenceJson decimalText ⟨Vector.replicate 16 0, 0⟩
      usersName.asString sampleInsert := by
  refine (insertNql_means_iff writesIntegers_decimalText _ usersName
    (@DocumentId.Built.new "u1" _ rfl) ?_ ?_).mpr ⟨?_, ?_, ?_⟩
  · refine List.Pairwise.cons ?_ (List.pairwise_singleton _ _)
    intro entry member
    rw [List.mem_singleton.mp member]
    decide +kernel
  · exact ⟨trivial, ⟨trivial, trivial, trivial, trivial⟩, trivial⟩
  · exact plain_of_all (by decide)
  · intro entry member
    rcases List.mem_pair.mp member with rfl | rfl
    · decide
    · decide
  · have all : (textsMembers sampleInsert.fields).all (fun text => text.toList.all isKept) =
        true := by
      decide +kernel
    exact fun text member c => List.all_eq_true.mp (List.all_eq_true.mp all text member) c

def backspaceInsert : Document :=
  ⟨⟨"u1"⟩, 1, 0, 0, [("note", .string "\x08")]⟩

/-- A backspace in a field: the text is accepted and stores the letter b. -/
theorem backspace_not_meant :
    ¬ MeansDocument referenceTables referenceJson decimalText ⟨Vector.replicate 16 0, 0⟩
      usersName.asString backspaceInsert := by
  rintro ⟨document, next, done, _, sameFields⟩
  have plain : Value.PlainMembers backspaceInsert.fields := ⟨trivial, trivial⟩
  have arranged : KeyedList.Arranged compare backspaceInsert.fields :=
    List.pairwise_singleton _ _
  rcases parseNql_of_plainId writesIntegers_decimalText ⟨Vector.replicate 16 0, 0⟩ usersName plain
    (plain_of_all (by decide)) with ⟨_, parsed⟩
  rw [done] at parsed
  cases parsed
  have kept := ((readEntries_fields_iff plain arranged _).mp sameFields).2 "\x08" (by decide)
  exact absurd (kept '\x08' (by decide)) (by decide)

end Client
end NovaDb
