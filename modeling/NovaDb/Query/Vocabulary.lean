import NovaDb.Query.WrittenStatements

namespace NovaDb
namespace Query

open Core Foundation Grammar Client

/-!
# The words of a statement

What a phrase stands for is made of the words in it: the statement of a phrase is writable
in every vocabulary that has the tokens of the phrase.  And it is written, by
`Statement.kinds`, with tokens out of the same vocabulary.
-/

/-! ## The parts of a word -/

section Parts

variable {V : Vocabulary} {kind : TokenKind} {kinds first second : List TokenKind}

@[simp]
theorem hasAll_nil : V.HasAll [] := nofun

@[simp]
theorem hasAll_cons :
    V.HasAll (kind :: kinds) <-> V.Has kind ∧ V.HasAll kinds :=
  List.forall_mem_cons

@[simp]
theorem hasAll_append :
    V.HasAll (first ++ second) <-> V.HasAll first ∧ V.HasAll second :=
  List.forall_mem_append

theorem Vocabulary.HasAll.head (has : V.HasAll (kind :: kinds)) : V.Has kind :=
  (hasAll_cons.mp has).1

theorem Vocabulary.HasAll.tail (has : V.HasAll (kind :: kinds)) : V.HasAll kinds :=
  (hasAll_cons.mp has).2

theorem Vocabulary.HasAll.front (has : V.HasAll (first ++ second)) : V.HasAll first :=
  (hasAll_append.mp has).1

theorem Vocabulary.HasAll.back (has : V.HasAll (first ++ second)) : V.HasAll second :=
  (hasAll_append.mp has).2

end Parts

/-! ## Every phrase stands for such a statement -/

theorem splitChars_append (separator : Char) (front behind : List Char) :
    splitChars separator (front ++ separator :: behind) =
      splitChars separator front ++ splitChars separator behind := by
  induction front with
  | nil => simp [splitChars]
  | cons c front inductionHypothesis =>
      rcases List.exists_cons_of_ne_nil (splitChars_ne_nil separator front) with
        ⟨first, rest, parts⟩
      rw [List.cons_append, splitChars, splitChars, inductionHypothesis, parts]
      split
      · rfl
      · rfl

/-- A name without a dot is a path of one part. -/
theorem splitDots_name {name : String} (dotless : '.' ∉ name.toList) :
    splitDots name = [name] := by
  rw [splitDots, splitChars_of_free dotless, List.map_singleton, String.ofList_toList]

theorem splitDots_step (path : String) {name : String} (dotless : '.' ∉ name.toList) :
    splitDots (path ++ "." ++ name) = splitDots path ++ [name] := by
  have chars : (path ++ "." ++ name).toList = path.toList ++ '.' :: name.toList := by
    rw [String.toList_append, String.toList_append, List.append_assoc]
    rfl
  rw [splitDots, chars, splitChars_append, List.map_append, ← splitDots, ← splitDots,
    splitDots_name dotless]

section Phrases

variable {V : Vocabulary}

/-- What a phrase stands for is writable, if what was read before it is. -/
def Composed (V : Vocabulary) : (phrase : Phrase) -> phrase.Meaning -> Prop
  | .value, value => IsLiteral V value
  | .values sofar, items => AreLiterals V sofar -> AreLiterals V items
  | .entries sofar, members =>
      IsLiteral V (.object sofar) -> IsLiteral V (.object members)
  | .path, path => IsPath V path
  | .pathTail sofar, path => IsPath V sofar -> IsPath V path
  | .expr _, expr => IsWritable V expr
  | .chainTail _ left, expr => IsWritable V left -> IsWritable V expr
  | .comparisonTail left, expr => IsWritable V left -> IsWritable V expr
  | .exprs sofar, list => AreWritable V sofar -> AreWritable V list

theorem isLiteral_of_scalar {token : TokenKind} {value : Value} (has : V.Has token)
    (known : token.scalar = some value) : IsLiteral V value := by
  cases token with
  | null | true | false | int _ | stringLit _ =>
      cases known
      exact trivial
  | float _ =>
      cases known
      exact has
  | _ => nomatch known

theorem areLiterals_snoc {items : List Value} {value : Value} (before : AreLiterals V items)
    (isLiteral : IsLiteral V value) : AreLiterals V (items ++ [value]) := by
  rw [areLiterals_iff, List.forall_mem_append]
  exact ⟨areLiterals_iff.mp before, List.forall_mem_singleton.mpr isLiteral⟩

theorem areWritable_snoc {list : List Expr} {expr : Expr} (before : AreWritable V list)
    (writable : IsWritable V expr) : AreWritable V (list ++ [expr]) := by
  rw [areWritable_iff, List.forall_mem_append]
  exact ⟨areWritable_iff.mp before, List.forall_mem_singleton.mpr writable⟩

/-- One case for each production of the grammar. -/
theorem composed_of_derives (dotless : V.Dotless) {phrase : Phrase} {word extending : List TokenKind}
    {meaning : phrase.Meaning} (derived : Derives phrase word meaning extending)
    (has : V.HasAll word) : Composed V phrase meaning := by
  induction derived with
  | scalar known => exact isLiteral_of_scalar has.head known
  | emptyArray => exact trivial
  | array items inside => exact inside has.tail.front trivial
  | emptyObject => exact ⟨List.Pairwise.nil, trivial⟩
  | object items inside => exact inside has.tail.front ⟨List.Pairwise.nil, trivial⟩
  | lastValue item inside => exact fun before => areLiterals_snoc before (inside has)
  | moreValues item more inside rest =>
      intro before
      exact rest has.back.tail (areLiterals_snoc before (inside has.front))
  | lastEntry named item inside =>
      exact fun before => isLiteral_insert before (inside has.tail.tail)
  | moreEntries named item more inside rest =>
      intro before
      exact rest has.tail.tail.back.tail (isLiteral_insert before (inside has.tail.tail.front))
  | path tail inside =>
      have isName : V.names _ := has.head
      refine inside has.tail ?_
      intro name member
      rw [splitDots_name (dotless _ isName)] at member
      rw [List.mem_singleton.mp member]
      exact isName
  | pathEnd => exact id
  | pathStep tail inside =>
      intro before
      have isName : V.names _ := has.tail.head
      refine inside has.tail.tail ?_
      intro name member
      rw [splitDots_step _ (dotless _ isName)] at member
      rcases List.mem_append.mp member with earlier | last
      · exact before name earlier
      · rw [List.mem_singleton.mp last]
        exact isName
  | literal derived inside => exact inside has
  | field derived inside => exact inside has
  | group derived inside => exact inside has.tail.front
  | operand derived inside => exact inside has
  | not sign derived inside => exact inside has.tail
  | negate derived inside => exact inside has.tail
  | chain first tail before behind => exact behind has.back (before has.front)
  | chainEnd => exact id
  | chainStep sign operand tail before behind =>
      intro left
      exact behind has.tail.back ⟨left, before has.tail.front⟩
  | comparison first tail before behind => exact behind has.back (before has.front)
  | alone => exact id
  | compared sign operand inside => exact fun left => ⟨left, inside has.tail⟩
  | between lower upper first second =>
      exact fun left => ⟨left, first has.tail.front, second has.tail.back.tail⟩
  | inNothing => exact fun left => ⟨left, trivial⟩
  | inList items inside =>
      exact fun left => ⟨left, inside has.tail.tail.front trivial⟩
  | lastExpr item inside => exact fun before => areWritable_snoc before (inside has)
  | moreExprs item more inside rest =>
      intro before
      exact rest has.back.tail (areWritable_snoc before (inside has.front))

theorem isFilter_of_clause (dotless : V.Dotless) {word extending : List TokenKind}
    {filter : Option Expr} (clause : FilterClause word filter extending)
    (has : V.HasAll word) : IsFilter V filter := by
  cases clause with
  | absent => exact nofun
  | present derived =>
      intro expr same
      cases same
      exact composed_of_derives dotless derived has.tail

theorem isPath_of_sort (dotless : V.Dotless) {word extending : List TokenKind}
    {sort : Option SortClause} (phrase : SortPhrase word sort extending)
    (has : V.HasAll word) :
    forall clause, sort = some clause -> IsPath V clause.field := by
  cases phrase with
  | absent => exact nofun
  | undirected derived =>
      intro clause same
      cases same
      exact composed_of_derives dotless derived has.tail
  | ascending derived | descending derived =>
      intro clause same
      cases same
      exact composed_of_derives dotless derived has.tail.front

theorem isBound_of_clause {keyword : TokenKind} {word extending : List TokenKind}
    {bound : Option UInt64} (clause : BoundClause keyword word bound extending) :
    IsBound bound := by
  cases clause with
  | absent => exact nofun
  | @present number natural =>
      intro found same
      cases same
      have small := number.toInt_lt
      rw [UInt64.toNat_ofNat']
      omega

theorem writable_of_assignments (dotless : V.Dotless) {sofar list : List Assignment}
    {word extending : List TokenKind} (phrase : Assignments sofar word list extending)
    (has : V.HasAll word)
    (before : forall assign, assign ∈ sofar -> IsPath V assign.field ∧ IsWritable V assign.expr) :
    list ≠ [] ∧
      forall assign, assign ∈ list -> IsPath V assign.field ∧ IsWritable V assign.expr := by
  induction phrase with
  | last target assigns derived =>
      refine ⟨List.concat_ne_nil _ _, ?_⟩
      rw [List.forall_mem_append, List.forall_mem_singleton]
      exact ⟨before, composed_of_derives dotless target has.front,
        composed_of_derives dotless derived has.back.tail⟩
  | more target assigns derived tail inductionHypothesis =>
      refine inductionHypothesis has.back.tail ?_
      rw [List.forall_mem_append, List.forall_mem_singleton]
      exact ⟨before, composed_of_derives dotless target has.front.front,
        composed_of_derives dotless derived has.front.back.tail⟩

theorem isPath_name (dotless : V.Dotless) {name : String} (isName : V.names name) :
    IsPath V name := by
  intro part member
  rw [splitDots_name (dotless name isName)] at member
  rw [List.mem_singleton.mp member]
  exact isName

theorem names_of_target (dotless : V.Dotless) {collection field : String}
    {word extending : List TokenKind} (target : Target word (collection, field) extending)
    (has : V.HasAll word) :
    V.names collection ∧ IsPath V field := by
  cases target with
  | dotted derived =>
      exact ⟨has.head, composed_of_derives dotless derived has.tail.tail⟩
  | apart =>
      exact ⟨has.head, isPath_name dotless has.tail.head⟩

/-- The document of an object is one that an INSERT can carry. -/
theorem isInserted_documentOf (draw : Draw) {map : List (String × Value)}
    (isLiteral : IsLiteral V (.object map)) : IsInserted V draw (Parser.documentOf draw map) := by
  rcases documentOf_kept draw map with ⟨version, created, updated⟩
  have fields := documentOf_fields draw isLiteral.1
  refine ⟨?_, version, created, updated, ?_, ?_⟩
  · rcases documentOf_id_cases draw map with ⟨entry, _, given⟩ | generated
    · rcases (givenId_eq_some given).2 with ⟨_, _, made⟩
      exact DocumentId.new_of_new made
    · rw [generated]
      exact DocumentId.new_generate draw.uuid
  · rw [fields]
    refine ⟨isLiteral.1.filter _, areMembers_iff.mpr fun entry member => ?_⟩
    exact areMembers_iff.mp isLiteral.2 entry (List.mem_of_mem_filter member)
  · intro entry member
    rw [fields] at member
    simpa using (List.mem_filter.mp member).2

/-- A statement that is a phrase of tokens out of the vocabulary is writable. -/
theorem writable_of_phrase (dotless : V.Dotless) {draw : Draw} {word extending : List TokenKind}
    {statement : Statement} (phrase : StatementPhrase draw word statement extending)
    (has : V.HasAll word) : statement.Writable V draw := by
  rcases phrase with ⟨command, rest, rfl, body⟩
  have hasRest : V.HasAll rest := has.tail
  cases body with
  | find filters sorts limits offsets =>
      exact ⟨hasRest.head, isFilter_of_clause dotless filters hasRest.tail.front,
        isPath_of_sort dotless sorts hasRest.tail.back.front, isBound_of_clause limits,
        isBound_of_clause offsets⟩
  | insert optional derived =>
      have composed := composed_of_derives dotless derived hasRest.back.tail.tail
      exact ⟨hasRest.back.head, isInserted_documentOf draw composed⟩
  | insertParen optional derived =>
      have composed := composed_of_derives dotless derived hasRest.back.tail.tail.tail.front
      exact ⟨hasRest.back.head, isInserted_documentOf draw composed⟩
  | update assigns filters =>
      have assigned := writable_of_assignments dotless assigns hasRest.tail.tail.front nofun
      exact ⟨hasRest.head, assigned.1, assigned.2,
        isFilter_of_clause dotless filters hasRest.tail.tail.back⟩
  | remove filters | watch filters | count filters | existing filters =>
      exact ⟨hasRest.head, isFilter_of_clause dotless filters hasRest.tail⟩
  | createIndex targets types =>
      have named := names_of_target dotless targets hasRest.tail.front
      refine ⟨named.1, named.2, ?_⟩
      cases types with
      | absent | hash | ordered => exact nofun
  | dropIndex targets =>
      exact names_of_target dotless targets hasRest.tail
  | begin | commit | rollback => exact trivial

end Phrases

/-! ## The tokens are out of the vocabulary -/

section Tokens

variable {V : Vocabulary}

theorem hasAll_intercalate {lists : List (List TokenKind)}
    (each : forall kinds, kinds ∈ lists -> V.HasAll kinds) :
    V.HasAll ([.comma].intercalate lists) := by
  induction lists with
  | nil => exact hasAll_nil
  | cons kinds lists inductionHypothesis =>
      rw [List.forall_mem_cons] at each
      cases lists with
      | nil =>
          rw [intercalate_singleton]
          exact each.1
      | cons next more =>
          rw [intercalate_cons_cons, hasAll_append, hasAll_append, hasAll_cons]
          exact ⟨each.1, ⟨trivial, hasAll_nil⟩, inductionHypothesis each.2⟩

theorem hasAll_enclose {bare : Bool} {kinds : List TokenKind} (has : V.HasAll kinds) :
    V.HasAll (enclose .lParen .rParen bare kinds) := by
  rw [enclose]
  split
  · exact has
  · rw [hasAll_cons, hasAll_append, hasAll_cons]
    exact ⟨trivial, has, trivial, hasAll_nil⟩

mutual

theorem hasAll_value {value : Value} (isLiteral : IsLiteral V value) :
    V.HasAll (valueKinds value) := by
  match value with
  | .null | .int _ | .string _ => exact hasAll_cons.mpr ⟨trivial, hasAll_nil⟩
  | .bool true | .bool false => exact hasAll_cons.mpr ⟨trivial, hasAll_nil⟩
  | .float _ => exact hasAll_cons.mpr ⟨isLiteral, hasAll_nil⟩
  | .array items =>
      rw [valueKinds, hasAll_cons, hasAll_append, hasAll_cons]
      exact ⟨trivial, hasAll_intercalate (hasAll_items isLiteral), trivial, hasAll_nil⟩
  | .object members =>
      rw [valueKinds, hasAll_cons, hasAll_append, hasAll_cons]
      exact ⟨trivial, hasAll_intercalate (hasAll_members isLiteral.2), trivial, hasAll_nil⟩

theorem hasAll_items {items : List Value} (areLiterals : AreLiterals V items) :
    forall kinds, kinds ∈ itemKinds items -> V.HasAll kinds := by
  match items with
  | [] => exact nofun
  | item :: items =>
      rw [itemKinds, List.forall_mem_cons]
      exact ⟨hasAll_value areLiterals.1, hasAll_items areLiterals.2⟩

theorem hasAll_members {members : List (String × Value)} (areMembers : AreMembers V members) :
    forall kinds, kinds ∈ memberKinds members -> V.HasAll kinds := by
  match members with
  | [] => exact nofun
  | (key, value) :: members =>
      rw [memberKinds, List.forall_mem_cons, hasAll_cons, hasAll_cons]
      exact ⟨⟨trivial, trivial, hasAll_value areMembers.1⟩, hasAll_members areMembers.2⟩

end

theorem hasAll_path {path : String} (isPath : IsPath V path) : V.HasAll (pathKinds path) := by
  rw [pathKinds]
  split
  · exact hasAll_nil
  · rename_i first rest parts
    rw [IsPath, parts, List.forall_mem_cons] at isPath
    refine hasAll_cons.mpr ⟨isPath.1, fun kind member => ?_⟩
    rcases List.mem_flatMap.mp member with ⟨name, inRest, inStep⟩
    rcases List.mem_pair.mp inStep with rfl | rfl
    · exact trivial
    · exact isPath.2 name inRest

theorem has_binary (op : BinaryOp) : V.Has op.kind := by
  cases op <;> exact trivial

theorem has_unary (op : UnaryOp) : V.Has op.kind := by
  cases op <;> exact trivial

mutual

theorem hasAll_expr {expr : Expr} (writable : IsWritable V expr) :
    V.HasAll (exprKinds expr) := by
  match expr with
  | .literal value => exact hasAll_value writable
  | .field path => exact hasAll_path writable
  | .binary op left right =>
      rw [exprKinds, hasAll_append, hasAll_cons]
      exact ⟨hasAll_enclose (hasAll_expr writable.1), has_binary op,
        hasAll_enclose (hasAll_expr writable.2)⟩
  | .unary op inner =>
      have inside : IsWritable V inner := writable
      rw [exprKinds, hasAll_cons]
      exact ⟨has_unary op, hasAll_enclose (hasAll_expr inside)⟩
  | .isIn inner list =>
      rw [exprKinds, hasAll_append, hasAll_cons, hasAll_cons, hasAll_append, hasAll_cons]
      exact ⟨hasAll_enclose (hasAll_expr writable.1), trivial, trivial,
        hasAll_intercalate (hasAll_list writable.2), trivial, hasAll_nil⟩
  | .between inner min max =>
      rw [exprKinds, hasAll_append, hasAll_cons, hasAll_append, hasAll_cons]
      exact ⟨hasAll_enclose (hasAll_expr writable.1), trivial,
        hasAll_enclose (hasAll_expr writable.2.1), trivial,
        hasAll_enclose (hasAll_expr writable.2.2)⟩

theorem hasAll_list {list : List Expr} (writable : AreWritable V list) :
    forall kinds, kinds ∈ listKinds list -> V.HasAll kinds := by
  match list with
  | [] => exact nofun
  | expr :: rest =>
      rw [listKinds, List.forall_mem_cons]
      exact ⟨hasAll_expr writable.1, hasAll_list writable.2⟩

end

theorem hasAll_filter {filter : Option Expr} (isFilter : IsFilter V filter) :
    V.HasAll (filterKinds filter) := by
  cases filter with
  | none => exact hasAll_nil
  | some expr => exact hasAll_cons.mpr ⟨trivial, hasAll_expr (isFilter expr rfl)⟩

theorem hasAll_sort {sort : Option SortClause}
    (isPath : forall clause, sort = some clause -> IsPath V clause.field) :
    V.HasAll (sortKinds sort) := by
  cases sort with
  | none => exact hasAll_nil
  | some clause =>
      have direction : V.Has clause.direction.kind := by
        cases clause.direction <;> exact trivial
      rw [sortKinds, hasAll_cons, hasAll_append, hasAll_cons]
      exact ⟨trivial, hasAll_path (isPath clause rfl), direction, hasAll_nil⟩

theorem hasAll_bound {keyword : TokenKind} (has : V.Has keyword) (bound : Option UInt64) :
    V.HasAll (boundKinds keyword bound) := by
  cases bound with
  | none => exact hasAll_nil
  | some number => exact hasAll_cons.mpr ⟨has, hasAll_cons.mpr ⟨trivial, hasAll_nil⟩⟩

/-- A statement is written with tokens out of the vocabulary it is made of. -/
theorem hasAll_kinds {draw : Draw} {statement : Statement}
    (writable : statement.Writable V draw) : V.HasAll statement.kinds := by
  have filtered : forall {command : TokenKind} {collection : String} {filter : Option Expr},
      V.Has command -> V.names collection ∧ IsFilter V filter ->
        V.HasAll (command :: .identifier collection :: filterKinds filter) := by
    intro command collection filter has writable
    exact hasAll_cons.mpr ⟨has, hasAll_cons.mpr ⟨writable.1, hasAll_filter writable.2⟩⟩
  cases statement with
  | find collection filter sort limit offset =>
      rcases writable with ⟨named, isFilter, isPath, _, _⟩
      rw [Statement.kinds, hasAll_cons, hasAll_cons, hasAll_append, hasAll_append, hasAll_append]
      exact ⟨trivial, named, hasAll_filter isFilter, hasAll_sort isPath,
        @hasAll_bound V .limit trivial limit, @hasAll_bound V .offset trivial offset⟩
  | insert collection document =>
      simp only [Statement.kinds, hasAll_cons, hasAll_append]
      exact ⟨trivial, trivial, writable.1, trivial, trivial,
        hasAll_value (insertedMembers_literal writable.2), trivial, hasAll_nil⟩
  | update collection assignments filter =>
      rcases writable with ⟨named, _, assigned, isFilter⟩
      simp only [Statement.kinds, hasAll_cons, hasAll_append]
      refine ⟨trivial, named, trivial, hasAll_intercalate ?_, hasAll_filter isFilter⟩
      intro kinds member
      rcases List.mem_map.mp member with ⟨assign, isAssignment, rfl⟩
      have written := assigned assign isAssignment
      rw [assignmentKinds, hasAll_append, hasAll_cons]
      exact ⟨hasAll_path written.1, trivial, hasAll_expr written.2⟩
  | remove | watch | count | «exists» => exact filtered trivial writable
  | createIndex collection field indexType =>
      have typed : V.HasAll (indexTypeKinds indexType) := by
        cases indexType with
        | hash | ordered => exact hasAll_cons.mpr ⟨trivial, hasAll_cons.mpr ⟨trivial, hasAll_nil⟩⟩
        | primaryKey => exact hasAll_nil
      simp only [Statement.kinds, hasAll_cons, hasAll_append]
      exact ⟨trivial, trivial, ⟨writable.1, trivial, hasAll_path writable.2.1⟩, typed⟩
  | dropIndex collection field =>
      simp only [Statement.kinds, hasAll_cons]
      exact ⟨trivial, trivial, writable.1, trivial, hasAll_path writable.2⟩
  | begin | commit | rollback => exact hasAll_cons.mpr ⟨trivial, hasAll_nil⟩

end Tokens

end Query
end NovaDb
