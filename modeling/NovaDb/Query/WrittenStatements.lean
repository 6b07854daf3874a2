import NovaDb.Client.InsertText
import NovaDb.Query.Spacing

namespace NovaDb
namespace Query

open Core Foundation Grammar Client

/-!
# Statements written as tokens

Which statements the parser can make is said here without the parser: the values in
them are literals, the paths are made of names, and what an INSERT carries is a document
as `documentOf` builds it.  Such a statement is written as tokens, with parentheses
around every operand that is not a literal or a field, and `derives_kinds` says that the
tokens are a phrase for it.
-/

/-- The tokens at hand whose content is free: floats and names. -/
structure Vocabulary where
  floats : Float64 -> Prop
  names : String -> Prop

/-- A token out of the vocabulary.  The end marker is none. -/
def Vocabulary.Has (V : Vocabulary) : TokenKind -> Prop
  | .float number => V.floats number
  | .identifier name => V.names name
  | .eof => False
  | _ => True

def Vocabulary.HasAll (V : Vocabulary) (kinds : List TokenKind) : Prop :=
  forall kind, kind ∈ kinds -> V.Has kind

/-- No name has a dot in it. -/
def Vocabulary.Dotless (V : Vocabulary) : Prop :=
  forall name, V.names name -> '.' ∉ name.toList

/-! ## What a statement is made of -/

section Writable

variable (V : Vocabulary)

mutual

/-- A value that a literal stands for. -/
def IsLiteral : Value -> Prop
  | .null | .bool _ | .int _ | .string _ => True
  | .float number => V.floats number
  | .array items => AreLiterals items
  | .object members => KeyedList.Arranged compare members ∧ AreMembers members
  | .bytes _ | .timestamp _ | .uuid _ => False

def AreLiterals : List Value -> Prop
  | [] => True
  | item :: items => IsLiteral item ∧ AreLiterals items

def AreMembers : List (String × Value) -> Prop
  | [] => True
  | (_, value) :: members => IsLiteral value ∧ AreMembers members

end

/-- Names with dots in between. -/
def IsPath (path : String) : Prop :=
  forall name, name ∈ splitDots path -> V.names name

mutual

/-- An expression over literals and paths. -/
def IsWritable : Expr -> Prop
  | .literal value => IsLiteral V value
  | .field path => IsPath V path
  | .binary _ left right => IsWritable left ∧ IsWritable right
  | .unary _ expr => IsWritable expr
  | .isIn expr list => IsWritable expr ∧ AreWritable list
  | .between expr min max => IsWritable expr ∧ IsWritable min ∧ IsWritable max

def AreWritable : List Expr -> Prop
  | [] => True
  | expr :: rest => IsWritable expr ∧ AreWritable rest

end

/-- What an INSERT can carry: a new document with an id that `DocumentId::new` accepts
and fields that are literals and not named like an id. -/
structure IsInserted (draw : Draw) (doc : Document) : Prop where
  built : DocumentId.new doc.id.asStr = .ok doc.id
  version : doc.version = 1
  created : doc.createdAt = draw.clock
  updated : doc.updatedAt = draw.clock
  fields : IsLiteral V (.object doc.fields)
  clear : NoIdField doc.fields

/-- A bound that an integer literal can give. -/
def IsBound (bound : Option UInt64) : Prop :=
  forall number, bound = some number -> number.toNat < 2 ^ 63

def IsFilter (filter : Option Expr) : Prop :=
  forall expr, filter = some expr -> IsWritable V expr

/-- The statements that have a text. -/
def Statement.Writable (draw : Draw) : Statement -> Prop
  | .find collection filter sort limit offset =>
      V.names collection ∧ IsFilter V filter ∧
        (forall clause, sort = some clause -> IsPath V clause.field) ∧
          IsBound limit ∧ IsBound offset
  | .insert collection document => V.names collection ∧ IsInserted V draw document
  | .update collection assignments filter =>
      V.names collection ∧ assignments ≠ [] ∧
        (forall assign, assign ∈ assignments ->
          IsPath V assign.field ∧ IsWritable V assign.expr) ∧ IsFilter V filter
  | .remove collection filter | .watch collection filter | .count collection filter
  | .exists collection filter => V.names collection ∧ IsFilter V filter
  | .createIndex collection field indexType =>
      V.names collection ∧ IsPath V field ∧ indexType ≠ .primaryKey
  | .dropIndex collection field => V.names collection ∧ IsPath V field
  | .begin | .commit | .rollback => True

end Writable

/-! ## The tokens of a statement -/

mutual

def valueKinds : Value -> List TokenKind
  | .null => [.null]
  | .bool true => [.true]
  | .bool false => [.false]
  | .int number => [.int number]
  | .float number => [.float number]
  | .string text => [.stringLit text]
  | .array items => .lBracket :: ([.comma].intercalate (itemKinds items) ++ [.rBracket])
  | .object members => .lBrace :: ([.comma].intercalate (memberKinds members) ++ [.rBrace])
  | .bytes _ | .timestamp _ | .uuid _ => []

def itemKinds : List Value -> List (List TokenKind)
  | [] => []
  | item :: items => valueKinds item :: itemKinds items

def memberKinds : List (String × Value) -> List (List TokenKind)
  | [] => []
  | (key, value) :: members =>
      (.stringLit key :: .colon :: valueKinds value) :: memberKinds members

end

def pathKinds (path : String) : List TokenKind :=
  match splitDots path with
  | [] => []
  | first :: rest => .identifier first :: rest.flatMap (fun name => [.dot, .identifier name])

def BinaryOp.kind : BinaryOp -> TokenKind
  | .eq => .eqEq
  | .notEq => .bangEq
  | .gt => .gt
  | .gtEq => .gtEq
  | .lt => .lt
  | .ltEq => .ltEq
  | .and => .and
  | .or => .or
  | .plus => .plus
  | .minus => .minus
  | .multiply => .star
  | .divide => .slash
  | .modulo => .percent

def UnaryOp.kind : UnaryOp -> TokenKind
  | .not => .not
  | .negate => .minus

/-- Expressions that need no parentheses anywhere. -/
def Expr.isAtom : Expr -> Bool
  | .literal _ | .field _ => true
  | _ => false

mutual

def exprKinds : Expr -> List TokenKind
  | .literal value => valueKinds value
  | .field path => pathKinds path
  | .binary op left right =>
      enclose .lParen .rParen left.isAtom (exprKinds left) ++
        op.kind :: enclose .lParen .rParen right.isAtom (exprKinds right)
  | .unary op expr => op.kind :: enclose .lParen .rParen expr.isAtom (exprKinds expr)
  | .isIn expr list =>
      enclose .lParen .rParen expr.isAtom (exprKinds expr) ++
        .inKeyword :: .lParen :: ([.comma].intercalate (listKinds list) ++ [.rParen])
  | .between expr min max =>
      enclose .lParen .rParen expr.isAtom (exprKinds expr) ++
        .between :: (enclose .lParen .rParen min.isAtom (exprKinds min) ++
          .and :: enclose .lParen .rParen max.isAtom (exprKinds max))

def listKinds : List Expr -> List (List TokenKind)
  | [] => []
  | expr :: rest => exprKinds expr :: listKinds rest

end

def filterKinds : Option Expr -> List TokenKind
  | none => []
  | some expr => .whereKeyword :: exprKinds expr

def SortDirection.kind : SortDirection -> TokenKind
  | .asc => .asc
  | .desc => .desc

def sortKinds : Option SortClause -> List TokenKind
  | none => []
  | some clause => .sort :: (pathKinds clause.field ++ [clause.direction.kind])

def boundKinds (keyword : TokenKind) : Option UInt64 -> List TokenKind
  | none => []
  | some number => [keyword, .int (Int64.ofInt number.toNat)]

def assignmentKinds (assign : Assignment) : List TokenKind :=
  pathKinds assign.field ++ .eq :: exprKinds assign.expr

/-- The object an INSERT is written with: the fields, and the id among them. -/
def insertedMembers (doc : Document) : List (String × Value) :=
  KeyedList.insert compare "_id" (.string doc.id.asStr) doc.fields

/-- An index of the primary key has no clause. -/
def indexTypeKinds : Index.IndexType -> List TokenKind
  | .hash => [.type, .hash]
  | .ordered => [.type, .ordered]
  | .primaryKey => []

def Statement.kinds : Statement -> List TokenKind
  | .find collection filter sort limit offset =>
      .find :: .identifier collection :: (filterKinds filter ++
        (sortKinds sort ++ (boundKinds .limit limit ++ boundKinds .offset offset)))
  | .insert collection document =>
      .insert :: .into :: .identifier collection :: .values :: .lParen ::
        (valueKinds (.object (insertedMembers document)) ++ [.rParen])
  | .update collection assignments filter =>
      .update :: .identifier collection :: .set ::
        ([.comma].intercalate (assignments.map assignmentKinds) ++ filterKinds filter)
  | .remove collection filter => .remove :: .identifier collection :: filterKinds filter
  | .watch collection filter => .watch :: .identifier collection :: filterKinds filter
  | .count collection filter => .count :: .identifier collection :: filterKinds filter
  | .exists collection filter => .existsKeyword :: .identifier collection :: filterKinds filter
  | .createIndex collection field indexType =>
      .create :: .index :: (.identifier collection :: .dot :: pathKinds field ++
        indexTypeKinds indexType)
  | .dropIndex collection field =>
      .drop :: .index :: .identifier collection :: .dot :: pathKinds field
  | .begin => [.begin]
  | .commit => [.commit]
  | .rollback => [.rollback]

/-! ## The tokens are a phrase for the statement -/

/-- The names of a path, put together again. -/
theorem foldl_splitChars (chars : List Char) (front : String) {first : List Char}
    {rest : List (List Char)} (split : splitChars '.' chars = first :: rest) :
    (rest.map String.ofList).foldl (fun path name => path ++ "." ++ name)
        (front ++ String.ofList first) = front ++ String.ofList chars := by
  induction chars generalizing front first rest with
  | nil =>
      cases split
      rfl
  | cons c chars inductionHypothesis =>
      rcases List.exists_cons_of_ne_nil (splitChars_ne_nil '.' chars) with ⟨next, later, parts⟩
      rw [splitChars, parts] at split
      split at split
      · rename_i isDot
        cases split
        have behind := inductionHypothesis (front ++ String.ofList [] ++ ".") parts
        rw [List.map_cons, List.foldl_cons, behind, isDot, String.ofList_cons]
        simp [String.append_assoc]
      · cases split
        have behind := inductionHypothesis (front ++ String.singleton c) parts
        rw [String.ofList_cons, ← String.append_assoc, behind, String.ofList_cons,
          String.append_assoc]

theorem derives_names (rest : List String) (sofar : String) :
    Derives (.pathTail sofar) (rest.flatMap (fun name => [.dot, .identifier name]))
      (rest.foldl (fun path name => path ++ "." ++ name) sofar) [.dot] := by
  induction rest generalizing sofar with
  | nil => exact .pathEnd
  | cons name rest inductionHypothesis => exact .pathStep (inductionHypothesis _)

theorem derives_path (path : String) : Derives .path (pathKinds path) path [.dot] := by
  rcases List.exists_cons_of_ne_nil (splitChars_ne_nil '.' path.toList) with ⟨first, rest, parts⟩
  have whole := foldl_splitChars path.toList "" parts
  rw [String.empty_append, String.empty_append, String.ofList_toList] at whole
  have names := derives_names (rest.map String.ofList) (String.ofList first)
  rw [whole] at names
  rw [pathKinds, splitDots, parts, List.map_cons]
  exact .path names

section Derivations

variable {V : Vocabulary}

mutual

theorem derives_literal {value : Value} (isLiteral : IsLiteral V value) :
    Derives .value (valueKinds value) value [] := by
  match value with
  | .null | .int _ | .float _ | .string _ => exact .scalar rfl
  | .bool true | .bool false => exact .scalar rfl
  | .array [] => exact .emptyArray
  | .array (item :: items) =>
      exact .array (derives_literals isLiteral (List.cons_ne_nil _ _) [])
  | .object [] => exact .emptyObject
  | .object (member :: members) =>
      have entries := derives_entries isLiteral.2 (List.cons_ne_nil _ _) []
      have same : KeyedList.stored compare [] (member :: members) = member :: members :=
        KeyedList.collect_arranged isLiteral.1
      rw [same] at entries
      exact .object entries

theorem derives_literals {items : List Value} (areLiterals : AreLiterals V items)
    (some : items ≠ []) (sofar : List Value) :
    Derives (.values sofar) ([.comma].intercalate (itemKinds items)) (sofar ++ items)
      [.comma] := by
  match items with
  | [] => exact absurd rfl some
  | item :: items =>
      have first := derives_literal areLiterals.1
      have tail := @derives_literals items areLiterals.2
      cases items with
      | nil =>
          rw [itemKinds, itemKinds, intercalate_singleton]
          exact .lastValue first
      | cons next more =>
          have behind := tail (List.cons_ne_nil _ _) (sofar ++ [item])
          rw [List.append_assoc, List.singleton_append] at behind
          exact .moreValues first behind

theorem derives_entries {members : List (String × Value)} (areMembers : AreMembers V members)
    (some : members ≠ []) (sofar : List (String × Value)) :
    Derives (.entries sofar) ([.comma].intercalate (memberKinds members))
      (KeyedList.stored compare sofar members) [.comma] := by
  match members with
  | [] => exact absurd rfl some
  | (key, value) :: members =>
      have first := derives_literal areMembers.1
      have tail := @derives_entries members areMembers.2
      cases members with
      | nil =>
          rw [memberKinds, memberKinds, intercalate_singleton]
          exact .lastEntry rfl first
      | cons next more => exact .moreEntries rfl first (tail (List.cons_ne_nil _ _) _)

end

/-- A binary operation on operands that stand at every level. -/
theorem derives_binary (op : BinaryOp) {word rest : List TokenKind} {left right : Expr}
    (first : forall level, DerivesAt level word left)
    (second : forall level, DerivesAt level rest right) :
    DerivesAt (.chain .disjunction) (word ++ op.kind :: rest) (.binary op left right) := by
  have looser : forall level : Level, Level.rank (.chain .disjunction) ≤ level.rank :=
    fun level => Nat.zero_le _
  have joined : forall {chain : Chain}, (op.kind, op) ∈ chain.operators ->
      DerivesAt (.chain .disjunction) (word ++ op.kind :: rest) (.binary op left right) :=
    fun sign => (DerivesAt.chainStep sign (first _) (second _)).climb (looser _)
  have compared : (op.kind, op) ∈ comparators ->
      DerivesAt (.chain .disjunction) (word ++ op.kind :: rest) (.binary op left right) :=
    fun sign => (DerivesAt.compared sign (first _) (second _)).climb (looser _)
  cases op with
  | eq | notEq | gt | gtEq | lt | ltEq => exact compared (by decide)
  | and => exact @joined .conjunction (by decide)
  | or => exact @joined .disjunction (by decide)
  | plus | minus => exact @joined .additive (by decide)
  | multiply | divide | modulo => exact @joined .multiplicative (by decide)

/-- An operand stands at every level: it is an atom, or in parentheses. -/
theorem derives_operand {expr : Expr} (writable : IsWritable V expr)
    (derived : DerivesAt (.chain .disjunction) (exprKinds expr) expr) (level : Level) :
    DerivesAt level (enclose .lParen .rParen expr.isAtom (exprKinds expr)) expr := by
  cases expr with
  | literal value => exact DerivesAt.ofPrimary (.literal (derives_literal writable)) level
  | field path => exact DerivesAt.ofPrimary (.field (derives_path path)) level
  | binary | unary | isIn | between => exact DerivesAt.group derived level

/-- A comparison with its first operand. -/
theorem derives_compared {word rest behind : List TokenKind} {left expr : Expr}
    (first : DerivesAt (.chain .additive) word left)
    (tail : Derives (.comparisonTail left) rest expr behind) :
    DerivesAt (.chain .disjunction) (word ++ rest) expr := by
  rcases first with ⟨before, derived⟩
  have comparison : DerivesAt .comparison (word ++ rest) expr := ⟨_, .comparison derived tail⟩
  exact comparison.climb (Nat.zero_le _)

mutual

/-- The tokens of an expression derive it. -/
theorem derives_expr {expr : Expr} (writable : IsWritable V expr) :
    DerivesAt (.chain .disjunction) (exprKinds expr) expr := by
  match expr with
  | .literal value => exact DerivesAt.ofPrimary (.literal (derives_literal writable)) _
  | .field path => exact DerivesAt.ofPrimary (.field (derives_path path)) _
  | .binary op left right =>
      rw [exprKinds]
      exact derives_binary op (derives_operand writable.1 (derives_expr writable.1))
        (derives_operand writable.2 (derives_expr writable.2))
  | .unary op inner =>
      have inside : IsWritable V inner := writable
      rcases derives_operand inside (derives_expr inside) .unary with ⟨_, derived⟩
      have signed : DerivesAt .unary (exprKinds (.unary op inner)) (.unary op inner) := by
        cases op with
        | not => exact ⟨_, .not (Or.inl rfl) derived⟩
        | negate => exact ⟨_, .negate derived⟩
      exact signed.climb (Nat.zero_le _)
  | .isIn inner list =>
      have first := derives_operand writable.1 (derives_expr writable.1) (.chain .additive)
      have exprs := @derives_exprs list writable.2
      rw [exprKinds]
      cases list with
      | nil => exact derives_compared first .inNothing
      | cons item rest =>
          rcases exprs (List.cons_ne_nil _ _) [] with ⟨_, items⟩
          exact derives_compared first (.inList items)
  | .between inner min max =>
      have first := derives_operand writable.1 (derives_expr writable.1) (.chain .additive)
      rcases derives_operand writable.2.1 (derives_expr writable.2.1) (.chain .additive) with
        ⟨_, lower⟩
      rcases derives_operand writable.2.2 (derives_expr writable.2.2) (.chain .additive) with
        ⟨_, upper⟩
      rw [exprKinds]
      exact derives_compared first (.between lower upper)

theorem derives_exprs {list : List Expr} (writable : AreWritable V list) (some : list ≠ [])
    (sofar : List Expr) :
    Exists fun extending =>
      Derives (.exprs sofar) ([.comma].intercalate (listKinds list)) (sofar ++ list)
        extending := by
  match list with
  | [] => exact absurd rfl some
  | expr :: rest =>
      rcases derives_expr writable.1 with ⟨_, first⟩
      have tail := @derives_exprs rest writable.2
      cases rest with
      | nil =>
          rw [listKinds, listKinds, intercalate_singleton]
          exact ⟨_, .lastExpr first⟩
      | cons next more =>
          rcases tail (List.cons_ne_nil _ _) (sofar ++ [expr]) with ⟨_, behind⟩
          rw [List.append_assoc, List.singleton_append] at behind
          exact ⟨_, .moreExprs first behind⟩

end

theorem areLiterals_iff {items : List Value} :
    AreLiterals V items <-> forall item, item ∈ items -> IsLiteral V item := by
  induction items with
  | nil => exact iff_of_true trivial nofun
  | cons item items inductionHypothesis =>
      rw [AreLiterals, inductionHypothesis, List.forall_mem_cons]

theorem areMembers_iff {members : List (String × Value)} :
    AreMembers V members <-> forall entry, entry ∈ members -> IsLiteral V entry.2 := by
  induction members with
  | nil => exact iff_of_true trivial nofun
  | cons entry members inductionHypothesis =>
      rcases entry with ⟨key, value⟩
      rw [AreMembers, inductionHypothesis, List.forall_mem_cons]

theorem areWritable_iff {list : List Expr} :
    AreWritable V list <-> forall expr, expr ∈ list -> IsWritable V expr := by
  induction list with
  | nil => exact iff_of_true trivial nofun
  | cons expr rest inductionHypothesis =>
      rw [AreWritable, inductionHypothesis, List.forall_mem_cons]

theorem isLiteral_insert {members : List (String × Value)} {key : String} {value : Value}
    (before : IsLiteral V (.object members)) (isLiteral : IsLiteral V value) :
    IsLiteral V (.object (KeyedList.insert compare key value members)) := by
  refine ⟨KeyedList.insert_arranged KeyedList.lawful_compare before.1, areMembers_iff.mpr ?_⟩
  intro entry member
  rcases (KeyedList.mem_insert KeyedList.lawful_compare before.1).mp member with
    rfl | ⟨_, inMembers⟩
  · exact isLiteral
  · exact areMembers_iff.mp before.2 entry inMembers

/-! ### Clauses -/

theorem derives_filter {filter : Option Expr} (isFilter : IsFilter V filter) :
    Exists fun extending => FilterClause (filterKinds filter) filter extending := by
  cases filter with
  | none => exact ⟨_, .absent⟩
  | some expr =>
      rcases derives_expr (isFilter expr rfl) with ⟨_, derived⟩
      exact ⟨_, .present derived⟩

theorem derives_sort (sort : Option SortClause) :
    Exists fun extending => SortPhrase (sortKinds sort) sort extending := by
  rcases sort with _ | ⟨field, _ | _⟩
  · exact ⟨_, .absent⟩
  · exact ⟨_, .ascending (derives_path field)⟩
  · exact ⟨_, .descending (derives_path field)⟩

theorem derives_bound (keyword : TokenKind) {bound : Option UInt64} (isBound : IsBound bound) :
    Exists fun extending => BoundClause keyword (boundKinds keyword bound) bound extending := by
  cases bound with
  | none => exact ⟨_, .absent⟩
  | some number =>
      have small := isBound number rfl
      have exact : (Int64.ofInt number.toNat).toInt = number.toNat :=
        Int64.toInt_ofInt_of_le (by omega) (by omega)
      have derived : BoundClause keyword [keyword, .int (Int64.ofInt number.toNat)] _ [] :=
        .present (by omega)
      rw [exact, Int.toNat_natCast, UInt64.ofNat_toNat] at derived
      exact ⟨_, derived⟩

theorem derives_assignments {assignments : List Assignment}
    (writable : forall assign, assign ∈ assignments ->
      IsPath V assign.field ∧ IsWritable V assign.expr)
    (some : assignments ≠ []) (sofar : List Assignment) :
    Exists fun extending =>
      Assignments sofar ([.comma].intercalate (assignments.map assignmentKinds))
        (sofar ++ assignments) extending := by
  induction assignments generalizing sofar with
  | nil => exact absurd rfl some
  | cons assign rest inductionHypothesis =>
      have target := derives_path assign.field
      rcases derives_expr (writable assign List.mem_cons_self).2 with ⟨_, derived⟩
      cases rest with
      | nil =>
          rw [List.map_singleton, intercalate_singleton]
          exact ⟨_, .last target (Or.inl rfl) derived⟩
      | cons next more =>
          rcases inductionHypothesis (fun other member =>
            writable other (List.mem_cons_of_mem _ member)) (List.cons_ne_nil _ _)
            (sofar ++ [assign]) with ⟨_, tail⟩
          rw [List.append_assoc, List.singleton_append] at tail
          rw [List.map_cons, List.map_cons, intercalate_cons_cons]
          exact ⟨_, .more target (Or.inl rfl) derived tail⟩

/-! ### Inserted documents -/

theorem insertEntry_kept (doc : Document) (entry : String × Value) :
    (Parser.insertEntry doc entry).version = doc.version ∧
      (Parser.insertEntry doc entry).createdAt = doc.createdAt ∧
        (Parser.insertEntry doc entry).updatedAt = doc.updatedAt := by
  rw [Parser.insertEntry]
  split
  · split
    · split
      · exact ⟨rfl, rfl, rfl⟩
      · exact ⟨rfl, rfl, rfl⟩
    · exact ⟨rfl, rfl, rfl⟩
  · exact ⟨rfl, rfl, rfl⟩

/-- Version and timestamps are those of a new document. -/
theorem documentOf_kept (draw : Draw) (map : List (String × Value)) :
    (Parser.documentOf draw map).version = 1 ∧
      (Parser.documentOf draw map).createdAt = draw.clock ∧
        (Parser.documentOf draw map).updatedAt = draw.clock := by
  have loop : forall (entries : List (String × Value)) (doc : Document),
      (entries.foldl Parser.insertEntry doc).version = doc.version ∧
        (entries.foldl Parser.insertEntry doc).createdAt = doc.createdAt ∧
          (entries.foldl Parser.insertEntry doc).updatedAt = doc.updatedAt := by
    intro entries
    induction entries with
    | nil => exact fun doc => ⟨rfl, rfl, rfl⟩
    | cons entry entries inductionHypothesis =>
        intro doc
        have first := insertEntry_kept doc entry
        have others := inductionHypothesis (Parser.insertEntry doc entry)
        exact ⟨others.1.trans first.1, others.2.1.trans first.2.1, others.2.2.trans first.2.2⟩
  exact loop map _

theorem same_document {first second : Document} (id : first.id = second.id)
    (version : first.version = second.version) (created : first.createdAt = second.createdAt)
    (updated : first.updatedAt = second.updatedAt) (fields : first.fields = second.fields) :
    first = second := by
  cases first
  cases second
  cases id
  cases version
  cases created
  cases updated
  cases fields
  rfl

section Inserted

variable {draw : Draw} {doc : Document} (inserted : IsInserted V draw doc)

include inserted

theorem insertedMembers_literal : IsLiteral V (.object (insertedMembers doc)) :=
  isLiteral_insert inserted.fields trivial

/-- The object is read as the document again. -/
theorem documentOf_insertedMembers :
    Parser.documentOf draw (insertedMembers doc) = doc := by
  have arranged := (insertedMembers_literal inserted).1
  have fields : (Parser.documentOf draw (insertedMembers doc)).fields = doc.fields := by
    rw [documentOf_fields draw arranged, fieldEntries, insertedMembers,
      filter_insert (p := fun key => !isIdKey key) rfl]
    exact inserted.clear.fieldEntries
  have given : givenId ("_id", .string doc.id.asStr) = some doc.id := by
    have isId : isIdKey "_id" = true := rfl
    rw [givenId, if_pos isId]
    simp only [Value.asStr, inserted.built, Except.toOption]
  have member : ("_id", .string doc.id.asStr) ∈ insertedMembers doc :=
    (KeyedList.mem_insert KeyedList.lawful_compare inserted.fields.1).mpr (Or.inl rfl)
  have id : (Parser.documentOf draw (insertedMembers doc)).id = doc.id := by
    refine documentOf_id member given ?_
    intro other found isOther gives
    rcases (KeyedList.mem_insert KeyedList.lawful_compare inserted.fields.1).mp isOther with
      rfl | ⟨_, inFields⟩
    · exact Option.some.inj (gives.symm.trans given)
    · have clear := inserted.clear other inFields
      rw [(givenId_eq_some gives).1] at clear
      cases clear
  rcases documentOf_kept draw (insertedMembers doc) with ⟨version, created, updated⟩
  exact same_document id (version.trans inserted.version.symm)
    (created.trans inserted.created.symm) (updated.trans inserted.updated.symm) fields

end Inserted

/-! ### Statements -/

theorem derives_filtered {command : TokenKind} {build : String -> Option Expr -> Statement}
    {draw : Draw} {collection : String} {filter : Option Expr} (isFilter : IsFilter V filter)
    (body : forall {word extending : List TokenKind}, FilterClause word filter extending ->
      StatementBody draw command (.identifier collection :: word) (build collection filter)
        extending) :
    Exists fun extending =>
      StatementPhrase draw (command :: .identifier collection :: filterKinds filter)
        (build collection filter) extending := by
  rcases derives_filter isFilter with ⟨_, filters⟩
  exact ⟨_, _, _, rfl, body filters⟩

/-- The tokens of a statement are a phrase for it. -/
theorem derives_kinds {draw : Draw} {statement : Statement}
    (writable : statement.Writable V draw) :
    Exists fun extending => StatementPhrase draw statement.kinds statement extending := by
  cases statement with
  | find collection filter sort limit offset =>
      rcases writable with ⟨_, isFilter, _, isLimit, isOffset⟩
      rcases derives_filter isFilter with ⟨_, filters⟩
      rcases derives_sort sort with ⟨_, sorts⟩
      rcases derives_bound .limit isLimit with ⟨_, limits⟩
      rcases derives_bound .offset isOffset with ⟨_, offsets⟩
      exact ⟨_, _, _, rfl, .find filters sorts limits offsets⟩
  | insert collection document =>
      rcases writable with ⟨_, inserted⟩
      have derived := derives_literal (insertedMembers_literal inserted)
      have body : StatementBody draw .insert _
          (.insert collection (Parser.documentOf draw (insertedMembers document))) [] :=
        .insertParen (Or.inr rfl) derived
      rw [documentOf_insertedMembers inserted] at body
      exact ⟨_, _, _, rfl, body⟩
  | update collection assignments filter =>
      rcases writable with ⟨_, some, assigned, isFilter⟩
      rcases derives_assignments assigned some [] with ⟨_, assigns⟩
      rcases derives_filter isFilter with ⟨_, filters⟩
      exact ⟨_, _, _, rfl, .update assigns filters⟩
  | remove collection filter => exact derives_filtered writable.2 .remove
  | watch collection filter => exact derives_filtered writable.2 .watch
  | count collection filter => exact derives_filtered writable.2 .count
  | «exists» collection filter => exact derives_filtered writable.2 .existing
  | createIndex collection field indexType =>
      have target : Target (.identifier collection :: .dot :: pathKinds field) (collection, field)
          [.dot] :=
        .dotted (derives_path field)
      cases indexType with
      | hash => exact ⟨_, _, _, rfl, .createIndex target .hash⟩
      | ordered => exact ⟨_, _, _, rfl, .createIndex target .ordered⟩
      | primaryKey => exact absurd rfl writable.2.2
  | dropIndex collection field => exact ⟨_, _, _, rfl, .dropIndex (.dotted (derives_path field))⟩
  | begin => exact ⟨_, _, _, rfl, .begin⟩
  | commit => exact ⟨_, _, _, rfl, .commit⟩
  | rollback => exact ⟨_, _, _, rfl, .rollback⟩

end Derivations

end Query
end NovaDb
