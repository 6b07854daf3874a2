import NovaDb.Foundation.StableSort
import NovaDb.Query.Parser
import NovaDb.Server.OrderFree

namespace NovaDb
namespace Server

open Core Foundation Index Query Storage DatabaseEngine

/-!
# SORT, LIMIT and OFFSET

A FIND sorts what its filter selects and cuts a page out of it.  The comparison of a
sort clause looks the field up by itself, and for the two names of a document's id it
finds another value than the evaluator does.  The bounds of a page are numbers that the
parser has read, so their sum stays within a machine word and the pages of one length
tile the sorted list.
-/

section Selection

variable {P : Platform} {ns coll : String} {filter : Option Expr} {engine : DatabaseEngine}

/-- The documents that a filter selects from a collection, in the order of the plan. -/
def selection (P : Platform) (ns coll : String) (filter : Option Expr) (engine : DatabaseEngine) :
    Outcome (List Document) :=
  match engine.collections.lookup (ns, coll) with
  | none => .ok []
  | some store => selectDocuments P store (managerOf engine.indexes (ns, coll)) filter

theorem page_nil (P : Platform) (limit offset : Option UInt64) : page P limit offset [] = .ok [] := by
  have behind : ([] : List Document).length ≤ (offset.getD 0).toNat := Nat.zero_le _
  simp only [page, behind, if_true]

/-- Sorting and slicing come behind the selection. -/
theorem executeFind_selection (sort : Option SortClause) (limit offset : Option UInt64) :
    executeFind P ns coll filter sort limit offset engine =
      selection P ns coll filter engine >>= pageAnswer P sort limit offset := by
  unfold executeFind selection
  cases engine.collections.lookup (ns, coll) with
  | none =>
      change _ = pageAnswer P sort limit offset []
      have empty : sortDocuments sort [] = [] := (sortDocuments_perm sort []).eq_nil
      rw [pageAnswer, empty, page_nil]
      rfl
  | some store => rfl

/-- Without SORT, LIMIT and OFFSET the answer is the selection itself. -/
theorem executeFind_plain :
    executeFind P ns coll filter none none none engine =
      (selection P ns coll filter engine).map fun docs => .records docs docs.length := by
  rw [executeFind_selection]
  cases selection P ns coll filter engine with
  | error fault => rfl
  | ok docs =>
      change pageAnswer P none none none docs = _
      rw [pageAnswer, page_none]
      rfl

theorem selection_stored {docs : List Document}
    (selected : selection P ns coll filter engine = .ok docs) {doc : Document}
    (member : doc ∈ docs) :
    Exists fun id => (storeOf engine.collections (ns, coll)).lookup id = some doc := by
  unfold selection at selected
  unfold storeOf
  cases stored : engine.collections.lookup (ns, coll) with
  | none =>
      rw [stored] at selected
      cases selected
      cases member
  | some store =>
      simp only [stored, selectDocuments] at selected
      cases isIds : candidateIds store (managerOf engine.indexes (ns, coll)) filter with
      | error fault =>
          rw [isIds] at selected
          cases selected
      | ok ids =>
          rw [isIds] at selected
          change filterCandidates P filter store ids = _ at selected
          rw [filterCandidates_eq] at selected
          split at selected
          · cases selected
          · cases selected
            have proposed := (List.mem_filter.mp member).1
            rcases List.mem_filterMap.mp proposed with ⟨id, _, found⟩
            exact ⟨id, found⟩

end Selection

/-! ## SORT -/

/-- The two documents may follow each other in a list that is sorted by the value the
evaluator finds. -/
def InOrder (P : Platform) (clause : SortClause) (left right : Document) : Prop :=
  forall leftValue rightValue, Evaluator.eval P left (.field clause.field) = .ok leftValue ->
    Evaluator.eval P right (.field clause.field) = .ok rightValue ->
    match clause.direction with
    | .asc => leftValue.cmp rightValue ≠ .gt
    | .desc => rightValue.cmp leftValue ≠ .gt

/-- With the sort clause a FIND returns what it returns without, in the order of the
values, and LIMIT and OFFSET slice the sorted list.  A filter that fails does so in any
case. -/
def SortsByValue (P : Platform) (ns coll : String) (filter : Option Expr) (clause : SortClause)
    (engine : DatabaseEngine) : Prop :=
  match executeFind P ns coll filter none none none engine with
  | .error fault => forall limit offset,
      executeFind P ns coll filter (some clause) limit offset engine = .error fault
  | .ok (.records plain _) => Exists fun sorted : List Document =>
      executeFind P ns coll filter (some clause) none none engine =
        .ok (.records sorted sorted.length) ∧
      sorted.Perm plain ∧ sorted.Pairwise (InOrder P clause) ∧
      forall limit offset, executeFind P ns coll filter (some clause) limit offset engine =
        (page P limit offset sorted).map fun docs => .records docs docs.length
  | .ok _ => False

/-- The clause names a field that is stored; or any two selected documents have their
ids in its order as the comparison leaves them, which looks into a stored field of that
name, or takes null, and lets ties stand as they were visited. -/
def SortFits (P : Platform) (ns coll : String) (filter : Option Expr) (clause : SortClause)
    (engine : DatabaseEngine) : Prop :=
  clause.field = "id" ∨ clause.field = "_id" ->
    forall docs, selection P ns coll filter engine = .ok docs ->
      docs.Pairwise (StableSort.Leaves (comesBefore (some clause)) (InOrder P clause))

section Sorting

variable {P : Platform} {ns coll : String} {filter : Option Expr} {clause : SortClause}
  {engine : DatabaseEngine}

theorem inOrder_iff {left right : Document} :
    InOrder P clause left right <->
      match clause.direction with
      | .asc => (Evaluator.fieldRef clause.field left).cmp (Evaluator.fieldRef clause.field right) ≠ .gt
      | .desc =>
          (Evaluator.fieldRef clause.field right).cmp (Evaluator.fieldRef clause.field left) ≠ .gt := by
  constructor
  · intro inOrder
    exact inOrder _ _ rfl rfl
  · intro ordered leftValue rightValue isLeft isRight
    cases isLeft
    cases isRight
    exact ordered

/-- Sorting by a stored field compares what the evaluator finds. -/
theorem comesBefore_iff (stored : ¬ (clause.field = "id" ∨ clause.field = "_id"))
    (left right : Document) :
    comesBefore (some clause) left right = true <-> InOrder P clause left right := by
  rw [inOrder_iff, comesBefore, sortCmp, Evaluator.fieldRef, if_neg stored, Evaluator.fieldRef,
    if_neg stored, bne_iff_ne]
  cases clause.direction with
  | asc => exact Iff.rfl
  | desc =>
      rw [← Value.cmp_swap]

theorem floatFree_sortKey {doc : Document} (free : Value.floatFreeMembers doc.fields = true)
    (path : String) : ((doc.fieldValue path).getD .null).floatFree = true := by
  cases stored : doc.fieldValue path with
  | none => rfl
  | some value => exact floatFree_fieldValue free stored

/-- Documents without floats can be sorted by any clause. -/
theorem comesBefore_consistent {docs : List Document}
    (free : forall doc, doc ∈ docs -> Value.floatFreeMembers doc.fields = true) :
    Ranks.Consistent (comesBefore (some clause)) docs := by
  intro first second third inFirst inSecond inThird lower upper
  have keyFree := fun doc member => floatFree_sortKey (free doc member) clause.field
  have upwards := Value.lawfulAt_of_floatFree (keyFree first inFirst) (keyFree second inSecond)
    (keyFree third inThird)
  have downwards := Value.lawfulAt_of_floatFree (keyFree third inThird) (keyFree second inSecond)
    (keyFree first inFirst)
  rw [comesBefore, bne_iff_ne, sortCmp] at lower upper ⊢
  cases direction : clause.direction with
  | asc =>
      rw [direction] at lower upper
      exact upwards.cmp_le_trans lower upper
  | desc =>
      rw [direction] at lower upper
      simp only [← Value.cmp_swap] at lower upper ⊢
      exact downwards.cmp_le_trans upper lower

/-- What the sort of one selection amounts to. -/
theorem sorted_inOrder_iff {docs : List Document}
    (free : forall doc, doc ∈ docs -> Value.floatFreeMembers doc.fields = true) :
    (sortDocuments (some clause) docs).Pairwise (InOrder P clause) <->
      (clause.field = "id" ∨ clause.field = "_id" ->
        docs.Pairwise (StableSort.Leaves (comesBefore (some clause)) (InOrder P clause))) := by
  have total := comesBefore_total (some clause)
  have consistent : Ranks.Consistent (comesBefore (some clause)) docs :=
    comesBefore_consistent free
  by_cases reserved : clause.field = "id" ∨ clause.field = "_id"
  · rw [imp_iff_right reserved]
    exact StableSort.pairwise_mergeSort_iff total consistent _
  · refine iff_of_true ?_ (fun isReserved => absurd isReserved reserved)
    exact (Ranks.mergeSort_sorted total consistent (List.Perm.refl docs)).imp
      fun below => (comesBefore_iff reserved _ _).mp below

/-- A FIND on documents without floats sorts by the values that the evaluator finds
exactly when its clause fits: it names a field other than the id, or the documents it
selects are left in the order of their ids anyway, since the comparison looks for the id
among the stored fields.  -/
theorem sort_by_value_iff
    (free : EveryDocument (storeOf engine.collections (ns, coll))
      (fun doc => Value.floatFreeMembers doc.fields = true)) :
    SortsByValue P ns coll filter clause engine <-> SortFits P ns coll filter clause engine := by
  unfold SortsByValue SortFits
  rw [executeFind_plain]
  cases selected : selection P ns coll filter engine with
  | error fault =>
      refine iff_of_true ?_ ?_
      · intro limit offset
        rw [executeFind_selection, selected]
        rfl
      · intro _ docs isOk
        cases isOk
  | ok docs =>
      have docsFree : forall doc, doc ∈ docs -> Value.floatFreeMembers doc.fields = true := by
        intro doc member
        rcases selection_stored selected member with ⟨id, stored⟩
        exact free id doc stored
      have paged : forall limit offset,
          executeFind P ns coll filter (some clause) limit offset engine =
            (page P limit offset (sortDocuments (some clause) docs)).map
              fun docs => .records docs docs.length := by
        intro limit offset
        rw [executeFind_selection, selected]
        rfl
      have whole := paged none none
      rw [page_none] at whole
      change (Exists fun sorted : List Document => _) <-> _
      constructor
      · rintro ⟨sorted, isSorted, _, ordered, _⟩ reserved others isDocs
        rw [whole] at isSorted
        cases isSorted
        cases isDocs
        exact (sorted_inOrder_iff docsFree).mp ordered reserved
      · intro fits
        refine ⟨sortDocuments (some clause) docs, whole, sortDocuments_perm _ docs, ?_, paged⟩
        exact (sorted_inOrder_iff docsFree).mpr fun reserved => fits reserved docs rfl

end Sorting

/-- Two documents without a field of the name `id` stay as they are, whether their ids
are to ascend or to descend. -/
theorem sort_id_stays {first second : Document} (direction : SortDirection)
    (noFirst : first.fieldValue "id" = none) (noSecond : second.fieldValue "id" = none) :
    sortDocuments (some ⟨"id", direction⟩) [first, second] = [first, second] := by
  apply List.mergeSort_of_pairwise
  apply List.pairwise_pair.mpr
  rw [sortCmp, noFirst, noSecond]
  cases direction <;> rfl

/-- Two documents with these ids are selected, in this order, and neither has a field of
the name `id`. -/
def SelectsPlain (outcome : Outcome (List Document)) (front behind : String) : Bool :=
  match outcome with
  | .ok [first, second] => first.id.asStr == front && (second.id.asStr == behind &&
      ((first.fieldValue "id").isNone && (second.fieldValue "id").isNone))
  | _ => false

/-- A descending sort by id leaves the lower id in front. -/
theorem sort_id_fails {P : Platform} {ns coll : String} {filter : Option Expr}
    {engine : DatabaseEngine}
    (selects : SelectsPlain (selection P ns coll filter engine) "a" "b" = true) :
    (Exists fun first : Document => Exists fun second : Document =>
        executeFind P ns coll filter (some ⟨"id", .desc⟩) none none engine =
          .ok (.records [first, second] 2) ∧
        first.id.asStr = "a" ∧ second.id.asStr = "b") ∧
      ¬ SortsByValue P ns coll filter ⟨"id", .desc⟩ engine := by
  unfold SelectsPlain at selects
  split at selects
  · rename_i first second selected
    simp only [Bool.and_eq_true, beq_iff_eq, Option.isNone_iff_eq_none] at selects
    rcases selects with ⟨isFirst, isSecond, noFirst, noSecond⟩
    have descending : executeFind P ns coll filter (some ⟨"id", .desc⟩) none none engine =
        .ok (.records [first, second] 2) := by
      rw [executeFind_selection, selected]
      change pageAnswer P _ none none [first, second] = _
      rw [pageAnswer, sort_id_stays .desc noFirst noSecond, page_none]
      rfl
    refine ⟨⟨first, second, descending, isFirst, isSecond⟩, ?_⟩
    intro sorts
    unfold SortsByValue at sorts
    rw [executeFind_plain, selected] at sorts
    rcases sorts with ⟨sorted, isSorted, _, ordered, _⟩
    rw [descending] at isSorted
    cases isSorted
    have wrong := (List.pairwise_cons.mp ordered).1 second List.mem_cons_self _ _ rfl rfl
    apply wrong
    simp only [Evaluator.fieldRef, true_or, if_true, isFirst, isSecond]
    decide +kernel
  · cases selects

/-- So it does after two INSERTs. -/
theorem sort_id_ignored :
    (Exists fun history => SequentialRun mixedPlatform mixedEngine history) ∧
      (Exists fun first : Document => Exists fun second : Document =>
        executeFind mixedPlatform "default" "users" none (some ⟨"id", .desc⟩) none none mixedEngine =
          .ok (.records [first, second] 2) ∧
        first.id.asStr = "a" ∧ second.id.asStr = "b") ∧
      ¬ SortsByValue mixedPlatform "default" "users" none ⟨"id", .desc⟩ mixedEngine :=
  ⟨⟨_, mixedEngine_run⟩, sort_id_fails (by decide +kernel)⟩

theorem sort_by_value_iff_sample :
    EveryDocument (storeOf mixedEngine.collections ("default", "users"))
        (fun doc => Value.floatFreeMembers doc.fields = true) ∧
      (SortsByValue mixedPlatform "default" "users" none ⟨"age", .asc⟩ mixedEngine <->
        SortFits mixedPlatform "default" "users" none ⟨"age", .asc⟩ mixedEngine) := by
  have free : EveryDocument (storeOf mixedEngine.collections ("default", "users"))
      (fun doc => Value.floatFreeMembers doc.fields = true) := by
    have all : (documents (storeOf mixedEngine.collections ("default", "users"))).all
        (fun doc => Value.floatFreeMembers doc.fields) = true := by decide +kernel
    intro id doc stored
    exact List.all_eq_true.mp all doc (mem_documents.mpr ⟨id, stored⟩)
  exact ⟨free, sort_by_value_iff free⟩

/-! ## LIMIT and OFFSET -/

/-- A number that the parser reads behind LIMIT or OFFSET. -/
def ReadsUsize (number : UInt64) : Prop :=
  Exists fun message => Exists fun parser => Exists fun rest =>
    Parser.parseUsize message parser = .ok number rest

theorem readsUsize_of_lt {number : UInt64} (bound : number.toNat < 2 ^ 63) :
    ReadsUsize number := by
  have literal : (Int64.ofInt number.toNat).toInt = number.toNat := by
    apply Int64.toInt_ofInt_of_le <;> omega
  let token : Token := ⟨.int (Int64.ofInt number.toNat), ⟨1, 1⟩⟩
  refine ⟨"", Parser.new [token], Parser.new [token], ?_⟩
  have natural : 0 ≤ (Int64.ofInt number.toNat).toInt := by omega
  change (if 0 ≤ (Int64.ofInt number.toNat).toInt then _ else _ : ParserM UInt64) _ = _
  rw [if_pos natural, literal, Int.toNat_natCast, UInt64.ofNat_toNat]
  rfl

theorem ReadsUsize.lt {number : UInt64} (reads : ReadsUsize number) : number.toNat < 2 ^ 63 := by
  rcases reads with ⟨message, parser, rest, reads⟩
  unfold Parser.parseUsize at reads
  rcases ParseM.ok_of_bind reads with ⟨span, behind, _, reads⟩
  rcases ParseM.ok_of_bind reads with ⟨kind, next, _, reads⟩
  cases kind with
  | int literal =>
      by_cases natural : 0 ≤ literal.toInt
      · simp only [natural, if_true] at reads
        rcases ParseM.ok_of_bind reads with ⟨token, last, _, reads⟩
        cases reads
        have bound := literal.toInt_lt
        rw [UInt64.toNat_ofNat']
        omega
      · simp only [natural, if_false] at reads
        cases reads
  | _ => cases reads

/-- The documents of the first pages of one length, from as many queries. -/
def firstPages (P : Platform) (ns coll : String) (filter : Option Expr) (sort : Option SortClause)
    (limit : UInt64) (engine : DatabaseEngine) : Nat -> Outcome (List Document)
  | 0 => .ok []
  | number + 1 => do
      let front <- firstPages P ns coll filter sort limit engine number
      let answer <- executeFind P ns coll filter sort (some limit)
        (some (UInt64.ofNat (number * limit.toNat))) engine
      match answer with
      | .records docs _ => return front ++ docs
      | _ => return front

section Pages

variable {P : Platform} {ns coll : String} {filter : Option Expr} {sort : Option SortClause}
  {engine : DatabaseEngine} {whole : List Document} {count : Nat} {limit offset : UInt64}

/-- A page whose bounds have a sum within a machine word. -/
theorem page_within (bound : offset.toNat + limit.toNat < 2 ^ 64) (docs : List Document) :
    page P (some limit) (some offset) docs =
      .ok ((docs.drop offset.toNat).take limit.toNat) := by
  simp only [page, Option.getD_some]
  by_cases behind : docs.length ≤ offset.toNat
  · rw [if_pos behind, List.drop_eq_nil_of_le behind, List.take_nil]
  · have inOrder : ¬ min (offset.toNat + limit.toNat) docs.length < offset.toNat := by omega
    rw [if_neg behind, if_neg (by omega), Nat.mod_eq_of_lt bound, if_neg inOrder, List.drop_take]
    apply congrArg
    rw [List.take_eq_take_iff, List.length_drop]
    omega

theorem executeFind_page
    (returns : executeFind P ns coll filter sort none none engine = .ok (.records whole count))
    (bound : offset.toNat + limit.toNat < 2 ^ 64) :
    executeFind P ns coll filter sort (some limit) (some offset) engine =
      .ok (.records ((whole.drop offset.toNat).take limit.toNat)
        ((whole.drop offset.toNat).take limit.toNat).length) := by
  rw [executeFind_selection] at returns ⊢
  cases selected : selection P ns coll filter engine with
  | error fault =>
      rw [selected] at returns
      cases returns
  | ok docs =>
      rw [selected] at returns
      change pageAnswer P sort none none docs = _ at returns
      rw [pageAnswer, page_none] at returns
      cases returns
      change pageAnswer P sort (some limit) (some offset) docs = _
      rw [pageAnswer, page_within bound]
      rfl

/-- The pages up to some number make up the front of the whole. -/
theorem firstPages_take
    (returns : executeFind P ns coll filter sort none none engine = .ok (.records whole count))
    (readable : limit.toNat < 2 ^ 63) (number : Nat)
    (offsets : forall page, page < number -> page * limit.toNat < 2 ^ 63) :
    firstPages P ns coll filter sort limit engine number =
      .ok (whole.take (number * limit.toNat)) := by
  induction number with
  | zero => rw [firstPages, Nat.zero_mul, List.take_zero]
  | succ number ih =>
      have last := offsets number (Nat.lt_succ_self number)
      have isOffset : (UInt64.ofNat (number * limit.toNat)).toNat = number * limit.toNat := by
        rw [UInt64.toNat_ofNat']
        exact Nat.mod_eq_of_lt (by omega)
      have within : (UInt64.ofNat (number * limit.toNat)).toNat + limit.toNat < 2 ^ 64 := by
        rw [isOffset]
        omega
      rw [firstPages, ih fun page below => offsets page (Nat.lt_succ_of_lt below),
        executeFind_page returns within, isOffset]
      change Except.ok (_ ++ _) = _
      rw [Nat.succ_mul, List.take_add]

/-- LIMIT and OFFSET cut out the positions they name, and the pages of one length tile
the whole.  (A vector of documents is never longer than the last assumption has it.) -/
theorem pages_tile
    (returns : executeFind P ns coll filter sort none none engine = .ok (.records whole count)) :
    (forall limit offset, ReadsUsize limit -> ReadsUsize offset -> 0 < limit.toNat ->
      offset.toNat + limit.toNat < 2 ^ 64 ∧
        executeFind P ns coll filter sort (some limit) (some offset) engine =
          .ok (.records ((whole.drop offset.toNat).take limit.toNat)
            ((whole.drop offset.toNat).take limit.toNat).length)) ∧
      (forall limit, ReadsUsize limit -> 0 < limit.toNat ->
        (forall number, (forall page, page < number -> page * limit.toNat < 2 ^ 63) ->
          firstPages P ns coll filter sort limit engine number =
            .ok (whole.take (number * limit.toNat))) ∧
        (whole.length ≤ 2 ^ 63 -> Exists fun number =>
          (forall page, page < number -> page * limit.toNat < 2 ^ 63) ∧
            firstPages P ns coll filter sort limit engine number = .ok whole)) := by
  constructor
  · intro limit offset readsLimit readsOffset _
    have within : offset.toNat + limit.toNat < 2 ^ 64 := by
      have limitBound := readsLimit.lt
      have offsetBound := readsOffset.lt
      omega
    exact ⟨within, executeFind_page returns within⟩
  · intro limit readsLimit positive
    have tiles := @firstPages_take P ns coll filter sort engine whole count limit returns readsLimit.lt
    refine ⟨tiles, ?_⟩
    intro bound
    -- as many pages as it takes to cover the whole
    have covers := Nat.lt_div_mul_add positive (a := whole.length + limit.toNat - 1)
    refine ⟨(whole.length + limit.toNat - 1) / limit.toNat, ?_⟩
    have starts : forall page, page < (whole.length + limit.toNat - 1) / limit.toNat ->
        page * limit.toNat < 2 ^ 63 := by
      intro page below
      have inside := (Nat.lt_div_iff_mul_lt positive).mp below
      omega
    refine ⟨starts, ?_⟩
    rw [tiles _ starts, List.take_of_length_le (by omega)]

end Pages

/-- How many documents a FIND says it returns. -/
def foundCount : Outcome ResponsePayload -> Option Nat
  | .ok (.records _ count) => some count
  | _ => none

theorem exists_records {outcome : Outcome ResponsePayload} {count : Nat}
    (counted : foundCount outcome = some count) :
    Exists fun docs => outcome = .ok (.records docs count) := by
  unfold foundCount at counted
  split at counted
  · cases counted
    exact ⟨_, rfl⟩
  · cases counted

theorem pages_tile_sample :
    Exists fun whole => executeFind mixedPlatform "default" "users" none none none none mixedEngine =
        .ok (.records whole 2) ∧
      executeFind mixedPlatform "default" "users" none none (some 1) (some 1) mixedEngine =
        .ok (.records ((whole.drop 1).take 1) ((whole.drop 1).take 1).length) := by
  rcases exists_records (by decide +kernel : foundCount (executeFind mixedPlatform "default" "users"
    none none none none mixedEngine) = some 2) with ⟨whole, returns⟩
  have reads : ReadsUsize 1 := readsUsize_of_lt (by decide)
  exact ⟨whole, returns, ((pages_tile returns).1 1 1 reads reads (by decide)).2⟩

end Server
end NovaDb
