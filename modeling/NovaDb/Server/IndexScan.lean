import Mathlib
import NovaDb.Index.IndexContents
import NovaDb.Server.Engine
import NovaDb.Storage.ReferencePlatform

namespace NovaDb
namespace Server

open Core Foundation Index Query Storage DatabaseEngine

/-!
# Finding through an index and finding by a scan

The filter is checked again on every document an index proposes, so an index can
only lose documents.  It loses those the evaluator gives a value that the index
does not hold: a missing field is null to the evaluator and absent to the index,
and the fields `id` and `_id` are the document id to the evaluator and a stored
field of that name to the index.
-/

/-! ## Documents without floats -/

theorem floatFree_lookup {members : List (String × Value)} {name : String} {value : Value}
    (free : Value.floatFreeMembers members = true) (found : members.lookup name = some value) :
    FloatFree value := by
  induction members with
  | nil => cases found
  | cons member rest ih =>
      rcases member with ⟨other, current⟩
      have parts := Bool.and_eq_true_iff.mp free
      rw [List.lookup_cons] at found
      split at found
      · cases found
        exact parts.1
      · exact ih parts.2 found

theorem floatFree_followPath {parts : List String} {current value : Value}
    (free : FloatFree current) (found : current.followPath parts = some value) :
    FloatFree value := by
  induction parts generalizing current with
  | nil =>
      rw [Value.followPath] at found
      cases found
      exact free
  | cons part rest ih =>
      cases current with
      | object members =>
          rw [Value.followPath] at found
          split at found
          · rename_i next isNext
            exact ih (floatFree_lookup free isNext) found
          · cases found
      | _ => cases found

/-- The stored values of a field of a document without floats are without floats. -/
theorem floatFree_fieldValue {doc : Document} {path : String} {value : Value}
    (free : Value.floatFreeMembers doc.fields = true) (found : doc.fieldValue path = some value) :
    FloatFree value := by
  unfold Document.fieldValue at found
  rcases Option.or_eq_some_iff.mp found with nested | ⟨_, literal⟩
  · unfold Document.getPath at nested
    split at nested
    · cases nested
    · split at nested
      · cases nested
      · split at nested
        · rename_i current isCurrent
          exact floatFree_followPath (floatFree_lookup free isCurrent) nested
        · cases nested
  · exact floatFree_lookup free literal

/-! ## Selections -/

/-- The same documents, in any order, or the same fault. -/
def SameSelection : Outcome (List Document) -> Outcome (List Document) -> Prop
  | .ok left, .ok right => left.Perm right
  | .error left, .error right => left = right
  | _, _ => False

/-- The store has every document under its own id. -/
def Keyed (store : DocumentStore) : Prop :=
  forall id doc, store.lookup id = some doc -> doc.id = id

def EveryDocument (store : DocumentStore) (property : Document -> Prop) : Prop :=
  forall id doc, store.lookup id = some doc -> property doc

/-- The index is what CREATE INDEX builds from the store, in some iteration order. -/
def BuiltFrom (store : DocumentStore) (index : SecondaryIndex) : Prop :=
  Exists fun docs => docs.Perm (documents store) ∧
    index = (SecondaryIndex.new index.kind index.name index.field index.hashState).populate docs

/-- Every index of the manager is built from the store and filed under its name. -/
def BuiltIndexes (store : DocumentStore) (manager : IndexManager) : Prop :=
  forall name index, manager.get name = some index -> index.name = name ∧ BuiltFrom store index

theorem mem_documents {store : DocumentStore} {doc : Document} :
    doc ∈ documents store <-> Exists fun id => store.lookup id = some doc := by
  constructor
  · intro member
    rcases List.mem_map.mp member with ⟨⟨id, other⟩, isEntry, rfl⟩
    exact ⟨id, AList.mem_lookup_iff.mpr isEntry⟩
  · rintro ⟨id, found⟩
    exact List.mem_map.mpr ⟨⟨id, doc⟩, AList.mem_lookup_iff.mp found, rfl⟩

/-- The index has the values of the stored documents and nothing else. -/
def Reflects (store : DocumentStore) (index : SecondaryIndex) : Prop :=
  forall value id, index.Has value id <->
    Exists fun doc => store.lookup id = some doc ∧ doc.fieldValue index.field = some value

/-- An index built from a store has exactly the values of the stored documents. -/
theorem BuiltFrom.spec {store : DocumentStore} {index : SecondaryIndex}
    (built : BuiltFrom store index) (keyed : Keyed store)
    (free : EveryDocument store (fun doc => Value.floatFreeMembers doc.fields = true)) :
    index.WellFormed ∧ Reflects store index := by
  rcases built with ⟨docs, permuted, isBuilt⟩
  have docsFree : forall doc, doc ∈ docs ->
      SecondaryIndex.IndexesFloatFree index.field doc := by
    intro doc member value found
    rcases mem_documents.mp (permuted.mem_iff.mp member) with ⟨id, stored⟩
    exact floatFree_fieldValue (free id doc stored) found
  rcases SecondaryIndex.populate_spec docs
      (SecondaryIndex.wellFormed_new index.kind index.name index.field index.hashState) docsFree with
    ⟨wellFormed, has⟩
  rw [← isBuilt] at wellFormed has
  refine ⟨wellFormed, ?_⟩
  intro value id
  rw [has]
  constructor
  · rintro (fresh | ⟨doc, member, found, rfl⟩)
    · exact absurd fresh (SecondaryIndex.not_has_new _ _ _ _ _ _)
    · rcases mem_documents.mp (permuted.mem_iff.mp member) with ⟨id, stored⟩
      rw [keyed id doc stored]
      exact ⟨doc, stored, found⟩
  · rintro ⟨doc, stored, found⟩
    refine Or.inr ⟨doc, permuted.mem_iff.mpr (mem_documents.mpr ⟨id, stored⟩), found, keyed id doc stored⟩

/-- Candidates of a filter that never fails. -/
theorem filterCandidates_total {P : Platform} {filter : Option Expr} {store : DocumentStore}
    {test : Document -> Bool}
    (total : EveryDocument store (fun doc => Evaluator.matchesFilter P filter doc = .ok (test doc)))
    (ids : List DocumentId) :
    filterCandidates P filter store ids = .ok ((ids.filterMap store.lookup).filter test) := by
  induction ids with
  | nil => rfl
  | cons id rest ih =>
      rw [filterCandidates]
      cases found : store.lookup id with
      | none =>
          simp only [List.filterMap_cons, found]
          exact ih
      | some doc =>
          simp only [List.filterMap_cons, found, total id doc found, ih, List.filter_cons]
          rfl

/-- Candidates without repetition select what a scan selects exactly when no
document that passes the test is missing among them. -/
theorem selection_perm_iff {store : DocumentStore} (keyed : Keyed store)
    {ids : List DocumentId} (distinct : ids.Nodup) (test : Document -> Bool) :
    ((ids.filterMap store.lookup).filter test).Perm
        ((store.keys.filterMap store.lookup).filter test) <->
      forall id doc, store.lookup id = some doc -> test doc = true -> id ∈ ids := by
  have selected : forall (list : List DocumentId) (doc : Document),
      doc ∈ (list.filterMap store.lookup).filter test <->
        doc.id ∈ list ∧ store.lookup doc.id = some doc ∧ test doc = true := by
    intro list doc
    rw [List.mem_filter, List.mem_filterMap]
    constructor
    · rintro ⟨⟨id, member, found⟩, passes⟩
      rw [keyed id doc found]
      exact ⟨member, found, passes⟩
    · rintro ⟨member, found, passes⟩
      exact ⟨⟨doc.id, member, found⟩, passes⟩
  have single : forall (left right : DocumentId) (doc : Document),
      doc ∈ store.lookup left -> doc ∈ store.lookup right -> left = right := by
    intro left right doc first second
    rw [← keyed left doc first, ← keyed right doc second]
  have nodup : forall {list : List DocumentId}, list.Nodup ->
      ((list.filterMap store.lookup).filter test).Nodup :=
    fun distinct => (distinct.filterMap single).filter test
  rw [List.perm_ext_iff_of_nodup (nodup distinct) (nodup store.keys_nodup)]
  simp only [selected]
  constructor
  · intro same id doc found passes
    have sameId := keyed id doc found
    subst sameId
    have stored : doc.id ∈ store.keys :=
      AList.mem_keys.mp (AList.lookup_isSome.mp (by rw [found]; rfl))
    exact ((same doc).mpr ⟨stored, found, passes⟩).1
  · intro proposed doc
    constructor
    · rintro ⟨_, found, passes⟩
      exact ⟨AList.mem_keys.mp (AList.lookup_isSome.mp (by rw [found]; rfl)), found, passes⟩
    · rintro ⟨_, found, passes⟩
      exact ⟨proposed doc.id doc found passes, found, passes⟩

/-! ## Documents an index can find -/

/-- The document is under a value the test accepts whenever the evaluator's
value is accepted: it has the field, or null is not accepted; and for the id
fields a stored field of that name is accepted when the id is. -/
def Findable (field : String) (test : Value -> Bool) (doc : Document) : Prop :=
  if field = "id" ∨ field = "_id" then
    test (.string doc.id.asStr) = true ->
      Exists fun value => doc.fields.lookup field = some value ∧ test value = true
  else (doc.fieldValue field).isSome = true ∨ test .null = false

theorem findable_iff {field : String} {test : Value -> Bool} {doc : Document} :
    Findable field test doc <->
      (test (Evaluator.fieldRef field doc) = true ->
        Exists fun value => doc.fieldValue field = some value ∧ test value = true) := by
  unfold Findable Evaluator.fieldRef
  by_cases isId : field = "id" ∨ field = "_id"
  · have noPath : doc.fieldValue field = doc.fields.lookup field := by
      rw [Document.fieldValue, Document.getPath, if_pos (Or.symm isId), Option.none_or]
    rw [if_pos isId, if_pos isId, noPath]
  · rw [if_neg isId, if_neg isId]
    cases stored : doc.fieldValue field with
    | none =>
        simp only [Option.isSome_none, Bool.false_eq_true, false_or, Option.getD_none, reduceCtorEq,
          false_and, exists_false, imp_false, Bool.not_eq_true]
    | some value =>
        refine iff_of_true (Or.inl rfl) ?_
        intro accepted
        exact ⟨value, rfl, accepted⟩

theorem floatFree_fieldRef {doc : Document} (free : Value.floatFreeMembers doc.fields = true)
    (path : String) : FloatFree (Evaluator.fieldRef path doc) := by
  unfold Evaluator.fieldRef
  split
  · rfl
  · cases stored : doc.fieldValue path with
    | none => rfl
    | some value => exact floatFree_fieldValue free stored

/-- Without indexes every plan is a scan. -/
theorem plan_new (filter : Option Expr) :
    QueryPlanner.plan filter IndexManager.new = .seqScan := by
  unfold QueryPlanner.plan
  split
  · rfl
  · rfl
  · split <;> rfl
  · rfl
  · rfl

theorem findIndexForField_some {store : DocumentStore} {manager : IndexManager}
    (built : BuiltIndexes store manager) {field : String} {index : SecondaryIndex}
    (found : manager.findIndexForField field = some index) :
    index.field = field ∧ manager.get index.name = some index ∧ BuiltFrom store index := by
  unfold IndexManager.findIndexForField at found
  have sameField : index.field = field := by
    have passes := List.find?_some found
    exact of_decide_eq_true passes
  have member := List.mem_of_find?_eq_some found
  rcases List.mem_map.mp member with ⟨⟨name, other⟩, isEntry, rfl⟩
  have stored : manager.get name = some other := AList.mem_lookup_iff.mpr isEntry
  rcases built name other stored with ⟨sameName, builtOther⟩
  refine ⟨sameField, ?_, builtOther⟩
  change manager.get other.name = some other
  rw [sameName]
  exact stored

/-- What a comparison of order selects is what its range contains. -/
theorem comparisonRange_contains {op : BinaryOp} {literal : Value} {range : IndexRange}
    (isRange : comparisonRange op literal = some range) (P : Platform) (value : Value) :
    Evaluator.applyBinary P op value literal = .ok (.bool (range.contains value)) := by
  cases op <;> cases isRange <;>
    simp only [Evaluator.applyBinary, IndexRange.contains, IndexRange.afterStart,
      IndexRange.beforeStop, IndexRange.fromInclusive, IndexRange.toInclusive, Bool.and_true,
      Bool.true_and]
  · cases value.cmp literal <;> rfl
  · cases value.cmp literal <;> rfl

/-- An expression that gives a truth value passes as that value. -/
theorem matchesFilter_bool {P : Platform} {doc : Document} {expr : Expr} {flag : Bool}
    (value : Evaluator.eval P doc expr = .ok (.bool flag)) :
    Evaluator.matchesFilter P (some expr) doc = .ok flag := by
  rw [Evaluator.matchesFilter, value]
  rfl

/-- A comparison of order evaluates both sides and compares. -/
theorem eval_comparison {op : BinaryOp} {literal : Value} {range : IndexRange}
    (isRange : comparisonRange op literal = some range) (P : Platform) (doc : Document)
    (field : String) :
    Evaluator.eval P doc (.binary op (.field field) (.literal literal)) =
      .ok (.bool (range.contains (Evaluator.fieldRef field doc))) := by
  rw [← comparisonRange_contains isRange P]
  cases op <;> cases isRange <;> rfl

theorem eq_comm_of_floatFree {left right : Value} (leftFree : FloatFree left)
    (rightFree : FloatFree right) : left.eq right = right.eq left := by
  rw [Bool.eq_iff_iff, Value.eq_iff leftFree rightFree, Value.eq_iff rightFree leftFree]
  exact eq_comm

/-! ## The two paths compared -/

/-- The plan loses no document: its range, where it has one, does not make the
B-tree panic on a non-empty index, and every stored document is findable. -/
def Complete (store : DocumentStore) (manager : IndexManager) : QueryPlan -> Prop
  | .seqScan => True
  | .indexLookup name key =>
      forall index, manager.get name = some index ->
        EveryDocument store (Findable index.field (fun value => value.eq key))
  | .indexRangeScan name range =>
      forall index, manager.get name = some index ->
        (range.rangePanic = none ∨
          EveryDocument store (fun doc => doc.fieldValue index.field = none)) ∧
        EveryDocument store (Findable index.field range.contains)

theorem sameSelection_refl (selection : Outcome (List Document)) :
    SameSelection selection selection := by
  cases selection with
  | error fault => exact rfl
  | ok docs => exact List.Perm.refl docs

section Paths

variable {P : Platform} {store : DocumentStore} {manager : IndexManager} {filter : Option Expr}

/-- A plan that scans is the plan without indexes. -/
theorem seqScan_path (isScan : QueryPlanner.plan filter manager = .seqScan) :
    SameSelection (selectDocuments P store manager filter)
        (selectDocuments P store IndexManager.new filter) <->
      Complete store manager .seqScan := by
  have same : selectDocuments P store manager filter =
      selectDocuments P store IndexManager.new filter := by
    simp only [selectDocuments, candidateIds, isScan, plan_new]
  rw [same]
  exact iff_of_true (sameSelection_refl _) trivial

theorem selectDocuments_scan {test : Document -> Bool}
    (total : EveryDocument store (fun doc => Evaluator.matchesFilter P filter doc = .ok (test doc))) :
    selectDocuments P store IndexManager.new filter =
      .ok ((store.keys.filterMap store.lookup).filter test) := by
  have candidates : candidateIds store IndexManager.new filter = .ok store.keys := by
    rw [candidateIds, plan_new]
  unfold selectDocuments
  rw [candidates]
  exact filterCandidates_total total store.keys

/-- An index that proposes the ids under the accepted values selects what a scan
selects exactly when every document is findable. -/
theorem selection_iff_findable (keyed : Keyed store) {index : SecondaryIndex}
    (reflects : Reflects store index) {test : Value -> Bool}
    (total : EveryDocument store (fun doc => Evaluator.matchesFilter P filter doc =
      .ok (test (Evaluator.fieldRef index.field doc))))
    {ids : List DocumentId} (proposed : candidateIds store manager filter = .ok ids)
    (distinct : ids.Nodup)
    (member : forall id, id ∈ ids <->
      Exists fun value => test value = true ∧ index.Has value id) :
    SameSelection (selectDocuments P store manager filter)
        (selectDocuments P store IndexManager.new filter) <->
      EveryDocument store (Findable index.field test) := by
  have indexed : selectDocuments P store manager filter =
      .ok ((ids.filterMap store.lookup).filter
        (fun doc => test (Evaluator.fieldRef index.field doc))) := by
    unfold selectDocuments
    rw [proposed]
    exact filterCandidates_total total ids
  rw [indexed, selectDocuments_scan total]
  change List.Perm _ _ <-> _
  rw [selection_perm_iff keyed distinct]
  constructor
  · intro complete id doc found
    rw [findable_iff]
    intro accepted
    rcases (member id).mp (complete id doc found accepted) with ⟨value, passes, under⟩
    rcases (reflects value id).mp under with ⟨other, foundOther, stored⟩
    cases found.symm.trans foundOther
    exact ⟨value, stored, passes⟩
  · intro findable id doc found accepted
    rcases findable_iff.mp (findable id doc found) accepted with ⟨value, stored, passes⟩
    exact (member id).mpr ⟨value, passes, (reflects value id).mpr ⟨doc, found, stored⟩⟩

/-- An index is empty exactly when no stored document has the field. -/
theorem entries_eq_nil_iff {index : SecondaryIndex} (wellFormed : index.WellFormed)
    (reflects : Reflects store index) :
    index.entries = [] <->
      EveryDocument store (fun doc => doc.fieldValue index.field = none) := by
  constructor
  · intro empty id doc stored
    cases isValue : doc.fieldValue index.field with
    | none => rfl
    | some value =>
        rcases (reflects value id).mpr ⟨doc, stored, isValue⟩ with ⟨ids, isEntry, _⟩
        rw [empty] at isEntry
        cases isEntry
  · intro noField
    by_contra nonempty
    rcases List.exists_mem_of_ne_nil _ nonempty with ⟨⟨value, ids⟩, isEntry⟩
    rcases List.exists_mem_of_ne_nil _ (wellFormed.sets isEntry).2 with ⟨⟨id, _⟩, isId⟩
    rcases (reflects value id).mp ⟨ids, isEntry, isId⟩ with ⟨doc, stored, isValue⟩
    rw [noField id doc stored] at isValue
    cases isValue

/-- An id is under one value only. -/
theorem Reflects.single {index : SecondaryIndex} (reflects : Reflects store index)
    {value other : Value} {id : DocumentId} (first : index.Has value id)
    (second : index.Has other id) : value = other := by
  rcases (reflects value id).mp first with ⟨doc, stored, isValue⟩
  rcases (reflects other id).mp second with ⟨again, alsoStored, isOther⟩
  cases stored.symm.trans alsoStored
  exact Option.some.inj (isValue.symm.trans isOther)

variable (keyed : Keyed store)
  (free : EveryDocument store (fun doc => Value.floatFreeMembers doc.fields = true))
  (built : BuiltIndexes store manager)

include keyed free built

/-- The comparison with a key, through any index on the field. -/
theorem lookup_path {field : String} {key : Value} (keyFree : FloatFree key)
    (total : EveryDocument store (fun doc => Evaluator.matchesFilter P filter doc =
      .ok ((Evaluator.fieldRef field doc).eq key)))
    (planned : QueryPlanner.plan filter manager = QueryPlanner.planLookup manager field key) :
    SameSelection (selectDocuments P store manager filter)
        (selectDocuments P store IndexManager.new filter) <->
      Complete store manager (QueryPlanner.planLookup manager field key) := by
  rw [← planned]
  cases found : manager.findIndexForField field with
  | none =>
      have isScan : QueryPlanner.plan filter manager = .seqScan := by
        rw [planned, QueryPlanner.planLookup, found]
      rw [isScan]
      exact seqScan_path isScan
  | some index =>
      rcases findIndexForField_some built found with ⟨rfl, stored, builtIndex⟩
      rcases builtIndex.spec keyed free with ⟨wellFormed, reflects⟩
      have isLookup : QueryPlanner.plan filter manager = .indexLookup index.name key := by
        rw [planned, QueryPlanner.planLookup, found]
      have candidates : candidateIds store manager filter = .ok (index.lookup key) := by
        rw [candidateIds, isLookup]
        simp only [stored]
      have member : forall id, id ∈ index.lookup key <->
          Exists fun value => value.eq key = true ∧ index.Has value id := by
        intro id
        rw [SecondaryIndex.mem_lookup wellFormed keyFree]
        constructor
        · intro under
          exact ⟨key, (Value.eq_iff keyFree keyFree).mpr rfl, under⟩
        · rintro ⟨value, equal, under⟩
          rcases (reflects value id).mp under with ⟨doc, isStored, isValue⟩
          have valueFree := floatFree_fieldValue (free id doc isStored) isValue
          rw [← (Value.eq_iff valueFree keyFree).mp equal]
          exact under
      rw [@selection_iff_findable P store manager filter keyed index reflects
        (fun value => value.eq key) total _ candidates
        (SecondaryIndex.lookup_nodup wellFormed keyFree) member, isLookup]
      constructor
      · intro findable other isOther
        cases stored.symm.trans isOther
        exact findable
      · intro complete
        exact complete index stored

/-- The comparison with a range, through an ordered index on the field. -/
theorem range_path {field : String} {range : IndexRange}
    (total : EveryDocument store (fun doc => Evaluator.matchesFilter P filter doc =
      .ok (range.contains (Evaluator.fieldRef field doc))))
    (planned : QueryPlanner.plan filter manager = QueryPlanner.planRange manager field range) :
    SameSelection (selectDocuments P store manager filter)
        (selectDocuments P store IndexManager.new filter) <->
      Complete store manager (QueryPlanner.planRange manager field range) := by
  rw [← planned]
  cases found : manager.findIndexForField field with
  | none =>
      have isScan : QueryPlanner.plan filter manager = .seqScan := by
        rw [planned, QueryPlanner.planRange, found]
      rw [isScan]
      exact seqScan_path isScan
  | some index =>
      rcases findIndexForField_some built found with ⟨rfl, stored, builtIndex⟩
      rcases builtIndex.spec keyed free with ⟨wellFormed, reflects⟩
      cases isKind : index.kind with
      | hash =>
          have isScan : QueryPlanner.plan filter manager = .seqScan := by
            rw [planned, QueryPlanner.planRange, found]
            simp only [isKind, IndexKind.indexType, reduceCtorEq, if_false]
          rw [isScan]
          exact seqScan_path isScan
      | ordered =>
          have isRange : QueryPlanner.plan filter manager = .indexRangeScan index.name range := by
            rw [planned, QueryPlanner.planRange, found]
            simp only [isKind, IndexKind.indexType, if_true]
          have atIndex : Complete store manager (.indexRangeScan index.name range) <->
              (range.rangePanic = none ∨ index.entries = []) ∧
                EveryDocument store (Findable index.field range.contains) := by
            rw [entries_eq_nil_iff wellFormed reflects]
            constructor
            · intro complete
              exact complete index stored
            · intro complete other isOther
              cases stored.symm.trans isOther
              exact complete
          rw [isRange, atIndex]
          by_cases fine : range.rangePanic = none ∨ index.entries = []
          · have candidates : candidateIds store manager filter = .ok (index.inRange range) := by
              rw [candidateIds, isRange]
              simp only [stored, SecondaryIndex.scan_ordered isKind fine]
            rw [@selection_iff_findable P store manager filter keyed index reflects range.contains
              total _ candidates
              (SecondaryIndex.inRange_nodup wellFormed range reflects.single)
              (fun id => SecondaryIndex.mem_inRange)]
            exact ⟨fun findable => ⟨fine, findable⟩, fun both => both.2⟩
          · rcases SecondaryIndex.scan_panics isKind fine with ⟨message, panics⟩
            have selected : selectDocuments P store manager filter = .error (.panic message) := by
              simp only [selectDocuments, candidateIds, isRange, stored, panics]
              rfl
            rw [selected, selectDocuments_scan total]
            exact iff_of_false (fun impossible => impossible) (fun both => fine both.1)

/-- The indexes select what a scan selects exactly when the plan loses no document. -/
theorem selectDocuments_iff_complete (filterFree : forall expr, filter = some expr -> expr.floatFree = true) :
    SameSelection (selectDocuments P store manager filter)
        (selectDocuments P store IndexManager.new filter) <->
      Complete store manager (QueryPlanner.plan filter manager) := by
  fun_cases QueryPlanner.plan filter manager with
  | case1 field key =>
      have keyFree : FloatFree key := filterFree _ rfl
      apply lookup_path keyed free built keyFree
      · intro id doc stored
        exact matchesFilter_bool rfl
      · rfl
  | case2 key field =>
      have keyFree : FloatFree key := by
        have both := filterFree _ rfl
        rw [Expr.floatFree, Bool.and_eq_true_iff] at both
        exact both.1
      apply lookup_path keyed free built keyFree
      · intro id doc stored
        rw [eq_comm_of_floatFree (floatFree_fieldRef (free id doc stored) field) keyFree]
        exact matchesFilter_bool rfl
      · rfl
  | case3 op field literal notEq range isRange =>
      apply range_path keyed free built
      · intro id doc stored
        exact matchesFilter_bool (eval_comparison isRange P doc field)
      · simp only [QueryPlanner.plan, isRange]
  | case4 op field literal notEq noRange =>
      apply seqScan_path
      simp only [QueryPlanner.plan, noRange]
  | case5 field min max =>
      apply range_path keyed free built
      · intro id doc stored
        exact matchesFilter_bool rfl
      · rfl
  | case6 =>
      rename_i notLookup notSwapped notComparison notBetween
      apply seqScan_path
      exact QueryPlanner.plan.eq_5 filter manager notLookup notSwapped notComparison notBetween

end Paths

/-! ## FIND -/

/-- The same documents, in any order, or the same fault, as responses. -/
def SameRecords : Outcome ResponsePayload -> Outcome ResponsePayload -> Prop
  | .ok (.records left leftCount), .ok (.records right rightCount) =>
      left.Perm right ∧ leftCount = rightCount
  | .error left, .error right => left = right
  | _, _ => False

/-- The engine with the indexes of one collection dropped. -/
def withoutIndexes (engine : DatabaseEngine) (key : CollectionKey) : DatabaseEngine :=
  { engine with indexes := engine.indexes.insert key IndexManager.new }

theorem sortDocuments_perm (sort : Option SortClause) (docs : List Document) :
    (sortDocuments sort docs).Perm docs := by
  cases sort with
  | none => exact List.Perm.refl docs
  | some clause => exact List.mergeSort_perm docs _

/-- Without limit and offset the page is everything. -/
theorem page_none (P : Platform) (docs : List Document) : page P none none docs = .ok docs := by
  unfold page
  cases docs with
  | nil => rfl
  | cons first rest => rfl

/-- A FIND of everything a filter selects, as its selection. -/
theorem executeFind_all {P : Platform} {ns coll : String} {filter : Option Expr}
    {sort : Option SortClause} {engine : DatabaseEngine} {store : DocumentStore}
    (stored : engine.collections.lookup (ns, coll) = some store) :
    executeFind P ns coll filter sort none none engine =
      (selectDocuments P store (managerOf engine.indexes (ns, coll)) filter).map
        (fun docs => .records (sortDocuments sort docs) (sortDocuments sort docs).length) := by
  simp only [executeFind, stored]
  cases selectDocuments P store (managerOf engine.indexes (ns, coll)) filter with
  | error fault => rfl
  | ok docs =>
      change (page P none none (sortDocuments sort docs) >>= _) = _
      rw [page_none]
      rfl

theorem sameRecords_map (sort : Option SortClause) (left right : Outcome (List Document)) :
    SameRecords
        (left.map fun docs => .records (sortDocuments sort docs) (sortDocuments sort docs).length)
        (right.map fun docs => .records (sortDocuments sort docs) (sortDocuments sort docs).length) <->
      SameSelection left right := by
  cases left with
  | error fault => cases right <;> exact Iff.rfl
  | ok leftDocs =>
      cases right with
      | error fault => exact Iff.rfl
      | ok rightDocs =>
          have leftSort := sortDocuments_perm sort leftDocs
          have rightSort := sortDocuments_perm sort rightDocs
          constructor
          · intro same
            exact (leftSort.symm.trans same.1).trans rightSort
          · intro same
            have sorted := (leftSort.trans same).trans rightSort.symm
            exact ⟨sorted, sorted.length_eq⟩

theorem managerOf_insert (indexes : AList (fun _ : CollectionKey => IndexManager))
    (key : CollectionKey) (manager : IndexManager) :
    managerOf (indexes.insert key manager) key = manager := by
  rw [managerOf, AList.lookup_insert]
  rfl

theorem managerOf_insert_ne {key other : CollectionKey} (different : other ≠ key)
    (indexes : AList (fun _ : CollectionKey => IndexManager)) (manager : IndexManager) :
    managerOf (indexes.insert key manager) other = managerOf indexes other := by
  rw [managerOf, AList.lookup_insert_ne different]
  rfl

theorem managerOf_withoutIndexes (engine : DatabaseEngine) (key : CollectionKey) :
    managerOf (withoutIndexes engine key).indexes key = IndexManager.new := by
  unfold managerOf withoutIndexes
  rw [AList.lookup_insert]
  rfl

/-- No plan loses a document of an empty store. -/
theorem complete_empty (manager : IndexManager) (plan : QueryPlan) : Complete ∅ manager plan := by
  have vacuous : forall property, EveryDocument ∅ property := by
    intro property id doc stored
    cases stored
  cases plan with
  | indexLookup name key => exact fun index _ => vacuous _
  | indexRangeScan name range => exact fun index _ => ⟨Or.inr (vacuous _), vacuous _⟩
  | seqScan => trivial

/-- A FIND selects the same documents with the indexes as without them exactly when its
plan loses none.  The store has every document under its own id, the indexes are built
from it, and neither the documents nor the filter have floats.  -/
theorem find_with_index_iff {P : Platform} {ns coll : String} {filter : Option Expr}
    {sort : Option SortClause} {engine : DatabaseEngine}
    (keyed : Keyed (storeOf engine.collections (ns, coll)))
    (free : EveryDocument (storeOf engine.collections (ns, coll))
      (fun doc => Value.floatFreeMembers doc.fields = true))
    (built : BuiltIndexes (storeOf engine.collections (ns, coll))
      (managerOf engine.indexes (ns, coll)))
    (filterFree : forall expr, filter = some expr -> expr.floatFree = true) :
    SameRecords (executeFind P ns coll filter sort none none engine)
        (executeFind P ns coll filter sort none none (withoutIndexes engine (ns, coll))) <->
      Complete (storeOf engine.collections (ns, coll)) (managerOf engine.indexes (ns, coll))
        (QueryPlanner.plan filter (managerOf engine.indexes (ns, coll))) := by
  cases stored : engine.collections.lookup (ns, coll) with
  | none =>
      have empty : storeOf engine.collections (ns, coll) = ∅ := by
        rw [storeOf, stored]
        rfl
      have unindexed : (withoutIndexes engine (ns, coll)).collections.lookup (ns, coll) = none :=
        stored
      simp only [executeFind, stored, unindexed, empty]
      exact iff_of_true ⟨List.Perm.refl [], rfl⟩ (complete_empty _ _)
  | some store =>
      have isStore : storeOf engine.collections (ns, coll) = store := by
        rw [storeOf, stored]
        rfl
      have unindexed :
          (withoutIndexes engine (ns, coll)).collections.lookup (ns, coll) = some store := stored
      rw [isStore] at keyed free built
      rw [executeFind_all stored, executeFind_all unindexed, managerOf_withoutIndexes,
        sameRecords_map, isStore]
      exact selectDocuments_iff_complete keyed free built filterFree

theorem newIndex_eq (indexType : IndexType) (name field : String) (state : RandomState) :
    newIndex indexType name field state =
      SecondaryIndex.new (newIndex indexType name field state).kind name field state := by
  cases indexType <;> rfl

/-- A new index populated from the documents in any order. -/
theorem builtFrom_populate {store : DocumentStore} {docs : List Document}
    (order : docs.Perm (documents store)) (kind : IndexKind) (name field : String)
    (state : RandomState) :
    BuiltFrom store ((SecondaryIndex.new kind name field state).populate docs) := by
  rcases SecondaryIndex.populate_identity (SecondaryIndex.new kind name field state) docs with
    ⟨sameKind, sameName, sameField, sameState⟩
  refine ⟨docs, order, ?_⟩
  rw [sameKind, sameName, sameField, sameState]
  rfl

theorem builtFrom_newIndex (store : DocumentStore) (indexType : IndexType) (name field : String)
    (state : RandomState) :
    BuiltFrom store ((newIndex indexType name field state).populate (documents store)) ∧
      ((newIndex indexType name field state).populate (documents store)).name = name := by
  rw [newIndex_eq]
  exact ⟨builtFrom_populate (List.Perm.refl _) _ name field state,
    (SecondaryIndex.populate_identity _ _).2.1⟩

/-- CREATE INDEX keeps all indexes of its collection built from the store. -/
theorem builtIndexes_createIndex {moment : Moment} {engine : DatabaseEngine}
    {ns coll field : String} {indexType : IndexType}
    (built : BuiltIndexes (storeOf engine.collections (ns, coll))
      (managerOf engine.indexes (ns, coll))) :
    BuiltIndexes
      (storeOf (executeCreateIndex moment ns coll field indexType engine).1.collections (ns, coll))
      (managerOf (executeCreateIndex moment ns coll field indexType engine).1.indexes (ns, coll)) := by
  rcases builtFrom_newIndex (storeOf engine.collections (ns, coll)) indexType
    (indexName coll field) field moment.hashState with ⟨builtNew, isName⟩
  intro name index found
  simp only [executeCreateIndex, managerOf, AList.lookup_insert, Option.getD_some,
    IndexManager.addIndex, IndexManager.get, isName] at found
  by_cases same : name = indexName coll field
  · subst same
    rw [AList.lookup_insert] at found
    cases found
    exact ⟨isName, builtNew⟩
  · rw [AList.lookup_insert_ne same] at found
    exact built name index found

/-- An engine with one document, after CREATE INDEX on `age` with a hash index. -/
def oneUserIndexed (doc : Document) : DatabaseEngine :=
  (executeCreateIndex ⟨0, ⟨0, .unset, none, false, false, false, ""⟩, 0, .collisionFree⟩
    "default" "users" "age" .hash (oneUser doc)).1

theorem lookup_oneUser {doc other : Document} {id : DocumentId}
    (stored : (storeOf (oneUserIndexed doc).collections ("default", "users")).lookup id =
      some other) : id = doc.id ∧ other = doc := by
  change ((∅ : DocumentStore).insert doc.id doc).lookup id = some other at stored
  by_cases same : id = doc.id
  · subst same
    rw [AList.lookup_insert] at stored
    exact ⟨rfl, (Option.some.inj stored).symm⟩
  · rw [AList.lookup_insert_ne same] at stored
    cases stored

theorem builtIndexes_oneUser (doc : Document) :
    BuiltIndexes (storeOf (oneUserIndexed doc).collections ("default", "users"))
      (managerOf (oneUserIndexed doc).indexes ("default", "users")) := by
  apply builtIndexes_createIndex
  intro name index found
  cases found

/-- A document that has the field is found by its key. -/
theorem find_with_index_aged :
    SameRecords
      (executeFind samplePlatform "default" "users"
        (some (.binary .eq (.field "age") (.literal (.int 1)))) none none none
        (oneUserIndexed agedDocument))
      (executeFind samplePlatform "default" "users"
        (some (.binary .eq (.field "age") (.literal (.int 1)))) none none none
        (withoutIndexes (oneUserIndexed agedDocument) ("default", "users"))) := by
  refine (find_with_index_iff ?_ ?_ (builtIndexes_oneUser agedDocument) ?_).mpr ?_
  · intro id doc stored
    rcases lookup_oneUser stored with ⟨rfl, rfl⟩
    rfl
  · intro id doc stored
    rcases lookup_oneUser stored with ⟨rfl, rfl⟩
    rfl
  · intro expr isExpr
    cases isExpr
    rfl
  · intro index found id doc stored
    rcases lookup_oneUser stored with ⟨rfl, rfl⟩
    cases found
    rw [findable_iff]
    intro accepted
    exact ⟨.int 1, rfl, accepted⟩

/-- A document without the field is null to the evaluator and unknown to the index. -/
theorem find_null_misses_absent_field :
    Not (SameRecords
      (executeFind samplePlatform "default" "users"
        (some (.binary .eq (.field "age") (.literal .null))) none none none
        (oneUserIndexed sampleDocument))
      (executeFind samplePlatform "default" "users"
        (some (.binary .eq (.field "age") (.literal .null))) none none none
        (withoutIndexes (oneUserIndexed sampleDocument) ("default", "users")))) := by
  have indexed : executeFind samplePlatform "default" "users"
      (some (.binary .eq (.field "age") (.literal .null))) none none none
      (oneUserIndexed sampleDocument) = .ok (.records [] 0) := rfl
  have scanned : executeFind samplePlatform "default" "users"
      (some (.binary .eq (.field "age") (.literal .null))) none none none
      (withoutIndexes (oneUserIndexed sampleDocument) ("default", "users")) =
        .ok (.records [sampleDocument] 1) := rfl
  rw [indexed, scanned]
  rintro ⟨_, sameCount⟩
  cases sameCount

end Server
end NovaDb
