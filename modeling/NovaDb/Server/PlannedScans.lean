import NovaDb.Server.IndexScan
import NovaDb.Server.LiveState

namespace NovaDb
namespace Server

open Core Foundation Index Query Storage DatabaseEngine

/-!
# Ranges the B-tree accepts

The bounds of a planned range are the literals of the filter.  A comparison has
one bound, which a B-tree always accepts; a BETWEEN has two, in the order they
were written, and a B-tree panics when the first is the greater.  Filters that are
planned do not fail on any document, so nothing else keeps a planned FIND from
the response it has without the index.
-/

/-- LIMIT and OFFSET have a slice, however many documents there are. -/
def Sliceable (P : Platform) (limit offset : Option UInt64) : Prop :=
  forall docs, Exists fun paged => page P limit offset docs = .ok paged

def Responds (outcome : Outcome ResponsePayload) : Prop :=
  Exists fun response => outcome = .ok response

/-- The range a FIND scans is one a B-tree accepts, and the FIND has a response as
it has without the indexes of the collection. -/
structure PlanExecutable (P : Platform) (ns coll : String) (filter : Option Expr)
    (engine : DatabaseEngine) : Prop where
  accepted : (ns, coll) ∈ engine.collections -> forall name range,
    QueryPlanner.plan filter (managerOf engine.indexes (ns, coll)) = .indexRangeScan name range ->
    range.rangePanic = none
  responds : forall sort limit offset, Sliceable P limit offset ->
    (Responds (executeFind P ns coll filter sort limit offset engine) <->
      Responds (executeFind P ns coll filter sort limit offset (withoutIndexes engine (ns, coll))))

/-- A BETWEEN that is answered by an ordered index has its bounds in order. -/
def BetweenInOrder (ns coll : String) (filter : Option Expr) (engine : DatabaseEngine) : Prop :=
  forall field min max index, filter = some (.between (.field field) (.literal min) (.literal max)) ->
    (ns, coll) ∈ engine.collections ->
    (managerOf engine.indexes (ns, coll)).findIndexForField field = some index ->
    index.kind = .ordered -> min.cmp max ≠ .gt

/-! ## Ranges -/

theorem comparisonRange_accepted {op : BinaryOp} {literal : Value} {range : IndexRange}
    (isRange : comparisonRange op literal = some range) : range.rangePanic = none := by
  cases op <;> cases isRange <;> rfl

theorem between_accepted_iff (min max : Value) :
    (IndexRange.betweenInclusive min max).rangePanic = none <-> min.cmp max ≠ .gt := by
  cases order : min.cmp max <;>
    simp [IndexRange.betweenInclusive, IndexRange.rangePanic, order]

/-- A planned range comes from an ordered index on the field. -/
theorem planRange_eq_scan {manager : IndexManager} {field name : String}
    {asked range : IndexRange}
    (planned : QueryPlanner.planRange manager field asked = .indexRangeScan name range) :
    asked = range ∧ Exists fun index =>
      manager.findIndexForField field = some index ∧ index.kind = .ordered := by
  rw [QueryPlanner.planRange] at planned
  split at planned
  · rename_i index found
    split at planned
    · rename_i isOrdered
      cases planned
      refine ⟨rfl, index, found, ?_⟩
      cases isKind : index.kind with
      | hash =>
          rw [isKind] at isOrdered
          cases isOrdered
      | ordered => rfl
    · cases planned
  · cases planned

theorem planLookup_ne_scan {manager : IndexManager} {field name : String} {key : Value}
    {range : IndexRange} : QueryPlanner.planLookup manager field key ≠ .indexRangeScan name range := by
  rw [QueryPlanner.planLookup]
  split
  · exact fun isScan => QueryPlan.noConfusion isScan
  · exact fun isScan => QueryPlan.noConfusion isScan

theorem planRange_between {manager : IndexManager} {field : String} {index : SecondaryIndex}
    (found : manager.findIndexForField field = some index) (isOrdered : index.kind = .ordered)
    (range : IndexRange) :
    QueryPlanner.planRange manager field range = .indexRangeScan index.name range := by
  simp only [QueryPlanner.planRange, found, isOrdered, IndexKind.indexType, if_true]

/-- The planned range is accepted exactly if a BETWEEN has its bounds in order. -/
theorem planned_accepted_iff {ns coll : String} {filter : Option Expr} {engine : DatabaseEngine} :
    ((ns, coll) ∈ engine.collections -> forall name range,
      QueryPlanner.plan filter (managerOf engine.indexes (ns, coll)) = .indexRangeScan name range ->
      range.rangePanic = none) <-> BetweenInOrder ns coll filter engine := by
  constructor
  · rintro accepted field min max index rfl stored found isOrdered
    rw [← between_accepted_iff]
    exact accepted stored index.name _ (planRange_between found isOrdered _)
  · intro inOrder stored name range planned
    fun_cases QueryPlanner.plan filter (managerOf engine.indexes (ns, coll)) with
    | case1 field key => exact absurd planned planLookup_ne_scan
    | case2 key field => exact absurd planned planLookup_ne_scan
    | case3 op field literal notEq asked isRange =>
        simp only [QueryPlanner.plan, isRange] at planned
        rw [← (planRange_eq_scan planned).1]
        exact comparisonRange_accepted isRange
    | case4 op field literal notEq noRange =>
        simp only [QueryPlanner.plan, noRange] at planned
        cases planned
    | case5 field min max =>
        rcases planRange_eq_scan planned with ⟨rfl, index, found, isOrdered⟩
        rw [between_accepted_iff]
        exact inOrder field min max index rfl stored found isOrdered
    | case6 =>
        rename_i notLookup notSwapped notComparison notBetween
        rw [QueryPlanner.plan.eq_5 filter _ notLookup notSwapped notComparison notBetween] at planned
        cases planned

/-! ## Responses -/

/-- A filter that is planned is a test of the document. -/
theorem planned_total (P : Platform) {filter : Option Expr} {manager : IndexManager}
    (planned : QueryPlanner.plan filter manager ≠ .seqScan) :
    Exists fun test : Document -> Bool =>
      forall doc, Evaluator.matchesFilter P filter doc = .ok (test doc) := by
  fun_cases QueryPlanner.plan filter manager with
  | case1 field key => exact ⟨_, fun doc => matchesFilter_bool rfl⟩
  | case2 key field => exact ⟨_, fun doc => matchesFilter_bool rfl⟩
  | case3 op field literal notEq range isRange =>
      exact ⟨_, fun doc => matchesFilter_bool (eval_comparison isRange P doc field)⟩
  | case4 op field literal notEq noRange =>
      simp only [QueryPlanner.plan, noRange, ne_eq, not_true_eq_false] at planned
  | case5 field min max => exact ⟨_, fun doc => matchesFilter_bool rfl⟩
  | case6 =>
      rename_i notLookup notSwapped notComparison notBetween
      exact absurd (QueryPlanner.plan.eq_5 filter manager notLookup notSwapped notComparison
        notBetween) planned

/-- Candidates of an accepted plan are always found. -/
theorem candidateIds_ok {store : DocumentStore} {manager : IndexManager} {filter : Option Expr}
    (accepted : forall name range,
      QueryPlanner.plan filter manager = .indexRangeScan name range -> range.rangePanic = none) :
    Exists fun ids => candidateIds store manager filter = .ok ids := by
  rw [candidateIds]
  split
  · split <;> exact ⟨_, rfl⟩
  · rename_i name range planned
    split
    · rename_i index _
      cases isKind : index.kind with
      | hash =>
          simp only [SecondaryIndex.scan, isKind]
          exact ⟨_, rfl⟩
      | ordered =>
          rw [SecondaryIndex.scan_ordered isKind (.inl (accepted name range planned))]
          exact ⟨_, rfl⟩
    · exact ⟨_, rfl⟩
  · exact ⟨_, rfl⟩

/-- With an accepted plan the selection ends as it does without indexes. -/
theorem selectDocuments_ok_iff {P : Platform} {store : DocumentStore} {manager : IndexManager}
    {filter : Option Expr}
    (accepted : forall name range,
      QueryPlanner.plan filter manager = .indexRangeScan name range -> range.rangePanic = none) :
    (Exists fun docs => selectDocuments P store manager filter = .ok docs) <->
      Exists fun docs => selectDocuments P store IndexManager.new filter = .ok docs := by
  by_cases isScan : QueryPlanner.plan filter manager = .seqScan
  · simp only [selectDocuments, candidateIds, isScan, plan_new]
  · rcases planned_total P isScan with ⟨test, total⟩
    have ends (other : IndexManager) (candidates : Exists fun ids =>
        candidateIds store other filter = .ok ids) :
        Exists fun docs => selectDocuments P store other filter = .ok docs := by
      rcases candidates with ⟨ids, isIds⟩
      refine ⟨(ids.filterMap store.lookup).filter test, ?_⟩
      rw [selectDocuments, isIds]
      exact filterCandidates_total (fun _ doc _ => total doc) ids
    refine iff_of_true (ends manager (candidateIds_ok accepted)) (ends _ ?_)
    exact ⟨store.keys, by rw [candidateIds, plan_new]⟩

/-- With a slice, a FIND on a stored collection responds if it selects. -/
theorem responds_iff_selects {P : Platform} {ns coll : String} {filter : Option Expr}
    {sort : Option SortClause} {limit offset : Option UInt64} {engine : DatabaseEngine}
    {store : DocumentStore} (stored : engine.collections.lookup (ns, coll) = some store)
    (sliceable : Sliceable P limit offset) :
    Responds (executeFind P ns coll filter sort limit offset engine) <->
      Exists fun docs => selectDocuments P store (managerOf engine.indexes (ns, coll)) filter =
        .ok docs := by
  simp only [executeFind, stored, Responds]
  constructor
  · rintro ⟨response, responded⟩
    rcases bind_eq_ok_iff.mp responded with ⟨docs, selected, _⟩
    exact ⟨docs, selected⟩
  · rintro ⟨docs, selected⟩
    rcases sliceable (sortDocuments sort docs) with ⟨paged, isPage⟩
    refine ⟨.records paged paged.length, ?_⟩
    rw [selected]
    change (page P limit offset (sortDocuments sort docs) >>= _) = _
    rw [isPage]
    rfl

/-- In every state of the engine a FIND is executable exactly if a BETWEEN that an
ordered index answers has its bounds in order.  Executable means that the B-tree accepts
the range of the plan, and that the FIND has a response wherever it has one without the
indexes.  -/
theorem planExecutable_iff (P : Platform) (ns coll : String) (filter : Option Expr)
    (engine : DatabaseEngine) :
    PlanExecutable P ns coll filter engine <-> BetweenInOrder ns coll filter engine := by
  rw [← planned_accepted_iff]
  constructor
  · intro executable
    exact executable.accepted
  · intro accepted
    refine ⟨accepted, fun sort limit offset sliceable => ?_⟩
    cases stored : engine.collections.lookup (ns, coll) with
    | none =>
        have unindexed : (withoutIndexes engine (ns, coll)).collections.lookup (ns, coll) = none :=
          stored
        simp only [executeFind, stored, unindexed]
    | some store =>
        have unindexed :
            (withoutIndexes engine (ns, coll)).collections.lookup (ns, coll) = some store := stored
        rw [responds_iff_selects stored sliceable, responds_iff_selects unindexed sliceable,
          managerOf_withoutIndexes]
        exact selectDocuments_ok_iff (accepted (AList.lookup_isSome.mp (by rw [stored]; rfl)))

/-- On an ordered index with one document, a BETWEEN from five to one panics;
without the index the FIND responds. -/
theorem between_reversed_panics :
    let engine := (execute pairPlatform quietMoments (.insert "users" agedDocument) "default"
      (execute pairPlatform quietMoments (.createIndex "users" "age" .ordered) "default"
        (emptyEngine 4096)).1).1
    let filter : Option Expr := some (.between (.field "age") (.literal (.int 5)) (.literal (.int 1)))
    (match executeFind pairPlatform "default" "users" filter none none none engine with
      | .error (.panic message) => message
      | _ => "") = "range start is greater than range end in BTreeMap" ∧
      ¬PlanExecutable pairPlatform "default" "users" filter engine := by
  intro engine filter
  refine ⟨by decide +kernel, fun executable => ?_⟩
  have sliceable : Sliceable pairPlatform none none := fun docs => ⟨docs, page_none _ docs⟩
  have silent : (executeFind pairPlatform "default" "users" filter none none none engine).toOption.isNone =
      true := by decide +kernel
  have responded : (executeFind pairPlatform "default" "users" filter none none none
      (withoutIndexes engine ("default", "users"))).toOption.isSome = true := by decide +kernel
  have without : Responds (executeFind pairPlatform "default" "users" filter none none none
      (withoutIndexes engine ("default", "users"))) := by
    cases outcome : executeFind pairPlatform "default" "users" filter none none none
        (withoutIndexes engine ("default", "users")) with
    | error fault =>
        rw [outcome] at responded
        cases responded
    | ok response => exact ⟨response, rfl⟩
  rcases (executable.responds none none none sliceable).mpr without with ⟨response, isOk⟩
  rw [isOk] at silent
  cases silent

end Server
end NovaDb
