import NovaDb.Server.ConcurrentIds
import NovaDb.Server.HashOrder
import NovaDb.Server.Service
import NovaDb.Server.Updates

namespace NovaDb
namespace Server

open Core Foundation Index Query Storage DatabaseEngine

/-!
# What statements mean

The collections as a partial map from places to documents, and what a statement may
answer and make of them, with no order of documents, no log and no indexes.  A
statement that is answered in full has seen and changed every document it is about;
one that stops has changed some of them.  The engine executes every statement in
agreement with its meaning.
-/

/-! ## The documents of a collection -/

/-- The documents of the collection that the filter accepts, each once. -/
def Selects (P : Platform) (filter : Option Expr) (contents : Contents) (key : CollectionKey)
    (docs : List Document) : Prop :=
  Exists fun ids : List DocumentId => ids.Nodup ∧
    (forall id, id ∈ ids <->
      Exists fun doc => contents (key, id) = some doc ∧ accepts P filter doc = true) ∧
    (docs.map some).Perm (ids.map fun id => contents (key, id))

/-- The filter fails on none of the documents of the collection. -/
def Total (P : Platform) (filter : Option Expr) (contents : Contents) (key : CollectionKey) : Prop :=
  forall id doc, contents (key, id) = some doc ->
    Evaluator.matchesFilter P filter doc = .ok (accepts P filter doc)

/-- The filter fails so on a document of the collection. -/
def FailsOn (P : Platform) (filter : Option Expr) (contents : Contents) (key : CollectionKey)
    (fault : Fault) : Prop :=
  Exists fun id => Exists fun doc => contents (key, id) = some doc ∧
    Evaluator.matchesFilter P filter doc = .error fault

/-- Some documents of the collection that the filter accepts have become something
else. -/
def RewritesSome (P : Platform) (filter : Option Expr) (key : CollectionKey)
    (becomes : Document -> Option Document -> Prop) (contents next : Contents) : Prop :=
  forall place, next place = contents place ∨
    place.1 = key ∧ Exists fun doc => contents place = some doc ∧ accepts P filter doc = true ∧
      becomes doc (next place)

/-- All documents of the collection that the filter accepts have, and no others. -/
def RewritesAll (P : Platform) (filter : Option Expr) (key : CollectionKey)
    (becomes : Document -> Option Document -> Prop) (contents next : Contents) : Prop :=
  RewritesSome P filter key becomes contents next ∧
    forall id doc, contents (key, id) = some doc -> accepts P filter doc = true ->
      becomes doc (next (key, id))

/-- What an UPDATE makes of a document, also when an assignment fails. -/
def Assigned (P : Platform) (assignments : List Assignment) (doc : Document)
    (after : Option Document) : Prop :=
  Exists fun clock => after = some (Evaluator.applyAssignments P clock doc assignments).1

/-- What it makes of a document when all assignments succeed. -/
def AssignedAll (P : Platform) (assignments : List Assignment) (doc : Document)
    (after : Option Document) : Prop :=
  Exists fun clock => Exists fun revised => after = some revised ∧
    Evaluator.applyAssignments P clock doc assignments = (revised, .ok ())

/-- A removed document. -/
def Gone (_doc : Document) (after : Option Document) : Prop :=
  after = none

/-! ## Statements -/

/-- The statements that neither read nor write documents. -/
def Auxiliary : Statement -> Prop
  | .createIndex _ _ _ | .dropIndex _ _ | .watch _ _ | .begin | .commit | .rollback => True
  | _ => False

/-- What a statement in a namespace may answer, and what it makes of the contents.  It
says nothing of the indexes, the log and the order in which stores iterate; where the
order decides, any of the answers is meant. -/
inductive Means (P : Platform) (contents : Contents) :
    String × Statement -> Outcome ResponsePayload -> Contents -> Prop where
  | inserted {ns coll : String} {doc : Document} (absent : contents ((ns, coll), doc.id) = none) :
      Means P contents (ns, .insert coll doc) (.ok (.records [doc] 1))
        (Function.update contents ((ns, coll), doc.id) (some doc))
  | duplicate {ns coll : String} {doc : Document}
      (present : (contents ((ns, coll), doc.id)).isSome = true) :
      Means P contents (ns, .insert coll doc) (.error (.error (duplicateError coll doc.id))) contents
  | unlogged {ns coll : String} {doc : Document} {moment : Moment} {wal next : WriteAheadLog}
      {stop : Stop} (absent : contents ((ns, coll), doc.id) = none)
      (fails : logInsert P moment ns coll doc wal = (next, .error stop)) :
      Means P contents (ns, .insert coll doc) (.error stop.fault) contents
  | updated {ns coll : String} {assignments : List Assignment} {filter : Option Expr}
      {docs : List Document} {next : Contents} (total : Total P filter contents (ns, coll))
      (selects : Selects P filter contents (ns, coll) docs)
      (rewrites : RewritesAll P filter (ns, coll) (AssignedAll P assignments) contents next) :
      Means P contents (ns, .update coll assignments filter)
        (.ok (.success ("Updated " ++ toString docs.length ++ " document(s)") docs.length)) next
  | updateStopped {ns coll : String} {assignments : List Assignment} {filter : Option Expr}
      {fault : Fault} {next : Contents}
      (rewrites : RewritesSome P filter (ns, coll) (Assigned P assignments) contents next) :
      Means P contents (ns, .update coll assignments filter) (.error fault) next
  | removed {ns coll : String} {filter : Option Expr} {docs : List Document} {next : Contents}
      (selects : Selects P filter contents (ns, coll) docs)
      (rewrites : RewritesAll P filter (ns, coll) Gone contents next) :
      Means P contents (ns, .remove coll filter)
        (.ok (.success ("Removed " ++ toString docs.length ++ " document(s)") docs.length)) next
  | removeStopped {ns coll : String} {filter : Option Expr} {fault : Fault} {next : Contents}
      (rewrites : RewritesSome P filter (ns, coll) Gone contents next) :
      Means P contents (ns, .remove coll filter) (.error fault) next
  | counted {ns coll : String} {filter : Option Expr} {docs : List Document}
      (total : Total P filter contents (ns, coll))
      (selects : Selects P filter contents (ns, coll) docs) :
      Means P contents (ns, .count coll filter) (.ok (.count docs.length)) contents
  | uncounted {ns coll : String} {filter : Option Expr} {fault : Fault}
      (fails : FailsOn P filter contents (ns, coll) fault) :
      Means P contents (ns, .count coll filter) (.error fault) contents
  | existing {ns coll : String} {filter : Option Expr} {id : DocumentId} {doc : Document}
      (stored : contents ((ns, coll), id) = some doc) (accepted : accepts P filter doc = true) :
      Means P contents (ns, .exists coll filter) (.ok (.exists true)) contents
  | missing {ns coll : String} {filter : Option Expr} (total : Total P filter contents (ns, coll))
      (selects : Selects P filter contents (ns, coll) []) :
      Means P contents (ns, .exists coll filter) (.ok (.exists false)) contents
  | unanswered {ns coll : String} {filter : Option Expr} {fault : Fault}
      (fails : FailsOn P filter contents (ns, coll) fault) :
      Means P contents (ns, .exists coll filter) (.error fault) contents
  | found {ns coll : String} {filter : Option Expr} {sort : Option SortClause}
      {limit offset : Option UInt64} {docs paged : List Document}
      (total : Total P filter contents (ns, coll))
      (selects : Selects P filter contents (ns, coll) docs)
      (isPage : page P limit offset (sortDocuments sort docs) = .ok paged) :
      Means P contents (ns, .find coll filter sort limit offset)
        (.ok (.records paged paged.length)) contents
  | unpaged {ns coll : String} {filter : Option Expr} {sort : Option SortClause}
      {limit offset : Option UInt64} {docs : List Document} {fault : Fault}
      (selects : Selects P filter contents (ns, coll) docs)
      (fails : page P limit offset (sortDocuments sort docs) = .error fault) :
      Means P contents (ns, .find coll filter sort limit offset) (.error fault) contents
  | unfound {ns coll : String} {filter : Option Expr} {sort : Option SortClause}
      {limit offset : Option UInt64} {fault : Fault}
      (fails : FailsOn P filter contents (ns, coll) fault) :
      Means P contents (ns, .find coll filter sort limit offset) (.error fault) contents
  | auxiliary {ns : String} {statement : Statement} {answer : Outcome ResponsePayload}
      (isAuxiliary : Auxiliary statement) : Means P contents (ns, statement) answer contents

/-! ## The store of a collection -/

section Stores

variable {P : Platform} {filter : Option Expr} {collections : Collections} {key : CollectionKey}

theorem contentsOf_entry {entry : Sigma fun _ : DocumentId => Document}
    (member : entry ∈ (storeOf collections key).entries) :
    contentsOf collections (key, entry.1) = some entry.2 :=
  AList.mem_lookup_iff.mpr member

theorem stored_document {id : DocumentId} {doc : Document}
    (stored : contentsOf collections (key, id) = some doc) :
    doc ∈ documents (storeOf collections key) :=
  mem_documents.mpr ⟨id, stored⟩

theorem total_of_resolves (resolves : Resolves P filter (documents (storeOf collections key))) :
    Total P filter (contentsOf collections) key :=
  fun _ doc stored => resolves doc (stored_document stored)

theorem failsOn_of_document {doc : Document} {fault : Fault}
    (member : doc ∈ documents (storeOf collections key))
    (fails : Evaluator.matchesFilter P filter doc = .error fault) :
    FailsOn P filter (contentsOf collections) key fault := by
  rcases mem_documents.mp member with ⟨id, stored⟩
  exact ⟨id, doc, stored, fails⟩

/-- The accepted documents of a store, in any order. -/
theorem selects_perm {docs : List Document}
    (permuted : docs.Perm ((documents (storeOf collections key)).filter (accepts P filter))) :
    Selects P filter (contentsOf collections) key docs := by
  refine ⟨_, accepted_ids_nodup P filter (storeOf collections key),
    mem_accepted_ids P filter (storeOf collections key), ?_⟩
  have inStore : (((storeOf collections key).entries.filter fun entry =>
        accepts P filter entry.2).map Sigma.fst).map (fun id => contentsOf collections (key, id)) =
      ((documents (storeOf collections key)).filter (accepts P filter)).map some := by
    rw [documents, List.filter_map, List.map_map, List.map_map]
    refine List.map_congr_left ?_
    intro entry member
    exact contentsOf_entry (List.mem_filter.mp member).1
  rw [inStore]
  exact permuted.map some

theorem selects_store :
    Selects P filter (contentsOf collections) key
      ((documents (storeOf collections key)).filter (accepts P filter)) :=
  selects_perm (List.Perm.refl _)

/-- A list of ids that are those of the accepted documents has their number. -/
theorem Selects.length_eq {contents : Contents} {docs : List Document}
    (selects : Selects P filter contents key docs) {ids : List DocumentId} (distinct : ids.Nodup)
    (exactly : forall id, id ∈ ids <->
      Exists fun doc => contents (key, id) = some doc ∧ accepts P filter doc = true) :
    docs.length = ids.length := by
  rcases selects with ⟨selected, nodup, members, permuted⟩
  have same : selected.Perm ids := by
    refine (List.perm_ext_iff_of_nodup nodup distinct).mpr ?_
    intro id
    exact (members id).trans (exactly id).symm
  have lengths := permuted.length_eq
  rw [List.length_map, List.length_map] at lengths
  exact lengths.trans same.length_eq

end Stores

/-! ## Reads -/

section Reads

variable {P : Platform} {filter : Option Expr} {ns coll : String} {engine : DatabaseEngine}

theorem resolves_of_faultless {docs : List Document}
    (faultless : docs.findSome? (faultOf P filter) = none) : Resolves P filter docs := by
  intro doc member
  have noFault := List.findSome?_eq_none_iff.mp faultless doc member
  unfold faultOf at noFault
  cases answers : Evaluator.matchesFilter P filter doc with
  | error fault =>
      rw [answers] at noFault
      cases noFault
  | ok matched => rw [accepts_of_ok answers]

theorem failsOn_of_fault {collections : Collections} {key : CollectionKey} {docs : List Document}
    {fault : Fault} (inStore : forall doc, doc ∈ docs -> doc ∈ documents (storeOf collections key))
    (isFault : docs.findSome? (faultOf P filter) = some fault) :
    FailsOn P filter (contentsOf collections) key fault := by
  rcases List.exists_of_findSome?_eq_some isFault with ⟨doc, member, fails⟩
  refine failsOn_of_document (inStore doc member) ?_
  unfold faultOf at fails
  cases answers : Evaluator.matchesFilter P filter doc with
  | error _ =>
      rw [answers] at fails
      injection fails with same
      rw [same]
  | ok _ =>
      rw [answers] at fails
      cases fails

theorem count_means (ns coll : String) (filter : Option Expr) (engine : DatabaseEngine) :
    Means P (contentsOf engine.collections) (ns, .count coll filter)
      (executeCount P ns coll filter engine) (contentsOf engine.collections) := by
  rw [executeCount, countMatches_eq]
  cases isFault : (documents (storeOf engine.collections (ns, coll))).findSome? (faultOf P filter) with
  | some fault => exact .uncounted (failsOn_of_fault (fun _ member => member) isFault)
  | none =>
      change Means P _ _ (.ok (.count (List.countP _ _))) _
      rw [List.countP_eq_length_filter]
      exact .counted (total_of_resolves (resolves_of_faultless isFault)) selects_store

theorem exists_means (ns coll : String) (filter : Option Expr) (engine : DatabaseEngine) :
    Means P (contentsOf engine.collections) (ns, .exists coll filter)
      (executeExists P ns coll filter engine) (contentsOf engine.collections) := by
  rw [executeExists, existsMatch_eq]
  cases isEnd : (documents (storeOf engine.collections (ns, coll))).findSome? (existsEnd P filter) with
  | some answer =>
      rcases List.exists_of_findSome?_eq_some isEnd with ⟨doc, member, ends⟩
      rcases mem_documents.mp member with ⟨id, stored⟩
      unfold existsEnd at ends
      cases answers : Evaluator.matchesFilter P filter doc with
      | error fault =>
          rw [answers] at ends
          cases ends
          exact .unanswered ⟨id, doc, stored, answers⟩
      | ok matched =>
          rw [answers] at ends
          cases matched with
          | true =>
              cases ends
              exact .existing stored (accepts_of_ok answers)
          | false => cases ends
  | none =>
      have rejected : forall doc, doc ∈ documents (storeOf engine.collections (ns, coll)) ->
          Evaluator.matchesFilter P filter doc = .ok false := by
        intro doc member
        have noEnd := List.findSome?_eq_none_iff.mp isEnd doc member
        unfold existsEnd at noEnd
        cases answers : Evaluator.matchesFilter P filter doc with
        | error fault =>
            rw [answers] at noEnd
            cases noEnd
        | ok matched =>
            cases matched with
            | false => rfl
            | true =>
                rw [answers] at noEnd
                cases noEnd
      have none : (documents (storeOf engine.collections (ns, coll))).filter (accepts P filter) = [] := by
        refine List.filter_eq_nil_iff.mpr ?_
        intro doc member accepted
        rw [accepts_of_ok (rejected doc member)] at accepted
        cases accepted
      refine .missing (total_of_resolves ?_) (none ▸ selects_store)
      intro doc member
      rw [accepts_of_ok (rejected doc member)]
      exact rejected doc member

/-- The FIND loses no document by its plan. -/
def PlansFaithfully (P : Platform) (ns coll : String) (filter : Option Expr)
    (engine : DatabaseEngine) : Prop :=
  SameSelection
    (selectDocuments P (storeOf engine.collections (ns, coll))
      (managerOf engine.indexes (ns, coll)) filter)
    (selectDocuments P (storeOf engine.collections (ns, coll)) IndexManager.new filter)

theorem filterMap_keys (store : DocumentStore) :
    store.keys.filterMap store.lookup = documents store := by
  have inStore : store.entries.map (fun entry => store.lookup entry.1) =
      store.entries.map (fun entry => some entry.2) := by
    refine List.map_congr_left ?_
    intro entry member
    exact AList.mem_lookup_iff.mpr member
  have keys : store.keys = store.entries.map Sigma.fst := rfl
  rw [keys, List.filterMap_map, documents, ← List.filterMap_eq_map]
  refine List.filterMap_congr ?_
  intro entry member
  exact AList.mem_lookup_iff.mpr member

/-- What a FIND selects by a scan. -/
theorem selectDocuments_new (store : DocumentStore) :
    selectDocuments P store IndexManager.new filter =
      match (documents store).findSome? (faultOf P filter) with
      | some fault => .error fault
      | none => .ok ((documents store).filter (accepts P filter)) := by
  have scanned : candidateIds store IndexManager.new filter = .ok store.keys := by
    rw [candidateIds, plan_new]
  change (candidateIds store IndexManager.new filter >>= filterCandidates P filter store) = _
  rw [scanned, ← filterMap_keys store]
  exact filterCandidates_eq store store.keys

theorem find_means {sort : Option SortClause} {limit offset : Option UInt64}
    (plans : PlansFaithfully P ns coll filter engine) :
    Means P (contentsOf engine.collections) (ns, .find coll filter sort limit offset)
      (executeFind P ns coll filter sort limit offset engine) (contentsOf engine.collections) := by
  unfold PlansFaithfully at plans
  rw [executeFind]
  cases isStore : engine.collections.lookup (ns, coll) with
  | none =>
      have empty : storeOf engine.collections (ns, coll) = ∅ := by rw [storeOf, isStore]; rfl
      have noDocuments : documents (storeOf engine.collections (ns, coll)) = [] := by
        rw [empty]; rfl
      have paged : page P limit offset (sortDocuments sort []) = .ok [] := by
        cases sort <;> simp [sortDocuments, page]
      refine @Means.found P _ ns coll filter sort limit offset [] [] (total_of_resolves ?_)
        (selects_perm ?_) paged
      · intro doc member
        rw [noDocuments] at member
        cases member
      · rw [noDocuments]
        exact List.Perm.refl _
  | some store =>
      have same : storeOf engine.collections (ns, coll) = store := by rw [storeOf, isStore]; rfl
      rw [same, selectDocuments_new] at plans
      cases isFault : (documents store).findSome? (faultOf P filter) with
      | some fault =>
          rw [isFault] at plans
          cases selected : selectDocuments P store (managerOf engine.indexes (ns, coll)) filter with
          | ok docs =>
              rw [selected] at plans
              exact plans.elim
          | error other =>
              rw [selected] at plans
              cases plans
              change Means P _ _ (selectDocuments _ _ _ _ >>= _) _
              rw [selected]
              exact .unfound (failsOn_of_fault (fun _ member => same ▸ member) isFault)
      | none =>
          rw [isFault] at plans
          cases selected : selectDocuments P store (managerOf engine.indexes (ns, coll)) filter with
          | error other =>
              rw [selected] at plans
              exact plans.elim
          | ok docs =>
              rw [selected] at plans
              have selects : Selects P filter (contentsOf engine.collections) (ns, coll) docs :=
                selects_perm (same ▸ plans)
              change Means P _ _ (selectDocuments _ _ _ _ >>= _) _
              rw [selected]
              change Means P _ _ (page P limit offset (sortDocuments sort docs) >>= _) _
              cases isPage : page P limit offset (sortDocuments sort docs) with
              | error fault => exact .unpaged selects isPage
              | ok paged =>
                  exact .found (total_of_resolves (same ▸ resolves_of_faultless isFault)) selects
                    isPage

end Reads

/-! ## Writes -/

section Writes

variable {P : Platform} {filter : Option Expr} {ns coll : String} {engine next : DatabaseEngine}
  {moments : Nat -> Moment} {turn : Nat} {assignments : List Assignment} {changes : List Change}
  {stop : Stop}

/-- What one document of an UPDATE is afterwards, however it ends. -/
theorem updateOne_rewrites {moment : Moment} {entry : Sigma fun _ : DocumentId => Document}
    {state final : Section} {outcome : Except Stop (Option Change)}
    (stored : state.store.lookup entry.1 = some entry.2)
    (ran : updateOne P ns coll assignments filter moment entry state = (final, outcome)) :
    final.store.lookup entry.1 = state.store.lookup entry.1 ∨
      accepts P filter entry.2 = true ∧
        Assigned P assignments entry.2 (final.store.lookup entry.1) := by
  have member : entry.1 ∈ state.store := AList.lookup_isSome.mp (by rw [stored]; rfl)
  have replaced : forall {after : Document} {result : Except Fault Unit},
      Evaluator.applyAssignments P moment.clock entry.2 assignments = (after, result) ->
        Assigned P assignments entry.2 ((state.store.replace entry.1 after).lookup entry.1) := by
    intro after result assigns
    refine ⟨moment.clock, ?_⟩
    rw [ValueMap.lookup_replace after member, assigns]
  cases updateOne_exit ran with
  | unfiltered => exact Or.inl rfl
  | passedOver => exact Or.inl rfl
  | unassigned matched assigns => exact Or.inr ⟨accepts_of_ok matched, replaced assigns⟩
  | unserialized matched assigns => exact Or.inr ⟨accepts_of_ok matched, replaced assigns⟩
  | unlogged matched assigns => exact Or.inr ⟨accepts_of_ok matched, replaced assigns⟩
  | logged matched assigns => exact Or.inr ⟨accepts_of_ok matched, replaced assigns⟩

/-- The induction is on the documents still to come, each of which is found as it was
stored. -/
theorem updateOnes_rewrite {entries : List (Sigma fun _ : DocumentId => Document)}
    {state final : Section} {outcome : Except Stop (List Change)} (distinct : entries.NodupKeys)
    (stored : forall entry, entry ∈ entries -> state.store.lookup entry.1 = some entry.2)
    (ran : runSection (updateOne P ns coll assignments filter) moments turn entries state =
      (final, outcome)) (id : DocumentId) :
    final.store.lookup id = state.store.lookup id ∨
      Exists fun doc => state.store.lookup id = some doc ∧ accepts P filter doc = true ∧
        Assigned P assignments doc (final.store.lookup id) := by
  induction entries generalizing turn state outcome with
  | nil =>
      cases ran
      exact Or.inl rfl
  | cons entry rest ih =>
      rcases List.nodupKeys_cons.mp distinct with ⟨fresh, restDistinct⟩
      have isStored := stored entry List.mem_cons_self
      have framed := updateOne_frame P ns coll assignments filter (moments turn) entry state
      rcases runSection_cons ran with ⟨stop, first, _⟩ | ⟨next, change, others, first, later, _⟩
      · rw [first] at framed
        by_cases same : id = entry.1
        · subst same
          rcases updateOne_rewrites isStored first with kept | rewritten
          · exact Or.inl kept
          · exact Or.inr ⟨entry.2, isStored, rewritten⟩
        · exact Or.inl (framed id same)
      · rw [first] at framed
        have untouched : final.store.lookup entry.1 = next.store.lookup entry.1 :=
          runSection_frame (updateOne_frame P ns coll assignments filter) fresh later
        by_cases same : id = entry.1
        · subst same
          rw [untouched]
          rcases updateOne_rewrites isStored first with kept | rewritten
          · exact Or.inl kept
          · exact Or.inr ⟨entry.2, isStored, rewritten⟩
        · have stillStored : forall other, other ∈ rest ->
              next.store.lookup other.1 = some other.2 := by
            intro other member
            have different : other.1 ≠ entry.1 := by
              intro same
              exact fresh (List.mem_map.mpr ⟨other, member, same⟩)
            exact (framed other.1 different).trans (stored other (List.mem_cons_of_mem entry member))
          rw [← framed id same]
          exact ih restDistinct stillStored later

/-- An UPDATE rewrites documents of its collection that its filter accepts, also when
it stops. -/
theorem updateSection_rewrites {outcome : Except Stop (List Change)}
    (ran : updateSection P moments ns coll assignments filter engine = (next, outcome)) :
    RewritesSome P filter (ns, coll) (Assigned P assignments) (contentsOf engine.collections)
      (contentsOf next.collections) := by
  rcases updateSection_loop ran with ⟨final, loop, rfl⟩
  intro place
  rw [leave_contents]
  by_cases inCollection : place.1 = (ns, coll)
  · rw [if_pos inCollection]
    have rewritten := updateOnes_rewrite (storeOf engine.collections (ns, coll)).nodupKeys
      (fun entry member => AList.mem_lookup_iff.mpr member) loop place.2
    have same : (engine.enter (ns, coll)).store.lookup place.2 =
        contentsOf engine.collections place := by
      rw [contentsOf, inCollection]
      rfl
    rw [same] at rewritten
    exact rewritten.imp_right fun changed => ⟨inCollection, changed⟩
  · rw [if_neg inCollection]
    exact Or.inl rfl

/-- A loop that runs to its end has met no document on which the filter fails. -/
theorem updateOnes_total {entries : List (Sigma fun _ : DocumentId => Document)}
    {state final : Section}
    (ran : runSection (updateOne P ns coll assignments filter) moments turn entries state =
      (final, .ok changes)) : Resolves P filter (entries.map Sigma.snd) := by
  induction entries generalizing turn state changes with
  | nil => exact fun _ => nofun
  | cons entry rest ih =>
      rcases runSection_cons_ok ran with ⟨next, change, others, first, later⟩
      refine resolves_cons.mpr ⟨?_, ih later⟩
      cases updateOne_exit first with
      | passedOver filtered => rw [accepts_of_ok filtered]; exact filtered
      | logged matched => rw [accepts_of_ok matched]; exact matched

/-- An UPDATE that returns has rewritten them all. -/
theorem updateSection_rewritesAll
    (ran : updateSection P moments ns coll assignments filter engine = (next, .ok changes)) :
    Total P filter (contentsOf engine.collections) (ns, coll) ∧
      (Exists fun docs => Selects P filter (contentsOf engine.collections) (ns, coll) docs ∧
        docs.length = changes.length) ∧
      RewritesAll P filter (ns, coll) (AssignedAll P assignments) (contentsOf engine.collections)
        (contentsOf next.collections) := by
  have some := updateSection_rewrites ran
  rcases updateSection_loop ran with ⟨final, loop, rfl⟩
  have updated := updateOnes_updated (storeOf engine.collections (ns, coll)).nodupKeys
    (fun entry member => AList.mem_lookup_iff.mpr member) loop
  have revised : forall id doc, contentsOf engine.collections ((ns, coll), id) = Option.some doc ->
      accepts P filter doc = true -> AssignedAll P assignments doc
        (contentsOf (engine.leave (ns, coll) final).collections ((ns, coll), id)) := by
    intro id doc stored accepted
    rcases updated.replaced ⟨id, doc⟩ (AList.mem_lookup_iff.mp stored) accepted with
      ⟨position, after, assigns, isFinal⟩
    refine ⟨(moments position).clock, after, ?_, assigns⟩
    rw [leave_contents, if_pos rfl]
    exact isFinal
  refine ⟨?_, ⟨_, selects_store, ?_⟩, ?_, revised⟩
  · exact total_of_resolves (updateOnes_total loop)
  · rw [← @List.length_map _ _ changes Change.id, updated.ids, accepted_ids_length,
      List.countP_eq_length_filter]
  · intro place
    rcases some place with kept | ⟨inCollection, doc, stored, accepted, _⟩
    · exact Or.inl kept
    · refine Or.inr ⟨inCollection, doc, stored, accepted, ?_⟩
      rcases place with ⟨key, id⟩
      cases inCollection
      exact revised id doc stored accepted

/-- The targets of a REMOVE are the ids of the accepted documents. -/
theorem removeTargets_eq {entries : List (Sigma fun _ : DocumentId => Document)}
    {targets : List DocumentId} (isTargets : removeTargets P filter entries = .ok targets) :
    targets = (entries.filter fun entry => accepts P filter entry.2).map Sigma.fst := by
  induction entries generalizing targets with
  | nil =>
      cases isTargets
      rfl
  | cons entry rest ih =>
      rw [removeTargets] at isTargets
      split at isTargets
      · cases isTargets
      · rename_i failure fails
        have rejected : accepts P filter entry.2 = false := by rw [accepts, fails]
        rw [List.filter_cons_of_neg (by simp [rejected])]
        exact ih isTargets
      · rename_i filtered
        rw [List.filter_cons_of_neg (by simp [accepts_of_ok filtered])]
        exact ih isTargets
      · rename_i matched
        rw [List.filter_cons_of_pos (by exact accepts_of_ok matched), List.map_cons]
        cases others : removeTargets P filter rest with
        | error stop =>
            rw [others] at isTargets
            cases isTargets
        | ok list =>
            rw [others] at isTargets
            cases isTargets
            rw [ih others]

/-- A loop of a REMOVE takes out targets or leaves them, wherever it stops. -/
theorem removeOnes_rewrite {targets : List DocumentId} {state final : Section}
    {outcome : Except Stop (List Change)}
    (ran : runSection (removeOne P ns coll) moments turn targets state = (final, outcome))
    (id : DocumentId) :
    final.store.lookup id = state.store.lookup id ∨
      id ∈ targets ∧ final.store.lookup id = none := by
  refine @runSection_keeps _ (removeOne P ns coll) moments turn state final
    (fun reached => reached.store.lookup id = state.store.lookup id ∨
      id ∈ targets ∧ reached.store.lookup id = none) targets ?_ outcome ran (Or.inl rfl)
  intro moment target reached isTarget before
  have erased : forall {manager : IndexManager} {wal : WriteAheadLog},
      (Section.mk (reached.store.erase target) manager wal).store.lookup id =
          state.store.lookup id ∨
        id ∈ targets ∧
          (Section.mk (reached.store.erase target) manager wal).store.lookup id = none := by
    intro manager wal
    by_cases same : id = target
    · subst same
      exact Or.inr ⟨isTarget, AList.lookup_erase id _⟩
    · rw [AList.lookup_erase_ne same]
      exact before
  cases one : removeOne P ns coll moment target reached with
  | mk after result =>
      cases removeOne_exit one with
      | absent => exact before
      | unlogged => exact erased
      | logged => exact erased

/-- A REMOVE takes out documents of its collection that its filter accepts, also when
it stops. -/
theorem removeSection_rewrites {outcome : Except Stop (List Change)}
    (ran : removeSection P moments ns coll filter engine = (next, outcome)) :
    RewritesSome P filter (ns, coll) Gone (contentsOf engine.collections)
      (contentsOf next.collections) := by
  intro place
  cases isTargets : removeTargets P filter (storeOf engine.collections (ns, coll)).entries with
  | error stop =>
      cases removeSection_unresolved isTargets ran
      rw [removeSection_unfiltered (removeTargets_error isTargets) ran]
      exact Or.inl rfl
  | ok targets =>
      rcases removeSection_loop isTargets ran with ⟨final, loop, rfl⟩
      rw [leave_contents]
      by_cases inCollection : place.1 = (ns, coll)
      · rw [if_pos inCollection]
        have same : (engine.enter (ns, coll)).store.lookup place.2 =
            contentsOf engine.collections place := by
          rw [contentsOf, inCollection]
          rfl
        rcases removeOnes_rewrite loop place.2 with kept | ⟨isTarget, gone⟩
        · exact Or.inl (kept.trans same)
        · rw [removeTargets_eq isTargets, mem_accepted_ids] at isTarget
          rcases isTarget with ⟨doc, stored, accepted⟩
          exact Or.inr ⟨inCollection, doc, same ▸ stored, accepted, gone⟩
      · rw [if_neg inCollection]
        exact Or.inl rfl

/-- A REMOVE that returns has changed the accepted documents, each once. -/
theorem removeSection_ids
    (ran : removeSection P moments ns coll filter engine = (next, .ok changes)) :
    changes.map Change.id =
      ((storeOf engine.collections (ns, coll)).entries.filter fun entry =>
        accepts P filter entry.2).map Sigma.fst := by
  cases isTargets : removeTargets P filter (storeOf engine.collections (ns, coll)).entries with
  | error stop => cases removeSection_unresolved isTargets ran
  | ok targets =>
      rcases removeSection_loop isTargets ran with ⟨final, loop, rfl⟩
      have isAccepted := removeTargets_eq isTargets
      rw [← isAccepted]
      refine removeOnes_ids ?_ ?_ loop
      · rw [isAccepted]
        exact accepted_ids_nodup P filter _
      · intro id member
        rw [isAccepted, mem_accepted_ids] at member
        rcases member with ⟨doc, stored, _⟩
        exact AList.lookup_isSome.mp (Option.isSome_iff_exists.mpr ⟨doc, stored⟩)

/-- A REMOVE that returns has taken them all out. -/
theorem removeSection_rewritesAll
    (ran : removeSection P moments ns coll filter engine = (next, .ok changes)) :
    (Exists fun docs => Selects P filter (contentsOf engine.collections) (ns, coll) docs ∧
        docs.length = changes.length) ∧
      RewritesAll P filter (ns, coll) Gone (contentsOf engine.collections)
        (contentsOf next.collections) := by
  have ids := removeSection_ids ran
  refine ⟨⟨_, selects_store, ?_⟩, removeSection_rewrites ran, ?_⟩
  · rw [← @List.length_map _ _ changes Change.id, ids, accepted_ids_length,
      List.countP_eq_length_filter]
  · intro id doc stored accepted
    have isTarget : id ∈ changes.map Change.id := by
      rw [ids, mem_accepted_ids]
      exact ⟨doc, stored, accepted⟩
    rw [Gone, removeSection_contents ran, if_pos]
    rcases List.mem_map.mp isTarget with ⟨change, member, rfl⟩
    exact List.mem_map.mpr ⟨change, member, rfl⟩

end Writes

/-! ## Statements run alone -/

section Alone

variable {P : Platform} {ns coll : String} {engine : DatabaseEngine} {moments : Nat -> Moment}

theorem isSome_of_hasDocument {doc : Document}
    (present : engine.hasDocument (ns, coll) doc.id = true) :
    (contentsOf engine.collections ((ns, coll), doc.id)).isSome = true := by
  rw [← hasDocument_present]
  exact present

theorem none_of_hasDocument {doc : Document}
    (absent : engine.hasDocument (ns, coll) doc.id = false) :
    contentsOf engine.collections ((ns, coll), doc.id) = none := by
  rw [hasDocument_present] at absent
  exact Option.isNone_iff_eq_none.mp (by rw [← Option.not_isSome, absent]; rfl)

theorem update_means {assignments : List Assignment} {filter : Option Expr}
    {entered : DatabaseEngine} {changes : List Change}
    (ran : updateSection P moments ns coll assignments filter engine = (entered, .ok changes)) :
    Means P (contentsOf engine.collections) (ns, .update coll assignments filter)
      (.ok (.success ("Updated " ++ toString changes.length ++ " document(s)") changes.length))
      (contentsOf entered.collections) := by
  rcases updateSection_rewritesAll ran with ⟨total, ⟨docs, selects, number⟩, rewrites⟩
  rw [← number]
  exact .updated total selects rewrites

theorem remove_means {filter : Option Expr} {entered : DatabaseEngine} {changes : List Change}
    (ran : removeSection P moments ns coll filter engine = (entered, .ok changes)) :
    Means P (contentsOf engine.collections) (ns, .remove coll filter)
      (.ok (.success ("Removed " ++ toString changes.length ++ " document(s)") changes.length))
      (contentsOf entered.collections) := by
  rcases removeSection_rewritesAll ran with ⟨⟨docs, selects, number⟩, rewrites⟩
  rw [← number]
  exact .removed selects rewrites

/-- A statement that does not write documents leaves them, and publishes nothing. -/
theorem single_state {statement : Statement} (single : requestOf ns statement = none) :
    (execute P moments statement ns engine).1.collections = engine.collections ∧
      (execute P moments statement ns engine).1.events = engine.events ∧
      (execute P moments statement ns engine).1.wal = engine.wal := by
  cases statement with
  | insert | update | remove => cases single
  | dropIndex coll field =>
      simp only [execute, executeDropIndex]
      split <;> exact ⟨rfl, rfl, rfl⟩
  | find | createIndex | watch | count | «exists» | begin | commit | rollback =>
      exact ⟨rfl, rfl, rfl⟩

/-- A statement that does not write documents, in one step. -/
theorem single_means {statement : Statement} (single : requestOf ns statement = none)
    (plans : forall coll filter sort limit offset, statement = .find coll filter sort limit offset ->
      PlansFaithfully P ns coll filter engine) :
    Means P (contentsOf engine.collections) (ns, statement)
      (execute P moments statement ns engine).2
      (contentsOf (execute P moments statement ns engine).1.collections) := by
  rw [(single_state single).1]
  cases statement with
  | insert | update | remove => cases single
  | count coll filter => exact count_means ns coll filter engine
  | «exists» coll filter => exact exists_means ns coll filter engine
  | find coll filter sort limit offset => exact find_means (plans coll filter sort limit offset rfl)
  | createIndex | dropIndex | watch | begin | commit | rollback => exact .auxiliary trivial

end Alone

end Server
end NovaDb
