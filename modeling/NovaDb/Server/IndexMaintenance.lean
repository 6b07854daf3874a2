import NovaDb.Server.IndexScan

namespace NovaDb
namespace Server

open Core Foundation Index Storage

/-!
# Indexes kept up to date

Notifying the index manager of every change keeps each index at the contents it
would have if it were built from the store now.  The invariant is `AllReflect`: every
index is in order and `Reflects` the store.  It holds of rebuilt indexes and is
kept by every mirrored change.
-/

/-- One change of a store. -/
inductive StoreEdit where
  | insert (doc : Document)
  | replace (doc : Document)
  | remove (id : DocumentId)

/-- A store and the manager that is told of its changes, as the engine tells it behind
an INSERT and within an UPDATE or a REMOVE. -/
structure Mirrored where
  store : DocumentStore
  manager : IndexManager

namespace StoreEdit

/-- Make the change and notify the manager.  An insertion needs a fresh id, the
other changes a stored document. -/
def apply (mirrored : Mirrored) : StoreEdit -> Option Mirrored
  | .insert doc =>
      match mirrored.store.lookup doc.id with
      | none => some ⟨mirrored.store.insert doc.id doc, mirrored.manager.onInsert doc⟩
      | some _ => none
  | .replace doc =>
      match mirrored.store.lookup doc.id with
      | some before => some ⟨mirrored.store.insert doc.id doc, mirrored.manager.onUpdate before doc⟩
      | none => none
  | .remove id =>
      match mirrored.store.lookup id with
      | some doc => some ⟨mirrored.store.erase id, mirrored.manager.onRemove doc⟩
      | none => none

/-- The document the change brings holds no floats. -/
def BringsFloatFree : StoreEdit -> Prop
  | .insert doc | .replace doc => Value.floatFreeMembers doc.fields = true
  | .remove _ => True

end StoreEdit

/-- Every document is stored under its id and holds no floats. -/
structure TidyStore (store : DocumentStore) : Prop where
  keyed : Keyed store
  free : EveryDocument store (fun doc => Value.floatFreeMembers doc.fields = true)

/-- Every index of the manager is in order and reflects the store. -/
def AllReflect (store : DocumentStore) (manager : IndexManager) : Prop :=
  forall name index, manager.get name = some index -> index.WellFormed ∧ Reflects store index

/-- All that a run keeps. -/
structure Maintained (mirrored : Mirrored) : Prop where
  tidy : TidyStore mirrored.store
  allReflect : AllReflect mirrored.store mirrored.manager

theorem TidyStore.insert {store : DocumentStore} (tidy : TidyStore store) {doc : Document}
    (free : Value.floatFreeMembers doc.fields = true) : TidyStore (store.insert doc.id doc) := by
  constructor
  · intro id other found
    by_cases same : id = doc.id
    · subst same
      rw [AList.lookup_insert] at found
      rw [← Option.some.inj found]
    · rw [AList.lookup_insert_ne same] at found
      exact tidy.keyed id other found
  · intro id other found
    by_cases same : id = doc.id
    · subst same
      rw [AList.lookup_insert] at found
      rw [← Option.some.inj found]
      exact free
    · rw [AList.lookup_insert_ne same] at found
      exact tidy.free id other found

theorem TidyStore.erase {store : DocumentStore} (tidy : TidyStore store) (id : DocumentId) :
    TidyStore (store.erase id) := by
  have kept : forall other doc, (store.erase id).lookup other = some doc ->
      store.lookup other = some doc := by
    intro other doc found
    by_cases same : other = id
    · subst same
      rw [AList.lookup_erase] at found
      cases found
    · rw [AList.lookup_erase_ne same] at found
      exact found
  exact ⟨fun other doc found => tidy.keyed other doc (kept other doc found),
    fun other doc found => tidy.free other doc (kept other doc found)⟩

/-- An index that reflects a store follows each stored document. -/
theorem Reflects.follows {store : DocumentStore} {index : SecondaryIndex}
    (reflects : Reflects store index) (keyed : Keyed store) {id : DocumentId} {doc : Document}
    (stored : store.lookup id = some doc) : index.Follows doc := by
  intro value
  rw [reflects, keyed id doc stored]
  constructor
  · rintro ⟨other, found, isValue⟩
    rw [stored] at found
    rw [Option.some.inj found]
    exact isValue
  · intro isValue
    exact ⟨doc, stored, isValue⟩

/-- Where the documents of the index look, stored documents hold no floats. -/
theorem TidyStore.indexesFloatFree {store : DocumentStore} (tidy : TidyStore store)
    {id : DocumentId} {doc : Document} (stored : store.lookup id = some doc) (field : String) :
    SecondaryIndex.IndexesFloatFree field doc :=
  fun _ found => floatFree_fieldValue (tidy.free id doc stored) found

/-- The pairs of the store after a document is stored. -/
theorem Reflects.insert {store : DocumentStore} {index changed : SecondaryIndex}
    (reflects : Reflects store index) {doc : Document} (sameField : changed.field = index.field)
    (has : forall {value id}, changed.Has value id <->
      (id ≠ doc.id ∧ index.Has value id) ∨ (doc.fieldValue index.field = some value ∧ doc.id = id)) :
    Reflects (store.insert doc.id doc) changed := by
  intro value id
  rw [has, sameField]
  by_cases same : id = doc.id
  · subst same
    rw [AList.lookup_insert]
    constructor
    · rintro (⟨different, _⟩ | ⟨found, _⟩)
      · exact absurd rfl different
      · exact ⟨doc, rfl, found⟩
    · rintro ⟨other, isDoc, found⟩
      rw [← Option.some.inj isDoc] at found
      exact Or.inr ⟨found, rfl⟩
  · rw [AList.lookup_insert_ne same, ← reflects value id]
    constructor
    · rintro (⟨_, before⟩ | ⟨_, itself⟩)
      · exact before
      · exact absurd itself.symm same
    · intro before
      exact Or.inl ⟨same, before⟩

theorem Reflects.erase {store : DocumentStore} {index changed : SecondaryIndex}
    (reflects : Reflects store index) {id : DocumentId} (sameField : changed.field = index.field)
    (has : forall {value other}, changed.Has value other <-> other ≠ id ∧ index.Has value other) :
    Reflects (store.erase id) changed := by
  intro value other
  rw [has, sameField]
  by_cases same : other = id
  · subst same
    rw [AList.lookup_erase]
    refine iff_of_false (fun both => both.1 rfl) ?_
    rintro ⟨_, found, _⟩
    cases found
  · rw [AList.lookup_erase_ne same, ← reflects value other]
    exact and_iff_right same

/-! ## One change -/

section Change

variable {store : DocumentStore} {manager : IndexManager}

theorem allReflect_onInsert (allReflect : AllReflect store manager) {doc : Document}
    (free : Value.floatFreeMembers doc.fields = true)
    (fresh : store.lookup doc.id = none) :
    AllReflect (store.insert doc.id doc) (manager.onInsert doc) := by
  intro name changed found
  rw [IndexManager.get_onInsert, Option.map_eq_some_iff] at found
  rcases found with ⟨index, isIndex, rfl⟩
  rcases allReflect name index isIndex with ⟨wellFormed, reflects⟩
  rcases SecondaryIndex.addDocument_spec wellFormed
      (fun value => floatFree_fieldValue free : SecondaryIndex.IndexesFloatFree index.field doc) with
    ⟨added, hasAdded⟩
  refine ⟨added, reflects.insert (SecondaryIndex.addDocument_field _ _) ?_⟩
  intro value id
  rw [hasAdded]
  apply or_congr_left
  refine ⟨fun before => ⟨?_, before⟩, fun both => both.2⟩
  rintro rfl
  rcases (reflects value doc.id).mp before with ⟨other, stored, _⟩
  rw [fresh] at stored
  cases stored

theorem allReflect_onUpdate (tidy : TidyStore store) (allReflect : AllReflect store manager)
    {before after : Document} (free : Value.floatFreeMembers after.fields = true)
    (stored : store.lookup after.id = some before) :
    AllReflect (store.insert after.id after) (manager.onUpdate before after) := by
  have sameId : after.id = before.id := (tidy.keyed after.id before stored).symm
  intro name changed found
  rw [IndexManager.get_onUpdate, Option.map_eq_some_iff] at found
  rcases found with ⟨index, isIndex, rfl⟩
  rcases allReflect name index isIndex with ⟨wellFormed, reflects⟩
  rcases SecondaryIndex.replaceDocument_spec wellFormed sameId (tidy.indexesFloatFree stored index.field)
      (fun value => floatFree_fieldValue free) (reflects.follows tidy.keyed stored) with
    ⟨replaced, hasReplaced⟩
  refine ⟨replaced, reflects.insert (SecondaryIndex.replaceDocument_field _ _ _) ?_⟩
  intro value id
  rw [hasReplaced, sameId]

theorem allReflect_onRemove (tidy : TidyStore store) (allReflect : AllReflect store manager)
    {id : DocumentId} {doc : Document} (stored : store.lookup id = some doc) :
    AllReflect (store.erase id) (manager.onRemove doc) := by
  have sameId : doc.id = id := tidy.keyed id doc stored
  intro name changed found
  rw [IndexManager.get_onRemove, Option.map_eq_some_iff] at found
  rcases found with ⟨index, isIndex, rfl⟩
  rcases allReflect name index isIndex with ⟨wellFormed, reflects⟩
  rcases SecondaryIndex.dropDocument_spec wellFormed (tidy.indexesFloatFree stored index.field)
      (reflects.follows tidy.keyed stored) with ⟨dropped, hasDropped⟩
  refine ⟨dropped, reflects.erase (SecondaryIndex.dropDocument_field _ _) ?_⟩
  intro value other
  rw [hasDropped, sameId]

end Change

/-- Every mirrored change keeps the indexes in step with the store. -/
theorem Maintained.apply {mirrored next : Mirrored} (maintained : Maintained mirrored)
    {edit : StoreEdit} (free : edit.BringsFloatFree) (applied : edit.apply mirrored = some next) :
    Maintained next := by
  rcases maintained with ⟨tidy, allReflect⟩
  cases edit with
  | insert doc =>
      rw [StoreEdit.apply] at applied
      split at applied
      · rename_i fresh
        cases applied
        exact ⟨tidy.insert free, allReflect_onInsert allReflect free fresh⟩
      · cases applied
  | replace doc =>
      rw [StoreEdit.apply] at applied
      split at applied
      · rename_i before stored
        cases applied
        exact ⟨tidy.insert free, allReflect_onUpdate tidy allReflect free stored⟩
      · cases applied
  | remove id =>
      rw [StoreEdit.apply] at applied
      split at applied
      · rename_i doc stored
        cases applied
        exact ⟨tidy.erase id, allReflect_onRemove tidy allReflect stored⟩
      · cases applied

/-- A whole sequence of changes. -/
def applyAll (edits : List StoreEdit) (mirrored : Mirrored) : Option Mirrored :=
  edits.foldlM StoreEdit.apply mirrored

theorem Maintained.applyAll {edits : List StoreEdit}
    (free : forall edit, edit ∈ edits -> edit.BringsFloatFree) {start final : Mirrored}
    (maintained : Maintained start) (ran : applyAll edits start = some final) :
    Maintained final := by
  induction edits generalizing start with
  | nil =>
      cases ran
      exact maintained
  | cons edit rest ih =>
      rw [Server.applyAll, List.foldlM_cons] at ran
      rcases Option.bind_eq_some_iff.mp ran with ⟨next, applied, ranRest⟩
      exact ih (fun other member => free other (List.mem_cons_of_mem edit member))
        (maintained.apply (free edit List.mem_cons_self) applied) ranRest

/-! ## Maintained and rebuilt indexes -/

/-- The pairs of the documents that have the field. -/
def indexedPairs (field : String) (docs : List Document) : List (Value × DocumentId) :=
  docs.filterMap (fun doc => (doc.fieldValue field).map (fun value => (value, doc.id)))

theorem mem_indexedPairs {field : String} {docs : List Document} {value : Value} {id : DocumentId} :
    (value, id) ∈ indexedPairs field docs <->
      Exists fun doc => doc ∈ docs ∧ doc.fieldValue field = some value ∧ doc.id = id := by
  rw [indexedPairs, List.mem_filterMap]
  constructor
  · rintro ⟨doc, member, isPair⟩
    rcases Option.map_eq_some_iff.mp isPair with ⟨_, found, same⟩
    cases same
    exact ⟨doc, member, found, rfl⟩
  · rintro ⟨doc, member, found, rfl⟩
    exact ⟨doc, member, Option.map_eq_some_iff.mpr ⟨value, found, rfl⟩⟩

theorem length_indexedPairs (field : String) (docs : List Document) :
    (indexedPairs field docs).length =
      (docs.filter (fun doc => (doc.fieldValue field).isSome)).length := by
  rw [indexedPairs, List.length_filterMap_eq_countP, List.countP_eq_length_filter]
  simp only [Option.isSome_map]

theorem indexedPairs_nodup {store : DocumentStore} (keyed : Keyed store) (field : String) :
    (indexedPairs field (documents store)).Nodup := by
  have distinct : (documents store).Pairwise (fun left right => left.id ≠ right.id) := by
    rw [documents, List.pairwise_map]
    have keys : store.entries.Pairwise (fun left right => left.1 ≠ right.1) :=
      List.nodupKeys_iff_pairwise.mp store.nodupKeys
    apply keys.imp_of_mem
    rintro ⟨left, leftDoc⟩ ⟨right, rightDoc⟩ leftIn rightIn different same
    rw [keyed left leftDoc (AList.mem_lookup_iff.mpr leftIn),
      keyed right rightDoc (AList.mem_lookup_iff.mpr rightIn)] at same
    exact different same
  rw [indexedPairs, List.Nodup, List.pairwise_filterMap]
  apply distinct.imp
  intro left right different pair isLeft other isRight same
  subst same
  rcases Option.map_eq_some_iff.mp isLeft with ⟨_, _, rfl⟩
  rcases Option.map_eq_some_iff.mp isRight with ⟨_, _, sameId⟩
  exact different (Prod.mk.inj sameId).2.symm

/-- An index that reflects a store has one pair for each document with the field. -/
theorem Reflects.pairs_perm {store : DocumentStore} {index : SecondaryIndex}
    (reflects : Reflects store index) (wellFormed : index.WellFormed) (keyed : Keyed store) :
    index.pairs.Perm (indexedPairs index.field (documents store)) := by
  rw [List.perm_ext_iff_of_nodup (SecondaryIndex.pairs_nodup wellFormed)
    (indexedPairs_nodup keyed index.field)]
  rintro ⟨value, id⟩
  rw [SecondaryIndex.mem_pairs, reflects, mem_indexedPairs]
  constructor
  · rintro ⟨doc, stored, found⟩
    exact ⟨doc, mem_documents.mpr ⟨id, stored⟩, found, keyed id doc stored⟩
  · rintro ⟨doc, member, found, rfl⟩
    rcases mem_documents.mp member with ⟨id, stored⟩
    rw [keyed id doc stored]
    exact ⟨doc, stored, found⟩

/-- Populating an empty index from the documents, in any order, reflects the store. -/
theorem reflects_populate {store : DocumentStore} (tidy : TidyStore store) {docs : List Document}
    (order : docs.Perm (documents store)) (kind : IndexKind) (name field : String)
    (state : RandomState) :
    let built := (SecondaryIndex.new kind name field state).populate docs
    built.WellFormed ∧ Reflects store built := by
  intro built
  exact (builtFrom_populate order kind name field state).spec tidy.keyed tidy.free

/-- Rebuilt indexes are in step with the store. -/
theorem maintained_rebuild {store : DocumentStore} (tidy : TidyStore store) (base : IndexManager)
    {docs : List Document} (order : docs.Perm (documents store)) :
    Maintained ⟨store, base.rebuild docs⟩ := by
  refine ⟨tidy, ?_⟩
  intro name index found
  rw [IndexManager.get_rebuild, Option.map_eq_some_iff] at found
  rcases found with ⟨index, _, rfl⟩
  exact reflects_populate tidy order index.kind index.name index.field index.hashState

open DatabaseEngine in
/-- CREATE INDEX files the index it populates under its name. -/
theorem get_executeCreateIndex (moment : Moment) (ns coll field : String) (indexType : IndexType)
    (engine : DatabaseEngine) :
    (managerOf (executeCreateIndex moment ns coll field indexType engine).1.indexes
        (ns, coll)).get (indexName coll field) =
      some ((newIndex indexType (indexName coll field) field moment.hashState).populate
        (documents (storeOf engine.collections (ns, coll)))) := by
  have named := (builtFrom_newIndex (storeOf engine.collections (ns, coll)) indexType
    (indexName coll field) field moment.hashState).2
  rw [executeCreateIndex, managerOf_insert, IndexManager.addIndex, IndexManager.get]
  dsimp only
  rw [named, AList.lookup_insert]

open DatabaseEngine in
/-- Incremental maintenance equals rebuilding.  Starting from indexes built from a
store, every sequence of mirrored changes ends with the contents that a rebuild
from the final store gives in any order, and that CREATE INDEX would give; no set
of ids is empty, and the length counts the documents with the field. -/
theorem maintained_eq_rebuild (base : IndexManager) {store : DocumentStore} (tidy : TidyStore store)
    {docs : List Document} (order : docs.Perm (documents store)) {edits : List StoreEdit}
    (free : forall edit, edit ∈ edits -> edit.BringsFloatFree) {final : Mirrored}
    (ran : applyAll edits ⟨store, base.rebuild docs⟩ = some final) {name : String}
    {index : SecondaryIndex} (isIndex : final.manager.get name = some index) :
    (forall others : List Document, others.Perm (documents final.store) ->
      Exists fun rebuilt => (final.manager.rebuild others).get name = some rebuilt ∧
        rebuilt.kind = index.kind ∧ rebuilt.field = index.field ∧
        index.pairs.Perm rebuilt.pairs) ∧
    (forall (moment : Moment) (engine : DatabaseEngine) (ns coll : String) (indexType : IndexType),
      (documents (storeOf engine.collections (ns, coll))).Perm (documents final.store) ->
      (newIndex indexType (indexName coll index.field) index.field moment.hashState).kind =
        index.kind ->
      Exists fun created =>
        (managerOf (executeCreateIndex moment ns coll index.field indexType engine).1.indexes
          (ns, coll)).get (indexName coll index.field) = some created ∧
        created.kind = index.kind ∧ created.field = index.field ∧
        index.pairs.Perm created.pairs) ∧
    (forall value ids, (value, ids) ∈ index.entries -> ids ≠ []) ∧
    index.len =
      ((documents final.store).filter (fun doc => (doc.fieldValue index.field).isSome)).length := by
  rcases (maintained_rebuild tidy base order).applyAll free ran with ⟨finalTidy, allReflect⟩
  rcases allReflect name index isIndex with ⟨wellFormed, reflects⟩
  have keyed := finalTidy.keyed
  have contents := reflects.pairs_perm wellFormed keyed
  -- an index populated from the final documents has the same pairs
  have populated : forall (others : List Document) (anyName : String) (state : RandomState),
      others.Perm (documents final.store) ->
      let built := (SecondaryIndex.new index.kind anyName index.field state).populate others
      built.kind = index.kind ∧ built.field = index.field ∧ index.pairs.Perm built.pairs := by
    intro others anyName state order built
    rcases SecondaryIndex.populate_identity
        (SecondaryIndex.new index.kind anyName index.field state) others with
      ⟨sameKind, _, sameField, _⟩
    rcases reflects_populate finalTidy order index.kind anyName index.field state with
      ⟨builtFormed, builtReflects⟩
    have builtContents := builtReflects.pairs_perm builtFormed keyed
    rw [sameField] at builtContents
    exact ⟨sameKind, sameField, contents.trans builtContents.symm⟩
  refine ⟨?_, ?_, fun value ids member => (wellFormed.sets member).2, ?_⟩
  · intro others order
    refine ⟨index.clear.populate others, ?_, populated others index.name index.hashState order⟩
    rw [IndexManager.get_rebuild, isIndex]
    rfl
  · intro moment engine ns coll indexType order sameKind
    refine ⟨_, get_executeCreateIndex moment ns coll index.field indexType engine, ?_⟩
    rw [newIndex_eq, sameKind]
    exact populated _ _ _ order
  · rw [← SecondaryIndex.length_pairs, contents.length_eq, length_indexedPairs]

theorem tidyStore_empty : TidyStore ∅ := by
  constructor
  · intro id doc found
    cases found
  · intro id doc found
    cases found

/-- A document is inserted, its value is changed, and another one is removed. -/
def sampleEdits : List StoreEdit :=
  [.insert agedDocument, .insert ⟨⟨"b"⟩, 1, 0, 0, [("age", .int 1)]⟩,
    .replace { agedDocument with fields := [("age", .int 2)] }, .remove ⟨"b"⟩]

def sampleStart : Mirrored :=
  ⟨∅, (IndexManager.new.addIndex (SecondaryIndex.new .hash "idx" "age" .collisionFree)).rebuild []⟩

theorem maintained_eq_rebuild_sample :
    Exists fun final : Mirrored => Exists fun index : SecondaryIndex =>
      applyAll sampleEdits sampleStart = some final ∧ final.manager.get "idx" = some index ∧
      (index.lookup (.int 1), index.lookup (.int 2)) = ([], [⟨"a"⟩]) ∧
      index.len = ((documents final.store).filter
        (fun doc => (doc.fieldValue index.field).isSome)).length := by
  have answers : ((applyAll sampleEdits sampleStart).bind (fun final => final.manager.get "idx")).map
      (fun index => (index.lookup (.int 1), index.lookup (.int 2))) = some ([], [⟨"a"⟩]) := by rfl
  rcases Option.map_eq_some_iff.mp answers with ⟨index, found, looked⟩
  rcases Option.bind_eq_some_iff.mp found with ⟨final, ran, isIndex⟩
  refine ⟨final, index, ran, isIndex, looked, ?_⟩
  refine (maintained_eq_rebuild _ tidyStore_empty (List.Perm.refl []) ?_ ran isIndex).2.2.2
  intro edit member
  simp only [sampleEdits, List.mem_cons, List.not_mem_nil, or_false] at member
  rcases member with rfl | rfl | rfl | rfl
  · rfl
  · rfl
  · rfl
  · trivial

end Server
end NovaDb
