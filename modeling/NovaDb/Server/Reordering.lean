import NovaDb.Foundation.AnyOrder
import NovaDb.Server.PlannedScans
import NovaDb.Server.RestartedIndexes

namespace NovaDb
namespace Server

open Core Foundation Index Query Storage DatabaseEngine

/-!
# The same engine in another order

A hash map iterates in an order of its own, which changes from one process to the
next with its random state.  Two engines are reorderings of each other when they
differ in nothing else: the same documents, the same keys in every index with the same
ids under each, the same log.
-/

/-- One key with the same ids. -/
structure SameEntry (entry other : Value × IdSet) : Prop where
  key : other.1 = entry.1
  ids : other.2.Perm entry.2

/-- The same keys with the same ids under each.  A B-tree has them in one order only; a
hash table has an order and a random state of its own. -/
structure SameIndex (index other : SecondaryIndex) : Prop where
  kind : other.kind = index.kind
  name : other.name = index.name
  field : other.field = index.field
  ordered : index.kind = .ordered -> other.entries = index.entries
  entries : Exists fun shuffled : List (Value × IdSet) =>
    shuffled.Perm index.entries ∧ List.Forall₂ SameEntry shuffled other.entries

def SameManager (manager other : IndexManager) : Prop :=
  forall name, Option.Rel SameIndex (manager.get name) (other.get name)

/-- The same collections with the same documents in them. -/
structure SameCollections (collections others : Collections) : Prop where
  present : forall key, key ∈ others <-> key ∈ collections
  contents : contentsOf others = contentsOf collections

section Stores

theorem SameCollections.symm {collections others : Collections}
    (same : SameCollections collections others) : SameCollections others collections :=
  ⟨fun key => (same.present key).symm, same.contents.symm⟩

theorem SameCollections.trans {collections others more : Collections}
    (first : SameCollections collections others) (second : SameCollections others more) :
    SameCollections collections more :=
  ⟨fun key => (second.present key).trans (first.present key), second.contents.trans first.contents⟩

theorem perm_of_lookup {store other : DocumentStore}
    (same : forall id, other.lookup id = store.lookup id) : other.entries.Perm store.entries := by
  apply List.lookup_ext other.nodupKeys store.nodupKeys
  intro id doc
  change doc ∈ other.lookup id <-> doc ∈ store.lookup id
  rw [same]

variable {collections others : Collections} {engine other : DatabaseEngine} {key : CollectionKey}

theorem SameCollections.lookup (same : SameCollections collections others) (key : CollectionKey)
    (id : DocumentId) : (storeOf others key).lookup id = (storeOf collections key).lookup id :=
  congrFun same.contents (key, id)

theorem SameCollections.perm (same : SameCollections collections others) (key : CollectionKey) :
    (storeOf others key).entries.Perm (storeOf collections key).entries :=
  perm_of_lookup (same.lookup key)

theorem SameCollections.documents (same : SameCollections collections others)
    (key : CollectionKey) :
    (documents (storeOf others key)).Perm (documents (storeOf collections key)) :=
  List.Perm.map _ (same.perm key)

theorem SameCollections.insert (same : SameCollections collections others) (key : CollectionKey)
    {store other : DocumentStore} (sameStore : forall id, other.lookup id = store.lookup id) :
    SameCollections (collections.insert key store) (others.insert key other) := by
  constructor
  · intro place
    rw [AList.mem_insert, AList.mem_insert, same.present]
  · funext place
    rcases place with ⟨owner, id⟩
    by_cases isKey : owner = key
    · subst isKey
      rw [contentsOf, contentsOf, storeOf_insert, storeOf_insert]
      exact sameStore id
    · rw [contentsOf, contentsOf, storeOf_insert_ne isKey, storeOf_insert_ne isKey]
      exact same.lookup owner id

end Stores

/-! ## Names of indexes -/

/-- Every index is filed under the name of its field. -/
def Named (coll : String) (manager : IndexManager) : Prop :=
  forall name index, manager.get name = some index -> name = indexName coll index.field

section Names

variable {coll : String} {manager other : IndexManager}

theorem Named.same (named : Named coll manager) (same : SameManager manager other) :
    Named coll other := by
  intro name index isIndex
  have related := same name
  rw [isIndex] at related
  cases known : manager.get name with
  | none =>
      rw [known] at related
      cases related
  | some original =>
      rw [known] at related
      cases related with
      | some sameIndex =>
          rw [sameIndex.field]
          exact named name original known

/-- The index of a field is the one under its name. -/
theorem Named.findIndexForField (named : Named coll manager) (field : String) :
    manager.findIndexForField field = manager.get (indexName coll field) := by
  cases found : manager.findIndexForField field with
  | some index =>
      rw [IndexManager.findIndexForField] at found
      have isField : index.field = field := by simpa using List.find?_some found
      rcases List.mem_map.mp (List.mem_of_find?_eq_some found) with ⟨⟨name, entry⟩, member, rfl⟩
      have filed : manager.get name = some entry := AList.mem_lookup_iff.mpr member
      rw [← isField, ← named name entry filed, filed]
  | none =>
      symm
      rw [Option.eq_none_iff_forall_not_mem]
      intro index filed
      have isField := indexName_inj (named _ index filed)
      have member : index ∈ manager.indexes.entries.map Sigma.snd :=
        List.mem_map.mpr ⟨⟨_, index⟩, AList.mem_lookup_iff.mp filed, rfl⟩
      have passed := List.find?_eq_none.mp found index member
      exact passed (decide_eq_true isField.symm)

/-- The planner looks at an index by its field, its kind and its name. -/
theorem Named.plan (named : Named coll manager) (same : SameManager manager other)
    (filter : Option Expr) : QueryPlanner.plan filter other = QueryPlanner.plan filter manager := by
  have related : forall field, Option.Rel SameIndex (manager.findIndexForField field)
      (other.findIndexForField field) := by
    intro field
    rw [named.findIndexForField, (named.same same).findIndexForField]
    exact same _
  have lookup : forall field key,
      QueryPlanner.planLookup other field key = QueryPlanner.planLookup manager field key := by
    intro field key
    have sameField := related field
    rw [QueryPlanner.planLookup, QueryPlanner.planLookup]
    generalize manager.findIndexForField field = left at sameField ⊢
    generalize other.findIndexForField field = right at sameField ⊢
    cases sameField with
    | none => rfl
    | some sameIndex => simp only [sameIndex.name]
  have range : forall field range,
      QueryPlanner.planRange other field range = QueryPlanner.planRange manager field range := by
    intro field range
    have sameField := related field
    rw [QueryPlanner.planRange, QueryPlanner.planRange]
    generalize manager.findIndexForField field = left at sameField ⊢
    generalize other.findIndexForField field = right at sameField ⊢
    cases sameField with
    | none => rfl
    | some sameIndex => simp only [sameIndex.name, sameIndex.kind]
  unfold QueryPlanner.plan
  simp only [lookup, range]

end Names

/-! ## Proposed ids -/

/-- The keys of an index, each with its set of ids. -/
def keysOf (index : SecondaryIndex) : List Value :=
  index.entries.map Prod.fst

/-- Random states have no say in a lookup of the key: what equals it is hashed like it,
and no two keys of the index equal it. -/
structure HashedAlike (index : SecondaryIndex) (key : Value) : Prop where
  hashed : forall stored, stored ∈ keysOf index -> key.eq stored = true -> stored.hash = key.hash
  single : ((keysOf index).filter key.eq).length ≤ 1

section Candidates

variable {coll : String} {manager others : IndexManager} {store other : DocumentStore}
  {filter : Option Expr}

theorem SameIndex.scan {index other : SecondaryIndex} (same : SameIndex index other)
    (range : IndexRange) : other.scan range = index.scan range := by
  rw [SecondaryIndex.scan, SecondaryIndex.scan, same.kind]
  cases isKind : index.kind with
  | hash => simp only [same.name]
  | ordered => simp only [same.ordered isKind]

/-- Where equal keys are hashed alike, a hash table finds the first key that equals. -/
theorem find_hashed {index : SecondaryIndex} (isHash : index.kind = .hash) {key : Value}
    {entries : List (Value × IdSet)}
    (hashed : forall stored, stored ∈ entries.map Prod.fst -> key.eq stored = true ->
      stored.hash = key.hash) :
    KeyedList.find index.keyCmp key entries =
      (entries.filter fun entry => key.eq entry.1).head?.map Prod.snd := by
  induction entries with
  | nil => rfl
  | cons entry rest ih =>
      have isCmp : index.keyCmp key entry.1 =
          if index.hashState.meets key.hash entry.1.hash && key.eq entry.1 then .eq else .gt := by
        rw [SecondaryIndex.keyCmp, isHash, IndexKind.keyCmp]
      rw [KeyedList.find, isCmp, List.filter_cons]
      cases equal : key.eq entry.1 with
      | true =>
          rw [hashed entry.1 List.mem_cons_self equal, index.hashState.meets_self]
          rfl
      | false =>
          rw [Bool.and_false]
          exact ih fun stored member => hashed stored (List.mem_cons_of_mem _ member)

theorem keys_of_related {entries others : List (Value × IdSet)}
    (related : List.Forall₂ SameEntry entries others) :
    others.map Prod.fst = entries.map Prod.fst := by
  induction related with
  | nil => rfl
  | cons entry _ ih => exact congrArg₂ List.cons entry.key ih

theorem SameIndex.keys {index other : SecondaryIndex} (same : SameIndex index other) :
    (keysOf other).Perm (keysOf index) := by
  rcases same.entries with ⟨shuffled, permuted, related⟩
  rw [keysOf, keys_of_related related]
  exact permuted.map Prod.fst

/-- A lookup on which random states have no say finds the same ids. -/
theorem SameIndex.lookup {index other : SecondaryIndex} (same : SameIndex index other)
    (isHash : index.kind = .hash) {key : Value} (alike : HashedAlike index key) :
    (other.lookup key).Perm (index.lookup key) := by
  have otherHashed : forall stored, stored ∈ keysOf other -> key.eq stored = true ->
      stored.hash = key.hash :=
    fun stored member => alike.hashed stored (same.keys.subset member)
  rw [SecondaryIndex.lookup, SecondaryIndex.lookup, find_hashed isHash alike.hashed,
    find_hashed (same.kind.trans isHash) otherHashed]
  rcases same.entries with ⟨shuffled, permuted, related⟩
  have isSingle : (index.entries.filter fun entry => key.eq entry.1).length ≤ 1 := by
    have single := alike.single
    rw [keysOf, List.filter_map, List.length_map] at single
    exact single
  have found := permuted.filter fun entry => key.eq entry.1
  have relatedFound : List.Forall₂ SameEntry (shuffled.filter fun entry => key.eq entry.1)
      (other.entries.filter fun entry => key.eq entry.1) := by
    refine List.rel_filter ?_ related
    intro entry filed sameEntry
    simp only [sameEntry.key]
  generalize index.entries.filter _ = before at isSingle found ⊢
  generalize other.entries.filter _ = behind at relatedFound ⊢
  cases before with
  | nil =>
      rw [found.eq_nil] at relatedFound
      cases relatedFound
      exact List.Perm.refl _
  | cons entry rest =>
      have noRest : rest = [] := List.length_eq_zero_iff.mp (by simpa using isSingle)
      subst noRest
      rw [found.eq_singleton] at relatedFound
      rcases relatedFound with _ | ⟨sameEntry, _ | _⟩
      exact sameEntry.ids.map Prod.fst

end Candidates

/-! ## Any order of the proposed ids -/

section Shuffles

variable {coll ns : String} {engine : DatabaseEngine} {filter : Option Expr}

end Shuffles

end Server
end NovaDb
