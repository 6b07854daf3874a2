import Mathlib
import NovaDb.Core.Document
import NovaDb.Core.KeyLaws
import NovaDb.Foundation.ValueMap

namespace NovaDb
namespace Index

open Core Foundation

/-!
# Secondary indexes

A hash index and an ordered index are both maps from field values to sets of
document ids; they differ in the order they keep and in which reads they answer.
The model has one `SecondaryIndex` with the comparison of its kind: a comparison
that never answers `lt` for the hash tables, the order of values and ids for the
B-trees.  A hash table goes by the hash before it asks for equality, and what its
random state makes of two hashes is a parameter of the index.

An index does not know the store.  What keeps the two in step are the
notifications of the `IndexManager`.
-/

inductive IndexType where
  | primaryKey
  | hash
  | ordered
  deriving DecidableEq, Repr

inductive IndexError where
  | scanNotSupported (name : String)
  deriving DecidableEq, Repr

inductive Bound where
  | included (value : Value)
  | excluded (value : Value)
  | unbounded

/-- Range query definition for ordered indexes. -/
structure IndexRange where
  start : Bound
  stop : Bound

namespace IndexRange

def fromInclusive (value : Value) : IndexRange := ⟨.included value, .unbounded⟩

def toInclusive (value : Value) : IndexRange := ⟨.unbounded, .included value⟩

def betweenInclusive (start stop : Value) : IndexRange := ⟨.included start, .included stop⟩

/-- The key is not in front of the start. -/
def afterStart (range : IndexRange) (key : Value) : Bool :=
  match range.start with
  | .included start => key.cmp start != .lt
  | .excluded start => key.cmp start == .gt
  | .unbounded => true

/-- The key is not behind the end. -/
def beforeStop (range : IndexRange) (key : Value) : Bool :=
  match range.stop with
  | .included stop => key.cmp stop != .gt
  | .excluded stop => key.cmp stop == .lt
  | .unbounded => true

def contains (range : IndexRange) (key : Value) : Bool :=
  range.afterStart key && range.beforeStop key

/-- The panic of `BTreeMap::range`, if the range causes one. -/
def rangePanic (range : IndexRange) : Option String :=
  match range.start, range.stop with
  | .excluded start, .excluded stop =>
      if start.eq stop then some "range start and end are equal and excluded in BTreeMap"
      else if start.cmp stop == .gt then some "range start is greater than range end in BTreeMap"
      else none
  | .included start, .included stop | .included start, .excluded stop
  | .excluded start, .included stop =>
      if start.cmp stop == .gt then some "range start is greater than range end in BTreeMap"
      else none
  | _, _ => none

end IndexRange

/-- The random state of a hash table, by what a probe comes upon.  A probe with one
hash always meets what is filed under the same hash; whether it meets what is filed
under another one is left to the state. -/
structure RandomState where
  meets : List HasherCall -> List HasherCall -> Bool
  meets_self : forall calls, meets calls calls = true

/-- The state in which no two hashes collide. -/
def RandomState.collisionFree : RandomState where
  meets left right := decide (left = right)
  meets_self _ := decide_eq_true rfl

/-- The two index structures. -/
inductive IndexKind where
  | hash
  | ordered
  deriving DecidableEq, Repr

namespace IndexKind

def indexType : IndexKind -> IndexType
  | .hash => .hash
  | .ordered => .ordered

/-- The comparison by which the map finds keys.  A hash table asks only the keys that
the probe meets whether they are equal. -/
def keyCmp : IndexKind -> RandomState -> Value -> Value -> Ordering
  | .hash, state, left, right =>
      if state.meets left.hash right.hash && left.eq right then .eq else .gt
  | .ordered, _, left, right => left.cmp right

/-- The comparison by which the set finds ids. -/
def idCmp : IndexKind -> DocumentId -> DocumentId -> Ordering
  | .hash, left, right => if left = right then .eq else .gt
  | .ordered, left, right => compare left.asStr right.asStr

end IndexKind

/-- A set of ids: a keyed list without values. -/
abbrev IdSet := List (DocumentId × Unit)

/-- `HashIndex` or `OrderedIndex`, with the entries in the order in which the map
iterates.  The two have the same operations and differ in how keys and ids are found,
which the kind says. -/
structure SecondaryIndex where
  kind : IndexKind
  name : String
  field : String
  hashState : RandomState
  entries : List (Value × IdSet)

namespace SecondaryIndex

/-- An empty index.  Only a hash table has a use for the random state. -/
def new (kind : IndexKind) (name field : String) (hashState : RandomState) : SecondaryIndex :=
  ⟨kind, name, field, hashState, []⟩

/-- The comparison by which this index finds its keys. -/
def keyCmp (index : SecondaryIndex) : Value -> Value -> Ordering :=
  index.kind.keyCmp index.hashState

def insert (index : SecondaryIndex) (key : Value) (docId : DocumentId) : SecondaryIndex :=
  { index with
    entries := KeyedList.alter index.keyCmp key
      (fun ids => some (KeyedList.insert index.kind.idCmp docId () (ids.getD []))) index.entries }

/-- Remove an id; a key without ids is removed as well. -/
def remove (index : SecondaryIndex) (key : Value) (docId : DocumentId) : SecondaryIndex :=
  { index with
    entries := KeyedList.alter index.keyCmp key
      (fun ids =>
        match ids with
        | none => none
        | some ids =>
            let left := KeyedList.alter index.kind.idCmp docId (fun _ => none) ids
            if left.isEmpty then none else some left) index.entries }

/-- Look up all document IDs matching an exact key. -/
def lookup (index : SecondaryIndex) (key : Value) : List DocumentId :=
  ((KeyedList.find index.keyCmp key index.entries).getD []).map Prod.fst

/-- A range scan, which only the ordered index supports.  It asks the B-tree for
a range, which panics on some ranges, unless the index is empty. -/
def scan (index : SecondaryIndex) (range : IndexRange) :
    Outcome (Except IndexError (List DocumentId)) :=
  match index.kind with
  | .hash => .ok (.error (.scanNotSupported index.name))
  | .ordered =>
      if index.entries.isEmpty then .ok (.ok [])
      else
        match range.rangePanic with
        | some message => .error (.panic message)
        | none =>
            .ok (.ok ((index.entries.filter (fun entry => range.contains entry.1)).flatMap
              (fun entry => entry.2.map Prod.fst)))

def len (index : SecondaryIndex) : Nat :=
  (index.entries.map (fun entry => entry.2.length)).sum

def clear (index : SecondaryIndex) : SecondaryIndex :=
  { index with entries := [] }

/-- Take a document into the index, if it has the field. -/
def addDocument (index : SecondaryIndex) (doc : Document) : SecondaryIndex :=
  match doc.fieldValue index.field with
  | some value => index.insert value doc.id
  | none => index

/-- Populate an index from existing documents. -/
def populate (index : SecondaryIndex) (docs : List Document) : SecondaryIndex :=
  docs.foldl addDocument index

end SecondaryIndex

/-- Manages multiple secondary indices for a collection. -/
structure IndexManager where
  indexes : AList (fun _ : String => SecondaryIndex)

/-- Two optional values as `Option<&Value>` compares them. -/
def sameValue : Option Value -> Option Value -> Bool
  | none, none => true
  | some left, some right => left.eq right
  | _, _ => false

namespace IndexManager

def new : IndexManager := ⟨∅⟩

def addIndex (manager : IndexManager) (index : SecondaryIndex) : IndexManager :=
  ⟨manager.indexes.insert index.name index⟩

def dropIndex (manager : IndexManager) (name : String) : IndexManager × Bool :=
  (⟨manager.indexes.erase name⟩, (manager.indexes.lookup name).isSome)

def get (manager : IndexManager) (name : String) : Option SecondaryIndex :=
  manager.indexes.lookup name

/-- Find an index that indexes a specific field, in the order of iteration. -/
def findIndexForField (manager : IndexManager) (field : String) : Option SecondaryIndex :=
  (manager.indexes.entries.map Sigma.snd).find? (fun index => index.field = field)

/-- Notify all indexes that a new document was inserted. -/
def onInsert (manager : IndexManager) (doc : Document) : IndexManager :=
  ⟨ValueMap.mapValues (fun index => index.addDocument doc) manager.indexes⟩

/-- Notify all indexes that a document was updated. -/
def onUpdate (manager : IndexManager) (before after : Document) : IndexManager :=
  ⟨ValueMap.mapValues
    (fun index =>
      let oldValue := before.fieldValue index.field
      let newValue := after.fieldValue index.field
      if sameValue oldValue newValue then index
      else
        let removed :=
          match oldValue with
          | some value => index.remove value before.id
          | none => index
        match newValue with
        | some value => removed.insert value after.id
        | none => removed) manager.indexes⟩

/-- Notify all indexes that a document was removed. -/
def onRemove (manager : IndexManager) (doc : Document) : IndexManager :=
  ⟨ValueMap.mapValues
    (fun index =>
      match doc.fieldValue index.field with
      | some value => index.remove value doc.id
      | none => index) manager.indexes⟩

/-- Rebuild all indices from documents. -/
def rebuild (manager : IndexManager) (docs : List Document) : IndexManager :=
  docs.foldl onInsert ⟨ValueMap.mapValues SecondaryIndex.clear manager.indexes⟩

end IndexManager
end Index
end NovaDb
