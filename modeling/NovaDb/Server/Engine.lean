import NovaDb.Query.Planner
import NovaDb.Query.Statement
import NovaDb.Storage.Recovery

namespace NovaDb
namespace Server

open Core Foundation Index Query Storage

/-!
# The database engine

The engine holds the collections, their indexes and the log, and executes
statements.  Each statement is cut into the steps its locks delimit, since
concurrent requests interleave at these: an INSERT is a uniqueness check, a log
append, a store insert, an index insert and an event; an UPDATE or REMOVE is one
critical section followed by its events.

A statement reads clocks and meets the operating system once per document; what
it meets is a `Moment`, and a statement takes one for each document it visits.
A statement that ends early says where it stopped.  `execute` forgets that.
-/

inductive EventType where
  | create
  | update
  | delete
  deriving DecidableEq, Repr

/-- A first-class structured event representing a mutation or change in the data flow. -/
structure DataEvent where
  sequence : UInt64
  eventType : EventType
  namespaceName : String
  collection : String
  documentId : DocumentId
  before : Option Document
  after : Option Document
  timestamp : Int64
  txId : Option UInt64

inductive ResponsePayload where
  | success (message : String) (affected : Nat)
  | records (documents : List Document) (count : Nat)
  | count (number : Nat)
  | exists (found : Bool)
  | watchAck (subscriptionId : UInt64)
  | error (failure : NovaError)
  | pong

/-- What one document of a statement meets outside the program: the clock of its
new version, the append, and the clock of its event; and the random state of a hash
table that is made then. -/
structure Moment where
  clock : Int64
  append : Environment
  eventClock : Int64
  hashState : RandomState

/-- Where a mutating statement stopped. -/
inductive Cause where
  | duplicate
  | filter
  | assignment
  | payload
  | append
  deriving DecidableEq, Repr

structure Stop where
  cause : Cause
  fault : Fault

/-- Core Database Engine: collections, indexes, the log, and the events sent so
far, oldest first. -/
structure DatabaseEngine where
  collections : Collections
  indexes : AList (fun _ : CollectionKey => IndexManager)
  wal : WriteAheadLog
  events : List DataEvent

/-- The index manager of a collection, empty when there is none. -/
def managerOf (indexes : AList (fun _ : CollectionKey => IndexManager)) (key : CollectionKey) :
    IndexManager :=
  (indexes.lookup key).getD IndexManager.new

/-- The documents of a store in the order of iteration. -/
def documents (store : DocumentStore) : List Document :=
  store.entries.map Sigma.snd

/-- The data directory as the engine finds it: recovery, the log reopened behind
it, and an empty index manager for every collection. -/
def openEngine (P : Platform) (dir : WalDir) (syncMode : SyncMode) (limit : Nat) :
    WalDir × Except NovaError DatabaseEngine :=
  match RecoveryManager.recover P dir with
  | (repaired, .error failure) => (repaired, .error failure)
  | (repaired, .ok recovered) =>
      let wal := (WriteAheadLog.openDir repaired syncMode limit).setSequence recovered.maxSequence
      (wal.dir, .ok
        { collections := recovered.collections
          indexes := ValueMap.mapValues
            (fun store => IndexManager.new.rebuild (documents store)) recovered.collections
          wal
          events := [] })

namespace DatabaseEngine

/-! ## INSERT -/

/-- Step one: is there a document with this id already? -/
def hasDocument (engine : DatabaseEngine) (key : CollectionKey) (id : DocumentId) : Bool :=
  decide (id ∈ storeOf engine.collections key)

def duplicateError (coll : String) (id : DocumentId) : NovaError :=
  NovaError.new .documentAlreadyExists
    ("Document '" ++ id.asStr ++ "' already exists in '" ++ coll ++ "'")

/-- Step two: serialize the document and append it to the log. -/
def logInsert (P : Platform) (moment : Moment) (ns coll : String) (doc : Document)
    (wal : WriteAheadLog) : WriteAheadLog × Except Stop UInt64 :=
  match NbfRecord.payloadFromDocument P doc with
  | .error failure => (wal, .error ⟨.payload, .error failure⟩)
  | .ok payload =>
      match wal.append P moment.append ⟨.insert, ns, coll, doc.id, payload, none⟩ with
      | (wal, .error fault) => (wal, .error ⟨.append, fault⟩)
      | (wal, .ok sequence) => (wal, .ok sequence)

/-- Step three: update the in-memory collection. -/
def storeInsert (key : CollectionKey) (doc : Document) (engine : DatabaseEngine) :
    DatabaseEngine :=
  { engine with
    collections := engine.collections.insert key
      ((storeOf engine.collections key).insert doc.id doc) }

/-- Step four: update the secondary indexes. -/
def indexInsert (key : CollectionKey) (doc : Document) (engine : DatabaseEngine) :
    DatabaseEngine :=
  { engine with
    indexes := engine.indexes.insert key ((managerOf engine.indexes key).onInsert doc) }

/-- Step five: publish an event. -/
def emitEvent (event : DataEvent) (engine : DatabaseEngine) : DatabaseEngine :=
  { engine with events := engine.events ++ [event] }

def insertEvent (moment : Moment) (ns coll : String) (doc : Document) (sequence : UInt64) :
    DataEvent where
  sequence := sequence
  eventType := .create
  namespaceName := ns
  collection := coll
  documentId := doc.id
  before := none
  after := some doc
  timestamp := moment.eventClock
  txId := none

def executeInsert (P : Platform) (moment : Moment) (ns coll : String) (doc : Document)
    (engine : DatabaseEngine) : DatabaseEngine × Except Stop ResponsePayload :=
  if engine.hasDocument (ns, coll) doc.id then
    (engine, .error ⟨.duplicate, .error (duplicateError coll doc.id)⟩)
  else
    match logInsert P moment ns coll doc engine.wal with
    | (wal, .error stop) => ({ engine with wal }, .error stop)
    | (wal, .ok sequence) =>
        let engine := storeInsert (ns, coll) doc { engine with wal }
        let engine := indexInsert (ns, coll) doc engine
        (emitEvent (insertEvent moment ns coll doc sequence) engine, .ok (.records [doc] 1))

/-! ## UPDATE and REMOVE -/

/-- What a critical section works on. -/
structure Section where
  store : DocumentStore
  manager : IndexManager
  wal : WriteAheadLog

/-- A change a critical section made and logged. -/
structure Change where
  sequence : UInt64
  id : DocumentId
  before : Document
  after : Option Document

/-- The loop of a critical section: one element after another, each with its own
moment, until one fails. -/
def runSection {α : Type} (one : Moment -> α -> Section -> Section × Except Stop (Option Change))
    (moments : Nat -> Moment) : Nat -> List α -> Section -> Section × Except Stop (List Change)
  | _, [], state => (state, .ok [])
  | turn, element :: rest, state =>
      match one (moments turn) element state with
      | (state, .error stop) => (state, .error stop)
      | (state, .ok change) =>
          match runSection one moments (turn + 1) rest state with
          | (state, .error stop) => (state, .error stop)
          | (state, .ok changes) => (state, .ok (change.toList ++ changes))

/-- One document of an UPDATE.  The assignments work on the stored document in
place, so they stay when they or a later step fail. -/
def updateOne (P : Platform) (ns coll : String) (assignments : List Assignment)
    (filter : Option Expr) (moment : Moment) (entry : Sigma fun _ : DocumentId => Document)
    (state : Section) : Section × Except Stop (Option Change) :=
  match Evaluator.matchesFilter P filter entry.2 with
  | .error fault => (state, .error ⟨.filter, fault⟩)
  | .ok false => (state, .ok none)
  | .ok true =>
      let assigned := Evaluator.applyAssignments P moment.clock entry.2 assignments
      let after := assigned.1
      let state := { state with store := state.store.replace entry.1 after }
      match assigned.2 with
      | .error fault => (state, .error ⟨.assignment, fault⟩)
      | .ok () =>
          match NbfRecord.payloadFromDocument P after with
          | .error failure => (state, .error ⟨.payload, .error failure⟩)
          | .ok payload =>
              match state.wal.append P moment.append ⟨.update, ns, coll, entry.1, payload, none⟩ with
              | (wal, .error fault) => ({ state with wal }, .error ⟨.append, fault⟩)
              | (wal, .ok sequence) =>
                  ({ state with wal, manager := state.manager.onUpdate entry.2 after },
                    .ok (some ⟨sequence, entry.1, entry.2, some after⟩))

/-- The ids a REMOVE is about: a filter that fails on a document passes it over. -/
def removeTargets (P : Platform) (filter : Option Expr) :
    List (Sigma fun _ : DocumentId => Document) -> Except Stop (List DocumentId)
  | [] => .ok []
  | entry :: rest =>
      match Evaluator.matchesFilter P filter entry.2 with
      | .error (.panic message) => .error ⟨.filter, .panic message⟩
      | .error (.error _) => removeTargets P filter rest
      | .ok false => removeTargets P filter rest
      | .ok true => (removeTargets P filter rest).map (entry.1 :: ·)

/-- One document of a REMOVE: taken out of the store, then logged. -/
def removeOne (P : Platform) (ns coll : String) (moment : Moment) (id : DocumentId)
    (state : Section) : Section × Except Stop (Option Change) :=
  match state.store.lookup id with
  | none => (state, .ok none)
  | some doc =>
      let state := { state with store := state.store.erase id }
      match state.wal.append P moment.append ⟨.delete, ns, coll, id, [], none⟩ with
      | (wal, .error fault) => ({ state with wal }, .error ⟨.append, fault⟩)
      | (wal, .ok sequence) =>
          ({ state with wal, manager := state.manager.onRemove doc },
            .ok (some ⟨sequence, id, doc, none⟩))

/-- Enter a critical section on a collection, which is created when absent. -/
def enter (engine : DatabaseEngine) (key : CollectionKey) : Section where
  store := storeOf engine.collections key
  manager := managerOf engine.indexes key
  wal := engine.wal

/-- Leave it. -/
def leave (engine : DatabaseEngine) (key : CollectionKey) (state : Section) : DatabaseEngine :=
  { engine with
    collections := engine.collections.insert key state.store
    indexes := engine.indexes.insert key state.manager
    wal := state.wal }

/-- The critical section of an UPDATE. -/
def updateSection (P : Platform) (moments : Nat -> Moment) (ns coll : String)
    (assignments : List Assignment) (filter : Option Expr) (engine : DatabaseEngine) :
    DatabaseEngine × Except Stop (List Change) :=
  let state := engine.enter (ns, coll)
  let result := runSection (updateOne P ns coll assignments filter) moments 0 state.store.entries state
  (engine.leave (ns, coll) result.1, result.2)

/-- The critical section of a REMOVE. -/
def removeSection (P : Platform) (moments : Nat -> Moment) (ns coll : String)
    (filter : Option Expr) (engine : DatabaseEngine) :
    DatabaseEngine × Except Stop (List Change) :=
  let state := engine.enter (ns, coll)
  match removeTargets P filter state.store.entries with
  | .error stop => (engine.leave (ns, coll) state, .error stop)
  | .ok targets =>
      let result := runSection (removeOne P ns coll) moments 0 targets state
      (engine.leave (ns, coll) result.1, result.2)

def changeEvent (eventType : EventType) (ns coll : String) (moment : Moment) (change : Change) :
    DataEvent where
  sequence := change.sequence
  eventType := eventType
  namespaceName := ns
  collection := coll
  documentId := change.id
  before := some change.before
  after := change.after
  timestamp := moment.eventClock
  txId := none

/-- The events of a critical section, in the order of its changes. -/
def emitChanges (eventType : EventType) (ns coll : String) (moments : Nat -> Moment) :
    Nat -> List Change -> DatabaseEngine -> DatabaseEngine
  | _, [], engine => engine
  | turn, change :: rest, engine =>
      emitChanges eventType ns coll moments (turn + 1) rest
        (emitEvent (changeEvent eventType ns coll (moments turn) change) engine)

def executeUpdate (P : Platform) (moments : Nat -> Moment) (ns coll : String)
    (assignments : List Assignment) (filter : Option Expr) (engine : DatabaseEngine) :
    DatabaseEngine × Except Stop ResponsePayload :=
  match updateSection P moments ns coll assignments filter engine with
  | (engine, .error stop) => (engine, .error stop)
  | (engine, .ok changes) =>
      (emitChanges .update ns coll moments 0 changes engine,
        .ok (.success ("Updated " ++ toString changes.length ++ " document(s)") changes.length))

def executeRemove (P : Platform) (moments : Nat -> Moment) (ns coll : String)
    (filter : Option Expr) (engine : DatabaseEngine) :
    DatabaseEngine × Except Stop ResponsePayload :=
  match removeSection P moments ns coll filter engine with
  | (engine, .error stop) => (engine, .error stop)
  | (engine, .ok changes) =>
      (emitChanges .delete ns coll moments 0 changes engine,
        .ok (.success ("Removed " ++ toString changes.length ++ " document(s)") changes.length))

/-! ## Reads -/

/-- The ids the plan proposes. -/
def candidateIds (store : DocumentStore) (manager : IndexManager) (filter : Option Expr) :
    Outcome (List DocumentId) :=
  match QueryPlanner.plan filter manager with
  | .indexLookup name key =>
      match manager.get name with
      | some index => .ok (index.lookup key)
      | none => .ok store.keys
  | .indexRangeScan name range =>
      match manager.get name with
      | some index =>
          match index.scan range with
          | .error fault => .error fault
          | .ok (.error _) => .ok []
          | .ok (.ok ids) => .ok ids
      | none => .ok store.keys
  | .seqScan => .ok store.keys

/-- The documents among the candidates that are stored and match the filter. -/
def filterCandidates (P : Platform) (filter : Option Expr) (store : DocumentStore) :
    List DocumentId -> Outcome (List Document)
  | [] => .ok []
  | id :: rest =>
      match store.lookup id with
      | none => filterCandidates P filter store rest
      | some doc => do
          let matched <- Evaluator.matchesFilter P filter doc
          let others <- filterCandidates P filter store rest
          return if matched then doc :: others else others

/-- The documents a FIND selects, before sorting and slicing. -/
def selectDocuments (P : Platform) (store : DocumentStore) (manager : IndexManager)
    (filter : Option Expr) : Outcome (List Document) := do
  let ids <- candidateIds store manager filter
  filterCandidates P filter store ids

/-- The order of a sort clause. -/
def sortCmp (clause : SortClause) (left right : Document) : Ordering :=
  let order := ((left.fieldValue clause.field).getD .null).cmp
    ((right.fieldValue clause.field).getD .null)
  match clause.direction with
  | .asc => order
  | .desc => order.swap

def sortDocuments (sort : Option SortClause) (docs : List Document) : List Document :=
  match sort with
  | none => docs
  | some clause => docs.mergeSort (fun left right => sortCmp clause left right != .gt)

/-- Offset and limit.  The sum of the two overflows as the build has it, and a
wrapped end in front of the offset is a slice out of order. -/
def page (P : Platform) (limit offset : Option UInt64) (docs : List Document) :
    Outcome (List Document) :=
  let off := (offset.getD 0).toNat
  if docs.length ≤ off then .ok []
  else
    match limit with
    | none => .ok (docs.drop off)
    | some count =>
        if P.overflowChecks ∧ 2 ^ 64 ≤ off + count.toNat then
          .error (.panic "attempt to add with overflow")
        else
          let stop := min ((off + count.toNat) % 2 ^ 64) docs.length
          if stop < off then
            .error (.panic ("slice index starts at " ++ toString off ++ " but ends at " ++
              toString stop))
          else .ok ((docs.take stop).drop off)

def executeFind (P : Platform) (ns coll : String) (filter : Option Expr)
    (sort : Option SortClause) (limit offset : Option UInt64) (engine : DatabaseEngine) :
    Outcome ResponsePayload :=
  match engine.collections.lookup (ns, coll) with
  | none => .ok (.records [] 0)
  | some store => do
      let selected <- selectDocuments P store (managerOf engine.indexes (ns, coll)) filter
      let docs <- page P limit offset (sortDocuments sort selected)
      return .records docs docs.length

def countMatches (P : Platform) (filter : Option Expr) : List Document -> Outcome Nat
  | [] => .ok 0
  | doc :: rest => do
      let matched <- Evaluator.matchesFilter P filter doc
      let others <- countMatches P filter rest
      return if matched then others + 1 else others

def existsMatch (P : Platform) (filter : Option Expr) : List Document -> Outcome Bool
  | [] => .ok false
  | doc :: rest => do
      let matched <- Evaluator.matchesFilter P filter doc
      if matched then return true
      existsMatch P filter rest

def executeCount (P : Platform) (ns coll : String) (filter : Option Expr)
    (engine : DatabaseEngine) : Outcome ResponsePayload := do
  let number <- countMatches P filter (documents (storeOf engine.collections (ns, coll)))
  return .count number

def executeExists (P : Platform) (ns coll : String) (filter : Option Expr)
    (engine : DatabaseEngine) : Outcome ResponsePayload := do
  let found <- existsMatch P filter (documents (storeOf engine.collections (ns, coll)))
  return .exists found

/-! ## Index statements -/

def indexName (coll field : String) : String :=
  "idx_" ++ coll ++ "_" ++ field

def newIndex (indexType : IndexType) (name field : String) (hashState : RandomState) :
    SecondaryIndex :=
  match indexType with
  | .hash => SecondaryIndex.new .hash name field hashState
  | .ordered | .primaryKey => SecondaryIndex.new .ordered name field hashState

def executeCreateIndex (moment : Moment) (ns coll field : String) (indexType : IndexType)
    (engine : DatabaseEngine) : DatabaseEngine × Outcome ResponsePayload :=
  let name := indexName coll field
  let index := (newIndex indexType name field moment.hashState).populate
    (documents (storeOf engine.collections (ns, coll)))
  let manager := (managerOf engine.indexes (ns, coll)).addIndex index
  ({ engine with indexes := engine.indexes.insert (ns, coll) manager },
    .ok (.success ("Index '" ++ name ++ "' created on '" ++ coll ++ "." ++ field ++ "'") 1))

def executeDropIndex (ns coll field : String) (engine : DatabaseEngine) :
    DatabaseEngine × Outcome ResponsePayload :=
  let name := indexName coll field
  let missing : Outcome ResponsePayload :=
    .error (.error (NovaError.new .indexNotFound
      ("Index for '" ++ field ++ "' not found on '" ++ coll ++ "'")))
  match engine.indexes.lookup (ns, coll) with
  | none => (engine, missing)
  | some manager =>
      let dropped := manager.dropIndex name
      ({ engine with indexes := engine.indexes.insert (ns, coll) dropped.1 },
        if dropped.2 then .ok (.success ("Index '" ++ name ++ "' dropped") 1) else missing)

/-! ## Statements -/

/-- The outcome a client sees. -/
def outcomeOf (result : DatabaseEngine × Except Stop ResponsePayload) :
    DatabaseEngine × Outcome ResponsePayload :=
  (result.1, result.2.mapError Stop.fault)

/-- Execute a parsed NQL statement within a namespace. -/
def execute (P : Platform) (moments : Nat -> Moment) (statement : Statement) (ns : String)
    (engine : DatabaseEngine) : DatabaseEngine × Outcome ResponsePayload :=
  match statement with
  | .find coll filter sort limit offset =>
      (engine, executeFind P ns coll filter sort limit offset engine)
  | .insert coll doc => outcomeOf (executeInsert P (moments 0) ns coll doc engine)
  | .update coll assignments filter =>
      outcomeOf (executeUpdate P moments ns coll assignments filter engine)
  | .remove coll filter => outcomeOf (executeRemove P moments ns coll filter engine)
  | .count coll filter => (engine, executeCount P ns coll filter engine)
  | .exists coll filter => (engine, executeExists P ns coll filter engine)
  | .createIndex coll field indexType => executeCreateIndex (moments 0) ns coll field indexType engine
  | .dropIndex coll field => executeDropIndex ns coll field engine
  | .watch _ _ =>
      (engine, .error (.error (NovaError.invalidQuery "WATCH should be routed to stream handler")))
  | .begin | .commit | .rollback =>
      (engine, .ok (.success "Transaction statement accepted" 0))

end DatabaseEngine

/-! ## Small engines -/

/-- The engine on an empty directory. -/
def emptyEngine (limit : Nat) : DatabaseEngine where
  collections := ∅
  indexes := ∅
  wal := (WriteAheadLog.openDir ⟨"wal", ∅⟩ .always limit).setSequence 0
  events := []

/-- The same with one document in the collection `users`. -/
def oneUser (doc : Document) : DatabaseEngine :=
  { emptyEngine 4096 with
    collections := (∅ : Collections).insert ("default", "users")
      ((∅ : DocumentStore).insert doc.id doc) }

end Server
end NovaDb
