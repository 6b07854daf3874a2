import NovaDb.Server.IndexMaintenance
import NovaDb.Server.LiveState

namespace NovaDb
namespace Server

open Core Foundation Index Query Storage DatabaseEngine

/-!
# Indexes and restarts

The definitions of the indexes are what CREATE INDEX and DROP INDEX leave behind.
They are not in the log: an engine that opens a directory makes an empty index
manager for every collection it recovers and rebuilds that.
-/

/-- The definition an index manager holds under a name. -/
def definitionAt (manager : IndexManager) (name : String) : Option (String × IndexKind) :=
  (manager.get name).map fun index => (index.field, index.kind)

/-- The definitions of a manager: field and type of each of its indexes. -/
def definitions (manager : IndexManager) : Set (String × IndexKind) :=
  fun definition => Exists fun name => definitionAt manager name = some definition

/-- The directory of an engine that is shut down: the buffered writer of the log
writes the rest of its buffer when it is dropped. -/
def leftBehind (wal : WriteAheadLog) : WalDir :=
  (wal.storeActive ⟨wal.activeFile.all, []⟩).dir

/-- Every collection has the definitions it had before, and every index has the
pairs of the documents now there. -/
structure IndexesSurvive (engine next : DatabaseEngine) : Prop where
  definitions : forall key,
    definitions (managerOf next.indexes key) = definitions (managerOf engine.indexes key)
  contents : forall key name index, (managerOf next.indexes key).get name = some index ->
    forall pair, pair ∈ index.pairs <->
      pair ∈ indexedPairs index.field (documents (storeOf next.collections key))

/-- The engines that successful statements reach one after another, with these
statements and the namespaces they were executed in.  The stores may iterate in
another order at any time. -/
inductive SequentialRun (P : Platform) : DatabaseEngine -> List (String × Statement) -> Prop where
  | opened {dir : WalDir} {syncMode : SyncMode} {limit : Nat} {engine : DatabaseEngine}
      (opens : (openEngine P dir syncMode limit).2 = .ok engine) : SequentialRun P engine []
  | statement {engine : DatabaseEngine} {history : List (String × Statement)}
      (run : SequentialRun P engine history) {moments : Nat -> Moment} {statement : Statement}
      {ns : String} {payload : ResponsePayload}
      (returns : (execute P moments statement ns engine).2 = .ok payload) :
      SequentialRun P (execute P moments statement ns engine).1 (history ++ [(ns, statement)])
  | rearranged {engine next : DatabaseEngine} {history : List (String × Statement)}
      (run : SequentialRun P engine history) (same : Rearranged engine next) :
      SequentialRun P next history

/-- The structure that CREATE INDEX makes for each type. -/
def kindOf (indexType : IndexType) : IndexKind :=
  match indexType with
  | .hash => .hash
  | .ordered | .primaryKey => .ordered

/-- What a statement makes of the definition on a field. -/
def definedAfter (ns coll field : String) (current : Option IndexKind) :
    String × Statement -> Option IndexKind
  | (space, .createIndex into name indexType) =>
      if space = ns ∧ into = coll ∧ name = field then some (kindOf indexType) else current
  | (space, .dropIndex from_ name) =>
      if space = ns ∧ from_ = coll ∧ name = field then none else current
  | _ => current

/-- The definition that some statements leave on a field: the last CREATE INDEX or
DROP INDEX about it decides. -/
def definedBy (ns coll field : String) (history : List (String × Statement)) : Option IndexKind :=
  history.foldl (definedAfter ns coll field) none

/-! ## Definitions of a manager -/

section Manager

variable (manager : IndexManager)

theorem definitionAt_onInsert (doc : Document) :
    definitionAt (manager.onInsert doc) = definitionAt manager := by
  funext name
  rw [definitionAt, definitionAt, IndexManager.get_onInsert, Option.map_map]
  congr 1
  funext index
  simp

theorem definitionAt_onUpdate (before after : Document) :
    definitionAt (manager.onUpdate before after) = definitionAt manager := by
  funext name
  rw [definitionAt, definitionAt, IndexManager.get_onUpdate, Option.map_map]
  congr 1
  funext index
  simp

theorem definitionAt_onRemove (doc : Document) :
    definitionAt (manager.onRemove doc) = definitionAt manager := by
  funext name
  rw [definitionAt, definitionAt, IndexManager.get_onRemove, Option.map_map]
  congr 1
  funext index
  simp

theorem definitionAt_addIndex (index : SecondaryIndex) :
    definitionAt (manager.addIndex index) =
      Function.update (definitionAt manager) index.name (some (index.field, index.kind)) := by
  funext name
  rw [definitionAt, IndexManager.get, IndexManager.addIndex]
  by_cases same : name = index.name
  · subst same
    rw [AList.lookup_insert, Function.update_self]
    rfl
  · rw [AList.lookup_insert_ne same, Function.update_of_ne same]
    rfl

theorem definitionAt_dropIndex (dropped : String) :
    definitionAt (manager.dropIndex dropped).1 =
      Function.update (definitionAt manager) dropped none := by
  funext name
  rw [definitionAt, IndexManager.get, IndexManager.dropIndex]
  by_cases same : name = dropped
  · subst same
    rw [AList.lookup_erase, Function.update_self]
    rfl
  · rw [AList.lookup_erase_ne same, Function.update_of_ne same]
    rfl

end Manager

/-! ## Statements -/

/-- What a manager holds for every collection. -/
def Definitions (engine : DatabaseEngine) (key : CollectionKey) : String -> Option (String × IndexKind) :=
  definitionAt (managerOf engine.indexes key)

section Statements

variable {P : Platform} {moments : Nat -> Moment} {ns coll : String} {engine : DatabaseEngine}

theorem updateOne_definitions (P : Platform) (ns coll : String) (assignments : List Assignment)
    (filter : Option Expr) (moment : Moment) (entry : Sigma fun _ : DocumentId => Document)
    (state : Section) :
    definitionAt (updateOne P ns coll assignments filter moment entry state).1.manager =
      definitionAt state.manager := by
  cases ran : updateOne P ns coll assignments filter moment entry state with
  | mk next outcome =>
      cases updateOne_exit ran with
      | unfiltered => rfl
      | passedOver => rfl
      | unassigned => rfl
      | unserialized => rfl
      | unlogged => rfl
      | logged => exact definitionAt_onUpdate _ _ _

theorem removeOne_definitions (P : Platform) (ns coll : String) (moment : Moment) (id : DocumentId)
    (state : Section) :
    definitionAt (removeOne P ns coll moment id state).1.manager = definitionAt state.manager := by
  cases ran : removeOne P ns coll moment id state with
  | mk next outcome =>
      cases removeOne_exit ran with
      | absent => rfl
      | unlogged => rfl
      | logged => exact definitionAt_onRemove _ _

/-- A manager put in the place of one with the same definitions. -/
theorem definitionAt_managerOf_insert {indexes : AList (fun _ : CollectionKey => IndexManager)}
    {key : CollectionKey} {manager : IndexManager}
    (same : definitionAt manager = definitionAt (managerOf indexes key)) (other : CollectionKey) :
    definitionAt (managerOf (indexes.insert key manager) other) =
      definitionAt (managerOf indexes other) := by
  by_cases atKey : other = key
  · subst atKey
    rw [managerOf_insert, same]
  · rw [managerOf_insert_ne atKey]

theorem updateSection_definitions {assignments : List Assignment} {filter : Option Expr}
    {next : DatabaseEngine} {outcome : Except Stop (List Change)}
    (ran : updateSection P moments ns coll assignments filter engine = (next, outcome)) :
    Definitions next = Definitions engine := by
  rcases updateSection_loop ran with ⟨final, loop, rfl⟩
  funext key
  apply definitionAt_managerOf_insert
  apply @runSection_keeps _ _ _ _ _ _
    (fun state => definitionAt state.manager = definitionAt (managerOf engine.indexes (ns, coll)))
    _ _ _ loop rfl
  intro moment entry state _ same
  exact (updateOne_definitions P ns coll assignments filter moment entry state).trans same

theorem removeSection_definitions {filter : Option Expr} {next : DatabaseEngine}
    {outcome : Except Stop (List Change)}
    (ran : removeSection P moments ns coll filter engine = (next, outcome)) :
    Definitions next = Definitions engine := by
  cases isTargets : removeTargets P filter (storeOf engine.collections (ns, coll)).entries with
  | error stop =>
      have entered : removeTargets P filter (engine.enter (ns, coll)).store.entries = .error stop :=
        isTargets
      simp only [removeSection, entered] at ran
      cases ran
      funext key
      exact definitionAt_managerOf_insert rfl key
  | ok targets =>
      rcases removeSection_loop isTargets ran with ⟨final, loop, rfl⟩
      funext key
      apply definitionAt_managerOf_insert
      apply @runSection_keeps _ _ _ _ _ _
        (fun state => definitionAt state.manager =
          definitionAt (managerOf engine.indexes (ns, coll))) _ _ _ loop rfl
      intro moment id state _ same
      exact (removeOne_definitions P ns coll moment id state).trans same

theorem emitChanges_indexes (eventType : EventType) (turn : Nat) (changes : List Change)
    (engine : DatabaseEngine) :
    (emitChanges eventType ns coll moments turn changes engine).indexes = engine.indexes := by
  rcases @emitChanges_state ns coll eventType moments turn changes engine with ⟨events, same⟩
  rw [same]

theorem executeInsert_definitions {moment : Moment} {doc : Document} :
    Definitions (executeInsert P moment ns coll doc engine).1 = Definitions engine := by
  unfold executeInsert
  split
  · rfl
  · split
    · rfl
    · funext key
      exact definitionAt_managerOf_insert (definitionAt_onInsert _ _) key

/-- The statements that leave the definitions alone: all but two. -/
def DefinesNothing : Statement -> Prop
  | .createIndex _ _ _ | .dropIndex _ _ => False
  | _ => True

theorem execute_definitions {statement : Statement} (nothing : DefinesNothing statement) :
    Definitions (execute P moments statement ns engine).1 = Definitions engine := by
  cases statement with
  | insert coll doc => exact executeInsert_definitions
  | update coll assignments filter =>
      simp only [execute, outcomeOf, executeUpdate]
      cases ran : updateSection P moments ns coll assignments filter engine with
      | mk next outcome =>
          have same := updateSection_definitions ran
          cases outcome with
          | error stop => exact same
          | ok changes =>
              funext key
              rw [Definitions, emitChanges_indexes]
              exact congrFun same key
  | remove coll filter =>
      simp only [execute, outcomeOf, executeRemove]
      cases ran : removeSection P moments ns coll filter engine with
      | mk next outcome =>
          have same := removeSection_definitions ran
          cases outcome with
          | error stop => exact same
          | ok changes =>
              funext key
              rw [Definitions, emitChanges_indexes]
              exact congrFun same key
  | createIndex => exact nothing.elim
  | dropIndex => exact nothing.elim
  | find | watch | count | «exists» | begin | commit | rollback => rfl

theorem definedAfter_nothing {statement : Statement} (nothing : DefinesNothing statement)
    (field : String) (current : Option IndexKind) (space : String) :
    definedAfter ns coll field current (space, statement) = current := by
  cases statement with
  | createIndex => exact nothing.elim
  | dropIndex => exact nothing.elim
  | _ => rfl

theorem definitions_createIndex (moment : Moment) (coll field : String) (indexType : IndexType)
    (engine : DatabaseEngine) :
    Definitions (executeCreateIndex moment ns coll field indexType engine).1 =
      Function.update (Definitions engine) (ns, coll)
        (Function.update (Definitions engine (ns, coll)) (indexName coll field)
          (some (field, kindOf indexType))) := by
  let fresh := newIndex indexType (indexName coll field) field moment.hashState
  rcases fresh.populate_identity (documents (storeOf engine.collections (ns, coll))) with
    ⟨isKind, isName, isField, _⟩
  have made : fresh.kind = kindOf indexType ∧ fresh.name = indexName coll field ∧
      fresh.field = field := by
    cases indexType <;> exact ⟨rfl, rfl, rfl⟩
  funext key
  rw [Definitions, executeCreateIndex]
  by_cases atKey : key = (ns, coll)
  · subst atKey
    rw [Function.update_self, managerOf_insert, definitionAt_addIndex, isKind, isName, isField,
      made.1, made.2.1, made.2.2]
    rfl
  · rw [Function.update_of_ne atKey, managerOf_insert_ne atKey]
    rfl

theorem definitions_dropIndex (coll field : String) (engine : DatabaseEngine) :
    Definitions (executeDropIndex ns coll field engine).1 =
      Function.update (Definitions engine) (ns, coll)
        (Function.update (Definitions engine (ns, coll)) (indexName coll field) none) := by
  rw [executeDropIndex]
  cases stored : engine.indexes.lookup (ns, coll) with
  | none =>
      have nothing : Definitions engine (ns, coll) (indexName coll field) = none := by
        rw [Definitions, managerOf, stored]
        rfl
      have unchanged := @Function.update_eq_self _ _ _ (indexName coll field)
        (Definitions engine (ns, coll))
      rw [nothing] at unchanged
      rw [unchanged, Function.update_eq_self]
  | some manager =>
      have isManager : managerOf engine.indexes (ns, coll) = manager := by
        rw [managerOf, stored]
        rfl
      funext key
      by_cases atKey : key = (ns, coll)
      · subst atKey
        rw [Function.update_self, Definitions, managerOf_insert, definitionAt_dropIndex, Definitions,
          isManager]
      · rw [Function.update_of_ne atKey, Definitions, managerOf_insert_ne atKey]
        rfl

end Statements

/-! ## Runs -/

/-- The managers hold the definitions that the statements leave, under the names of
their fields. -/
def HoldsDefinitions (engine : DatabaseEngine) (history : List (String × Statement)) : Prop :=
  forall ns coll name field kind, Definitions engine (ns, coll) name = some (field, kind) <->
    name = indexName coll field ∧ definedBy ns coll field history = some kind

theorem indexName_inj {coll left right : String}
    (same : indexName coll left = indexName coll right) : left = right := by
  have lists := congrArg String.toList same
  simp only [indexName, String.toList_append] at lists
  exact String.toList_inj.mp (List.append_cancel_left lists)

theorem definedBy_append (ns coll field : String) (history : List (String × Statement))
    (step : String × Statement) :
    definedBy ns coll field (history ++ [step]) =
      definedAfter ns coll field (definedBy ns coll field history) step := by
  rw [definedBy, List.foldl_append]
  rfl

/-- A statement about one field: the definition there is the one it leaves, and the
others are as they were. -/
theorem HoldsDefinitions.step {engine next : DatabaseEngine} {history : List (String × Statement)}
    (holds : HoldsDefinitions engine history) {space into name : String} {statement : Statement}
    {left : Option IndexKind}
    (leaves : Definitions next = Function.update (Definitions engine) (space, into)
      (Function.update (Definitions engine (space, into)) (indexName into name)
        (left.map fun kind => (name, kind))))
    (tells : forall ns coll field current,
      definedAfter ns coll field current (space, statement) =
        if space = ns ∧ into = coll ∧ name = field then left else current) :
    HoldsDefinitions next (history ++ [(space, statement)]) := by
  intro ns coll other field kind
  rw [leaves, definedBy_append, tells]
  by_cases atKey : (ns, coll) = (space, into)
  · cases atKey
    rw [Function.update_self]
    by_cases atName : other = indexName into name
    · subst atName
      rw [Function.update_self]
      constructor
      · intro isLeft
        rcases Option.map_eq_some_iff.mp isLeft with ⟨found, isFound, same⟩
        cases same
        rw [if_pos ⟨rfl, rfl, rfl⟩]
        exact ⟨rfl, isFound⟩
      · rintro ⟨sameName, isDefined⟩
        have sameField := indexName_inj sameName
        subst sameField
        rw [if_pos ⟨rfl, rfl, rfl⟩] at isDefined
        rw [isDefined]
        rfl
    · rw [Function.update_of_ne atName, holds]
      apply and_congr_right
      rintro rfl
      have otherField : ¬ (space = space ∧ into = into ∧ name = field) := by
        rintro ⟨_, _, rfl⟩
        exact atName rfl
      rw [if_neg otherField]
  · have elsewhere : ¬ (space = ns ∧ into = coll ∧ name = field) := by
      rintro ⟨rfl, rfl, _⟩
      exact atKey rfl
    rw [Function.update_of_ne atKey, if_neg elsewhere]
    exact holds ns coll other field kind

theorem HoldsDefinitions.execute {P : Platform} {engine : DatabaseEngine}
    {history : List (String × Statement)} (holds : HoldsDefinitions engine history)
    (moments : Nat -> Moment) (statement : Statement) (ns : String) :
    HoldsDefinitions (execute P moments statement ns engine).1 (history ++ [(ns, statement)]) := by
  by_cases nothing : DefinesNothing statement
  · intro space coll name field kind
    rw [execute_definitions nothing, definedBy_append, definedAfter_nothing nothing]
    exact holds space coll name field kind
  · cases statement with
    | createIndex coll field indexType =>
        exact @HoldsDefinitions.step _ _ _ holds ns coll field (.createIndex coll field indexType)
          (some (kindOf indexType)) (definitions_createIndex (moments 0) coll field indexType engine)
          (fun _ _ _ _ => rfl)
    | dropIndex coll field =>
        exact @HoldsDefinitions.step _ _ _ holds ns coll field (.dropIndex coll field) none
          (definitions_dropIndex coll field engine) (fun _ _ _ _ => rfl)
    | _ => exact absurd trivial nothing

/-- An engine that has just opened a directory has no indexes. -/
theorem openEngine_definitions {P : Platform} {dir : WalDir} {syncMode : SyncMode} {limit : Nat}
    {engine : DatabaseEngine} (opens : (openEngine P dir syncMode limit).2 = .ok engine)
    (key : CollectionKey) (name : String) : Definitions engine key name = none := by
  rw [openEngine] at opens
  split at opens
  · cases opens
  · rename_i recovered _
    cases opens
    rw [Definitions, managerOf, ValueMap.lookup_mapValues]
    cases recovered.collections.lookup key with
    | none => rfl
    | some store =>
        change definitionAt (IndexManager.new.rebuild (documents store)) name = none
        rw [definitionAt, IndexManager.get_rebuild]
        rfl

theorem SequentialRun.holds {P : Platform} {engine : DatabaseEngine}
    {history : List (String × Statement)} (run : SequentialRun P engine history) :
    HoldsDefinitions engine history := by
  induction run with
  | opened opens =>
      intro ns coll name field kind
      rw [openEngine_definitions opens]
      constructor
      · exact nofun
      · rintro ⟨_, impossible⟩
        cases impossible
  | statement run returns ih => exact ih.execute _ _ _
  | rearranged run same ih =>
      intro ns coll name field kind
      rw [Definitions, same.indexes]
      exact ih ns coll name field kind

/-! ## Restarts -/

theorem definitions_reopened {P : Platform} {dir : WalDir} {syncMode : SyncMode} {limit : Nat}
    {engine : DatabaseEngine} (opens : (openEngine P dir syncMode limit).2 = .ok engine)
    (key : CollectionKey) : definitions (managerOf engine.indexes key) = ∅ := by
  rw [Set.eq_empty_iff_forall_notMem]
  rintro definition ⟨name, isDefinition⟩
  have nothing := openEngine_definitions opens key name
  cases nothing.symm.trans isDefinition

/-- The definitions survive a restart exactly when there are none: every index that the
run created, in whatever namespace and collection, has been dropped.  Reopening the
directory succeeds, and begins with no indexes.  -/
theorem indexes_survive_iff {P : Platform} {engine next : DatabaseEngine}
    {history : List (String × Statement)} {syncMode : SyncMode} {limit : Nat}
    (run : SequentialRun P engine history)
    (reopens : (openEngine P (leftBehind engine.wal) syncMode limit).2 = .ok next) :
    IndexesSurvive engine next <->
      forall ns coll field, definedBy ns coll field history = none := by
  have holds := run.holds
  constructor
  · intro survive ns coll field
    rw [Option.eq_none_iff_forall_not_mem]
    intro kind isDefined
    have before : (field, kind) ∈ definitions (managerOf engine.indexes (ns, coll)) :=
      ⟨indexName coll field, (holds ns coll _ field kind).mpr ⟨rfl, isDefined⟩⟩
    rw [← survive.definitions, definitions_reopened reopens] at before
    exact before
  · intro dropped
    constructor
    · rintro ⟨ns, coll⟩
      rw [definitions_reopened reopens, eq_comm, Set.eq_empty_iff_forall_notMem]
      rintro ⟨field, kind⟩ ⟨name, isDefinition⟩
      have isDefined := ((holds ns coll name field kind).mp isDefinition).2
      rw [dropped] at isDefined
      cases isDefined
    · intro key name index found
      have defined : Definitions next key name = some (index.field, index.kind) := by
        rw [Definitions, definitionAt, found]
        rfl
      rw [openEngine_definitions reopens] at defined
      cases defined

/-! ## A created index -/

/-- The engine on an empty directory after `CREATE INDEX hash ON users(age)`. -/
def indexedEngine : DatabaseEngine :=
  (execute samplePlatform quietMoments (.createIndex "users" "age" .hash) "default"
    (emptyEngine 4096)).1

theorem indexedEngine_run : SequentialRun samplePlatform indexedEngine
    [("default", .createIndex "users" "age" .hash)] :=
  SequentialRun.statement (.opened (openEngine_empty samplePlatform 4096)) rfl

theorem leftBehind_empty : leftBehind (emptyEngine 4096).wal = (emptyEngine 4096).wal.dir := by
  simp only [leftBehind, emptyEngine, WriteAheadLog.openDir, discoverSegments_empty]
  rfl

/-- Its directory is one that opens. -/
theorem indexedEngine_reopens : Exists fun next =>
    (openEngine samplePlatform (leftBehind indexedEngine.wal) .always 4096).2 = .ok next := by
  have inStep : InStep samplePlatform (emptyEngine 4096) :=
    openEngine_intact (intact_empty samplePlatform) (openEngine_empty samplePlatform 4096)
  rcases inStep.reopen with ⟨files, state, recovers, _⟩
  rw [← leftBehind_empty] at recovers
  have sameLog : indexedEngine.wal = (emptyEngine 4096).wal := rfl
  rw [sameLog, openEngine, recovers]
  exact ⟨_, rfl⟩

theorem created_index_lost : Exists fun next =>
    SequentialRun samplePlatform indexedEngine [("default", .createIndex "users" "age" .hash)] ∧
      (openEngine samplePlatform (leftBehind indexedEngine.wal) .always 4096).2 = .ok next ∧
      ¬ IndexesSurvive indexedEngine next := by
  rcases indexedEngine_reopens with ⟨next, reopens⟩
  refine ⟨next, indexedEngine_run, reopens, ?_⟩
  intro survive
  have defined : ("age", IndexKind.hash) ∈
      definitions (managerOf indexedEngine.indexes ("default", "users")) :=
    ⟨"idx_users_age", by decide +kernel⟩
  rw [← survive.definitions, definitions_reopened reopens] at defined
  exact defined

theorem indexes_survive_iff_sample : Exists fun next =>
    (openEngine samplePlatform (leftBehind indexedEngine.wal) .always 4096).2 = .ok next ∧
      (IndexesSurvive indexedEngine next <-> forall ns coll field,
        definedBy ns coll field [("default", .createIndex "users" "age" .hash)] = none) := by
  rcases indexedEngine_reopens with ⟨next, reopens⟩
  exact ⟨next, reopens, indexes_survive_iff indexedEngine_run reopens⟩

end Server
end NovaDb
