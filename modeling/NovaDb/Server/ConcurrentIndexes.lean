import NovaDb.Server.Interleaving
import NovaDb.Server.IndexMaintenance

namespace NovaDb
namespace Server

open Core Foundation Index Query Storage DatabaseEngine

/-!
# Interleaved writes and indexes

An INSERT stores its document and tells the indexes in a later step.  In between
the indexes trail the store by that document.  As long as no UPDATE or REMOVE
touches the document in that time, and no INSERT stores over another document,
the indexes lack nothing else, have nothing too much, and reflect the store when
no request is in flight.  CREATE INDEX and DROP INDEX are single critical sections
and may come at any time.
-/

/-! ## Indexes that trail a store -/

/-- The index has nothing but the values of the stored documents, and lacks none
but values of the missing ids. -/
structure Trails (missing : DocumentId -> Prop) (store : DocumentStore) (index : SecondaryIndex) :
    Prop where
  wellFormed : index.WellFormed
  sound : forall {value id}, index.Has value id ->
    Exists fun doc => store.lookup id = some doc ∧ doc.fieldValue index.field = some value
  complete : forall {value id doc}, ¬ missing id -> store.lookup id = some doc ->
    doc.fieldValue index.field = some value -> index.Has value id

def AllTrail (missing : DocumentId -> Prop) (store : DocumentStore) (manager : IndexManager) :
    Prop :=
  forall name index, manager.get name = some index -> Trails missing store index

section Trails

variable {missing still : DocumentId -> Prop} {store changed : DocumentStore}
  {index next : SecondaryIndex} {manager : IndexManager}

theorem trails_of_reflects (wellFormed : index.WellFormed) (reflects : Reflects store index) :
    Trails missing store index := by
  refine ⟨wellFormed, fun has => (reflects _ _).mp has, ?_⟩
  intro value id doc _ stored isValue
  exact (reflects value id).mpr ⟨doc, stored, isValue⟩

theorem Trails.reflects (trails : Trails missing store index) (nothing : forall id, ¬ missing id) :
    Reflects store index := by
  intro value id
  constructor
  · exact trails.sound
  · rintro ⟨doc, stored, isValue⟩
    exact trails.complete (nothing id) stored isValue

theorem Trails.follows (trails : Trails missing store index) (keyed : Keyed store)
    {id : DocumentId} {doc : Document} (present : ¬ missing id)
    (stored : store.lookup id = some doc) : index.Follows doc := by
  intro value
  rw [keyed id doc stored]
  constructor
  · intro has
    rcases trails.sound has with ⟨other, found, isValue⟩
    rw [stored] at found
    rw [Option.some.inj found]
    exact isValue
  · exact trails.complete present stored

/-- A change of the store and the index at one id. -/
theorem Trails.change (trails : Trails missing store index) {id : DocumentId}
    (wellFormed : next.WellFormed) (sameField : next.field = index.field)
    (has : forall {value other}, next.Has value other <->
      (other ≠ id ∧ index.Has value other) ∨ (other = id ∧ Exists fun doc =>
        changed.lookup id = some doc ∧ doc.fieldValue index.field = some value))
    (elsewhere : forall other, other ≠ id -> changed.lookup other = store.lookup other)
    (kept : forall other, other ≠ id -> missing other -> still other) :
    Trails still changed next := by
  refine ⟨wellFormed, ?_, ?_⟩
  · intro value other isIn
    rw [sameField]
    rcases has.mp isIn with ⟨different, before⟩ | ⟨rfl, found⟩
    · rw [elsewhere other different]
      exact trails.sound before
    · exact found
  · intro value other doc present stored isValue
    rw [sameField] at isValue
    apply has.mpr
    by_cases same : other = id
    · subst same
      exact Or.inr ⟨rfl, doc, stored, isValue⟩
    · rw [elsewhere other same] at stored
      exact Or.inl ⟨same, trails.complete (fun before => present (kept other same before)) stored
        isValue⟩

/-- A new document is stored, and its id is missing from then on. -/
theorem AllTrail.stored (trail : AllTrail missing store manager) {doc : Document}
    (fresh : store.lookup doc.id = none) (kept : forall other, missing other -> still other)
    (marked : still doc.id) : AllTrail still (store.insert doc.id doc) manager := by
  intro name index found
  have trails := trail name index found
  refine ⟨trails.wellFormed, ?_, ?_⟩
  · intro value id has
    rcases trails.sound has with ⟨other, stored, isValue⟩
    refine ⟨other, ?_, isValue⟩
    rw [AList.lookup_insert_ne]
    · exact stored
    · rintro rfl
      rw [fresh] at stored
      nomatch stored
  · intro value id other present stored isValue
    have different : id ≠ doc.id := by
      rintro rfl
      exact present marked
    rw [AList.lookup_insert_ne different] at stored
    exact trails.complete (fun before => present (kept id before)) stored isValue

/-- The indexes are told of a stored document, and its id is no longer missing. -/
theorem AllTrail.indexed (trail : AllTrail missing store manager) {doc : Document}
    (free : Value.floatFreeMembers doc.fields = true) (stored : store.lookup doc.id = some doc)
    (kept : forall other, other ≠ doc.id -> missing other -> still other) :
    AllTrail still store (manager.onInsert doc) := by
  intro name next found
  rw [IndexManager.get_onInsert, Option.map_eq_some_iff] at found
  rcases found with ⟨index, isIndex, rfl⟩
  have trails := trail name index isIndex
  rcases SecondaryIndex.addDocument_spec trails.wellFormed
      (fun value => floatFree_fieldValue free : SecondaryIndex.IndexesFloatFree index.field doc) with
    ⟨added, hasAdded⟩
  refine trails.change added (SecondaryIndex.addDocument_field _ _) ?_ (fun _ _ => rfl) kept
  intro value other
  rw [hasAdded]
  constructor
  · rintro (before | ⟨isValue, rfl⟩)
    · by_cases same : other = doc.id
      · subst same
        exact Or.inr ⟨rfl, trails.sound before⟩
      · exact Or.inl ⟨same, before⟩
    · exact Or.inr ⟨rfl, doc, stored, isValue⟩
  · rintro (⟨_, before⟩ | ⟨rfl, found, isFound, isValue⟩)
    · exact Or.inl before
    · rw [stored] at isFound
      rw [← Option.some.inj isFound] at isValue
      exact Or.inr ⟨isValue, rfl⟩

/-- A document that is not missing is replaced. -/
theorem AllTrail.replaced (trail : AllTrail missing store manager) (tidy : TidyStore store)
    {id : DocumentId} {before after : Document} (present : ¬ missing id)
    (stored : store.lookup id = some before) (sameId : after.id = before.id)
    (free : Value.floatFreeMembers after.fields = true) :
    AllTrail missing (store.replace id after) (manager.onUpdate before after) := by
  have isId : before.id = id := tidy.keyed id before stored
  have member : id ∈ store := AList.lookup_isSome.mp (by rw [stored]; rfl)
  intro name next found
  rw [IndexManager.get_onUpdate, Option.map_eq_some_iff] at found
  rcases found with ⟨index, isIndex, rfl⟩
  have trails := trail name index isIndex
  rcases SecondaryIndex.replaceDocument_spec trails.wellFormed sameId
      (tidy.indexesFloatFree stored index.field) (fun value => floatFree_fieldValue free)
      (trails.follows tidy.keyed present stored) with ⟨replaced, hasReplaced⟩
  refine trails.change replaced (SecondaryIndex.replaceDocument_field _ _ _) ?_
    (fun other different => ValueMap.lookup_replace_ne different _ _) (fun _ _ before => before)
  intro value other
  rw [hasReplaced, sameId, isId, ValueMap.lookup_replace after member]
  constructor
  · rintro (elsewhere | ⟨isValue, rfl⟩)
    · exact Or.inl elsewhere
    · exact Or.inr ⟨rfl, after, rfl, isValue⟩
  · rintro (elsewhere | ⟨rfl, found, isFound, isValue⟩)
    · exact Or.inl elsewhere
    · rw [← Option.some.inj isFound] at isValue
      exact Or.inr ⟨isValue, rfl⟩

/-- A document that is not missing is removed. -/
theorem AllTrail.removed (trail : AllTrail missing store manager) (tidy : TidyStore store)
    {id : DocumentId} {doc : Document} (present : ¬ missing id)
    (stored : store.lookup id = some doc) :
    AllTrail missing (store.erase id) (manager.onRemove doc) := by
  have isId : doc.id = id := tidy.keyed id doc stored
  intro name next found
  rw [IndexManager.get_onRemove, Option.map_eq_some_iff] at found
  rcases found with ⟨index, isIndex, rfl⟩
  have trails := trail name index isIndex
  rcases SecondaryIndex.dropDocument_spec trails.wellFormed
      (tidy.indexesFloatFree stored index.field) (trails.follows tidy.keyed present stored) with
    ⟨dropped, hasDropped⟩
  refine trails.change dropped (SecondaryIndex.dropDocument_field _ _) ?_
    (fun other different => AList.lookup_erase_ne different) (fun _ _ before => before)
  intro value other
  rw [hasDropped, isId, AList.lookup_erase]
  constructor
  · exact Or.inl
  · rintro (elsewhere | ⟨_, found, isFound, _⟩)
    · exact elsewhere
    · nomatch isFound

end Trails

/-! ## Critical sections -/

theorem TidyStore.replace {store : DocumentStore} (tidy : TidyStore store) {id : DocumentId}
    {doc : Document} (member : id ∈ store) (isId : doc.id = id)
    (free : Value.floatFreeMembers doc.fields = true) : TidyStore (store.replace id doc) := by
  have either : forall other found, (store.replace id doc).lookup other = some found ->
      (other = id ∧ doc = found) ∨ store.lookup other = some found := by
    intro other found isFound
    by_cases same : other = id
    · subst same
      rw [ValueMap.lookup_replace doc member] at isFound
      exact Or.inl ⟨rfl, Option.some.inj isFound⟩
    · rw [ValueMap.lookup_replace_ne same] at isFound
      exact Or.inr isFound
  constructor
  · intro other found isFound
    rcases either other found isFound with ⟨rfl, rfl⟩ | before
    · exact isId
    · exact tidy.keyed other found before
  · intro other found isFound
    rcases either other found isFound with ⟨rfl, rfl⟩ | before
    · exact free
    · exact tidy.free other found before

/-- In the middle of a critical section: what it keeps of the store it found. -/
structure SectionTrails (missing : DocumentId -> Prop) (found : DocumentStore) (state : Section) :
    Prop where
  tidy : TidyStore state.store
  trail : AllTrail missing state.store state.manager
  held : forall id, missing id -> state.store.lookup id = found.lookup id

section Sections

variable {P : Platform} {ns coll : String} {missing : DocumentId -> Prop} {found : DocumentStore}
  {moments : Nat -> Moment} {turn : Nat} {state next final : Section} {changes : List Change}
  {change : Option Change} {moment : Moment}

/-- One document of an UPDATE that returns. -/
theorem SectionTrails.updateOne {assignments : List Assignment} {filter : Option Expr}
    {entry : Sigma fun _ : DocumentId => Document} (trails : SectionTrails missing found state)
    (stored : state.store.lookup entry.1 = some entry.2)
    (present : Evaluator.matchesFilter P filter entry.2 = .ok true -> ¬ missing entry.1)
    (ran : updateOne P ns coll assignments filter moment entry state = (next, .ok change))
    (free : forall doc, next.store.lookup entry.1 = some doc ->
      Value.floatFreeMembers doc.fields = true) :
    SectionTrails missing found next := by
  cases updateOne_exit ran with
  | passedOver => exact trails
  | @logged after payload wal sequence matched assigns encoded logs =>
      have member : entry.1 ∈ state.store := AList.lookup_isSome.mp (by rw [stored]; rfl)
      have sameId : after.id = entry.2.id := by
        have kept := Evaluator.applyAssignments_id P moment.clock entry.2 assignments
        rw [assigns] at kept
        exact kept
      have isId : after.id = entry.1 := sameId.trans (trails.tidy.keyed entry.1 entry.2 stored)
      have afterFree := free after (ValueMap.lookup_replace after member)
      refine ⟨trails.tidy.replace member isId afterFree,
        trails.trail.replaced trails.tidy (present matched) stored sameId afterFree, ?_⟩
      intro id isMissing
      rw [← trails.held id isMissing]
      apply ValueMap.lookup_replace_ne
      rintro rfl
      exact present matched isMissing

/-- An UPDATE that returns. -/
theorem SectionTrails.update {assignments : List Assignment} {filter : Option Expr}
    {entries : List (Sigma fun _ : DocumentId => Document)} (distinct : entries.NodupKeys)
    (stored : forall entry, entry ∈ entries -> state.store.lookup entry.1 = some entry.2)
    (present : forall entry, entry ∈ entries ->
      Evaluator.matchesFilter P filter entry.2 = .ok true -> ¬ missing entry.1)
    (trails : SectionTrails missing found state)
    (ran : runSection (DatabaseEngine.updateOne P ns coll assignments filter) moments turn entries
      state = (final, .ok changes))
    (free : EveryDocument final.store (fun doc => Value.floatFreeMembers doc.fields = true)) :
    SectionTrails missing found final := by
  refine updateOnes_keep distinct stored ?_ ran trails
  intro moment entry state next change member isStored one kept trails
  apply trails.updateOne isStored (present entry member) one
  intro doc isDoc
  exact free entry.1 doc (kept.trans isDoc)

/-- One document of a REMOVE that returns. -/
theorem SectionTrails.removeOne {id : DocumentId} (trails : SectionTrails missing found state)
    (present : ¬ missing id)
    (ran : removeOne P ns coll moment id state = (next, .ok change)) :
    SectionTrails missing found next := by
  cases removeOne_exit ran with
  | absent => exact trails
  | @logged doc wal sequence stored logs =>
      refine ⟨trails.tidy.erase id, trails.trail.removed trails.tidy present stored, ?_⟩
      intro other isMissing
      rw [← trails.held other isMissing]
      apply AList.lookup_erase_ne
      rintro rfl
      exact present isMissing

/-- A REMOVE that returns. -/
theorem SectionTrails.remove {targets : List DocumentId}
    (present : forall id, id ∈ targets -> ¬ missing id)
    (trails : SectionTrails missing found state)
    (ran : runSection (DatabaseEngine.removeOne P ns coll) moments turn targets state =
      (final, .ok changes)) :
    SectionTrails missing found final := by
  refine runSection_keeps_ok ?_ ran trails
  intro moment id state next change member one trails
  exact trails.removeOne (present id member) one

end Sections

/-! ## Systems with index statements -/

/-- A request arrives or takes a step, or an index is created or dropped in one
critical section. -/
inductive Event where
  | request (action : Action)
  | createIndex (moment : Moment) (ns coll field : String) (indexType : IndexType)
  | dropIndex (ns coll field : String)

def System.handle (P : Platform) (system : System) : Event -> System
  | .request action => system.perform P action
  | .createIndex moment ns coll field indexType =>
      { system with engine := (executeCreateIndex moment ns coll field indexType system.engine).1 }
  | .dropIndex ns coll field =>
      { system with engine := (executeDropIndex ns coll field system.engine).1 }

/-- The document of an INSERT between its store insert and its index insert. -/
def Task.unindexed : Task -> Option (Place × Document)
  | ⟨.insert ns coll doc, .stored _⟩ => some (((ns, coll), doc.id), doc)
  | _ => none

/-- Some INSERT of the id is between its store insert and its index insert. -/
def awaitsIndexing (tasks : List Task) (place : Place) : Bool :=
  tasks.any (fun task =>
    match task.unindexed with
    | some claim => decide (claim.1 = place)
    | none => false)

/-- The filter selects the document. -/
def selects (P : Platform) (filter : Option Expr) (doc : Document) : Bool :=
  match Evaluator.matchesFilter P filter doc with
  | .ok matched => matched
  | .error _ => false

/-- The next step of the task stores over a document, or changes or removes one
that the indexes have not been told of. -/
def Task.disturbs (P : Platform) (system : System) : Task -> Bool
  | ⟨.insert ns coll doc, .logged _⟩ => system.engine.hasDocument (ns, coll) doc.id
  | ⟨.update ns coll _ filter, .waiting⟩ | ⟨.remove ns coll filter, .waiting⟩ =>
      (storeOf system.engine.collections (ns, coll)).entries.any (fun entry =>
        selects P filter entry.2 && awaitsIndexing system.tasks ((ns, coll), entry.1))
  | _ => false

def System.undisturbed (P : Platform) (system : System) : Event -> Bool
  | .request (.advance index _) =>
      match system.tasks[index]? with
      | some task => !task.disturbs P system
      | none => true
  | _ => true

/-- The INSERTs bring no floats, and no UPDATE or REMOVE is answered with an
error. -/
def Task.sound : Task -> Bool
  | ⟨.insert _ _ doc, _⟩ => Value.floatFreeMembers doc.fields
  | ⟨_, progress⟩ => !progress.stopped

/-- No stored document holds a float, and every request so far does well. -/
def System.sound (system : System) : Bool :=
  system.engine.collections.entries.all (fun collection =>
      collection.2.entries.all (fun entry => Value.floatFreeMembers entry.2.fields)) &&
    system.tasks.all Task.sound

/-- The systems reached from a start by permitted events, in any order, with the
stores iterating in any order. -/
inductive IndexedRun (P : Platform) (permitted : System -> Event -> Bool) (start : System) :
    System -> Prop where
  | start : IndexedRun P permitted start start
  | handle {system : System} {event : Event} (run : IndexedRun P permitted start system)
      (permits : permitted system event = true) :
      IndexedRun P permitted start (system.handle P event)
  | rearranged {system : System} {engine : DatabaseEngine}
      (run : IndexedRun P permitted start system) (same : Rearranged system.engine engine) :
      IndexedRun P permitted start { system with engine }

/-- Every index of every collection has exactly the pairs of the stored documents. -/
def Settled (engine : DatabaseEngine) : Prop :=
  forall key name index, (managerOf engine.indexes key).get name = some index ->
    index.pairs.Perm (indexedPairs index.field (documents (storeOf engine.collections key)))

/-! ## The invariant -/

/-- The indexes trail the stores by the documents of the INSERTs in between. -/
structure Trailing (window : Contents) (engine : DatabaseEngine) (tasks : List Task) : Prop where
  describes : Claims.Describes (tasks.map Task.unindexed) window
  tidy : forall key, TidyStore (storeOf engine.collections key)
  trail : forall key, AllTrail (fun id => (window (key, id)).isSome = true)
    (storeOf engine.collections key) (managerOf engine.indexes key)
  held : forall place doc, window place = some doc -> contentsOf engine.collections place = some doc

section Steps

variable {P : Platform} {window : Contents} {system : System} {engine : DatabaseEngine}
  {tasks : List Task} {index : Nat} {request : Request} {progress next : Progress}

/-- An INSERT is in the window exactly if it is between its two inserts. -/
theorem Trailing.awaitsIndexing_iff (trailing : Trailing window engine tasks) (place : Place) :
    awaitsIndexing tasks place = true <-> (window place).isSome = true := by
  rw [awaitsIndexing, List.any_eq_true]
  constructor
  · rintro ⟨task, member, claims⟩
    cases claim : task.unindexed with
    | none =>
        rw [claim] at claims
        nomatch claims
    | some held =>
        rw [claim] at claims
        have same : held.1 = place := decide_eq_true_iff.mp claims
        rcases List.getElem?_of_mem member with ⟨index, isTask⟩
        have isClaim : (tasks.map Task.unindexed)[index]? = some (some (place, held.2)) := by
          rw [List.getElem?_map, isTask, ← same]
          exact congrArg some claim
        rw [trailing.describes.claimed isClaim]
        rfl
  · intro isSome
    rcases Option.isSome_iff_exists.mp isSome with ⟨doc, inWindow⟩
    rcases trailing.describes.only inWindow with ⟨index, isClaim⟩
    rw [List.getElem?_map] at isClaim
    rcases Option.map_eq_some_iff.mp isClaim with ⟨task, isTask, claim⟩
    refine ⟨task, List.mem_of_getElem? isTask, ?_⟩
    rw [claim]
    exact decide_eq_true rfl

/-- A change of one collection and its indexes. -/
theorem Trailing.atKey (trailing : Trailing window system.engine system.tasks)
    {after : Contents} (key : CollectionKey)
    (describes : Claims.Describes (tasks.map Task.unindexed) after)
    (elsewhere : forall other, other ≠ key ->
      storeOf engine.collections other = storeOf system.engine.collections other ∧
        managerOf engine.indexes other = managerOf system.engine.indexes other ∧
          forall id, after (other, id) = window (other, id))
    (tidy : TidyStore (storeOf engine.collections key))
    (trail : AllTrail (fun id => (after (key, id)).isSome = true)
      (storeOf engine.collections key) (managerOf engine.indexes key))
    (held : forall id doc, after (key, id) = some doc ->
      (storeOf engine.collections key).lookup id = some doc) :
    Trailing after engine tasks := by
  refine ⟨describes, ?_, ?_, ?_⟩
  · intro other
    by_cases same : other = key
    · rw [same]
      exact tidy
    · rw [(elsewhere other same).1]
      exact trailing.tidy other
  · intro other
    by_cases same : other = key
    · rw [same]
      exact trail
    · rcases elsewhere other same with ⟨sameStore, sameManager, sameWindow⟩
      simp only [sameStore, sameManager, sameWindow]
      exact trailing.trail other
  · rintro ⟨other, id⟩ doc inWindow
    by_cases same : other = key
    · subst same
      exact held id doc inWindow
    · rcases elsewhere other same with ⟨sameStore, _, sameWindow⟩
      rw [sameWindow] at inWindow
      have before := trailing.held (other, id) doc inWindow
      rw [contentsOf] at before ⊢
      rw [sameStore]
      exact before

/-- A step that changes neither collections nor indexes nor the window. -/
theorem Trailing.idle (trailing : Trailing window system.engine system.tasks)
    (isTask : system.tasks[index]? = some ⟨request, progress⟩)
    (sameClaim : Task.unindexed ⟨request, next⟩ = Task.unindexed ⟨request, progress⟩)
    (collections : engine.collections = system.engine.collections)
    (indexes : engine.indexes = system.engine.indexes) :
    Trailing window engine (system.tasks.set index ⟨request, next⟩) := by
  refine ⟨?_, ?_, ?_, ?_⟩
  · rw [List.map_set, sameClaim]
    exact trailing.describes.keep (System.map_task Task.unindexed isTask)
  · rw [collections]
    exact trailing.tidy
  · rw [collections, indexes]
    exact trailing.trail
  · rw [collections]
    exact trailing.held

/-- The steps of an INSERT. -/
theorem Trailing.insert {ns coll : String} {doc : Document} {moment : Moment}
    (trailing : Trailing window system.engine system.tasks)
    (isTask : system.tasks[index]? = some ⟨.insert ns coll doc, progress⟩)
    (free : Value.floatFreeMembers doc.fields = true)
    (fresh : forall sequence, progress = .logged sequence ->
      system.engine.hasDocument (ns, coll) doc.id = false)
    (steps : Request.advanceInsert P moment ns coll doc progress system.engine = (engine, next)) :
    Exists fun after =>
      Trailing after engine (system.tasks.set index ⟨.insert ns coll doc, next⟩) := by
  have claim := System.map_task Task.unindexed isTask
  cases advanceInsert_step steps with
  | refused | checked | unlogged | logged | answered | idle | done =>
      exact ⟨window, trailing.idle isTask rfl rfl rfl⟩
  | @stored sequence =>
      have absent : (storeOf system.engine.collections (ns, coll)).lookup doc.id = none := by
        have missing := fresh sequence rfl
        rw [hasDocument, decide_eq_false_iff_not] at missing
        exact AList.lookup_eq_none.mpr missing
      have unclaimed : window ((ns, coll), doc.id) = none := by
        cases inWindow : window ((ns, coll), doc.id) with
        | none => rfl
        | some other =>
            have stored := trailing.held _ other inWindow
            rw [contentsOf, absent] at stored
            cases stored
      refine ⟨Function.update window ((ns, coll), doc.id) (some doc),
        trailing.atKey (ns, coll) ?_ ?_ ?_ ?_ ?_⟩
      · rw [List.map_set]
        exact trailing.describes.take doc claim unclaimed
      · intro other different
        refine ⟨storeOf_insert_ne different _ _, rfl, fun id => ?_⟩
        exact Function.update_of_ne (fun same => different (congrArg Prod.fst same)) _ _
      · rw [storeInsert, storeOf_insert]
        exact (trailing.tidy (ns, coll)).insert free
      · rw [storeInsert, storeOf_insert]
        refine (trailing.trail (ns, coll)).stored absent ?_ ?_
        · intro id inWindow
          by_cases same : id = doc.id
          · rw [same, Function.update_self]
            rfl
          · rw [Function.update_of_ne (fun both => same (congrArg Prod.snd both))]
            exact inWindow
        · rw [Function.update_self]
          rfl
      · intro id other inWindow
        rw [storeInsert, storeOf_insert]
        by_cases same : id = doc.id
        · subst same
          rw [Function.update_self] at inWindow
          rw [AList.lookup_insert]
          exact inWindow
        · rw [Function.update_of_ne (fun both => same (congrArg Prod.snd both))] at inWindow
          rw [AList.lookup_insert_ne same]
          exact trailing.held ((ns, coll), id) other inWindow
  | @indexed sequence =>
      have stored : (storeOf system.engine.collections (ns, coll)).lookup doc.id = some doc :=
        trailing.held _ doc (trailing.describes.claimed claim)
      have elsewhere : forall id, id ≠ doc.id ->
          Function.update window ((ns, coll), doc.id) none ((ns, coll), id) =
            window ((ns, coll), id) := by
        intro id different
        exact Function.update_of_ne (fun same => different (congrArg Prod.snd same)) _ _
      refine ⟨Function.update window ((ns, coll), doc.id) none,
        trailing.atKey (ns, coll) ?_ ?_ (trailing.tidy (ns, coll)) ?_ ?_⟩
      · rw [List.map_set]
        exact trailing.describes.release claim
      · intro other different
        refine ⟨rfl, managerOf_insert_ne different _ _, fun id => ?_⟩
        exact Function.update_of_ne (fun same => different (congrArg Prod.fst same)) _ _
      · rw [indexInsert, managerOf_insert]
        refine (trailing.trail (ns, coll)).indexed free stored ?_
        intro id different inWindow
        rw [elsewhere id different]
        exact inWindow
      · intro id other inWindow
        by_cases same : id = doc.id
        · subst same
          rw [Function.update_self] at inWindow
          cases inWindow
        · rw [elsewhere id same] at inWindow
          exact trailing.held ((ns, coll), id) other inWindow

theorem Trailing.enter (trailing : Trailing window system.engine system.tasks)
    (key : CollectionKey) :
    SectionTrails (fun id => (window (key, id)).isSome = true)
      (storeOf system.engine.collections key) (system.engine.enter key) :=
  ⟨trailing.tidy key, trailing.trail key, fun _ _ => rfl⟩

/-- Leaving a critical section. -/
theorem Trailing.leave (trailing : Trailing window system.engine system.tasks)
    {key : CollectionKey} {state : Section}
    (kept : SectionTrails (fun id => (window (key, id)).isSome = true)
      (storeOf system.engine.collections key) state)
    (isTask : system.tasks[index]? = some ⟨request, progress⟩)
    (sameClaim : Task.unindexed ⟨request, next⟩ = Task.unindexed ⟨request, progress⟩) :
    Trailing window (system.engine.leave key state)
      (system.tasks.set index ⟨request, next⟩) := by
  refine trailing.atKey key ?_ ?_ ?_ ?_ ?_
  · rw [List.map_set, sameClaim]
    exact trailing.describes.keep (System.map_task Task.unindexed isTask)
  · intro other different
    exact ⟨storeOf_insert_ne different _ _, managerOf_insert_ne different _ _, fun _ => rfl⟩
  · rw [DatabaseEngine.leave, storeOf_insert]
    exact kept.tidy
  · rw [DatabaseEngine.leave, storeOf_insert, managerOf_insert]
    exact kept.trail
  · intro id doc inWindow
    rw [DatabaseEngine.leave, storeOf_insert, kept.held id (by rw [inWindow]; rfl)]
    exact trailing.held (key, id) doc inWindow

/-- The steps of an UPDATE or REMOVE, given what its critical section keeps. -/
theorem Trailing.section (trailing : Trailing window system.engine system.tasks)
    (key : CollectionKey)
    (isTask : system.tasks[index]? = some ⟨request, progress⟩)
    (noClaim : forall progress, Task.unindexed ⟨request, progress⟩ = none)
    {enters : DatabaseEngine -> DatabaseEngine × Except Stop (List Change)}
    (step : SectionStep enters system.engine progress engine next)
    (succeeds : forall stop, next ≠ .answered (.error stop))
    (keeps : forall changes, progress = .waiting -> enters system.engine = (engine, .ok changes) ->
      Exists fun state => engine = system.engine.leave key state ∧
        SectionTrails (fun id => (window (key, id)).isSome = true)
          (storeOf system.engine.collections key) state) :
    Trailing window engine (system.tasks.set index ⟨request, next⟩) := by
  have sameClaim : Task.unindexed ⟨request, next⟩ = Task.unindexed ⟨request, progress⟩ := by
    rw [noClaim, noClaim]
  refine step.keeps (fun engine => Trailing window engine
    (system.tasks.set index ⟨request, next⟩)) succeeds ?_ ?_ (trailing.idle isTask sameClaim rfl rfl)
  · intro changes waiting ran
    rcases keeps changes waiting ran with ⟨state, rfl, kept⟩
    exact trailing.leave kept isTask sameClaim
  · intro events before
    exact ⟨before.describes, before.tidy, before.trail, before.held⟩

theorem System.sound_stores (sound : system.sound = true) (key : CollectionKey) :
    EveryDocument (storeOf system.engine.collections key)
      (fun doc => Value.floatFreeMembers doc.fields = true) := by
  rw [System.sound, Bool.and_eq_true, List.all_eq_true] at sound
  intro id doc stored
  cases found : system.engine.collections.lookup key with
  | none =>
      rw [storeOf, found] at stored
      cases stored
  | some store =>
      rw [storeOf, found] at stored
      have all := sound.1 ⟨key, store⟩ (AList.mem_lookup_iff.mp found)
      exact List.all_eq_true.mp all ⟨id, doc⟩ (AList.mem_lookup_iff.mp stored)

theorem System.sound_task (sound : system.sound = true) {task : Task}
    (isTask : system.tasks[index]? = some task) : task.sound = true := by
  rw [System.sound, Bool.and_eq_true, List.all_eq_true] at sound
  exact List.all_eq_true.mp sound.2 task (List.mem_of_getElem? isTask)

/-- What an undisturbed critical section selects is not in the window. -/
theorem Trailing.unselected {ns coll : String} {filter : Option Expr}
    (trailing : Trailing window system.engine system.tasks)
    (calm : (storeOf system.engine.collections (ns, coll)).entries.any (fun entry =>
      selects P filter entry.2 && awaitsIndexing system.tasks ((ns, coll), entry.1)) = false)
    {entry : Sigma fun _ : DocumentId => Document}
    (member : entry ∈ (storeOf system.engine.collections (ns, coll)).entries)
    (matched : Evaluator.matchesFilter P filter entry.2 = .ok true) :
    ¬ (window ((ns, coll), entry.1)).isSome = true := by
  rw [← trailing.awaitsIndexing_iff]
  have selected : selects P filter entry.2 = true := by rw [selects, matched]
  have outside := List.any_eq_false.mp calm entry member
  rw [selected, Bool.true_and] at outside
  exact outside

/-- Every undisturbed step of a request keeps the indexes trailing. -/
theorem Trailing.advance (trailing : Trailing window system.engine system.tasks)
    {moments : Nat -> Moment} (sound : (system.perform P (.advance index moments)).sound = true)
    (undisturbed : system.undisturbed P (.request (.advance index moments)) = true) :
    Exists fun after => Trailing after (system.perform P (.advance index moments)).engine
      (system.perform P (.advance index moments)).tasks := by
  cases isTask : system.tasks[index]? with
  | none =>
      rw [System.perform_absent index moments isTask]
      exact ⟨window, trailing⟩
  | some task =>
      rcases task with ⟨request, progress⟩
      simp only [System.undisturbed, isTask, Bool.not_eq_true'] at undisturbed
      cases steps : request.advance P moments progress system.engine with
      | mk engine next =>
          rw [System.perform_advance index moments isTask steps rfl] at sound ⊢
          have inside := (List.getElem?_eq_some_iff.mp isTask).1
          have taskSound := System.sound_task sound (List.getElem?_set_self inside)
          cases request with
          | insert ns coll doc =>
              refine trailing.insert isTask taskSound ?_ steps
              rintro sequence rfl
              exact undisturbed
          | update ns coll assignments filter =>
              refine ⟨window, trailing.section (ns, coll) isTask (fun _ => rfl)
                (advanceSection_step steps) ?_ ?_⟩
              · rintro stop rfl
                nomatch taskSound
              · rintro changes rfl ran
                rcases updateSection_loop ran with ⟨state, loop, rfl⟩
                refine ⟨state, rfl, (trailing.enter (ns, coll)).update (AList.nodupKeys _) ?_ ?_
                  loop ?_⟩
                · intro entry member
                  exact AList.mem_lookup_iff.mpr member
                · intro entry member matched
                  exact trailing.unselected undisturbed member matched
                · have stores := System.sound_stores sound (ns, coll)
                  rw [DatabaseEngine.leave, storeOf_insert] at stores
                  exact stores
          | remove ns coll filter =>
              refine ⟨window, trailing.section (ns, coll) isTask (fun _ => rfl)
                (advanceSection_step steps) ?_ ?_⟩
              · rintro stop rfl
                nomatch taskSound
              · rintro changes rfl ran
                cases isTargets : removeTargets P filter
                    (storeOf system.engine.collections (ns, coll)).entries with
                | error stop => nomatch removeSection_unresolved isTargets ran
                | ok targets =>
                    rcases removeSection_loop isTargets ran with ⟨state, loop, rfl⟩
                    refine ⟨state, rfl, (trailing.enter (ns, coll)).remove ?_ loop⟩
                    intro id member
                    rcases removeTargets_matched isTargets member with ⟨entry, inStore, rfl, matched⟩
                    exact trailing.unselected undisturbed inStore matched

/-- A created index has all stored documents, also those in the window. -/
theorem Trailing.createIndex (trailing : Trailing window system.engine system.tasks)
    (moment : Moment) (ns coll field : String) (indexType : IndexType) :
    Trailing window (executeCreateIndex moment ns coll field indexType system.engine).1 system.tasks := by
  refine trailing.atKey (ns, coll) trailing.describes ?_ (trailing.tidy (ns, coll)) ?_
    (fun id doc => trailing.held ((ns, coll), id) doc)
  · intro other different
    exact ⟨rfl, managerOf_insert_ne different _ _, fun _ => rfl⟩
  · rw [executeCreateIndex, managerOf_insert]
    intro name index found
    rw [IndexManager.addIndex, IndexManager.get] at found
    by_cases same : name = ((newIndex indexType (indexName coll field) field moment.hashState).populate
        (documents (storeOf system.engine.collections (ns, coll)))).name
    · subst same
      rw [AList.lookup_insert] at found
      rw [← Option.some.inj found, newIndex_eq]
      rcases reflects_populate (trailing.tidy (ns, coll)) (List.Perm.refl _)
        (newIndex indexType (indexName coll field) field moment.hashState).kind (indexName coll field)
        field moment.hashState with
        ⟨wellFormed, reflects⟩
      exact trails_of_reflects wellFormed reflects
    · rw [AList.lookup_insert_ne same] at found
      exact trailing.trail (ns, coll) name index found

theorem Trailing.dropIndex (trailing : Trailing window system.engine system.tasks)
    (ns coll field : String) :
    Trailing window (executeDropIndex ns coll field system.engine).1 system.tasks := by
  rw [executeDropIndex]
  cases isManager : system.engine.indexes.lookup (ns, coll) with
  | none => exact trailing
  | some manager =>
      refine trailing.atKey (ns, coll) trailing.describes ?_ (trailing.tidy (ns, coll)) ?_
        (fun id doc => trailing.held ((ns, coll), id) doc)
      · intro other different
        exact ⟨rfl, managerOf_insert_ne different _ _, fun _ => rfl⟩
      · rw [managerOf_insert]
        intro name index found
        have before := trailing.trail (ns, coll) name index
        rw [managerOf, isManager] at before
        rw [IndexManager.dropIndex, IndexManager.get] at found
        by_cases same : name = indexName coll field
        · subst same
          rw [AList.lookup_erase] at found
          cases found
        · rw [AList.lookup_erase_ne same] at found
          exact before found

theorem Trailing.rearranged (trailing : Trailing window system.engine system.tasks)
    (same : Rearranged system.engine engine) : Trailing window engine system.tasks := by
  have lookups : forall key id, (storeOf engine.collections key).lookup id =
      (storeOf system.engine.collections key).lookup id := by
    intro key id
    exact (AList.perm_lookup (same.stores key)).symm
  refine ⟨trailing.describes, ?_, ?_, ?_⟩
  · intro key
    constructor
    · intro id doc stored
      rw [lookups] at stored
      exact (trailing.tidy key).keyed id doc stored
    · intro id doc stored
      rw [lookups] at stored
      exact (trailing.tidy key).free id doc stored
  · intro key name index found
    rw [same.indexes] at found
    have trails := trailing.trail key name index found
    refine ⟨trails.wellFormed, ?_, ?_⟩
    · intro value id has
      rw [lookups]
      exact trails.sound has
    · intro value id doc present stored isValue
      rw [lookups] at stored
      exact trails.complete present stored isValue
  · intro place doc inWindow
    rw [← contentsOf_perm same.stores]
    exact trailing.held place doc inWindow

end Steps

/-! ## Runs -/

/-- Every index of every collection is in order and reflects its store. -/
def AllMaintained (engine : DatabaseEngine) : Prop :=
  forall key, Maintained ⟨storeOf engine.collections key, managerOf engine.indexes key⟩

/-- A run without floats and failures that is never disturbed. -/
abbrev CalmRun (P : Platform) (start : DatabaseEngine) : System -> Prop :=
  IndexedRun P (fun system event => (system.handle P event).sound && system.undisturbed P event)
    ⟨start, [], []⟩

theorem CalmRun.trailing {P : Platform} {start : DatabaseEngine} {system : System}
    (maintained : AllMaintained start) (run : CalmRun P start system) :
    Exists fun window => Trailing window system.engine system.tasks := by
  induction run with
  | start =>
      refine ⟨noContents, Claims.describes_nil, fun key => (maintained key).tidy, ?_, nofun⟩
      intro key name index found
      rcases (maintained key).allReflect name index found with ⟨wellFormed, reflects⟩
      exact trails_of_reflects wellFormed reflects
  | @handle system event run permits inductionHypothesis =>
      rcases inductionHypothesis with ⟨window, trailing⟩
      rcases (Bool.and_eq_true _ _).mp permits with ⟨sound, undisturbed⟩
      cases event with
      | request action =>
          cases action with
          | arrive request =>
              refine ⟨window, ?_, trailing.tidy, trailing.trail, trailing.held⟩
              exact System.describes_arrive P request (by cases request <;> rfl) trailing.describes
          | advance index moments => exact trailing.advance sound undisturbed
      | createIndex moment ns coll field indexType =>
          exact ⟨window, trailing.createIndex moment ns coll field indexType⟩
      | dropIndex ns coll field => exact ⟨window, trailing.dropIndex ns coll field⟩
  | rearranged run same inductionHypothesis =>
      rcases inductionHypothesis with ⟨window, trailing⟩
      exact ⟨window, trailing.rearranged same⟩

/-- In every run of concurrent requests in which no INSERT stores over a document
and no UPDATE or REMOVE touches a document that its INSERT has not yet told the
indexes of, every index has exactly the pairs of the stored documents whenever no
request is in flight. -/
theorem indexes_settle {P : Platform} {start : DatabaseEngine} {system : System}
    (maintained : AllMaintained start) (run : CalmRun P start system)
    (quiescent : forall task, task ∈ system.tasks ->
      Exists fun outcome => task.progress = .answered outcome) :
    Settled system.engine := by
  rcases run.trailing maintained with ⟨window, trailing⟩
  have nothing : forall place, ¬ (window place).isSome = true := by
    intro place
    rw [trailing.describes.empty]
    · exact Bool.false_ne_true
    · intro claim member
      rcases List.mem_map.mp member with ⟨⟨request, progress⟩, isTask, rfl⟩
      rcases quiescent _ isTask with ⟨outcome, rfl⟩
      cases request <;> rfl
  intro key name index found
  have trails := trailing.trail key name index found
  exact (trails.reflects (fun id => nothing (key, id))).pairs_perm trails.wellFormed
    (trailing.tidy key).keyed

/-! ## Sample runs -/

/-- The system after some events, if each of them is permitted. -/
def System.handleAll (P : Platform) (permitted : System -> Event -> Bool) :
    List Event -> System -> Option System
  | [], system => some system
  | event :: rest, system =>
      if permitted system event then handleAll P permitted rest (system.handle P event) else none

theorem IndexedRun.handleAll {P : Platform} {permitted : System -> Event -> Bool}
    {start system final : System} (run : IndexedRun P permitted start system) {events : List Event}
    (handled : system.handleAll P permitted events = some final) :
    IndexedRun P permitted start final := by
  induction events generalizing system with
  | nil =>
      cases handled
      exact run
  | cons event rest inductionHypothesis =>
      rw [System.handleAll] at handled
      split at handled
      · rename_i permits
        exact inductionHypothesis (run.handle permits) handled
      · nomatch handled

/-- The request has been answered with `Ok`. -/
def Progress.acknowledged : Progress -> Bool
  | .answered (.ok _) => true
  | _ => false

/-- The number of pairs in the index on the age of users. -/
def agePairs (engine : DatabaseEngine) : Option Nat :=
  ((managerOf engine.indexes ("default", "users")).get "idx_users_age").map
    (fun index => index.pairs.length)

/-- All that a sample run is asked: whether every request is acknowledged, and how
many pairs and users there are. -/
def System.summary (system : System) : Bool × Option Nat × Nat :=
  (system.tasks.all (fun task => task.progress.acknowledged), agePairs system.engine,
    (documents (storeOf system.engine.collections ("default", "users"))).length)

theorem answered_of_summary {system : System} {pairs : Option Nat} {users : Nat}
    (summary : system.summary = (true, pairs, users)) {task : Task} (member : task ∈ system.tasks) :
    Exists fun payload => task.progress = .answered (.ok payload) := by
  have all := congrArg Prod.fst summary
  have acknowledged := List.all_eq_true.mp all task member
  rcases task with ⟨request, progress⟩
  cases progress with
  | answered outcome =>
      cases outcome with
      | ok payload => exact ⟨payload, rfl⟩
      | error stop => nomatch acknowledged
  | waiting | checked | logged | stored | indexed | changed => nomatch acknowledged

theorem allMaintained_empty (limit : Nat) : AllMaintained (emptyEngine limit) := by
  intro key
  refine ⟨tidyStore_empty, ?_⟩
  intro name index found
  nomatch found

def insertAged : Event :=
  .request (.arrive (.insert "default" "users" agedDocument))

def removeUsers : Event :=
  .request (.arrive (.remove "default" "users" none))

def indexAge : Event :=
  .createIndex (quietMoments 0) "default" "users" "age" .hash

def advanceTask (index : Nat) : Event :=
  .request (.advance index quietMoments)

/-- The index is created between the two inserts of the INSERT. -/
def indexedInBetween : List Event :=
  [insertAged, advanceTask 0, advanceTask 0, advanceTask 0, indexAge, advanceTask 0, advanceTask 0]

theorem indexes_settle_sample :
    Exists fun system => CalmRun pairPlatform (emptyEngine 4096) system ∧
      system.summary = (true, some 1, 1) ∧ Settled system.engine := by
  have outcome : (System.handleAll pairPlatform
      (fun system event => (system.handle pairPlatform event).sound &&
        system.undisturbed pairPlatform event)
      indexedInBetween ⟨emptyEngine 4096, [], []⟩).map System.summary = some (true, some 1, 1) := by
    decide +kernel
  rcases Option.map_eq_some_iff.mp outcome with ⟨system, handled, summary⟩
  have run : CalmRun pairPlatform (emptyEngine 4096) system := IndexedRun.start.handleAll handled
  refine ⟨system, run, summary, indexes_settle (allMaintained_empty 4096) run ?_⟩
  intro task member
  rcases answered_of_summary summary member with ⟨payload, answered⟩
  exact ⟨_, answered⟩

/-- The document is removed between the two inserts of its INSERT. -/
def removedInBetween : List Event :=
  [indexAge, insertAged, advanceTask 0, advanceTask 0, advanceTask 0, removeUsers, advanceTask 1,
    advanceTask 0, advanceTask 0, advanceTask 1]

/-- An acknowledged INSERT and an acknowledged REMOVE leave a pair of a document
that is gone. -/
theorem removed_user_stays_indexed :
    Exists fun system =>
      IndexedRun pairPlatform (fun system event => (system.handle pairPlatform event).sound)
        ⟨emptyEngine 4096, [], []⟩ system ∧
      (forall task, task ∈ system.tasks ->
        Exists fun payload => task.progress = .answered (.ok payload)) ∧
      ¬ Settled system.engine := by
  have outcome : (System.handleAll pairPlatform
      (fun system event => (system.handle pairPlatform event).sound)
      removedInBetween ⟨emptyEngine 4096, [], []⟩).map System.summary = some (true, some 1, 0) := by
    decide +kernel
  rcases Option.map_eq_some_iff.mp outcome with ⟨system, handled, summary⟩
  refine ⟨system, IndexedRun.start.handleAll handled,
    fun task member => answered_of_summary summary member, ?_⟩
  intro settled
  have onePair : agePairs system.engine = some 1 := congrArg (fun all => all.2.1) summary
  have noUser : (documents (storeOf system.engine.collections ("default", "users"))).length = 0 :=
    congrArg (fun all => all.2.2) summary
  rcases Option.map_eq_some_iff.mp onePair with ⟨index, isIndex, counted⟩
  have same := (settled _ _ index isIndex).length_eq
  rw [counted, length_indexedPairs, List.length_eq_zero_iff.mp noUser] at same
  nomatch same

end Server
end NovaDb
