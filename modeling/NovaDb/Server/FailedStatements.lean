import NovaDb.Server.LiveState

namespace NovaDb
namespace Server

open Core Foundation Index Query Storage DatabaseEngine

/-!
# Statements that fail

An UPDATE changes the stored document before it knows that the statement can
finish, and both UPDATE and REMOVE change memory before they append to the log.
This module says for each failure whether a trace of the statement stays.
-/

/-- An UPDATE or REMOVE that fails has only left its critical section. -/
theorem executeUpdate_error {P : Platform} {moments : Nat -> Moment} {ns coll : String}
    {assignments : List Assignment} {filter : Option Expr} {engine next : DatabaseEngine}
    {stop : Stop}
    (ran : executeUpdate P moments ns coll assignments filter engine = (next, .error stop)) :
    updateSection P moments ns coll assignments filter engine = (next, .error stop) := by
  unfold executeUpdate at ran
  split at ran
  · rename_i other problem isSection
    cases ran
    exact isSection
  · cases ran

theorem executeRemove_error {P : Platform} {moments : Nat -> Moment} {ns coll : String}
    {filter : Option Expr} {engine next : DatabaseEngine} {stop : Stop}
    (ran : executeRemove P moments ns coll filter engine = (next, .error stop)) :
    removeSection P moments ns coll filter engine = (next, .error stop) := by
  unfold executeRemove at ran
  split at ran
  · rename_i other problem isSection
    cases ran
    exact isSection
  · cases ran

/-! ## Failed updates -/

/-- Collections, indexes and log are as they were. -/
structure Unchanged (before after : DatabaseEngine) : Prop where
  collections : contentsOf after.collections = contentsOf before.collections
  indexes : forall key, managerOf after.indexes key = managerOf before.indexes key
  wal : after.wal = before.wal

/-- Up to the first document that the filter does not pass over nothing happens.
That document leaves no trace when the filter fails on it, or when an assignment
fails on it and the assignments before that one have left it as it was. -/
def LeavesNoTrace (P : Platform) (assignments : List Assignment) (filter : Option Expr)
    (moments : Nat -> Moment) : Nat -> List (Sigma fun _ : DocumentId => Document) -> Prop
  | _, [] => True
  | turn, entry :: rest =>
      match Evaluator.matchesFilter P filter entry.2 with
      | .error _ => True
      | .ok false => LeavesNoTrace P assignments filter moments (turn + 1) rest
      | .ok true =>
          match Evaluator.applyAssignments P (moments turn).clock entry.2 assignments with
          | (after, .error _) => after = entry.2
          | (_, .ok ()) => False

/-- Assignments that all succeed advance the version. -/
theorem applyAssignments_version {P : Platform} {now : Int64} {doc after : Document}
    {assignments : List Assignment}
    (assigns : Evaluator.applyAssignments P now doc assignments = (after, .ok ())) :
    after.version = doc.version + 1 := by
  induction assignments generalizing doc with
  | nil =>
      rw [Evaluator.applyAssignments, Document.advanceVersion] at assigns
      split at assigns
      · rename_i advanced isAdvanced
        cases assigns
        split at isAdvanced
        · cases isAdvanced
        · cases isAdvanced
          rfl
      · cases assigns
  | cons assign rest ih =>
      rw [Evaluator.applyAssignments] at assigns
      split at assigns
      · cases assigns
      · rename_i value isValue
        split at assigns
        · cases assigns
        · exact @ih (doc.insert assign.field value) assigns

-- the version wraps, so the new one is compared as a machine word
theorem applyAssignments_ne {P : Platform} {now : Int64} {doc after : Document}
    {assignments : List Assignment}
    (assigns : Evaluator.applyAssignments P now doc assignments = (after, .ok ())) :
    after ≠ doc := by
  intro same
  have advanced := applyAssignments_version assigns
  rw [same] at advanced
  have zero : (1 : UInt64) = 0 := by
    apply (UInt64.add_right_inj doc.version).mp
    rw [UInt64.add_zero]
    exact advanced.symm
  exact absurd zero (by decide)

section Updates

variable {P : Platform} {ns coll : String} {assignments : List Assignment} {filter : Option Expr}
  {moments : Nat -> Moment} {turn : Nat} {state final : Section}
  {entries : List (Sigma fun _ : DocumentId => Document)}

/-- A loop that leaves no trace ends as it began. -/
theorem updates_unchanged {outcome : Except Stop (List Change)}
    (stored : forall entry, entry ∈ entries -> state.store.lookup entry.1 = some entry.2)
    (noTrace : LeavesNoTrace P assignments filter moments turn entries)
    (ran : runSection (updateOne P ns coll assignments filter) moments turn entries state =
      (final, outcome)) :
    final.wal = state.wal ∧ final.manager = state.manager ∧
      forall id, final.store.lookup id = state.store.lookup id := by
  induction entries generalizing turn outcome with
  | nil =>
      cases ran
      exact ⟨rfl, rfl, fun id => rfl⟩
  | cons entry rest ih =>
      have headStored := stored entry List.mem_cons_self
      have restStored := fun other member => stored other (List.mem_cons_of_mem entry member)
      rw [LeavesNoTrace] at noTrace
      rcases runSection_cons ran with ⟨stop, first, _⟩ | ⟨next, change, others, first, later, same⟩
      · cases updateOne_exit first with
        | unfiltered => exact ⟨rfl, rfl, fun id => rfl⟩
        | @unassigned after fault matched assigns =>
            simp only [matched, assigns] at noTrace
            subst noTrace
            refine ⟨rfl, rfl, ?_⟩
            intro id
            by_cases isEntry : id = entry.1
            · subst isEntry
              have member : entry.1 ∈ state.store := AList.lookup_isSome.mp (by rw [headStored]; rfl)
              rw [headStored]
              exact ValueMap.lookup_replace entry.2 member
            · exact ValueMap.lookup_replace_ne isEntry entry.2 state.store
        | unserialized matched assigns =>
            simp only [matched, assigns] at noTrace
        | unlogged matched assigns =>
            simp only [matched, assigns] at noTrace
      · cases updateOne_exit first with
        | passedOver filtered =>
            rw [filtered] at noTrace
            exact ih restStored noTrace later
        | logged matched assigns =>
            simp only [matched, assigns] at noTrace

/-- A loop that leaves a trace changes a document. -/
theorem updates_changed {outcome : Except Stop (List Change)} (distinct : entries.NodupKeys)
    (stored : forall entry, entry ∈ entries -> state.store.lookup entry.1 = some entry.2)
    (trace : ¬ LeavesNoTrace P assignments filter moments turn entries)
    (ran : runSection (updateOne P ns coll assignments filter) moments turn entries state =
      (final, outcome)) :
    Exists fun id => final.store.lookup id ≠ state.store.lookup id := by
  induction entries generalizing turn outcome with
  | nil => exact absurd trivial trace
  | cons entry rest ih =>
      have headStored := stored entry List.mem_cons_self
      have restStored := fun other member => stored other (List.mem_cons_of_mem entry member)
      have member : entry.1 ∈ state.store := AList.lookup_isSome.mp (by rw [headStored]; rfl)
      rcases List.nodupKeys_cons.mp distinct with ⟨fresh, restDistinct⟩
      -- a document that was replaced by another one
      have replaced : forall after, after ≠ entry.2 ->
          final.store.lookup entry.1 = (state.store.replace entry.1 after).lookup entry.1 ->
          Exists fun id => final.store.lookup id ≠ state.store.lookup id := by
        intro after different isAfter
        refine ⟨entry.1, ?_⟩
        rw [isAfter, ValueMap.lookup_replace after member, headStored]
        exact fun same => different (Option.some.inj same)
      rw [LeavesNoTrace] at trace
      rcases runSection_cons ran with ⟨stop, first, _⟩ | ⟨next, change, others, first, later, same⟩
      · cases updateOne_exit first with
        | unfiltered fails =>
            rw [fails] at trace
            exact absurd trivial trace
        | unassigned matched assigns =>
            simp only [matched, assigns] at trace
            exact replaced _ trace rfl
        | unserialized matched assigns =>
            exact replaced _ (applyAssignments_ne assigns) rfl
        | unlogged matched assigns =>
            exact replaced _ (applyAssignments_ne assigns) rfl
      · cases updateOne_exit first with
        | passedOver filtered =>
            rw [filtered] at trace
            exact ih restDistinct restStored trace later
        | logged matched assigns =>
            apply replaced _ (applyAssignments_ne assigns)
            exact runSection_frame (updateOne_frame P ns coll assignments filter) fresh later

end Updates

/-- A failed UPDATE, wherever it stops, has changed nothing exactly when it fails,
without a trace, at the first document that its filter does not pass over: no assignment
to that document had an effect before the filter or an assignment failed on it.  -/
theorem failed_update_unchanged_iff {P : Platform} {moments : Nat -> Moment} {ns coll : String}
    {assignments : List Assignment} {filter : Option Expr} {engine next : DatabaseEngine}
    {stop : Stop}
    (ran : executeUpdate P moments ns coll assignments filter engine = (next, .error stop)) :
    Unchanged engine next <->
      LeavesNoTrace P assignments filter moments 0
        (storeOf engine.collections (ns, coll)).entries := by
  have stored : forall entry, entry ∈ (storeOf engine.collections (ns, coll)).entries ->
      (engine.enter (ns, coll)).store.lookup entry.1 = some entry.2 := by
    intro entry member
    exact AList.mem_lookup_iff.mpr member
  rcases updateSection_loop (executeUpdate_error ran) with ⟨state, loop, rfl⟩
  constructor
  · intro unchanged
    by_contra trace
    rcases updates_changed (storeOf engine.collections (ns, coll)).nodupKeys stored trace loop with
      ⟨id, different⟩
    apply different
    have same := congrFun unchanged.collections ((ns, coll), id)
    exact (contentsOf_insert_self _ _ _ _).symm.trans same
  · intro noTrace
    rcases updates_unchanged stored noTrace loop with ⟨sameWal, sameManager, sameStore⟩
    constructor
    · rw [← contentsOf_same engine.collections (ns, coll)]
      exact contentsOf_congr engine.collections (ns, coll) sameStore
    · intro key
      change managerOf (engine.indexes.insert (ns, coll) state.manager) key = _
      by_cases sameKey : key = (ns, coll)
      · subst sameKey
        rw [managerOf, AList.lookup_insert, sameManager]
        rfl
      · rw [managerOf, AList.lookup_insert_ne sameKey]
        rfl
    · exact sameWal

/-- An UPDATE whose filter divides by zero. -/
theorem failed_update_unchanged_filter :
    let filter := some (Expr.binary .divide (.literal (.int 1)) (.literal (.int 0)))
    let result := executeUpdate samplePlatform quietMoments "default" "users" [] filter
      (oneUser sampleDocument)
    result.2.toOption.isNone = true ∧ Unchanged (oneUser sampleDocument) result.1 := by
  intro filter result
  have stops : Exists fun stop => result.2 = .error stop := ⟨_, rfl⟩
  rcases stops with ⟨stop, stops⟩
  refine ⟨rfl, (failed_update_unchanged_iff (Prod.ext rfl stops)).mpr ?_⟩
  exact trivial

/-- An UPDATE that assigns a field and then the primary key: it fails, and the
document in memory has the field. -/
theorem failed_update_leaves_trace :
    let assignments := [⟨"age", .literal (.int 5)⟩, ⟨"id", .literal (.string "b")⟩]
    let result := executeUpdate samplePlatform quietMoments "default" "users" assignments none
      (oneUser sampleDocument)
    (Exists fun fault => result.2 = .error ⟨.assignment, fault⟩) ∧
      ¬ Unchanged (oneUser sampleDocument) result.1 := by
  intro assignments result
  refine ⟨⟨_, rfl⟩, ?_⟩
  intro unchanged
  have same := congrFun unchanged.collections (("default", "users"), sampleDocument.id)
  have after : contentsOf result.1.collections (("default", "users"), sampleDocument.id) =
      some { sampleDocument with fields := [("age", .int 5)] } := rfl
  have before : contentsOf (oneUser sampleDocument).collections
      (("default", "users"), sampleDocument.id) = some sampleDocument := rfl
  rw [after, before] at same
  cases same

/-! ## Failed appends -/

/-- The element at which the loop stops, if any, leaves the bytes of the log as
they were. -/
def FailsSilently {α : Type} (one : Moment -> α -> Section -> Section × Except Stop (Option Change))
    (moments : Nat -> Moment) : Nat -> List α -> Section -> Prop
  | _, [], _ => True
  | turn, element :: rest, state =>
      match one (moments turn) element state with
      | (next, .error _) => SameBytes state.wal next.wal
      | (next, .ok _) => FailsSilently one moments (turn + 1) rest next

/-- A loop that stops silently: what its returning elements preserve holds before
the one that stops, and that one writes no bytes. -/
theorem runSection_stops {α : Type}
    {one : Moment -> α -> Section -> Section × Except Stop (Option Change)}
    {moments : Nat -> Moment} {turn : Nat} {state final : Section} {stop : Stop}
    (Inv : List α -> Section -> Prop)
    (keeps : forall moment element rest state next change, Inv (element :: rest) state ->
      one moment element state = (next, .ok change) -> Inv rest next)
    {elements : List α} (start : Inv elements state)
    (silent : FailsSilently one moments turn elements state)
    (ran : runSection one moments turn elements state = (final, .error stop)) :
    Exists fun moment => Exists fun element => Exists fun rest => Exists fun before =>
      Inv (element :: rest) before ∧ one moment element before = (final, .error stop) ∧
        SameBytes before.wal final.wal := by
  induction elements generalizing turn state with
  | nil => cases ran
  | cons element rest ih =>
      rw [FailsSilently] at silent
      rcases runSection_cons ran with
        ⟨other, first, stopped⟩ | ⟨next, change, others, first, later, same⟩
      · cases stopped
        rw [first] at silent
        exact ⟨moments turn, element, rest, state, start, first, silent⟩
      · rw [first] at silent
        cases others with
        | ok changes => cases same
        | error other =>
            cases same
            exact ih (keeps _ element rest state next change start first) silent later

section Appends

variable {P : Platform} {ns coll : String} {collections : Collections} {moments : Nat -> Moment}
  {turn : Nat} {state final : Section} {stop : Stop}

/-- Whatever the assignments make of the document at some time is read again once it
is written. -/
def Legible (P : Platform) (assignments : List Assignment) (doc : Document) : Prop :=
  forall now after payload, Evaluator.applyAssignments P now doc assignments = (after, .ok ()) ->
    NbfRecord.payloadFromDocument P after = .ok payload ->
    Exists fun found => P.fromSlice payload = .ok found

/-- What an UPDATE has not visited yet is in the store and in the log. -/
def Unvisited (P : Platform) (key : CollectionKey)
    (entries : List (Sigma fun _ : DocumentId => Document)) (state : Section) : Prop :=
  entries.NodupKeys ∧
    (forall entry, entry ∈ entries -> entry.1 ∈ state.store) ∧
    Exists fun contents => Mirrors P state.wal contents ∧
      forall entry, entry ∈ entries -> contents (key, entry.1) = some entry.2

theorem Unvisited.updateOne {assignments : List Assignment} {filter : Option Expr} {moment : Moment} {entry : Sigma fun _ : DocumentId => Document}
    {rest : List (Sigma fun _ : DocumentId => Document)} {next : Section} {change : Option Change}
    (unvisited : Unvisited P (ns, coll) (entry :: rest) state)
    (legible : Legible P assignments entry.2)
    (ran : updateOne P ns coll assignments filter moment entry state = (next, .ok change)) :
    Unvisited P (ns, coll) rest next := by
  rcases unvisited with ⟨distinct, members, contents, mirrors, logged⟩
  rcases List.nodupKeys_cons.mp distinct with ⟨fresh, restDistinct⟩
  have restMembers := fun other member => members other (List.mem_cons_of_mem entry member)
  have restLogged := fun other member => logged other (List.mem_cons_of_mem entry member)
  cases updateOne_exit ran with
  | passedOver => exact ⟨restDistinct, restMembers, contents, mirrors, restLogged⟩
  | @logged after payload wal sequence matched assigns encoded logs =>
      have legal : Mutation.Legal P ⟨.update, ns, coll, entry.1, payload, none⟩ :=
        ⟨mirrors.built (logged entry List.mem_cons_self),
          fun _ => legible _ after payload assigns encoded⟩
      refine ⟨restDistinct, ?_, _, mirrors.acknowledged legal.loggable logs, ?_⟩
      · intro other member
        exact AList.mem_replace.mpr (restMembers other member)
      · intro other member
        have different : ((ns, coll), other.1) ≠
            ((⟨.update, ns, coll, entry.1, payload, none⟩ : Mutation).record 0 0).place := by
          intro same
          have sameId : other.1 = entry.1 := congrArg Prod.snd same
          rw [← sameId] at fresh
          exact fresh (List.mem_map_of_mem member)
        rw [Mutation.effect, NbfRecord.effect_of_ne different]
        exact restLogged other member

/-- An UPDATE that stops at an append: the log still has the document from before,
memory has the new one. -/
theorem update_ahead_of_log {assignments : List Assignment} {filter : Option Expr}
    {entries : List (Sigma fun _ : DocumentId => Document)}
    (unvisited : Unvisited P (ns, coll) entries state)
    (legible : forall entry, entry ∈ entries -> Legible P assignments entry.2)
    (silent : FailsSilently (DatabaseEngine.updateOne P ns coll assignments filter) moments turn
      entries state)
    (ran : runSection (DatabaseEngine.updateOne P ns coll assignments filter) moments turn entries
      state = (final, .error stop)) (atAppend : stop.cause = .append) :
    Exists fun contents => Exists fun id => Recovers P final.wal.dir contents ∧
      contents ((ns, coll), id) ≠ final.store.lookup id := by
  let Inv (left : List (Sigma fun _ : DocumentId => Document)) (state : Section) : Prop :=
    Unvisited P (ns, coll) left state ∧ forall entry, entry ∈ left -> Legible P assignments entry.2
  have keeps : forall moment entry rest state next change, Inv (entry :: rest) state ->
      DatabaseEngine.updateOne P ns coll assignments filter moment entry state =
        (next, .ok change) -> Inv rest next :=
    fun _ entry _ _ _ _ before returned =>
      ⟨before.1.updateOne (before.2 entry List.mem_cons_self) returned,
        fun other member => before.2 other (List.mem_cons_of_mem entry member)⟩
  rcases runSection_stops Inv keeps ⟨unvisited, legible⟩ silent ran with
    ⟨moment, entry, rest, before, ⟨⟨_, members, contents, mirrors, logged⟩, _⟩, stops, sameBytes⟩
  have member := members entry List.mem_cons_self
  cases updateOne_exit stops with
  | unfiltered => cases atAppend
  | unassigned => cases atAppend
  | unserialized => cases atAppend
  | @unlogged after payload wal fault matched assigns encoded fails =>
      refine ⟨contents, entry.1, mirrors.silent fails sameBytes, ?_⟩
      rw [logged entry List.mem_cons_self]
      change some entry.2 ≠ (before.store.replace entry.1 after).lookup entry.1
      rw [ValueMap.lookup_replace after member]
      exact fun same => applyAssignments_ne assigns (Option.some.inj same).symm

/-- A REMOVE that stops at an append: the log still has the document, memory does
not. -/
theorem remove_ahead_of_log {targets : List DocumentId}
    (follows : Follows P noContents collections (ns, coll) state)
    (silent : FailsSilently (removeOne P ns coll) moments turn targets state)
    (ran : runSection (removeOne P ns coll) moments turn targets state = (final, .error stop)) :
    Exists fun contents => Exists fun id => Recovers P final.wal.dir contents ∧
      contents ((ns, coll), id) ≠ final.store.lookup id := by
  rcases runSection_stops (fun _ => Follows P noContents collections (ns, coll))
      (fun _ _ _ _ _ _ before returned => before.removeOne rfl returned) follows silent ran with
    ⟨moment, id, rest, before, beforeFollows, stops, sameBytes⟩
  cases removeOne_exit stops with
  | @unlogged doc wal fault isStored fails =>
      refine ⟨_, id, Mirrors.silent beforeFollows fails sameBytes, ?_⟩
      change _ ≠ (before.store.erase id).lookup id
      rw [overlay_noContents, contentsOf_insert_self, isStored, AList.lookup_erase]
      exact Option.some_ne_none doc

end Appends

section Statements

variable {P : Platform} {moments : Nat -> Moment} {ns coll : String}
  {engine next : DatabaseEngine} {stop : Stop}

/-- An INSERT appends first. -/
theorem executeInsert_recovers {moment : Moment} {doc : Document} (inStep : InStep P engine)
    (ran : executeInsert P moment ns coll doc engine = (next, .error stop))
    (atAppend : stop.cause = .append) (silent : SameBytes engine.wal next.wal) :
    Recovers P next.wal.dir (contentsOf next.collections) := by
  unfold executeInsert at ran
  split at ran
  · cases ran
    cases atAppend
  · cases logs : logInsert P moment ns coll doc engine.wal with
    | mk wal outcome =>
        rw [logs] at ran
        cases outcome with
        | ok sequence => cases ran
        | error problem =>
            cases ran
            cases logInsert_exit logs with
            | unserialized => cases atAppend
            | unlogged encoded fails => exact Mirrors.silent inStep fails silent

/-- Contents that differ from the store a critical section leaves behind. -/
theorem not_recovers_leave {state : Section} {contents : Contents} {id : DocumentId}
    (recovers : Recovers P state.wal.dir contents)
    (different : contents ((ns, coll), id) ≠ state.store.lookup id) :
    ¬ Recovers P (engine.leave (ns, coll) state).wal.dir
      (contentsOf (engine.leave (ns, coll) state).collections) := by
  intro alsoRecovers
  apply different
  rw [recovers.unique alsoRecovers]
  exact contentsOf_insert_self _ _ _ _

theorem InStep.unvisited (inStep : InStep P engine) :
    Unvisited P (ns, coll) (storeOf engine.collections (ns, coll)).entries
      (engine.enter (ns, coll)) := by
  refine ⟨AList.nodupKeys _, ?_, _, inStep, ?_⟩
  · intro entry member
    exact AList.mem_keys.mpr (List.mem_map_of_mem member)
  · intro entry member
    exact AList.mem_lookup_iff.mpr member

/-- An UPDATE changes memory first. -/
theorem executeUpdate_not_recovers {assignments : List Assignment} {filter : Option Expr}
    (inStep : InStep P engine)
    (legible : forall doc, doc ∈ documents (storeOf engine.collections (ns, coll)) ->
      Legible P assignments doc)
    (ran : executeUpdate P moments ns coll assignments filter engine = (next, .error stop))
    (atAppend : stop.cause = .append)
    (silent : FailsSilently (updateOne P ns coll assignments filter) moments 0
      (storeOf engine.collections (ns, coll)).entries (engine.enter (ns, coll))) :
    ¬ Recovers P next.wal.dir (contentsOf next.collections) := by
  rcases updateSection_loop (executeUpdate_error ran) with ⟨state, loop, rfl⟩
  rcases update_ahead_of_log inStep.unvisited
      (fun entry member => legible entry.2 (List.mem_map_of_mem member)) silent loop atAppend with
    ⟨contents, id, recovers, different⟩
  exact not_recovers_leave recovers different

/-- So does a REMOVE. -/
theorem executeRemove_not_recovers {filter : Option Expr} (inStep : InStep P engine)
    (ran : executeRemove P moments ns coll filter engine = (next, .error stop))
    (atAppend : stop.cause = .append)
    (silent : forall targets,
      removeTargets P filter (storeOf engine.collections (ns, coll)).entries = .ok targets ->
        FailsSilently (removeOne P ns coll) moments 0 targets (engine.enter (ns, coll))) :
    ¬ Recovers P next.wal.dir (contentsOf next.collections) := by
  have inSection := executeRemove_error ran
  cases isTargets : removeTargets P filter (storeOf engine.collections (ns, coll)).entries with
  | error problem =>
      cases removeSection_unresolved isTargets inSection
      rw [removeTargets_error isTargets] at atAppend
      cases atAppend
  | ok targets =>
      rcases removeSection_loop isTargets inSection with ⟨state, loop, rfl⟩
      rcases remove_ahead_of_log (inStep.enter (ns, coll)) (silent targets isTargets) loop with
        ⟨contents, id, recovers, different⟩
      exact not_recovers_leave recovers different

end Statements

/-- The statements that write, with the place where they stop. -/
def executeMutation (P : Platform) (moments : Nat -> Moment) (statement : Statement) (ns : String)
    (engine : DatabaseEngine) : Option (DatabaseEngine × Except Stop ResponsePayload) :=
  match statement with
  | .insert coll doc => some (executeInsert P (moments 0) ns coll doc engine)
  | .update coll assignments filter =>
      some (executeUpdate P moments ns coll assignments filter engine)
  | .remove coll filter => some (executeRemove P moments ns coll filter engine)
  | _ => none

theorem execute_of_mutation {P : Platform} {moments : Nat -> Moment} {statement : Statement}
    {ns : String} {engine : DatabaseEngine} {result : DatabaseEngine × Except Stop ResponsePayload}
    (isMutation : executeMutation P moments statement ns engine = some result) :
    execute P moments statement ns engine = outcomeOf result := by
  cases statement <;> cases isMutation <;> rfl

/-- The append at which the statement stops writes no bytes: every segment file is as it
was before the step that fails, and a new one is empty. -/
def StopsSilently (P : Platform) (moments : Nat -> Moment) (statement : Statement) (ns : String)
    (engine : DatabaseEngine) : Prop :=
  match statement with
  | .insert coll doc =>
      SameBytes engine.wal (executeInsert P (moments 0) ns coll doc engine).1.wal
  | .update coll assignments filter =>
      FailsSilently (updateOne P ns coll assignments filter) moments 0
        (storeOf engine.collections (ns, coll)).entries (engine.enter (ns, coll))
  | .remove coll filter =>
      forall targets,
        removeTargets P filter (storeOf engine.collections (ns, coll)).entries = .ok targets ->
          FailsSilently (removeOne P ns coll) moments 0 targets (engine.enter (ns, coll))
  | _ => True

/-- What an UPDATE makes of the stored documents can be read again. -/
def WritesLegibly (P : Platform) (statement : Statement) (ns : String) (engine : DatabaseEngine) :
    Prop :=
  match statement with
  | .update coll assignments _ =>
      forall doc, doc ∈ documents (storeOf engine.collections (ns, coll)) ->
        Legible P assignments doc
  | _ => True

/-- A directory that refuses new files, so that every rotation fails. -/
def lockedMoments : Nat -> Moment :=
  fun _ => ⟨0, { quietEnvironment with openFails := true }, 0, .collisionFree⟩

def stopsAtAppend : Except Stop ResponsePayload -> Bool
  | .error stop => decide (stop.cause = .append)
  | .ok _ => false

theorem stopsAtAppend_iff {outcome : Except Stop ResponsePayload} :
    stopsAtAppend outcome = true <->
      Exists fun stop => outcome = .error stop ∧ stop.cause = .append := by
  cases outcome with
  | error stop => simp [stopsAtAppend]
  | ok payload => simp [stopsAtAppend]

/-- An INSERT stops silently on a device that takes every byte and syncs. -/
theorem inserts_silently {P : Platform} {moment : Moment} {ns coll : String} {doc : Document}
    {engine next : DatabaseEngine} {stop : Stop} (inStep : InStep P engine)
    (unset : moment.append.fault = .unset) (unlimited : moment.append.room = none)
    (synced : moment.append.syncFails = false)
    (ran : executeInsert P moment ns coll doc engine = (next, .error stop)) :
    SameBytes engine.wal next.wal := by
  unfold executeInsert at ran
  split at ran
  · cases ran
    exact fun index => rfl
  · cases logs : logInsert P moment ns coll doc engine.wal with
    | mk wal outcome =>
        rw [logs] at ran
        cases outcome with
        | ok sequence => cases ran
        | error problem =>
            cases ran
            cases logInsert_exit logs with
            | unserialized => exact fun index => rfl
            | unlogged encoded fails => exact Mirrors.sameBytes inStep unset unlimited synced fails

/-- A REMOVE stops silently on a device that takes every byte and syncs. -/
theorem removes_silently {P : Platform} {ns coll : String} {collections : Collections}
    {moments : Nat -> Moment}
    (writes : forall turn, (moments turn).append.fault = .unset ∧ (moments turn).append.room = none ∧
      (moments turn).append.syncFails = false) {turn : Nat} {targets : List DocumentId}
    {state : Section} (follows : Follows P noContents collections (ns, coll) state) :
    FailsSilently (removeOne P ns coll) moments turn targets state := by
  induction targets generalizing turn state with
  | nil => trivial
  | cons id rest ih =>
      rw [FailsSilently]
      cases ran : removeOne P ns coll (moments turn) id state with
      | mk next outcome =>
          cases outcome with
          | ok change => exact ih (follows.removeOne rfl ran)
          | error stop =>
              rcases writes turn with ⟨unset, unlimited, synced⟩
              cases removeOne_exit ran with
              | unlogged stored fails =>
                  exact Mirrors.sameBytes follows unset unlimited synced fails

/-- A statement that stops because an append fails without writing anything leaves
memory equal to the replay of the log exactly when it is an INSERT.  Memory was equal to
the replay before it, the log was opened with `Always` on whole records and is not
poisoned, and what an UPDATE writes can be read again. -/
theorem log_before_memory_iff {P : Platform} {moments : Nat -> Moment} {statement : Statement}
    {ns : String} {engine next : DatabaseEngine} {stop : Stop} (inStep : InStep P engine)
    (legible : WritesLegibly P statement ns engine)
    (ran : executeMutation P moments statement ns engine = some (next, .error stop))
    (atAppend : stop.cause = .append) (silent : StopsSilently P moments statement ns engine) :
    Recovers P (execute P moments statement ns engine).1.wal.dir
        (contentsOf (execute P moments statement ns engine).1.collections) <->
      Exists fun coll => Exists fun doc => statement = .insert coll doc := by
  rw [execute_of_mutation ran]
  change Recovers P next.wal.dir (contentsOf next.collections) <-> _
  cases statement with
  | insert coll doc =>
      have inserts : executeInsert P (moments 0) ns coll doc engine = (next, .error stop) :=
        Option.some.inj ran
      change SameBytes engine.wal (executeInsert P (moments 0) ns coll doc engine).1.wal at silent
      rw [inserts] at silent
      exact iff_of_true (executeInsert_recovers inStep inserts atAppend silent) ⟨coll, doc, rfl⟩
  | update coll assignments filter =>
      apply iff_of_false
        (executeUpdate_not_recovers inStep legible (Option.some.inj ran) atAppend silent)
      rintro ⟨_, _, impossible⟩
      cases impossible
  | remove coll filter =>
      apply iff_of_false (executeRemove_not_recovers inStep (Option.some.inj ran) atAppend silent)
      rintro ⟨_, _, impossible⟩
      cases impossible
  | find | watch | count | «exists» | createIndex | dropIndex | begin | commit | rollback =>
      cases ran

/-- An INSERT that needs a new segment and cannot have one. -/
theorem log_before_memory_insert :
    let result := execute samplePlatform lockedMoments (.insert "users" sampleDocument) "default"
      (emptyEngine 100)
    Recovers samplePlatform result.1.wal.dir (contentsOf result.1.collections) := by
  have inStep : InStep samplePlatform (emptyEngine 100) :=
    openEngine_intact (intact_empty samplePlatform) (openEngine_empty _ 100)
  have stops : stopsAtAppend (executeInsert samplePlatform (lockedMoments 0) "default" "users"
      sampleDocument (emptyEngine 100)).2 = true := by decide +kernel
  rcases stopsAtAppend_iff.mp stops with ⟨stop, isStop, atAppend⟩
  cases ran : executeInsert samplePlatform (lockedMoments 0) "default" "users" sampleDocument
      (emptyEngine 100) with
  | mk next outcome =>
      rw [ran] at isStop
      subst isStop
      have mutates : executeMutation samplePlatform lockedMoments (.insert "users" sampleDocument)
          "default" (emptyEngine 100) = some (next, .error stop) := by
        rw [executeMutation, ran]
      have silent : StopsSilently samplePlatform lockedMoments (.insert "users" sampleDocument)
          "default" (emptyEngine 100) := by
        rw [StopsSilently, ran]
        exact inserts_silently inStep rfl rfl rfl ran
      have legible : WritesLegibly samplePlatform (.insert "users" sampleDocument) "default"
          (emptyEngine 100) := trivial
      exact (log_before_memory_iff inStep legible mutates atAppend silent).mpr
        ⟨"users", sampleDocument, rfl⟩

/-- A REMOVE that needs a new segment and cannot have one: the document is gone
from memory and comes back with the next recovery. -/
theorem remove_ahead_of_log_sample :
    let result := executeRemove samplePlatform lockedMoments "default" "users" none sampleEngine
    InStep samplePlatform sampleEngine ∧ stopsAtAppend result.2 = true ∧
      StopsSilently samplePlatform lockedMoments (.remove "users" none) "default" sampleEngine ∧
      ¬ Recovers samplePlatform result.1.wal.dir (contentsOf result.1.collections) := by
  have inStep := run_sampleEngine.inStep
  have stops : stopsAtAppend (executeRemove samplePlatform lockedMoments "default" "users" none
      sampleEngine).2 = true := by decide +kernel
  have silent : StopsSilently samplePlatform lockedMoments (.remove "users" none) "default"
      sampleEngine := by
    intro targets _
    exact removes_silently (fun _ => ⟨rfl, rfl, rfl⟩) (inStep.enter ("default", "users"))
  rcases stopsAtAppend_iff.mp stops with ⟨stop, isStop, atAppend⟩
  refine ⟨inStep, stops, silent, ?_⟩
  cases ran : executeRemove samplePlatform lockedMoments "default" "users" none sampleEngine with
  | mk next outcome =>
      rw [ran] at isStop
      subst isStop
      exact executeRemove_not_recovers inStep ran atAppend silent

end Server
end NovaDb
