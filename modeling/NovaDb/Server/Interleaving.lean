import NovaDb.Foundation.Occupancy
import NovaDb.Server.LiveState

namespace NovaDb
namespace Server

open Core Foundation Index Query Storage DatabaseEngine

/-!
# Interleaved requests

Requests run concurrently and interleave where they take and release locks.  An
INSERT takes five steps: the uniqueness check, the append, the store insert, the
index insert and the event.  An UPDATE or REMOVE is one critical section followed
by its events.  A system is an engine with the requests that have arrived, each
with its progress, and a record of the order in which ids came and went.
-/

/-- The requests that write. -/
inductive Request where
  | insert (ns coll : String) (doc : Document)
  | update (ns coll : String) (assignments : List Assignment) (filter : Option Expr)
  | remove (ns coll : String) (filter : Option Expr)

/-- How far a request has come. -/
inductive Progress where
  | waiting
  | checked
  | logged (sequence : UInt64)
  | stored (sequence : UInt64)
  | indexed (sequence : UInt64)
  | changed (changes : List Change)
  | answered (outcome : Except Stop ResponsePayload)

/-- The request has been answered with an error. -/
def Progress.stopped : Progress -> Bool
  | .answered (.error _) => true
  | _ => false

namespace Request

/-- The steps of an INSERT. -/
def advanceInsert (P : Platform) (moment : Moment) (ns coll : String) (doc : Document)
    (progress : Progress) (engine : DatabaseEngine) : DatabaseEngine × Progress :=
  match progress with
  | .waiting =>
      if engine.hasDocument (ns, coll) doc.id then
        (engine, .answered (.error ⟨.duplicate, .error (duplicateError coll doc.id)⟩))
      else (engine, .checked)
  | .checked =>
      match logInsert P moment ns coll doc engine.wal with
      | (wal, .error stop) => ({ engine with wal }, .answered (.error stop))
      | (wal, .ok sequence) => ({ engine with wal }, .logged sequence)
  | .logged sequence => (storeInsert (ns, coll) doc engine, .stored sequence)
  | .stored sequence => (indexInsert (ns, coll) doc engine, .indexed sequence)
  | .indexed sequence =>
      (emitEvent (insertEvent moment ns coll doc sequence) engine,
        .answered (.ok (.records [doc] 1)))
  | .changed changes => (engine, .changed changes)
  | .answered outcome => (engine, .answered outcome)

/-- The critical section of an UPDATE or REMOVE, and its events. -/
def advanceSection (enters : DatabaseEngine -> DatabaseEngine × Except Stop (List Change))
    (eventType : EventType) (verb : String) (moments : Nat -> Moment) (ns coll : String)
    (progress : Progress) (engine : DatabaseEngine) : DatabaseEngine × Progress :=
  match progress with
  | .waiting =>
      match enters engine with
      | (engine, .error stop) => (engine, .answered (.error stop))
      | (engine, .ok changes) => (engine, .changed changes)
  | .changed changes =>
      (emitChanges eventType ns coll moments 0 changes engine,
        .answered (.ok (.success (verb ++ toString changes.length ++ " document(s)")
          changes.length)))
  | other => (engine, other)

/-- One step of a request. -/
def advance (P : Platform) (moments : Nat -> Moment) :
    Request -> Progress -> DatabaseEngine -> DatabaseEngine × Progress
  | .insert ns coll doc => advanceInsert P (moments 0) ns coll doc
  | .update ns coll assignments filter =>
      advanceSection (updateSection P moments ns coll assignments filter) .update "Updated " moments
        ns coll
  | .remove ns coll filter =>
      advanceSection (removeSection P moments ns coll filter) .delete "Removed " moments ns coll

/-- The request as one statement. -/
def execute (P : Platform) (moments : Nat -> Moment) :
    Request -> DatabaseEngine -> DatabaseEngine × Except Stop ResponsePayload
  | .insert ns coll doc => executeInsert P (moments 0) ns coll doc
  | .update ns coll assignments filter => executeUpdate P moments ns coll assignments filter
  | .remove ns coll filter => executeRemove P moments ns coll filter

/-- A request that runs alone is the statement: at most five steps. -/
theorem advance_alone (P : Platform) (moments : Nat -> Moment) (request : Request)
    (engine : DatabaseEngine) :
    (fun state => request.advance P moments state.2 state.1)^[5] (engine, Progress.waiting) =
      ((request.execute P moments engine).1, .answered (request.execute P moments engine).2) := by
  cases request with
  | insert ns coll doc =>
      simp only [Function.iterate_succ, Function.iterate_zero, Function.comp_apply, id_eq, advance,
        execute, advanceInsert, executeInsert]
      by_cases present : engine.hasDocument (ns, coll) doc.id = true
      · simp only [if_pos present]
      · simp only [if_neg present]
        cases logInsert P (moments 0) ns coll doc engine.wal with
        | mk wal outcome =>
            cases outcome with
            | error stop => rfl
            | ok sequence => rfl
  | update ns coll assignments filter =>
      simp only [Function.iterate_succ, Function.iterate_zero, Function.comp_apply, id_eq, advance,
        execute, advanceSection, executeUpdate]
      cases updateSection P moments ns coll assignments filter engine with
      | mk next outcome =>
          cases outcome with
          | error stop => rfl
          | ok changes => rfl
  | remove ns coll filter =>
      simp only [Function.iterate_succ, Function.iterate_zero, Function.comp_apply, id_eq, advance,
        execute, advanceSection, executeRemove]
      cases removeSection P moments ns coll filter engine with
      | mk next outcome =>
          cases outcome with
          | error stop => rfl
          | ok changes => rfl

end Request

/-! ## What a step can do -/

section Exits

variable (P : Platform) (ns coll : String)

/-- The steps of an INSERT, with what leads to each. -/
inductive InsertStep (moment : Moment) (doc : Document) (engine : DatabaseEngine) :
    Progress -> DatabaseEngine -> Progress -> Prop where
  | refused (present : engine.hasDocument (ns, coll) doc.id = true) :
      InsertStep moment doc engine .waiting engine
        (.answered (.error ⟨.duplicate, .error (duplicateError coll doc.id)⟩))
  | checked (absent : engine.hasDocument (ns, coll) doc.id = false) :
      InsertStep moment doc engine .waiting engine .checked
  | unlogged {wal : WriteAheadLog} {stop : Stop}
      (fails : logInsert P moment ns coll doc engine.wal = (wal, .error stop)) :
      InsertStep moment doc engine .checked { engine with wal } (.answered (.error stop))
  | logged {wal : WriteAheadLog} {sequence : UInt64}
      (logs : logInsert P moment ns coll doc engine.wal = (wal, .ok sequence)) :
      InsertStep moment doc engine .checked { engine with wal } (.logged sequence)
  | stored {sequence : UInt64} :
      InsertStep moment doc engine (.logged sequence) (storeInsert (ns, coll) doc engine)
        (.stored sequence)
  | indexed {sequence : UInt64} :
      InsertStep moment doc engine (.stored sequence) (indexInsert (ns, coll) doc engine)
        (.indexed sequence)
  | answered {sequence : UInt64} :
      InsertStep moment doc engine (.indexed sequence)
        (emitEvent (insertEvent moment ns coll doc sequence) engine)
        (.answered (.ok (.records [doc] 1)))
  | idle {changes : List Change} :
      InsertStep moment doc engine (.changed changes) engine (.changed changes)
  | done {outcome : Except Stop ResponsePayload} :
      InsertStep moment doc engine (.answered outcome) engine (.answered outcome)

/-- The steps of an UPDATE or REMOVE. -/
inductive SectionStep (enters : DatabaseEngine -> DatabaseEngine × Except Stop (List Change))
    (engine : DatabaseEngine) : Progress -> DatabaseEngine -> Progress -> Prop where
  | stopped {entered : DatabaseEngine} {stop : Stop}
      (fails : enters engine = (entered, .error stop)) :
      SectionStep enters engine .waiting entered (.answered (.error stop))
  | changed {entered : DatabaseEngine} {changes : List Change}
      (ran : enters engine = (entered, .ok changes)) :
      SectionStep enters engine .waiting entered (.changed changes)
  | answered {changes : List Change} {events : List DataEvent} {payload : ResponsePayload} :
      SectionStep enters engine (.changed changes) { engine with events }
        (.answered (.ok payload))
  | rests {progress : Progress} (entered : progress ≠ .waiting) :
      SectionStep enters engine progress engine progress

variable {P ns coll} {moment : Moment} {doc : Document} {engine next : DatabaseEngine}
  {progress after : Progress}

theorem advanceInsert_step
    (steps : Request.advanceInsert P moment ns coll doc progress engine = (next, after)) :
    InsertStep P ns coll moment doc engine progress next after := by
  cases progress with
  | waiting =>
      rw [Request.advanceInsert] at steps
      split at steps
      · rename_i present
        cases steps
        exact .refused present
      · rename_i absent
        cases steps
        exact .checked (Bool.eq_false_of_not_eq_true absent)
  | checked =>
      rw [Request.advanceInsert] at steps
      cases logs : logInsert P moment ns coll doc engine.wal with
      | mk wal outcome =>
          rw [logs] at steps
          cases outcome with
          | error stop =>
              cases steps
              exact .unlogged logs
          | ok sequence =>
              cases steps
              exact .logged logs
  | logged sequence =>
      cases steps
      exact .stored
  | stored sequence =>
      cases steps
      exact .indexed
  | indexed sequence =>
      cases steps
      exact .answered
  | changed changes =>
      cases steps
      exact .idle
  | answered outcome =>
      cases steps
      exact .done

theorem advanceSection_step
    {enters : DatabaseEngine -> DatabaseEngine × Except Stop (List Change)}
    {eventType : EventType} {verb : String} {moments : Nat -> Moment}
    (steps : Request.advanceSection enters eventType verb moments ns coll progress engine =
      (next, after)) :
    SectionStep enters engine progress next after := by
  cases progress with
  | waiting =>
      rw [Request.advanceSection] at steps
      cases ran : enters engine with
      | mk entered outcome =>
          rw [ran] at steps
          cases outcome with
          | error stop =>
              cases steps
              exact .stopped ran
          | ok changes =>
              cases steps
              exact .changed ran
  | changed changes =>
      cases steps
      rcases @emitChanges_state ns coll eventType moments 0 changes engine with ⟨events, same⟩
      rw [same]
      exact .answered
  | checked | logged | stored | indexed | answered =>
      cases steps
      exact .rests (by nofun)

/-- What an UPDATE or REMOVE keeps that does not fail: what its critical section
keeps, and events do not matter. -/
theorem SectionStep.keeps {enters : DatabaseEngine -> DatabaseEngine × Except Stop (List Change)}
    (keeps : DatabaseEngine -> Prop) (step : SectionStep enters engine progress next after)
    (succeeds : forall stop, after ≠ .answered (.error stop))
    (entered : forall changes, progress = .waiting -> enters engine = (next, .ok changes) ->
      keeps next)
    (emits : forall events, keeps engine -> keeps { engine with events }) (before : keeps engine) :
    keeps next := by
  cases step with
  | stopped fails => exact absurd rfl (succeeds _)
  | changed ran => exact entered _ rfl ran
  | answered => exact emits _ before
  | rests => exact before

/-- The append of an INSERT fails at the payload or in the log. -/
theorem logInsert_cause {wal logged : WriteAheadLog} {stop : Stop}
    (fails : logInsert P moment ns coll doc wal = (logged, .error stop)) :
    stop.cause = .payload ∨ stop.cause = .append := by
  cases logInsert_exit fails with
  | unserialized => exact Or.inl rfl
  | unlogged => exact Or.inr rfl

theorem logInsert_not_duplicate {wal logged : WriteAheadLog} {stop : Stop}
    (fails : logInsert P moment ns coll doc wal = (logged, .error stop)) :
    stop.cause ≠ .duplicate := by
  intro duplicate
  rcases logInsert_cause fails with cause | cause
  · cases duplicate.symm.trans cause
  · cases duplicate.symm.trans cause

end Exits

/-! ## Systems -/

/-- A request and its progress. -/
structure Task where
  request : Request
  progress : Progress

structure System where
  engine : DatabaseEngine
  tasks : List Task
  history : List (Mark Place)

inductive Action where
  | arrive (request : Request)
  | advance (index : Nat) (moments : Nat -> Moment)

namespace System

/-- The ids a step brings into memory or takes out of it. -/
def marks (index : Nat) : Request -> Progress -> Progress -> List (Mark Place)
  | .insert ns coll doc, .logged _, _ => [.put index ((ns, coll), doc.id)]
  | .remove ns coll _, .waiting, .changed changes =>
      changes.map (fun change => .take index ((ns, coll), change.id))
  | _, _, _ => []

/-- One action of the system. -/
def perform (P : Platform) (action : Action) (system : System) : System :=
  match action with
  | .arrive request => { system with tasks := system.tasks ++ [⟨request, .waiting⟩] }
  | .advance index moments =>
      match system.tasks[index]? with
      | none => system
      | some task =>
          let next := task.request.advance P moments task.progress system.engine
          { engine := next.1
            tasks := system.tasks.set index { task with progress := next.2 }
            history := system.history ++ marks index task.request task.progress next.2 }

/-- What a list made from the tasks has for a task. -/
theorem map_task {α : Type} (view : Task -> α) {system : System} {index : Nat} {task : Task}
    (isTask : system.tasks[index]? = some task) :
    (system.tasks.map view)[index]? = some (view task) := by
  rw [List.getElem?_map, isTask]
  rfl

/-- A request that arrives claims nothing. -/
theorem describes_arrive {K V : Type} {view : Task -> Option (K × V)} {map : K -> Option V}
    (P : Platform) {system : System} (request : Request) (noClaim : view ⟨request, .waiting⟩ = none)
    (describes : Claims.Describes (system.tasks.map view) map) :
    Claims.Describes ((system.perform P (.arrive request)).tasks.map view) map := by
  change Claims.Describes ((system.tasks ++ [Task.mk request .waiting]).map view) map
  rw [List.map_append, List.map_singleton, noClaim]
  exact describes.arrive

section Steps

variable {P : Platform} {system : System} {ns coll : String} {doc : Document} {sequence : UInt64}
  (index : Nat) (moments : Nat -> Moment)

theorem perform_absent (noTask : system.tasks[index]? = none) :
    system.perform P (.advance index moments) = system := by
  simp only [perform, noTask]

theorem perform_advance {request : Request} {progress next : Progress} {engine : DatabaseEngine}
    {marked : List (Mark Place)} (isTask : system.tasks[index]? = some ⟨request, progress⟩)
    (steps : request.advance P moments progress system.engine = (engine, next))
    (isMarked : marks index request progress next = marked) :
    system.perform P (.advance index moments) =
      ⟨engine, system.tasks.set index ⟨request, next⟩, system.history ++ marked⟩ := by
  simp only [perform, isTask, steps, isMarked]

theorem perform_unmarked {request : Request} {progress next : Progress} {engine : DatabaseEngine}
    (isTask : system.tasks[index]? = some ⟨request, progress⟩)
    (steps : request.advance P moments progress system.engine = (engine, next))
    (unmarked : marks index request progress next = []) :
    system.perform P (.advance index moments) =
      ⟨engine, system.tasks.set index ⟨request, next⟩, system.history⟩ := by
  rw [perform_advance index moments isTask steps unmarked, List.append_nil]

/-- The five steps of an INSERT that nothing stops. -/
theorem perform_check (isTask : system.tasks[index]? = some ⟨.insert ns coll doc, .waiting⟩)
    (fresh : system.engine.hasDocument (ns, coll) doc.id = false) :
    system.perform P (.advance index moments) =
      ⟨system.engine, system.tasks.set index ⟨.insert ns coll doc, .checked⟩,
        system.history⟩ := by
  apply perform_unmarked index moments isTask _ rfl
  change (if system.engine.hasDocument (ns, coll) doc.id then _ else _) = _
  rw [fresh]
  rfl

theorem perform_refuse (isTask : system.tasks[index]? = some ⟨.insert ns coll doc, .waiting⟩)
    (present : system.engine.hasDocument (ns, coll) doc.id = true) :
    system.perform P (.advance index moments) =
      ⟨system.engine, system.tasks.set index ⟨.insert ns coll doc,
        .answered (.error ⟨.duplicate, .error (duplicateError coll doc.id)⟩)⟩, system.history⟩ := by
  apply perform_unmarked index moments isTask _ rfl
  change (if system.engine.hasDocument (ns, coll) doc.id then _ else _) = _
  rw [present]
  rfl

theorem perform_log {wal : WriteAheadLog}
    (isTask : system.tasks[index]? = some ⟨.insert ns coll doc, .checked⟩)
    (logs : logInsert P (moments 0) ns coll doc system.engine.wal = (wal, .ok sequence)) :
    system.perform P (.advance index moments) =
      ⟨{ system.engine with wal },
        system.tasks.set index ⟨.insert ns coll doc, .logged sequence⟩, system.history⟩ := by
  apply perform_unmarked index moments isTask _ rfl
  simp only [Request.advance, Request.advanceInsert, logs]

theorem perform_store
    (isTask : system.tasks[index]? = some ⟨.insert ns coll doc, .logged sequence⟩) :
    system.perform P (.advance index moments) =
      ⟨storeInsert (ns, coll) doc system.engine,
        system.tasks.set index ⟨.insert ns coll doc, .stored sequence⟩,
        system.history ++ [.put index ((ns, coll), doc.id)]⟩ :=
  perform_advance index moments isTask rfl rfl

theorem perform_index
    (isTask : system.tasks[index]? = some ⟨.insert ns coll doc, .stored sequence⟩) :
    system.perform P (.advance index moments) =
      ⟨indexInsert (ns, coll) doc system.engine,
        system.tasks.set index ⟨.insert ns coll doc, .indexed sequence⟩, system.history⟩ :=
  perform_unmarked index moments isTask rfl rfl

theorem perform_event
    (isTask : system.tasks[index]? = some ⟨.insert ns coll doc, .indexed sequence⟩) :
    system.perform P (.advance index moments) =
      ⟨emitEvent (insertEvent (moments 0) ns coll doc sequence) system.engine,
        system.tasks.set index ⟨.insert ns coll doc, .answered (.ok (.records [doc] 1))⟩,
        system.history⟩ :=
  perform_unmarked index moments isTask rfl rfl

end Steps

end System

/-- The systems reached from a start by permitted actions, in any order, with the
stores iterating in any order. -/
inductive Interleaves (P : Platform) (permitted : System -> Action -> Prop) (start : System) :
    System -> Prop where
  | start : Interleaves P permitted start start
  | perform {system : System} {action : Action} (run : Interleaves P permitted start system)
      (permits : permitted system action) : Interleaves P permitted start (system.perform P action)
  | rearranged {system : System} {engine : DatabaseEngine}
      (run : Interleaves P permitted start system) (same : Rearranged system.engine engine) :
      Interleaves P permitted start { system with engine }

theorem Interleaves.mono {P : Platform} {permitted allowed : System -> Action -> Prop}
    {start system : System} (run : Interleaves P permitted start system)
    (weaker : forall system action, permitted system action -> allowed system action) :
    Interleaves P allowed start system := by
  induction run with
  | start => exact Interleaves.start
  | perform run permits ih => exact ih.perform (weaker _ _ permits)
  | rearranged run same ih => exact ih.rearranged same

/-! ## Requests that succeed -/

/-- An INSERT brings a document with a made id that survives the JSON codec. -/
def Request.WellMade (P : Platform) : Request -> Prop
  | .insert _ _ doc => doc.id.Built ∧ RoundTrips P doc
  | .update _ _ _ _ | .remove _ _ _ => True

/-- Requests are well made and return `Ok`, or `DocumentAlreadyExists`, and the
documents in memory survive the JSON codec. -/
def Succeeds (P : Platform) (system : System) : Action -> Prop
  | .arrive request => request.WellMade P
  | .advance index moments =>
      AllRoundTrip P (system.perform P (.advance index moments)).engine ∧
        forall task stop, (system.perform P (.advance index moments)).tasks[index]? = some task ->
          task.progress = .answered (.error stop) ->
            stop.cause = .duplicate ∧ Exists fun ns => Exists fun coll => Exists fun doc =>
              task.request = .insert ns coll doc

/-- Runs of few requests, which all succeed. -/
abbrev SmallRun (P : Platform) (bound : Nat) (start : DatabaseEngine) : System -> Prop :=
  Interleaves P (fun system action => Succeeds P system action ∧ system.tasks.length ≤ bound)
    ⟨start, [], []⟩

section SmallRuns

variable {P : Platform} {bound : Nat} {start : DatabaseEngine} {system : System}

theorem SmallRun.arrive (run : SmallRun P bound start system) {request : Request}
    (wellMade : request.WellMade P) (few : system.tasks.length ≤ bound) :
    SmallRun P bound start { system with tasks := system.tasks ++ [⟨request, .waiting⟩] } := by
  have arrived := @Interleaves.perform _ _ _ system (.arrive request) run ⟨wellMade, few⟩
  exact arrived

theorem SmallRun.advance (run : SmallRun P bound start system) {index : Nat}
    {moments : Nat -> Moment} {next : System} {task : Task}
    (steps : system.perform P (.advance index moments) = next)
    (few : system.tasks.length ≤ bound) (roundTrips : AllRoundTrip P next.engine)
    (isTask : next.tasks[index]? = some task)
    (unstopped : task.progress.stopped = false) : SmallRun P bound start next := by
  subst steps
  refine Interleaves.perform run ⟨⟨roundTrips, ?_⟩, few⟩
  intro other stop isOther stopped
  rw [isTask] at isOther
  cases isOther
  rw [stopped] at unstopped
  cases unstopped

variable {ns coll : String} {moments : Nat -> Moment}

/-- An INSERT of a fresh id that nothing interrupts. -/
theorem smallRun_alone {doc : Document} {wal : WriteAheadLog} {sequence : UInt64}
    (before : AllRoundTrip P start) (wellMade : (Request.insert ns coll doc).WellMade P)
    (fresh : start.hasDocument (ns, coll) doc.id = false)
    (logs : logInsert P (moments 0) ns coll doc start.wal = (wal, .ok sequence)) :
    Exists fun system => SmallRun P 1 start system ∧
      system.tasks = [⟨.insert ns coll doc, .answered (.ok (.records [doc] 1))⟩] ∧
      contentsOf system.engine.collections =
        Function.update (contentsOf start.collections) ((ns, coll), doc.id) (some doc) := by
  have put : AllRoundTrip P (storeInsert (ns, coll) doc { start with wal }) :=
    before.put wellMade.2 (storeInsert_contents _ _ _)
  have one : forall task : Task, [task].length ≤ 1 := fun _ => Nat.le_refl 1
  have arrived : SmallRun P 1 start _ := SmallRun.arrive Interleaves.start wellMade (Nat.zero_le 1)
  have checked := arrived.advance (System.perform_check 0 moments rfl fresh) (one _) before
    rfl rfl
  have logged := checked.advance (System.perform_log 0 moments rfl logs) (one _) before rfl rfl
  have stored := logged.advance (System.perform_store 0 moments rfl) (one _) put rfl rfl
  have indexed := stored.advance (System.perform_index 0 moments rfl) (one _) put rfl rfl
  have answered := indexed.advance (System.perform_event 0 moments rfl) (one _) put rfl rfl
  exact ⟨_, answered, rfl, storeInsert_contents _ _ _⟩

/-- Two INSERTs that both check before either stores; the first to append is the
last to store.  Both are acknowledged: the log ends with the second, memory with
the first. -/
theorem smallRun_overtaking {left right : Document} {first second : WriteAheadLog}
    {leftSequence rightSequence : UInt64} (before : AllRoundTrip P start)
    (leftMade : (Request.insert ns coll left).WellMade P)
    (rightMade : (Request.insert ns coll right).WellMade P)
    (leftFresh : start.hasDocument (ns, coll) left.id = false)
    (rightFresh : start.hasDocument (ns, coll) right.id = false)
    (leftLogs : logInsert P (moments 0) ns coll left start.wal = (first, .ok leftSequence))
    (rightLogs : logInsert P (moments 0) ns coll right first = (second, .ok rightSequence)) :
    Exists fun system => SmallRun P 2 start system ∧ system.engine.wal = second ∧
      contentsOf system.engine.collections =
        Function.update (Function.update (contentsOf start.collections)
          ((ns, coll), right.id) (some right)) ((ns, coll), left.id) (some left) ∧
      system.tasks =
        [⟨.insert ns coll left, .answered (.ok (.records [left] 1))⟩,
          ⟨.insert ns coll right, .answered (.ok (.records [right] 1))⟩] ∧
      system.history = [.put 1 ((ns, coll), right.id), .put 0 ((ns, coll), left.id)] := by
  have rightPut : AllRoundTrip P (storeInsert (ns, coll) right { start with wal := second }) :=
    before.put rightMade.2 (storeInsert_contents _ _ _)
  have bothPut : AllRoundTrip P (storeInsert (ns, coll) left (storeInsert (ns, coll) right
      { start with wal := second })) :=
    rightPut.put leftMade.2 (storeInsert_contents _ _ _)
  have two : forall first second : Task, [first, second].length ≤ 2 := fun _ _ => Nat.le_refl 2
  have leftArrived : SmallRun P 2 start _ :=
    SmallRun.arrive Interleaves.start leftMade (Nat.zero_le 2)
  have arrived := leftArrived.arrive rightMade (Nat.le_succ 1)
  -- both check, and append in order
  have checked := arrived.advance (System.perform_check 0 moments rfl leftFresh) (two _ _) before
    rfl rfl
  have bothChecked := checked.advance (System.perform_check 1 moments rfl rightFresh) (two _ _)
    before rfl rfl
  have logged := bothChecked.advance (System.perform_log 0 moments rfl leftLogs) (two _ _) before
    rfl rfl
  have bothLogged := logged.advance (System.perform_log 1 moments rfl rightLogs) (two _ _) before
    rfl rfl
  -- the second is the first to store
  have stored := bothLogged.advance (System.perform_store 1 moments rfl) (two _ _) rightPut
    rfl rfl
  have bothStored := stored.advance (System.perform_store 0 moments rfl) (two _ _) bothPut rfl rfl
  have indexed := bothStored.advance (System.perform_index 0 moments rfl) (two _ _) bothPut
    rfl rfl
  have bothIndexed := indexed.advance (System.perform_index 1 moments rfl) (two _ _) bothPut
    rfl rfl
  have answered := bothIndexed.advance (System.perform_event 0 moments rfl) (two _ _) bothPut
    rfl rfl
  have bothAnswered := answered.advance (System.perform_event 1 moments rfl) (two _ _) bothPut
    rfl rfl
  refine ⟨_, bothAnswered, rfl, ?_, rfl, rfl⟩
  change contentsOf (storeInsert (ns, coll) left (storeInsert (ns, coll) right
    { start with wal := second })).collections = _
  rw [storeInsert_contents, storeInsert_contents]

end SmallRuns

end Server
end NovaDb
