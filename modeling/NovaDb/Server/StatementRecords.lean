import NovaDb.Server.ChangeStream
import NovaDb.Storage.LogGrowth

namespace NovaDb
namespace Server

open Core Foundation Index Query Storage DatabaseEngine

/-!
# The records of a statement

A critical section that runs to its end has appended one record for each change,
whatever the log was like before: the record names the document and holds what the
change made of it.
-/

namespace DatabaseEngine

/-- The record of a change: an UPDATE stores the new document in it, a REMOVE
nothing. -/
structure Change.Recorded (P : Platform) (recordType : RecordType) (ns coll : String)
    (change : Change) (record : NbfRecord) : Prop extends
    Change.Tells recordType ns coll change record where
  payload : match change.after with
    | some after => NbfRecord.payloadFromDocument P after = .ok record.payload
    | none => record.payload = []

/-- The log has grown by the records of the changes. -/
def Section.Records (P : Platform) (recordType : RecordType) (ns coll : String) (state : Section)
    (changes : List Change) (final : Section) : Prop :=
  Exists fun added => WriteAheadLog.Grows P state.wal final.wal added ∧
    List.Forall₂ (Change.Recorded P recordType ns coll) changes added

section Recorded

variable {P : Platform} {ns coll : String} {moments : Nat -> Moment} {turn : Nat}
  {state next final : Section} {changes : List Change} {recordType : RecordType}

theorem Section.records_nil (state : Section) :
    Section.Records P recordType ns coll state [] state :=
  ⟨[], WriteAheadLog.grows_nil P state.wal, List.Forall₂.nil⟩

theorem Section.records_cons {env : Environment} {change : Change} {payload : List UInt8}
    (logs : state.wal.append P env ⟨recordType, ns, coll, change.id, payload, none⟩ =
      (next.wal, .ok change.sequence))
    (holds : match change.after with
      | some after => NbfRecord.payloadFromDocument P after = .ok payload
      | none => payload = [])
    (later : Section.Records P recordType ns coll next changes final) :
    Section.Records P recordType ns coll state (change :: changes) final := by
  rcases later with ⟨added, grows, recorded⟩
  have first := WriteAheadLog.append_grows logs
  refine ⟨_, first.trans grows, List.Forall₂.cons ⟨⟨rfl, rfl, rfl, rfl, rfl⟩, ?_⟩ recorded⟩
  exact holds

theorem updateOnes_record {assignments : List Assignment} {filter : Option Expr}
    {entries : List (Sigma fun _ : DocumentId => Document)}
    (ran : runSection (updateOne P ns coll assignments filter) moments turn entries state =
      (final, .ok changes)) : Section.Records P .update ns coll state changes final := by
  apply @runSection_traces _ _ _ _ _ _ (fun _ _ => True)
    (fun state changes final => Section.Records P .update ns coll state changes final)
    _ _ _ _ ran trivial
  · exact fun state _ => Section.records_nil state
  · intro turn entry rest state next change _ first
    refine ⟨trivial, ?_⟩
    intro changes final later
    cases updateOne_exit first with
    | passedOver => exact later
    | logged matched assigns encoded logs => exact Section.records_cons logs encoded later

theorem removeOnes_record {targets : List DocumentId}
    (ran : runSection (removeOne P ns coll) moments turn targets state = (final, .ok changes)) :
    Section.Records P .delete ns coll state changes final := by
  apply @runSection_traces _ _ _ _ _ _ (fun _ _ => True)
    (fun state changes final => Section.Records P .delete ns coll state changes final)
    _ _ _ _ ran trivial
  · exact fun state _ => Section.records_nil state
  · intro turn id rest state next change _ first
    refine ⟨trivial, ?_⟩
    intro changes final later
    cases removeOne_exit first with
    | absent => exact later
    | logged stored logs => exact Section.records_cons logs rfl later

end Recorded

/-- The ids in the records are the ids of the changes. -/
theorem recorded_ids {P : Platform} {recordType : RecordType} {ns coll : String}
    {changes : List Change} {added : List NbfRecord}
    (recorded : List.Forall₂ (Change.Recorded P recordType ns coll) changes added) :
    added.map NbfRecord.documentId = changes.map Change.id := by
  induction recorded with
  | nil => rfl
  | cons first others ih => rw [List.map_cons, List.map_cons, first.documentId, ih]

/-- Each record is that of some change. -/
theorem recorded_change {P : Platform} {recordType : RecordType} {ns coll : String}
    {changes : List Change} {added : List NbfRecord}
    (recorded : List.Forall₂ (Change.Recorded P recordType ns coll) changes added)
    {record : NbfRecord} (member : record ∈ added) :
    Exists fun change => change ∈ changes ∧ Change.Recorded P recordType ns coll change record := by
  induction recorded with
  | nil => cases member
  | cons first others ih =>
      rcases List.mem_cons.mp member with rfl | inRest
      · exact ⟨_, List.mem_cons_self, first⟩
      · rcases ih inRest with ⟨change, inChanges, isRecorded⟩
        exact ⟨change, List.mem_cons_of_mem _ inChanges, isRecorded⟩

end DatabaseEngine

/-! ## Any statement keeps the log in order -/

section Order

variable {P : Platform} {ns coll : String} {moments : Nat -> Moment} {engine : DatabaseEngine}

theorem appended_ordered {env : Environment} {wal next : WriteAheadLog} {mutation : Mutation}
    {outcome : Outcome UInt64} (ordered : wal.Ordered)
    (appends : wal.append P env mutation = (next, outcome)) : next.Ordered := by
  have kept := ordered.append P env mutation
  rw [appends] at kept
  exact kept

theorem updateOne_ordered (P : Platform) (ns coll : String) (assignments : List Assignment)
    (filter : Option Expr) (moment : Moment) (entry : Sigma fun _ : DocumentId => Document)
    (state : Section) (ordered : state.wal.Ordered) :
    (updateOne P ns coll assignments filter moment entry state).1.wal.Ordered := by
  cases ran : updateOne P ns coll assignments filter moment entry state with
  | mk next outcome =>
      cases updateOne_exit ran with
      | unfiltered => exact ordered
      | passedOver => exact ordered
      | unassigned => exact ordered
      | unserialized => exact ordered
      | unlogged _ _ _ fails => exact appended_ordered ordered fails
      | logged _ _ _ logs => exact appended_ordered ordered logs

theorem removeOne_ordered (P : Platform) (ns coll : String) (moment : Moment) (id : DocumentId)
    (state : Section) (ordered : state.wal.Ordered) :
    (removeOne P ns coll moment id state).1.wal.Ordered := by
  cases ran : removeOne P ns coll moment id state with
  | mk next outcome =>
      cases removeOne_exit ran with
      | absent => exact ordered
      | unlogged _ fails => exact appended_ordered ordered fails
      | logged _ logs => exact appended_ordered ordered logs

theorem logInsert_ordered {moment : Moment} {doc : Document} {wal next : WriteAheadLog}
    {outcome : Except Stop UInt64} (ordered : wal.Ordered)
    (ran : logInsert P moment ns coll doc wal = (next, outcome)) : next.Ordered := by
  cases logInsert_exit ran with
  | unserialized => exact ordered
  | unlogged _ fails => exact appended_ordered ordered fails
  | logged _ logs => exact appended_ordered ordered logs

theorem updateSection_ordered {assignments : List Assignment} {filter : Option Expr}
    {next : DatabaseEngine} {outcome : Except Stop (List Change)} (ordered : engine.wal.Ordered)
    (ran : updateSection P moments ns coll assignments filter engine = (next, outcome)) :
    next.wal.Ordered := by
  rcases updateSection_loop ran with ⟨final, loop, rfl⟩
  apply @runSection_keeps _ _ _ _ _ _ (fun state => state.wal.Ordered) _ _ _ loop ordered
  intro moment entry state _ kept
  exact updateOne_ordered P ns coll assignments filter moment entry state kept

theorem removeSection_ordered {filter : Option Expr} {next : DatabaseEngine}
    {outcome : Except Stop (List Change)} (ordered : engine.wal.Ordered)
    (ran : removeSection P moments ns coll filter engine = (next, outcome)) :
    next.wal.Ordered := by
  cases isTargets : removeTargets P filter (storeOf engine.collections (ns, coll)).entries with
  | error stop =>
      have entered : removeTargets P filter (engine.enter (ns, coll)).store.entries = .error stop :=
        isTargets
      simp only [removeSection, entered] at ran
      cases ran
      exact ordered
  | ok targets =>
      rcases removeSection_loop isTargets ran with ⟨final, loop, rfl⟩
      apply @runSection_keeps _ _ _ _ _ _ (fun state => state.wal.Ordered) _ _ _ loop ordered
      intro moment id state _ kept
      exact removeOne_ordered P ns coll moment id state kept

theorem emitChanges_wal (eventType : EventType) (turn : Nat) (changes : List Change)
    (engine : DatabaseEngine) :
    (emitChanges eventType ns coll moments turn changes engine).wal = engine.wal := by
  rcases @emitChanges_state ns coll eventType moments turn changes engine with ⟨events, same⟩
  rw [same]

theorem execute_ordered (moments : Nat -> Moment) (statement : Statement) (ns : String)
    (ordered : engine.wal.Ordered) : (execute P moments statement ns engine).1.wal.Ordered := by
  cases statement with
  | insert coll doc =>
      simp only [execute, outcomeOf, executeInsert]
      split
      · exact ordered
      · cases logs : logInsert P (moments 0) ns coll doc engine.wal with
        | mk wal result =>
            have kept := logInsert_ordered ordered logs
            cases result with
            | error stop => exact kept
            | ok sequence => exact kept
  | update coll assignments filter =>
      simp only [execute, outcomeOf, executeUpdate]
      cases ran : updateSection P moments ns coll assignments filter engine with
      | mk next outcome =>
          have kept := updateSection_ordered ordered ran
          cases outcome with
          | error stop => exact kept
          | ok changes =>
              simp only [emitChanges_wal]
              exact kept
  | remove coll filter =>
      simp only [execute, outcomeOf, executeRemove]
      cases ran : removeSection P moments ns coll filter engine with
      | mk next outcome =>
          have kept := removeSection_ordered ordered ran
          cases outcome with
          | error stop => exact kept
          | ok changes =>
              simp only [emitChanges_wal]
              exact kept
  | dropIndex coll field =>
      simp only [execute, executeDropIndex]
      split
      · exact ordered
      · exact ordered
  | find | watch | count | «exists» | createIndex | begin | commit | rollback => exact ordered

/-- So every engine that statements reach from an opened directory writes to the
last segment. -/
theorem openEngine_ordered {dir : WalDir} {syncMode : SyncMode} {limit : Nat}
    (opens : (openEngine P dir syncMode limit).2 = .ok engine) : engine.wal.Ordered := by
  rw [openEngine] at opens
  split at opens
  · cases opens
  · cases opens
    exact (WriteAheadLog.ordered_openDir _ syncMode limit).resequenced _

end Order

end Server
end NovaDb
