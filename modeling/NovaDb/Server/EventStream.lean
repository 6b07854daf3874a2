import NovaDb.Server.ChangeStream

namespace NovaDb
namespace Server

open Core Foundation Index Query Storage DatabaseEngine

/-!
# Events, records and collections

In a run of statements one after another from an empty directory, with nothing
failing outside the program and every UPDATE and REMOVE returning, the events are
the records of the log, one to one and in order.  Their numbers ascend as long as
the counter of the log has not wrapped around; it does after `2 ^ 64` numbers, of
which a refused INSERT takes one as well.
-/

/-- The record type of the change an event is about. -/
def EventType.recordType : EventType -> RecordType
  | .create => .insert
  | .update => .update
  | .delete => .delete

/-- An event and the record it goes with. -/
structure DataEvent.Tells (event : DataEvent) (record : NbfRecord) : Prop where
  sequence : event.sequence = record.sequence
  namespaceName : event.namespaceName = record.namespaceName
  collection : event.collection = record.collection
  documentId : event.documentId = record.documentId
  recordType : event.eventType.recordType = record.recordType

theorem changeEvents_tell {eventType : EventType} {ns coll : String} {moments : Nat -> Moment}
    {changes : List Change} {records : List NbfRecord} (turn : Nat)
    (tells : List.Forall₂ (Change.Tells eventType.recordType ns coll) changes records) :
    List.Forall₂ DataEvent.Tells (changeEvents eventType ns coll moments turn changes) records := by
  induction tells generalizing turn with
  | nil => exact List.Forall₂.nil
  | cons first rest ih =>
      refine List.Forall₂.cons ?_ (ih (turn + 1))
      exact ⟨first.sequence.symm, first.namespaceName.symm, first.collection.symm,
        first.documentId.symm, first.recordType.symm⟩

/-- The numbers a statement that returns has taken from the log's counter; an
INSERT takes one once its payload is made, also when its record is refused. -/
def issuedBy (P : Platform) (moments : Nat -> Moment) (statement : Statement) (ns : String)
    (engine : DatabaseEngine) : Nat :=
  match statement with
  | .insert coll doc =>
      if engine.hasDocument (ns, coll) doc.id then 0
      else
        match NbfRecord.payloadFromDocument P doc with
        | .error _ => 0
        | .ok _ => 1
  | .update coll assignments filter =>
      match (updateSection P moments ns coll assignments filter engine).2 with
      | .error _ => 0
      | .ok changes => changes.length
  | .remove coll filter =>
      match (removeSection P moments ns coll filter engine).2 with
      | .error _ => 0
      | .ok changes => changes.length
  | _ => 0

/-- The engines reached from an empty directory by statements one after another,
with the count of the numbers taken so far. -/
inductive StatementRun (P : Platform) : Nat -> DatabaseEngine -> Prop where
  | opened {path : String} {mode : SyncMode} {limit : Nat} {engine : DatabaseEngine}
      (opens : (openEngine P ⟨path, ∅⟩ mode limit).2 = .ok engine) : StatementRun P 0 engine
  | statement {issued : Nat} {engine : DatabaseEngine} (run : StatementRun P issued engine)
      {moments : Nat -> Moment} (quiet : forall turn, (moments turn).append.Quiet)
      {statement : Statement} {ns : String}
      (returns : ReturnsChanges statement (execute P moments statement ns engine).2) :
      StatementRun P (issued + issuedBy P moments statement ns engine)
        (execute P moments statement ns engine).1
  | rearranged {issued : Nat} {engine next : DatabaseEngine} (run : StatementRun P issued engine)
      (same : Rearranged engine next) : StatementRun P issued next

/-- The events tell the records and lead to the collections. -/
structure Chronicle (P : Platform) (issued : Nat) (engine : DatabaseEngine)
    (records : List NbfRecord) : Prop where
  logs : WriteAheadLog.Logs P engine.wal records
  tells : List.Forall₂ DataEvent.Tells engine.events records
  leads : Edit.Leads noContents (engine.events.map DataEvent.edit)
    (contentsOf engine.collections)
  numbers : issued < 2 ^ 64 -> engine.wal.currentSequence.toNat = issued ∧
    Ascends 0 (engine.events.map fun event => event.sequence.toNat) issued

section Steps

variable {P : Platform} {issued : Nat} {engine next : DatabaseEngine} {records : List NbfRecord}
  {ns coll : String} {moments : Nat -> Moment}

/-- A critical section that returns, with its events. -/
theorem Chronicle.section (chronicle : Chronicle P issued engine records)
    (quiet : forall turn, (moments turn).append.Quiet) {eventType : EventType}
    {filter : Option Expr} {changes : List Change} {final : Section}
    (accounted : Accounted P filter eventType.recordType ns coll moments engine changes final) :
    Exists fun records => Chronicle P (issued + changes.length)
      (emitChanges eventType ns coll moments 0 changes (engine.leave (ns, coll) final))
      records := by
  rw [emitChanges_eq]
  rcases accounted.tells quiet records chronicle.logs with ⟨added, logs, tells⟩
  refine ⟨records ++ added, logs, ?_, ?_, ?_⟩
  · exact List.rel_append chronicle.tells (changeEvents_tell 0 tells)
  · rw [List.map_append, changeEvents_edits]
    exact chronicle.leads.append accounted.leads
  · intro few
    rcases chronicle.numbers (by omega) with ⟨counted, ascends⟩
    have entered : (engine.enter (ns, coll)).wal.currentSequence.toNat = issued := counted
    rcases accounted.accounts.numbers (by rw [entered]; exact few) with ⟨later, finish⟩
    rw [entered] at later finish
    refine ⟨finish, ?_⟩
    rw [List.map_append, changeEvents_numbers]
    rw [finish] at later
    exact ascends.append later

/-- An INSERT. -/
theorem Chronicle.insert (chronicle : Chronicle P issued engine records)
    (quiet : forall turn, (moments turn).append.Quiet) (coll : String) (doc : Document) :
    Exists fun records => Chronicle P (issued + issuedBy P moments (.insert coll doc) ns engine)
      (executeInsert P (moments 0) ns coll doc engine).1 records := by
  unfold executeInsert issuedBy
  simp only
  split
  · exact ⟨records, chronicle⟩
  · rename_i absent
    unfold logInsert
    cases encoded : NbfRecord.payloadFromDocument P doc with
    | error failure => exact ⟨records, chronicle⟩
    | ok payload =>
        simp only
        have stepped : forall {wal : WriteAheadLog},
            wal.currentSequence = engine.wal.currentSequence + 1 -> issued + 1 < 2 ^ 64 ->
              engine.wal.currentSequence.toNat = issued -> wal.currentSequence.toNat = issued + 1 := by
          intro wal counted few before
          rw [counted, ← before]
          exact toNat_next (by omega)
        rcases chronicle.logs.append (quiet 0) ⟨.insert, ns, coll, doc.id, payload, none⟩ with
          ⟨wal, counted, ⟨fault, fails, logs⟩ | ⟨appends, logs⟩⟩
        · simp only [fails]
          refine ⟨records, logs, chronicle.tells, chronicle.leads, ?_⟩
          intro few
          rcases chronicle.numbers (by omega) with ⟨before, ascends⟩
          refine ⟨stepped counted few before, ?_⟩
          have idle := ascends.append (ascends_nil (Nat.le_succ issued))
          rw [List.append_nil] at idle
          exact idle
        · simp only [appends]
          refine ⟨_, logs, ?_, ?_, ?_⟩
          · exact List.rel_append chronicle.tells
              (List.Forall₂.cons ⟨rfl, rfl, rfl, rfl, rfl⟩ List.Forall₂.nil)
          · have stored := storeInsert_contents (ns, coll) doc { engine with wal }
            change Edit.Leads noContents ((engine.events ++ [_]).map DataEvent.edit)
              (contentsOf (storeInsert (ns, coll) doc { engine with wal }).collections)
            rw [List.map_append, stored]
            apply chronicle.leads.snoc
            -- the uniqueness check found nothing, and nothing came in between
            rw [Bool.not_eq_true, hasDocument, decide_eq_false_iff_not] at absent
            exact AList.lookup_eq_none.mpr absent
          · intro few
            rcases chronicle.numbers (by omega) with ⟨before, ascends⟩
            refine ⟨stepped counted few before, ?_⟩
            change Ascends 0 ((engine.events ++ [_]).map _) (issued + 1)
            rw [List.map_append]
            refine ascends.append ?_
            change Ascends issued [(engine.wal.currentSequence + 1).toNat] (issued + 1)
            rw [← counted, stepped counted few before]
            exact ascends_one issued

/-- One statement. -/
theorem Chronicle.execute (chronicle : Chronicle P issued engine records)
    (quiet : forall turn, (moments turn).append.Quiet) {statement : Statement}
    (returns : ReturnsChanges statement (execute P moments statement ns engine).2) :
    Exists fun records => Chronicle P (issued + issuedBy P moments statement ns engine)
      (execute P moments statement ns engine).1 records := by
  cases statement with
  | insert coll doc => exact chronicle.insert quiet coll doc
  | update coll assignments filter =>
      simp only [DatabaseEngine.execute, outcomeOf, executeUpdate, issuedBy] at returns ⊢
      cases ran : updateSection P moments ns coll assignments filter engine with
      | mk next outcome =>
          rw [ran] at returns
          cases outcome with
          | error stop =>
              rcases returns with ⟨payload, impossible⟩
              cases impossible
          | ok changes =>
              rcases updateSection_accounted ran with ⟨final, rfl, accounted⟩
              exact @Chronicle.section _ _ _ _ _ _ _ chronicle quiet .update _ _ _ accounted
  | remove coll filter =>
      simp only [DatabaseEngine.execute, outcomeOf, executeRemove, issuedBy] at returns ⊢
      cases ran : removeSection P moments ns coll filter engine with
      | mk next outcome =>
          rw [ran] at returns
          cases outcome with
          | error stop =>
              rcases returns with ⟨payload, impossible⟩
              cases impossible
          | ok changes =>
              rcases removeSection_accounted ran with ⟨final, rfl, accounted⟩
              exact @Chronicle.section _ _ _ _ _ _ _ chronicle quiet .delete _ _ _ accounted
  | dropIndex coll field =>
      simp only [DatabaseEngine.execute, executeDropIndex]
      split
      · exact ⟨records, chronicle⟩
      · exact ⟨records, chronicle.logs, chronicle.tells, chronicle.leads, chronicle.numbers⟩
  | createIndex coll field indexType =>
      exact ⟨records, chronicle.logs, chronicle.tells, chronicle.leads, chronicle.numbers⟩
  | find | watch | count | «exists» | begin | commit | rollback => exact ⟨records, chronicle⟩

end Steps

/-- The engine opened on an empty directory. -/
theorem openEngine_fresh {P : Platform} {path : String} {mode : SyncMode} {limit : Nat}
    {engine : DatabaseEngine} (opens : (openEngine P ⟨path, ∅⟩ mode limit).2 = .ok engine) :
    engine = ⟨∅, ∅, (WriteAheadLog.openDir ⟨path, ∅⟩ mode limit).setSequence 0, []⟩ := by
  rw [openEngine, RecoveryManager.recover] at opens
  simp only [discoverSegments_empty] at opens
  exact (Except.ok.inj opens).symm

theorem StatementRun.chronicle {P : Platform} {issued : Nat} {engine : DatabaseEngine}
    (run : StatementRun P issued engine) :
    Exists fun records => Chronicle P issued engine records := by
  induction run with
  | @opened path mode limit engine opens =>
      rw [openEngine_fresh opens]
      refine ⟨[], WriteAheadLog.logs_openDir_empty mode limit path 0, List.Forall₂.nil, ?_, ?_⟩
      · exact Edit.Leads.nil _
      · exact fun _ => ⟨rfl, ascends_nil (Nat.le_refl 0)⟩
  | statement run quiet returns ih =>
      rcases ih with ⟨records, chronicle⟩
      exact chronicle.execute quiet returns
  | @rearranged issued engine next run same ih =>
      rcases ih with ⟨records, chronicle⟩
      refine ⟨records, ?_, ?_, ?_, ?_⟩
      · rw [same.wal]
        exact chronicle.logs
      · rw [same.events]
        exact chronicle.tells
      · rw [same.events, ← contentsOf_perm same.stores]
        exact chronicle.leads
      · rw [same.events, same.wal]
        exact chronicle.numbers

/-- In every run of statements in which fewer than `2 ^ 64` numbers are taken, the
events tell the records of the log one to one, each with the document stored before
its record took effect and the one stored after it; the numbers ascend; and the
events applied to an empty database give the collections. -/
theorem events_tell_log {P : Platform} {issued : Nat} {engine : DatabaseEngine}
    (run : StatementRun P issued engine) (few : issued < 2 ^ 64) :
    Exists fun records =>
      WriteAheadLog.Logs P engine.wal records ∧
      List.Forall₂ DataEvent.Tells engine.events records ∧
      (forall front event back, engine.events = front ++ event :: back ->
        Edit.replay noContents (front.map DataEvent.edit) event.place = event.before ∧
        Edit.replay noContents ((front ++ [event]).map DataEvent.edit) event.place = event.after) ∧
      engine.events.Pairwise (fun earlier later => earlier.sequence < later.sequence) ∧
      Edit.replay noContents (engine.events.map DataEvent.edit) = contentsOf engine.collections := by
  rcases run.chronicle with ⟨records, chronicle⟩
  refine ⟨records, chronicle.logs, chronicle.tells, ?_, ?_, chronicle.leads.replay⟩
  · intro front event back split
    constructor
    · apply @Edit.Leads.found _ _ _ _ _ _ _ (back.map DataEvent.edit) event.edit chronicle.leads
      rw [split, List.map_append, List.map_cons]
    · rw [List.map_append]
      exact Edit.replay_snoc_self noContents (front.map DataEvent.edit) event.edit
  · have ascends := (chronicle.numbers few).2.pairwise
    rw [List.pairwise_map] at ascends
    exact ascends.imp UInt64.lt_iff_toNat_lt.mpr

theorem statementRun_sample : StatementRun samplePlatform 1 sampleEngine := by
  have opened : StatementRun samplePlatform 0 (emptyEngine 100) :=
    StatementRun.opened (openEngine_empty samplePlatform 100)
  have one : 0 + issuedBy samplePlatform quietMoments (.insert "users" sampleDocument) "default"
      (emptyEngine 100) = 1 := by decide +kernel
  have first := @StatementRun.statement _ _ _ opened quietMoments
    (fun _ => quiet_quietEnvironment) (.insert "users" sampleDocument) "default" trivial
  rw [one] at first
  exact first

/-- The numbers that the statements of a script take. -/
def scriptIssues : List Statement -> DatabaseEngine -> Nat
  | [], _ => 0
  | statement :: rest, engine =>
      issuedBy crowdPlatform quietMoments statement "default" engine +
        scriptIssues rest (execute crowdPlatform quietMoments statement "default" engine).1

theorem StatementRun.plays {issued : Nat} {engine : DatabaseEngine}
    (run : StatementRun crowdPlatform issued engine) {script : List Statement}
    (well : playsWell script engine = true) :
    StatementRun crowdPlatform (issued + scriptIssues script engine)
      (playScript crowdPlatform script engine) := by
  induction script generalizing issued engine with
  | nil => exact run
  | cons statement rest inductionHypothesis =>
      simp only [playsWell, Bool.and_eq_true] at well
      rcases well with ⟨⟨returned, _⟩, others⟩
      rw [scriptIssues, ← Nat.add_assoc]
      exact inductionHypothesis (run.statement (fun _ => quiet_quietEnvironment)
        (returnsChanges_of_isSome returned)) others

theorem statementRun_crowd : StatementRun crowdPlatform 4 crowdEngine := by
  have opened : StatementRun crowdPlatform 0 (emptyEngine 4096) :=
    StatementRun.opened (openEngine_empty crowdPlatform 4096)
  have four : 0 + scriptIssues crowdScript (emptyEngine 4096) = 4 := by decide +kernel
  have played := opened.plays (show playsWell crowdScript (emptyEngine 4096) = true by
    decide +kernel)
  rw [four] at played
  exact played

/-- Two INSERTs, an UPDATE and a REMOVE: an event and a record each. -/
theorem events_tell_log_crowd :
    crowdEngine.events.map DataEvent.eventType = [.create, .create, .update, .delete] ∧
    Exists fun records => WriteAheadLog.Logs crowdPlatform crowdEngine.wal records ∧
      List.Forall₂ DataEvent.Tells crowdEngine.events records ∧
      Edit.replay noContents (crowdEngine.events.map DataEvent.edit) =
        contentsOf crowdEngine.collections := by
  rcases events_tell_log statementRun_crowd (by decide) with
    ⟨records, logs, tells, _, _, replays⟩
  exact ⟨by decide +kernel, records, logs, tells, replays⟩

/-! ## The counter wraps around -/

/-- A name of `2 ^ doublings` bytes. -/
def longName : Nat -> String
  | 0 => "a"
  | doublings + 1 => longName doublings ++ longName doublings

theorem utf8Bytes_length (text : String) : (utf8Bytes text).length = text.utf8ByteSize := by
  rw [utf8Bytes, Array.length_toList]
  rfl

theorem longName_length (doublings : Nat) : (utf8Bytes (longName doublings)).length =
    2 ^ doublings := by
  induction doublings with
  | zero => decide +kernel
  | succ doublings ih =>
      rw [utf8Bytes_length] at ih
      rw [utf8Bytes_length, longName, String.utf8ByteSize_append, ih]
      omega

/-- A record for a collection with such a name is refused, but has taken a number. -/
theorem append_refused_name (P : Platform) (env : Environment) (wal : WriteAheadLog)
    (ns : String) (id : DocumentId) (payload : List UInt8) :
    Exists fun fault =>
      wal.append P env ⟨.insert, ns, longName 16, id, payload, none⟩ =
        ({ wal with currentSequence := wal.currentSequence + 1 }, .error fault) := by
  unfold WriteAheadLog.append
  simp only
  split
  · exact ⟨_, rfl⟩
  · cases encodes : (Mutation.record ⟨.insert, ns, longName 16, id, payload, none⟩
        (wal.currentSequence + 1) env.now).encode P with
    | error failure => exact ⟨_, rfl⟩
    | ok encoded =>
        have fits := (NbfRecord.encode_eq_ok_iff.mp encodes).1.collection
        have long : (utf8Bytes (longName 16)).length ≤ 0xFFFF := fits
        rw [longName_length] at long
        omega

/-- The engine with its counter some steps further. -/
def counterAhead (steps : Nat) (engine : DatabaseEngine) : DatabaseEngine :=
  { engine with wal := { engine.wal with
      currentSequence := engine.wal.currentSequence + UInt64.ofNat steps } }

theorem StatementRun.refusals {P : Platform} {issued : Nat} {engine : DatabaseEngine}
    (run : StatementRun P issued engine) {doc : Document} {payload : List UInt8}
    (encoded : NbfRecord.payloadFromDocument P doc = .ok payload)
    (absent : engine.hasDocument ("default", longName 16) doc.id = false) (steps : Nat) :
    StatementRun P (issued + steps) (counterAhead steps engine) := by
  induction steps with
  | zero =>
      have same : counterAhead 0 engine = engine := by
        have zero : UInt64.ofNat 0 = 0 := rfl
        simp only [counterAhead, zero, UInt64.add_zero]
      rw [same]
      exact run
  | succ steps ih =>
      have stillAbsent : (counterAhead steps engine).hasDocument ("default", longName 16) doc.id =
          false := absent
      have one : issuedBy P quietMoments (.insert (longName 16) doc) "default"
          (counterAhead steps engine) = 1 := by
        simp only [issuedBy, stillAbsent, encoded]
        rfl
      have next : (execute P quietMoments (.insert (longName 16) doc) "default"
          (counterAhead steps engine)).1 = counterAhead (steps + 1) engine := by
        rcases append_refused_name P quietEnvironment (counterAhead steps engine).wal "default"
          doc.id payload with ⟨fault, refused⟩
        have logs : logInsert P (quietMoments 0) "default" (longName 16) doc
            (counterAhead steps engine).wal =
            ({ (counterAhead steps engine).wal with
              currentSequence := (counterAhead steps engine).wal.currentSequence + 1 },
              .error ⟨.append, fault⟩) := by
          simp only [logInsert, encoded, quietMoments, refused]
        have refusedInsert : executeInsert P (quietMoments 0) "default" (longName 16) doc
            (counterAhead steps engine) =
            ({ counterAhead steps engine with
              wal := { (counterAhead steps engine).wal with
                currentSequence := (counterAhead steps engine).wal.currentSequence + 1 } },
              .error ⟨.append, fault⟩) := by
          simp only [executeInsert, stillAbsent, logs]
          rfl
        have sum : engine.wal.currentSequence + UInt64.ofNat steps + 1 =
            engine.wal.currentSequence + UInt64.ofNat (steps + 1) := by
          rw [UInt64.add_assoc, UInt64.ofNat_add]
          rfl
        simp only [execute, outcomeOf, refusedInsert]
        rw [counterAhead, counterAhead, ← sum]
      have stepped := @StatementRun.statement _ _ _ ih quietMoments
        (fun _ => quiet_quietEnvironment) (.insert (longName 16) doc) "default" trivial
      rw [one, next] at stepped
      exact stepped

/-- The engine after one INSERT, `2 ^ 64 - 1` refused ones, and one into another
collection. -/
def wrappedEngine : DatabaseEngine :=
  (execute samplePlatform quietMoments (.insert "people" sampleDocument) "default"
    (counterAhead (2 ^ 64 - 1) sampleEngine)).1

theorem run_wrappedEngine : Exists fun issued =>
    StatementRun samplePlatform issued wrappedEngine := by
  have wrapped := statementRun_sample.refusals payloadFromDocument_sample (by decide +kernel) (2 ^ 64 - 1)
  exact ⟨_, @StatementRun.statement _ _ _ wrapped quietMoments
    (fun _ => quiet_quietEnvironment) (.insert "people" sampleDocument) "default" trivial⟩

/-- Both events have the number one. -/
theorem events_repeat_number : Exists fun issued => Exists fun engine =>
    StatementRun samplePlatform issued engine ∧
      ¬ engine.events.Pairwise (fun earlier later => earlier.sequence < later.sequence) := by
  rcases run_wrappedEngine with ⟨issued, run⟩
  refine ⟨issued, wrappedEngine, run, ?_⟩
  have numbers : wrappedEngine.events.map (fun event => event.sequence) = [1, 1] := by
    decide +kernel
  intro ascends
  have pairwise : (wrappedEngine.events.map (fun event => event.sequence)).Pairwise (· < ·) :=
    List.pairwise_map.mpr ascends
  rw [numbers] at pairwise
  exact absurd pairwise (by decide)

end Server
end NovaDb
