import NovaDb.Server.EventStream
import NovaDb.Server.Updates

namespace NovaDb
namespace Server

open Core Foundation Index Query Storage DatabaseEngine

/-!
# The lives of a document

The events about one id tell of documents that come and go there, one life after
another.  A life begins with a create event, goes on with update events, each of
which takes the document the one before left and advances its version, and may end
with a delete event, which takes the last document.  So a stored document has the id
and the creation time it was created with, and its version counts its updates.
-/

/-! ## What one event can tell -/

/-- An event tells of a document that appears, of one that is revised, or of one
that disappears. -/
inductive DataEvent.Lawful (P : Platform) (event : DataEvent) : Prop where
  | create (doc : Document) (kind : event.eventType = .create) (before : event.before = none)
      (after : event.after = some doc) (sameId : doc.id = event.documentId)
  | update (doc next : Document) (kind : event.eventType = .update)
      (before : event.before = some doc) (after : event.after = some next)
      (sameId : next.id = doc.id) (sameCreation : next.createdAt = doc.createdAt)
      (version : Advances P doc.version next.version)
  | delete (doc : Document) (kind : event.eventType = .delete) (before : event.before = some doc)
      (after : event.after = none)

/-- The events about an id, and the document they leave there: a life begins with a
create event where there is no document, goes on with updates of the document that the
event in front left, and ends with a delete event of it. -/
inductive Lives (P : Platform) (id : DocumentId) : List DataEvent -> Option Document -> Prop where
  | unborn : Lives P id [] none
  | created {events : List DataEvent} {event : DataEvent} {doc : Document}
      (lives : Lives P id events none) (kind : event.eventType = .create)
      (before : event.before = none) (after : event.after = some doc) (isId : doc.id = id) :
      Lives P id (events ++ [event]) (some doc)
  | updated {events : List DataEvent} {event : DataEvent} {doc next : Document}
      (lives : Lives P id events (some doc)) (kind : event.eventType = .update)
      (before : event.before = some doc) (after : event.after = some next)
      (sameId : next.id = doc.id) (sameCreation : next.createdAt = doc.createdAt)
      (version : Advances P doc.version next.version) :
      Lives P id (events ++ [event]) (some next)
  | deleted {events : List DataEvent} {event : DataEvent} {doc : Document}
      (lives : Lives P id events (some doc)) (kind : event.eventType = .delete)
      (before : event.before = some doc) (after : event.after = none) :
      Lives P id (events ++ [event]) none

section Telling

variable {P : Platform} {id : DocumentId} {events : List DataEvent} {event : DataEvent}
  {doc : Document}

/-- One more event, which finds what the others left. -/
theorem Lives.snoc {found : Option Document} (lives : Lives P id events found)
    (lawful : event.Lawful P) (finds : found = event.before) (isId : event.documentId = id) :
    Lives P id (events ++ [event]) event.after := by
  cases lawful with
  | create doc kind before after sameId =>
      rw [finds, before] at lives
      rw [after]
      exact lives.created kind before after (sameId.trans isId)
  | update doc next kind before after sameId sameCreation version =>
      rw [finds, before] at lives
      rw [after]
      exact lives.updated kind before after sameId sameCreation version
  | delete doc kind before after =>
      rw [finds, before] at lives
      rw [after]
      exact lives.deleted kind before after

/-- Events each of which finds what the events in front of it left.  The induction is
on the events from the last one; those about other ids leave the document alone. -/
theorem lives_of_found (lawful : forall event, event ∈ events -> event.Lawful P)
    (found : forall front event back, events = front ++ event :: back ->
      Edit.replay noContents (front.map DataEvent.edit) event.place = event.before)
    (place : Place) :
    Lives P place.2 (events.filter fun event => decide (event.place = place))
      (Edit.replay noContents (events.map DataEvent.edit) place) := by
  induction events using List.reverseRecOn with
  | nil => exact Lives.unborn
  | append_singleton events event hypothesis =>
      have lives := hypothesis (fun other member => lawful other (List.mem_append_left _ member))
        (fun front other back split => found front other (back ++ [event]) (by
          rw [split, List.append_assoc, List.cons_append]))
      rw [List.map_append, List.map_singleton, List.filter_append, Edit.replay_append]
      change Lives P place.2 _ (Foundation.Edit.apply (Edit.replay noContents _) event.edit place)
      rw [Foundation.Edit.apply, show event.edit.key = event.place from rfl,
        show event.edit.after = event.after from rfl]
      by_cases here : event.place = place
      · subst here
        rw [Function.update_self, List.filter_singleton, decide_eq_true rfl]
        exact lives.snoc (lawful event (List.mem_append_right _ (List.mem_singleton_self _)))
          (found events event [] rfl) rfl
      · rw [Function.update_of_ne (Ne.symm here), List.filter_singleton, decide_eq_false here]
        change Lives P place.2 (_ ++ []) _
        rw [List.append_nil]
        exact lives

end Telling

/-! ## What a stored document has been through -/

theorem Advances.word {P : Platform} {before after : UInt64} (advances : Advances P before after) :
    after = before + 1 := by
  rcases advances with next | ⟨_, last, wrapped⟩
  · have few := after.toNat_lt
    exact UInt64.toNat_inj.mp (next.trans (toNat_next (by omega)).symm)
  · have isLast : before = 0xFFFFFFFFFFFFFFFF := UInt64.toNat_inj.mp last
    rw [wrapped, isLast]
    rfl

/-- A document with the update events since its create event: its version is as many
steps further, and does not wrap around where overflow checks are compiled in. -/
structure Revised (P : Platform) (events : List DataEvent) (doc : Document)
    (earlier : List DataEvent) (creation : DataEvent) (updates : List DataEvent)
    (born : Document) : Prop where
  split : events = earlier ++ creation :: updates
  kind : creation.eventType = .create
  after : creation.after = some born
  kinds : forall event, event ∈ updates -> event.eventType = .update
  id : doc.id = born.id
  createdAt : doc.createdAt = born.createdAt
  version : doc.version = born.version + UInt64.ofNat updates.length
  counted : P.overflowChecks = true ->
    doc.version.toNat = born.version.toNat + updates.length

section Counting

variable {P : Platform} {id : DocumentId} {events : List DataEvent} {doc : Document}

theorem Lives.revised (lives : Lives P id events (some doc)) :
    doc.id = id ∧ Exists fun earlier => Exists fun creation => Exists fun updates =>
      Exists fun born => Revised P events doc earlier creation updates born := by
  generalize isDoc : some doc = found at lives
  induction lives generalizing doc with
  | unborn => cases isDoc
  | @created events event born lives kind before after isId =>
      cases isDoc
      refine ⟨isId, events, event, [], born, rfl, kind, after, ?_, rfl, rfl, ?_, fun _ => rfl⟩
      · intro other member
        cases member
      · exact (UInt64.add_zero _).symm
  | @updated events event before next lives kind isBefore after sameId sameCreation version ih =>
      cases isDoc
      rcases ih rfl with ⟨isId, earlier, creation, updates, born, revised⟩
      refine ⟨sameId.trans isId, earlier, creation, updates ++ [event], born, ?_, revised.kind,
        revised.after, ?_, sameId.trans revised.id, sameCreation.trans revised.createdAt, ?_, ?_⟩
      · rw [revised.split, List.append_assoc, List.cons_append]
      · intro other member
        rcases List.mem_append.mp member with older | isLast
        · exact revised.kinds other older
        · rw [List.mem_singleton.mp isLast]
          exact kind
      · rw [version.word, revised.version, List.length_append, List.length_singleton,
          UInt64.ofNat_add, UInt64.add_assoc]
        rfl
      · intro checks
        rcases version with counted | ⟨unchecked, _⟩
        · rw [counted, revised.counted checks, List.length_append, List.length_singleton,
            Nat.add_assoc]
        · rw [checks] at unchecked
          cases unchecked
  | deleted => cases isDoc

end Counting

/-! ## The events of a run -/

section Running

variable {P : Platform} {engine next : DatabaseEngine} {ns coll : String}
  {moments : Nat -> Moment} {turn : Nat} {changes : List Change}

theorem lawful_changeEvents {eventType : EventType}
    (lawful : forall change moment, change ∈ changes ->
      (changeEvent eventType ns coll moment change).Lawful P) (turn : Nat) :
    forall event, event ∈ changeEvents eventType ns coll moments turn changes ->
      event.Lawful P := by
  induction changes generalizing turn with
  | nil =>
      intro event member
      cases member
  | cons change rest hypothesis =>
      intro event member
      rcases List.mem_cons.mp member with rfl | later
      · exact lawful change _ List.mem_cons_self
      · exact hypothesis (fun other moment member => lawful other moment
          (List.mem_cons_of_mem _ member)) (turn + 1) event later

/-- What holds of the change of each element holds of all changes. -/
theorem runSection_changes {α : Type}
    {one : Moment -> α -> Section -> Section × Except Stop (Option Change)}
    {holds : Change -> Prop}
    (steps : forall {moment element state next change},
      one moment element state = (next, .ok (some change)) -> holds change)
    {elements : List α} {state final : Section}
    (ran : runSection one moments turn elements state = (final, .ok changes)) :
    forall change, change ∈ changes -> holds change := by
  have traced := @runSection_traces α one moments turn state final (fun _ _ => True)
    (fun _ changes _ => forall change, change ∈ changes -> holds change)
    (fun state _ change member => by cases member)
    (fun {turn element rest state next change} _ first => by
      refine ⟨trivial, ?_⟩
      intro changes final later other member
      rcases List.mem_append.mp member with isFirst | behind
      · rw [Option.mem_toList] at isFirst
        rw [isFirst] at first
        exact steps first
      · exact later other behind)
    elements changes ran trivial
  exact traced

/-- Every change of an UPDATE is what the assignments made of a document. -/
theorem updateSection_revises {assignments : List Assignment} {filter : Option Expr}
    (ran : updateSection P moments ns coll assignments filter engine = (next, .ok changes)) :
    forall change, change ∈ changes -> Exists fun clock => Exists fun after =>
      change.after = some after ∧
        Revises P assignments (Advances P) clock change.before after := by
  rcases updateSection_loop ran with ⟨final, loop, _⟩
  refine runSection_changes ?_ loop
  intro moment entry state next change one
  cases updateOne_exit one with
  | logged matched assigns encoded logs =>
      exact ⟨_, _, rfl, applyAssignments_revises assigns⟩

/-- A REMOVE leaves nothing where it changes something. -/
theorem removeSection_gone {filter : Option Expr}
    (ran : removeSection P moments ns coll filter engine = (next, .ok changes)) :
    forall change, change ∈ changes -> change.after = none := by
  cases isTargets : removeTargets P filter (storeOf engine.collections (ns, coll)).entries with
  | error stop => cases removeSection_unresolved isTargets ran
  | ok targets =>
      rcases removeSection_loop isTargets ran with ⟨final, loop, _⟩
      refine runSection_changes ?_ loop
      intro moment id state next change one
      cases removeOne_exit one with
      | logged stored logs => rfl

theorem executeInsert_lawful {moment : Moment} {doc : Document}
    (lawful : forall event, event ∈ engine.events -> event.Lawful P) :
    forall event, event ∈ (executeInsert P moment ns coll doc engine).1.events ->
      event.Lawful P := by
  unfold executeInsert
  split
  · exact lawful
  · split
    · exact lawful
    · intro event member
      rcases List.mem_append.mp member with older | isNew
      · exact lawful event older
      · rw [List.mem_singleton.mp isNew]
        exact .create doc rfl rfl rfl rfl

/-- A critical section publishes nothing. -/
theorem updateSection_silent {assignments : List Assignment} {filter : Option Expr}
    {outcome : Except Stop (List Change)}
    (ran : updateSection P moments ns coll assignments filter engine = (next, outcome)) :
    next.events = engine.events := by
  cases ran
  rfl

theorem removeSection_silent {filter : Option Expr} {outcome : Except Stop (List Change)}
    (ran : removeSection P moments ns coll filter engine = (next, outcome)) :
    next.events = engine.events := by
  unfold removeSection at ran
  simp only at ran
  split at ran
  · cases ran
    rfl
  · cases ran
    rfl

/-- The events of one statement. -/
theorem execute_lawful {statement : Statement}
    (lawful : forall event, event ∈ engine.events -> event.Lawful P) :
    forall event, event ∈ (execute P moments statement ns engine).1.events -> event.Lawful P := by
  have grown : forall {entered : DatabaseEngine} {eventType : EventType} {coll : String}
      {changes : List Change}, entered.events = engine.events ->
      (forall change moment, change ∈ changes ->
        (changeEvent eventType ns coll moment change).Lawful P) ->
      forall event, event ∈ (emitChanges eventType ns coll moments 0 changes entered).events ->
        event.Lawful P := by
    intro entered eventType coll changes same changed event member
    rw [emitChanges_eq, same] at member
    rcases List.mem_append.mp member with older | isNew
    · exact lawful event older
    · exact lawful_changeEvents changed 0 event isNew
  cases statement with
  | insert coll doc => exact executeInsert_lawful lawful
  | update coll assignments filter =>
      simp only [DatabaseEngine.execute, executeUpdate]
      cases ran : updateSection P moments ns coll assignments filter engine with
      | mk entered outcome =>
          cases outcome with
          | error stop =>
              change forall event, event ∈ entered.events -> _
              rw [updateSection_silent ran]
              exact lawful
          | ok changes =>
              refine grown (updateSection_silent ran) ?_
              intro change moment member
              rcases updateSection_revises ran change member with ⟨clock, after, isAfter, revises⟩
              exact .update change.before after rfl rfl isAfter revises.id revises.createdAt
                revises.version
  | remove coll filter =>
      simp only [DatabaseEngine.execute, executeRemove]
      cases ran : removeSection P moments ns coll filter engine with
      | mk entered outcome =>
          cases outcome with
          | error stop =>
              change forall event, event ∈ entered.events -> _
              rw [removeSection_silent ran]
              exact lawful
          | ok changes =>
              refine grown (removeSection_silent ran) ?_
              intro change moment member
              exact .delete change.before rfl rfl (removeSection_gone ran change member)
  | dropIndex coll field =>
      simp only [DatabaseEngine.execute, executeDropIndex]
      split
      · exact lawful
      · exact lawful
  | createIndex coll field indexType => exact lawful
  | find | watch | count | «exists» | begin | commit | rollback => exact lawful

theorem StatementRun.lawful {issued : Nat} (run : StatementRun P issued engine) :
    forall event, event ∈ engine.events -> event.Lawful P := by
  induction run with
  | opened opens =>
      rw [openEngine_fresh opens]
      intro event member
      cases member
  | statement run quiet returns hypothesis => exact execute_lawful hypothesis
  | rearranged run same hypothesis =>
      rw [same.events]
      exact hypothesis

/-- In every run of statements from an empty directory the events about each document
tell of its lives, and leave the document that is stored; the version of a stored
document counts the updates since it was created.  Every UPDATE and REMOVE of the run
returns, and no append fails.  -/
theorem documents_live {issued : Nat} (run : StatementRun P issued engine) (place : Place) :
    let events := engine.events.filter fun event => decide (event.place = place)
    Lives P place.2 events (contentsOf engine.collections place) ∧
      forall doc, contentsOf engine.collections place = some doc ->
        doc.id = place.2 ∧ Exists fun earlier => Exists fun creation => Exists fun updates =>
          Exists fun born => Revised P events doc earlier creation updates born := by
  rcases run.chronicle with ⟨records, chronicle⟩
  have lives := lives_of_found run.lawful (fun front event back split =>
    @Edit.Leads.found _ _ _ _ _ _ _ (back.map DataEvent.edit) event.edit chronicle.leads (by
      rw [split, List.map_append, List.map_cons])) place
  rw [chronicle.leads.replay] at lives
  refine ⟨lives, ?_⟩
  intro doc stored
  rw [stored] at lives
  exact lives.revised

/-- The document that is left was created and updated once; the other has lived and is
gone. -/
theorem documents_live_crowd :
    (Exists fun doc =>
      contentsOf crowdEngine.collections (("default", "users"), agedDocument.id) = some doc ∧
        Exists fun earlier => Exists fun creation => Exists fun updates => Exists fun born =>
          doc.version = 2 ∧ Revised crowdPlatform (crowdEngine.events.filter fun event =>
            decide (event.place = (("default", "users"), agedDocument.id))) doc earlier creation
            updates born) ∧
      Lives crowdPlatform agelessDocument.id (crowdEngine.events.filter fun event =>
        decide (event.place = (("default", "users"), agelessDocument.id))) none := by
  have stored : (contentsOf crowdEngine.collections
      (("default", "users"), agedDocument.id)).map Document.version = some 2 := by decide +kernel
  have gone : (contentsOf crowdEngine.collections
      (("default", "users"), agelessDocument.id)).isNone = true := by decide +kernel
  rcases Option.map_eq_some_iff.mp stored with ⟨doc, isDoc, version⟩
  have live := documents_live statementRun_crowd (("default", "users"), agedDocument.id)
  have lived := (documents_live statementRun_crowd (("default", "users"), agelessDocument.id)).1
  rw [Option.isNone_iff_eq_none.mp gone] at lived
  refine ⟨⟨doc, isDoc, ?_⟩, lived⟩
  rcases (live.2 doc isDoc).2 with ⟨earlier, creation, updates, born, revised⟩
  exact ⟨earlier, creation, updates, born, version, revised⟩

end Running

end Server
end NovaDb
