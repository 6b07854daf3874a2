import NovaDb.Foundation.Outbox
import NovaDb.Server.ChangeStream
import NovaDb.Server.ConcurrentLog

namespace NovaDb
namespace Server

open Core Foundation Index Query Storage DatabaseEngine

/-!
# The order of events under concurrency

A request changes and logs its documents under locks and publishes the events
after it has released them, one event at a time.  In between other requests may
log and publish for the same document.  Here the publishing of an UPDATE or REMOVE
is cut into single events, which the coarser system publishes in one step.
-/

/-! ## Publishing one event at a time -/

/-- A request with the changes it has yet to publish. -/
structure Publisher where
  task : Task
  unsent : List Change

namespace Publisher

/-- The critical section of an UPDATE or REMOVE, its events one by one, and the
answer. -/
def advanceSection (enters : DatabaseEngine -> DatabaseEngine × Except Stop (List Change))
    (eventType : EventType) (verb : String) (moments : Nat -> Moment) (ns coll : String)
    (progress : Progress) (unsent : List Change) (engine : DatabaseEngine) :
    DatabaseEngine × Progress × List Change :=
  match progress, unsent with
  | .waiting, _ =>
      match enters engine with
      | (engine, .error stop) => (engine, .answered (.error stop), [])
      | (engine, .ok changes) => (engine, .changed changes, changes)
  | .changed changes, change :: rest =>
      (emitEvent (changeEvent eventType ns coll (moments 0) change) engine, .changed changes, rest)
  | .changed changes, [] =>
      (engine, .answered (.ok (.success (verb ++ toString changes.length ++ " document(s)")
        changes.length)), [])
  | other, _ => (engine, other, unsent)

/-- One step of a request. -/
def advance (P : Platform) (moments : Nat -> Moment) :
    Request -> Progress -> List Change -> DatabaseEngine ->
      DatabaseEngine × Progress × List Change
  | .insert ns coll doc, progress, unsent, engine =>
      let next := Request.advanceInsert P (moments 0) ns coll doc progress engine
      (next.1, next.2, unsent)
  | .update ns coll assignments filter, progress, unsent, engine =>
      advanceSection (updateSection P moments ns coll assignments filter) .update "Updated "
        moments ns coll progress unsent engine
  | .remove ns coll filter, progress, unsent, engine =>
      advanceSection (removeSection P moments ns coll filter) .delete "Removed " moments ns coll
        progress unsent engine

/-- What the request has yet to publish. -/
def notices : Publisher -> List (Notice Place Document)
  | ⟨⟨.insert ns coll doc, .logged sequence⟩, _⟩
  | ⟨⟨.insert ns coll doc, .stored sequence⟩, _⟩
  | ⟨⟨.insert ns coll doc, .indexed sequence⟩, _⟩ =>
      [⟨sequence.toNat, ((ns, coll), doc.id), none, some doc⟩]
  | ⟨⟨.update ns coll _ _, .changed _⟩, unsent⟩
  | ⟨⟨.remove ns coll _, .changed _⟩, unsent⟩ =>
      unsent.map (fun change => ⟨change.sequence.toNat, change.edit (ns, coll)⟩)
  | _ => []

end Publisher

def DataEvent.notice (event : DataEvent) : Notice Place Document :=
  ⟨event.sequence.toNat, event.edit⟩

/-! ## Systems -/

/-- An engine and the requests that have arrived, each with the events that it has
logged but not yet sent; events are sent one by one, after every lock is released. -/
structure Broadcast where
  engine : DatabaseEngine
  publishers : List Publisher

namespace Broadcast

/-- One action of the system. -/
def perform (P : Platform) (action : Action) (broadcast : Broadcast) : Broadcast :=
  match action with
  | .arrive request =>
      { broadcast with publishers := broadcast.publishers ++ [⟨⟨request, .waiting⟩, []⟩] }
  | .advance index moments =>
      match broadcast.publishers[index]? with
      | none => broadcast
      | some ⟨⟨request, progress⟩, unsent⟩ =>
          let next := Publisher.advance P moments request progress unsent broadcast.engine
          ⟨next.1, broadcast.publishers.set index ⟨⟨request, next.2.1⟩, next.2.2⟩⟩

/-- A request has logged a change of the document and has not yet sent its event: an
INSERT from its append to its event, an UPDATE or REMOVE from its critical section to
the event of that document. -/
def Announcing (broadcast : Broadcast) (place : Place) : Prop :=
  Exists fun publisher => Exists fun notice => publisher ∈ broadcast.publishers ∧
    notice ∈ publisher.notices ∧ notice.edit.key = place

/-- No request is in flight. -/
def Quiescent (broadcast : Broadcast) : Prop :=
  forall publisher, publisher ∈ broadcast.publishers ->
    Exists fun outcome => publisher.task.progress = .answered outcome

end Broadcast

/-- How many numbers the next step of the task may take from the log's counter. -/
def Task.mayIssue (engine : DatabaseEngine) (task : Task) : Nat :=
  match task.request, task.progress with
  | .insert _ _ _, .checked => 1
  | .update ns coll _ _, .waiting | .remove ns coll _, .waiting =>
      (storeOf engine.collections (ns, coll)).entries.length
  | _, _ => 0

/-- A step in turn: it appends no record of a document while a request has logged a
change of that document whose event is still unsent; if it is a critical section that
stops with an error, it has changed no document; and the counter of the log does not
wrap around.  Nothing is asked of the step that sends an event. -/
structure Broadcast.Orderly (P : Platform) (broadcast : Broadcast) (moments : Nat -> Moment)
    (publisher : Publisher) : Prop where
  appends : forall place, publisher.task.MayAppend P broadcast.engine place ->
    ¬ broadcast.Announcing place
  whole : forall stop next,
    publisher.task.request.advance P moments publisher.task.progress broadcast.engine =
        (next, .answered (.error stop)) ->
      contentsOf next.collections = contentsOf broadcast.engine.collections
  room : broadcast.engine.wal.currentSequence.toNat +
    publisher.task.mayIssue broadcast.engine < 2 ^ 64

/-- The systems reached by permitted actions, in any order, with the stores
iterating in any order. -/
inductive Flows (P : Platform) (permitted : Broadcast -> Action -> Prop) (start : Broadcast) :
    Broadcast -> Prop where
  | start : Flows P permitted start start
  | perform {broadcast : Broadcast} {action : Action} (run : Flows P permitted start broadcast)
      (permits : permitted broadcast action) :
      Flows P permitted start (broadcast.perform P action)
  | rearranged {broadcast : Broadcast} {engine : DatabaseEngine}
      (run : Flows P permitted start broadcast) (same : Rearranged broadcast.engine engine) :
      Flows P permitted start { broadcast with engine }

/-- Actions whose steps are all in turn: nothing is asked of an arrival, and a step of a
request is orderly in the state in front of it. -/
def Broadcast.InOrder (P : Platform) (broadcast : Broadcast) : Action -> Prop
  | .arrive _ => True
  | .advance index moments => forall publisher, broadcast.publishers[index]? = some publisher ->
      broadcast.Orderly P moments publisher

/-! ## What every step in turn keeps -/

/-- Edits of places that are free on top are edits below. -/
theorem overlay_replay {top : Contents} {edits : List (Edit Place Document)}
    (free : forall edit, edit ∈ edits -> top edit.key = none) (below : Contents) :
    Edit.replay (overlay top below) edits = overlay top (Edit.replay below edits) := by
  induction edits generalizing below with
  | nil => rfl
  | cons edit rest ih =>
      change Edit.replay (Function.update (overlay top below) edit.key edit.after) rest =
        overlay top (Edit.replay (Function.update below edit.key edit.after) rest)
      rw [← overlay_update (free edit List.mem_cons_self)]
      exact ih (fun other member => free other (List.mem_cons_of_mem edit member)) _

/-- The notices of the log lead from the contents at the start to those in memory,
under the documents of the INSERTs in between. -/
structure Publishing (start : Contents) (broadcast : Broadcast) (log : List (Notice Place Document))
    (ahead : Contents) : Prop where
  inTurn : InTurn log (broadcast.engine.events.map DataEvent.notice)
    (broadcast.publishers.map Publisher.notices) broadcast.engine.wal.currentSequence.toNat
  describes : Claims.Describes
    (broadcast.publishers.map fun publisher => publisher.task.pending) ahead
  replays : Edit.replay start (log.map Notice.edit) =
    overlay ahead (contentsOf broadcast.engine.collections)

section Steps

variable {P : Platform} {start ahead : Contents} {broadcast : Broadcast} {index : Nat}
  {publisher changed : Publisher} {log : List (Notice Place Document)}

theorem map_publisher {α : Type} (view : Publisher -> α)
    (isPublisher : broadcast.publishers[index]? = some publisher) :
    (broadcast.publishers.map view)[index]? = some (view publisher) := by
  rw [List.getElem?_map, isPublisher]
  rfl

/-- An INSERT ahead of memory has yet to send its event. -/
theorem pending_notice {publisher : Publisher} {place : Place} {doc : Document}
    (isPending : publisher.task.pending = some (place, doc)) :
    Exists fun notice => notice ∈ publisher.notices ∧ notice.edit.key = place := by
  rcases publisher with ⟨⟨request, progress⟩, unsent⟩
  cases request with
  | insert ns coll inserted =>
      cases progress with
      | logged sequence =>
          cases isPending
          exact ⟨_, List.mem_cons_self, rfl⟩
      | waiting | checked | stored | indexed | changed | answered => cases isPending
  | update | remove => cases isPending

/-- Nothing in the boxes is about a document that no request announces. -/
theorem Broadcast.unannounced {place : Place} (free : ¬ broadcast.Announcing place)
    {held : Notice Place Document}
    (inBoxes : held ∈ (broadcast.publishers.map Publisher.notices).flatten) :
    held.edit.key ≠ place := by
  rintro rfl
  rcases List.mem_flatten.mp inBoxes with ⟨box, isBox, inBox⟩
  rcases List.mem_map.mp isBox with ⟨publisher, isPublisher, rfl⟩
  exact free ⟨publisher, held, isPublisher, inBox, rfl⟩

theorem Publishing.free (publishing : Publishing start broadcast log ahead) {place : Place}
    (free : ¬ broadcast.Announcing place) : ahead place = none := by
  cases isAhead : ahead place with
  | none => rfl
  | some doc =>
      rcases publishing.describes.only isAhead with ⟨index, claimed⟩
      rw [List.getElem?_map] at claimed
      rcases Option.map_eq_some_iff.mp claimed with ⟨publisher, isPublisher, isPending⟩
      rcases pending_notice isPending with ⟨notice, held, sameKey⟩
      exact absurd ⟨publisher, notice, List.mem_of_getElem? isPublisher, held, sameKey⟩ free

/-- A request that moves on. -/
theorem Publishing.set {after : Contents} {longer : List (Notice Place Document)}
    {engine : DatabaseEngine}
    (inTurn : InTurn longer (engine.events.map DataEvent.notice)
      ((broadcast.publishers.map Publisher.notices).set index changed.notices)
      engine.wal.currentSequence.toNat)
    (describes : Claims.Describes
      ((broadcast.publishers.map fun publisher => publisher.task.pending).set index
        changed.task.pending) after)
    (replays : Edit.replay start (longer.map Notice.edit) =
      overlay after (contentsOf engine.collections)) :
    Publishing start ⟨engine, broadcast.publishers.set index changed⟩ longer after := by
  refine ⟨?_, ?_, replays⟩
  · rw [List.map_set]
    exact inTurn
  · rw [List.map_set]
    exact describes

/-- A step that records and publishes nothing. -/
theorem Publishing.idle (publishing : Publishing start broadcast log ahead)
    (isPublisher : broadcast.publishers[index]? = some publisher) {engine : DatabaseEngine}
    (sameNotices : changed.notices = publisher.notices)
    (samePending : changed.task.pending = publisher.task.pending)
    (sameEvents : engine.events = broadcast.engine.events)
    (sameContents : contentsOf engine.collections = contentsOf broadcast.engine.collections)
    (forth : broadcast.engine.wal.currentSequence.toNat ≤ engine.wal.currentSequence.toNat) :
    Publishing start ⟨engine, broadcast.publishers.set index changed⟩ log ahead := by
  apply Publishing.set
  · rw [sameEvents, sameNotices]
    exact (publishing.inTurn.counted forth).keep (map_publisher Publisher.notices isPublisher)
  · rw [samePending]
    exact publishing.describes.keep (map_publisher (fun other => other.task.pending) isPublisher)
  · rw [sameContents]
    exact publishing.replays

/-- A step that publishes one notice. -/
theorem Publishing.send (publishing : Publishing start broadcast log ahead)
    (isPublisher : broadcast.publishers[index]? = some publisher)
    {event : DataEvent} {rest : List (Notice Place Document)}
    (held : publisher.notices = event.notice :: rest) (left : changed.notices = rest)
    (samePending : changed.task.pending = publisher.task.pending) :
    Publishing start ⟨emitEvent event broadcast.engine, broadcast.publishers.set index changed⟩
      log ahead := by
  have isBox := map_publisher Publisher.notices isPublisher
  rw [held] at isBox
  apply Publishing.set
  · change InTurn log ((broadcast.engine.events ++ [event]).map DataEvent.notice) _ _
    rw [List.map_append, left]
    exact publishing.inTurn.send isBox
  · rw [samePending]
    exact publishing.describes.keep (map_publisher (fun other => other.task.pending) isPublisher)
  · exact publishing.replays

/-- The logging step of an INSERT takes a number or leaves the counter alone. -/
theorem logInsert_counter {moment : Moment} {ns coll : String} {doc : Document}
    {wal next : WriteAheadLog} {outcome : Except Stop UInt64}
    (ran : logInsert P moment ns coll doc wal = (next, outcome))
    (room : wal.currentSequence.toNat + 1 < 2 ^ 64) :
    wal.currentSequence.toNat ≤ next.currentSequence.toNat ∧
      forall sequence, outcome = .ok sequence ->
        sequence.toNat = wal.currentSequence.toNat + 1 ∧
          next.currentSequence.toNat = wal.currentSequence.toNat + 1 := by
  cases logInsert_exit ran with
  | unserialized fails => exact ⟨Nat.le_refl _, nofun⟩
  | unlogged encoded fails =>
      have counted := (WriteAheadLog.append_sequence fails).1
      rw [counted, toNat_next room]
      exact ⟨Nat.le_succ _, nofun⟩
  | @logged payload next sequence encoded appends =>
      rcases WriteAheadLog.append_sequence appends with ⟨counted, numbered⟩
      rw [counted, toNat_next room]
      refine ⟨Nat.le_succ _, ?_⟩
      intro other same
      cases same
      rw [numbered sequence rfl, toNat_next room]
      exact ⟨rfl, rfl⟩

/-- The steps of an INSERT. -/
theorem Publishing.insert {ns coll : String} {doc : Document} {progress : Progress}
    {unsent : List Change} (publishing : Publishing start broadcast log ahead)
    (isPublisher : broadcast.publishers[index]? =
      some ⟨⟨.insert ns coll doc, progress⟩, unsent⟩)
    {moments : Nat -> Moment}
    (orderly : broadcast.Orderly P moments ⟨⟨.insert ns coll doc, progress⟩, unsent⟩)
    {engine : DatabaseEngine} {next : Progress}
    (steps : Request.advanceInsert P (moments 0) ns coll doc progress broadcast.engine =
      (engine, next)) :
    Exists fun longer => Exists fun after => Publishing start
      ⟨engine, broadcast.publishers.set index ⟨⟨.insert ns coll doc, next⟩, unsent⟩⟩
      longer after := by
  have claim := map_publisher (fun other => other.task.pending) isPublisher
  cases advanceInsert_step steps with
  | refused present =>
      exact ⟨log, ahead, publishing.idle isPublisher rfl rfl rfl rfl (Nat.le_refl _)⟩
  | checked absent =>
      exact ⟨log, ahead, publishing.idle isPublisher rfl rfl rfl rfl (Nat.le_refl _)⟩
  | unlogged fails =>
      exact ⟨log, ahead, publishing.idle isPublisher rfl rfl rfl rfl
        (logInsert_counter fails orderly.room).1⟩
  | @logged wal sequence logs =>
      rcases (logInsert_counter logs orderly.room).2 sequence rfl with ⟨numbered, counted⟩
      refine ⟨log ++ [⟨sequence.toNat, ((ns, coll), doc.id), none, some doc⟩],
        Function.update ahead ((ns, coll), doc.id) (some doc), ?_⟩
      apply Publishing.set
      · apply publishing.inTurn.record (map_publisher Publisher.notices isPublisher)
        · change Ascends broadcast.engine.wal.currentSequence.toNat [sequence.toNat]
            wal.currentSequence.toNat
          rw [numbered, counted]
          exact ascends_one _
        · intro notice isNew held inBoxes
          rw [List.mem_singleton.mp isNew]
          exact Broadcast.unannounced (orderly.appends _ rfl) inBoxes
      · exact publishing.describes.take doc claim (publishing.free (orderly.appends _ rfl))
      · rw [List.map_append, Edit.replay_append, publishing.replays, overlay_take]
        rfl
  | stored =>
      have isAhead : ahead ((ns, coll), doc.id) = some doc := publishing.describes.claimed claim
      refine ⟨log, Function.update ahead ((ns, coll), doc.id) none, ?_⟩
      have isBox := map_publisher Publisher.notices isPublisher
      apply Publishing.set
      · exact publishing.inTurn.keep isBox
      · exact publishing.describes.release claim
      · rw [publishing.replays, storeInsert_contents, overlay_release isAhead]
  | indexed =>
      exact ⟨log, ahead, publishing.idle isPublisher rfl rfl rfl rfl (Nat.le_refl _)⟩
  | answered => exact ⟨log, ahead, publishing.send isPublisher rfl rfl rfl⟩
  | idle => exact ⟨log, ahead, publishing.idle isPublisher rfl rfl rfl rfl (Nat.le_refl _)⟩
  | done => exact ⟨log, ahead, publishing.idle isPublisher rfl rfl rfl rfl (Nat.le_refl _)⟩

/-- What an UPDATE or REMOVE holds between its critical section and its answer. -/
structure Sections (P : Platform) (request : Request) (ns coll : String) (filter : Option Expr) :
    Prop where
  notices : forall changes unsent, Publisher.notices ⟨⟨request, .changed changes⟩, unsent⟩ =
    unsent.map (fun change => ⟨change.sequence.toNat, change.edit (ns, coll)⟩)
  idle : forall progress unsent, (forall changes, progress ≠ .changed changes) ->
    Publisher.notices ⟨⟨request, progress⟩, unsent⟩ = []
  noClaim : forall progress, Task.pending ⟨request, progress⟩ = none
  mayAppend : forall engine id, Selected P filter (storeOf engine.collections (ns, coll)) id ->
    Task.MayAppend P engine ⟨request, .waiting⟩ ((ns, coll), id)
  mayIssue : forall engine, Task.mayIssue engine ⟨request, .waiting⟩ =
    (storeOf engine.collections (ns, coll)).entries.length

theorem sections_update (P : Platform) (ns coll : String) (assignments : List Assignment)
    (filter : Option Expr) : Sections P (.update ns coll assignments filter) ns coll filter := by
  refine ⟨fun _ _ => rfl, ?_, fun _ => rfl, ?_, fun _ => rfl⟩
  · intro progress unsent unchanged
    cases progress with
    | changed changes => exact absurd rfl (unchanged changes)
    | waiting | checked | logged | stored | indexed | answered => rfl
  · rintro engine id ⟨entry, member, matched, rfl⟩
    exact ⟨entry, member, matched, rfl⟩

theorem sections_remove (P : Platform) (ns coll : String) (filter : Option Expr) :
    Sections P (.remove ns coll filter) ns coll filter := by
  refine ⟨fun _ _ => rfl, ?_, fun _ => rfl, ?_, fun _ => rfl⟩
  · intro progress unsent unchanged
    cases progress with
    | changed changes => exact absurd rfl (unchanged changes)
    | waiting | checked | logged | stored | indexed | answered => rfl
  · rintro engine id ⟨entry, member, matched, rfl⟩
    exact ⟨entry, member, matched, rfl⟩

section Sectioned

variable {request : Request} {ns coll : String} {filter : Option Expr} {unsent : List Change}
  {moments : Nat -> Moment}

/-- The critical section records its changes, which it has yet to publish. -/
theorem Publishing.enter (publishing : Publishing start broadcast log ahead)
    (sections : Sections P request ns coll filter)
    (isPublisher : broadcast.publishers[index]? = some ⟨⟨request, .waiting⟩, unsent⟩)
    (orderly : broadcast.Orderly P moments ⟨⟨request, .waiting⟩, unsent⟩) {changes : List Change}
    {final : Section} {recordType : RecordType}
    (accounted : Accounted P filter recordType ns coll moments broadcast.engine changes final)
    (few : changes.length ≤ (storeOf broadcast.engine.collections (ns, coll)).entries.length) :
    Exists fun longer => Publishing start
      ⟨broadcast.engine.leave (ns, coll) final,
        broadcast.publishers.set index ⟨⟨request, .changed changes⟩, changes⟩⟩ longer ahead := by
  have room := orderly.room
  rw [sections.mayIssue] at room
  have isBox := map_publisher Publisher.notices isPublisher
  rw [sections.idle .waiting unsent (by nofun)] at isBox
  have claim := map_publisher (fun other => other.task.pending) isPublisher
  have unannounced : forall change, change ∈ changes ->
      ¬ broadcast.Announcing ((ns, coll), change.id) := fun change inChanges =>
    orderly.appends _ (sections.mayAppend _ _ (accounted.accounts.selects change inChanges))
  refine ⟨log ++ changes.map (fun change => ⟨change.sequence.toNat, change.edit (ns, coll)⟩), ?_⟩
  apply Publishing.set
  · rw [sections.notices]
    apply publishing.inTurn.record isBox
    · rw [List.map_map]
      exact (accounted.accounts.numbers (Nat.lt_of_le_of_lt (Nat.add_le_add_left few _) room)).1
    · intro notice isNew held inBoxes
      rcases List.mem_map.mp isNew with ⟨change, inChanges, rfl⟩
      exact Broadcast.unannounced (unannounced change inChanges) inBoxes
  · have same : Task.pending ⟨request, .changed changes⟩ = Task.pending ⟨request, .waiting⟩ := by
      rw [sections.noClaim, sections.noClaim]
    change Claims.Describes (List.set _ _ (Task.pending ⟨request, .changed changes⟩)) ahead
    rw [same]
    exact publishing.describes.keep claim
  · rw [List.map_append, Edit.replay_append, publishing.replays, List.map_map, ←
      accounted.leads.replay]
    apply overlay_replay
    intro edit member
    rcases List.mem_map.mp member with ⟨change, inChanges, rfl⟩
    exact publishing.free (unannounced change inChanges)

/-- The steps of an UPDATE or REMOVE, given what its critical section accounts for. -/
theorem Publishing.section (publishing : Publishing start broadcast log ahead)
    (sections : Sections P request ns coll filter) {progress : Progress}
    (isPublisher : broadcast.publishers[index]? = some ⟨⟨request, progress⟩, unsent⟩)
    (orderly : broadcast.Orderly P moments ⟨⟨request, progress⟩, unsent⟩) {eventType : EventType}
    {verb : String} {enters : DatabaseEngine -> DatabaseEngine × Except Stop (List Change)}
    {recordType : RecordType}
    (isAdvance : Request.advance P moments request .waiting broadcast.engine =
      Request.advanceSection enters eventType verb moments ns coll .waiting broadcast.engine)
    (counts : forall {entered outcome}, progress = .waiting ->
      enters broadcast.engine = (entered, outcome) ->
      Counts broadcast.engine entered (storeOf broadcast.engine.collections (ns, coll)) outcome)
    (accounted : forall {entered changes}, enters broadcast.engine = (entered, .ok changes) ->
      Exists fun final => entered = broadcast.engine.leave (ns, coll) final ∧
        Accounted P filter recordType ns coll moments broadcast.engine changes final)
    (noEvents : forall {entered outcome}, enters broadcast.engine = (entered, outcome) ->
      entered.events = broadcast.engine.events)
    {engine : DatabaseEngine} {next : Progress} {left : List Change}
    (steps : Publisher.advanceSection enters eventType verb moments ns coll progress unsent
      broadcast.engine = (engine, next, left)) :
    Exists fun longer => Publishing start
      ⟨engine, broadcast.publishers.set index ⟨⟨request, next⟩, left⟩⟩ longer ahead := by
  have quietly : forall {progress next : Progress} {unsent left : List Change},
      (forall changes, progress ≠ .changed changes) -> (forall changes, next ≠ .changed changes) ->
        Publisher.notices ⟨⟨request, next⟩, left⟩ =
          Publisher.notices ⟨⟨request, progress⟩, unsent⟩ := by
    intro progress next unsent left before after
    rw [sections.idle _ _ before, sections.idle _ _ after]
  have samePending : forall {progress next : Progress},
      Task.pending ⟨request, next⟩ = Task.pending ⟨request, progress⟩ := by
    intro progress next
    rw [sections.noClaim, sections.noClaim]
  cases progress with
  | waiting =>
      rw [Publisher.advanceSection] at steps
      cases ran : enters broadcast.engine with
      | mk entered outcome =>
          rw [ran] at steps
          have counted := counts rfl ran
          cases outcome with
          | error stop =>
              cases steps
              have before : forall changes, Progress.waiting ≠ .changed changes :=
                fun _ same => Progress.noConfusion same
              refine ⟨log, publishing.idle isPublisher (quietly before ?_) samePending
                (noEvents ran) ?_ counted.forth⟩
              · exact fun _ same => Progress.noConfusion same
              apply orderly.whole stop
              rw [isAdvance, Request.advanceSection, ran]
          | ok changes =>
              cases steps
              rcases accounted ran with ⟨final, rfl, account⟩
              exact publishing.enter sections isPublisher orderly account (counted.few _ rfl)
  | changed changes =>
      cases unsent with
      | nil =>
          cases steps
          refine ⟨log, publishing.idle isPublisher ?_ samePending rfl rfl (Nat.le_refl _)⟩
          have unchanged : forall answer changes, Progress.answered answer ≠ .changed changes :=
            fun _ _ same => Progress.noConfusion same
          rw [sections.notices, sections.idle _ _ (unchanged _)]
          rfl
      | cons change rest =>
          cases steps
          have holds := sections.notices changes (change :: left)
          exact ⟨log, publishing.send isPublisher holds (sections.notices changes left) samePending⟩
  | checked | logged | stored | indexed | answered =>
      cases steps
      exact ⟨log, publishing.idle isPublisher rfl rfl rfl rfl (Nat.le_refl _)⟩

end Sectioned

theorem Publishing.update {ns coll : String} {assignments : List Assignment}
    {filter : Option Expr} {progress : Progress} {unsent : List Change}
    (publishing : Publishing start broadcast log ahead)
    (isPublisher : broadcast.publishers[index]? =
      some ⟨⟨.update ns coll assignments filter, progress⟩, unsent⟩)
    {moments : Nat -> Moment}
    (orderly : broadcast.Orderly P moments ⟨⟨.update ns coll assignments filter, progress⟩, unsent⟩)
    {engine : DatabaseEngine} {next : Progress} {left : List Change}
    (steps : Publisher.advance P moments (.update ns coll assignments filter) progress unsent
      broadcast.engine = (engine, next, left)) :
    Exists fun longer => Publishing start ⟨engine,
      broadcast.publishers.set index ⟨⟨.update ns coll assignments filter, next⟩, left⟩⟩
      longer ahead := by
  refine publishing.section (sections_update P ns coll assignments filter) isPublisher orderly rfl
    ?_ updateSection_accounted ?_ steps
  · rintro entered outcome rfl ran
    exact updateSection_counts ran orderly.room
  · intro entered outcome ran
    rcases updateSection_loop ran with ⟨final, _, rfl⟩
    rfl

theorem Publishing.remove {ns coll : String} {filter : Option Expr} {progress : Progress}
    {unsent : List Change} (publishing : Publishing start broadcast log ahead)
    (isPublisher : broadcast.publishers[index]? =
      some ⟨⟨.remove ns coll filter, progress⟩, unsent⟩)
    {moments : Nat -> Moment}
    (orderly : broadcast.Orderly P moments ⟨⟨.remove ns coll filter, progress⟩, unsent⟩)
    {engine : DatabaseEngine} {next : Progress} {left : List Change}
    (steps : Publisher.advance P moments (.remove ns coll filter) progress unsent
      broadcast.engine = (engine, next, left)) :
    Exists fun longer => Publishing start ⟨engine,
      broadcast.publishers.set index ⟨⟨.remove ns coll filter, next⟩, left⟩⟩ longer ahead := by
  refine publishing.section (sections_remove P ns coll filter) isPublisher orderly rfl ?_
    removeSection_accounted ?_ steps
  · rintro entered outcome rfl ran
    exact removeSection_counts ran orderly.room
  · intro entered outcome ran
    cases isTargets : removeTargets P filter
        (storeOf broadcast.engine.collections (ns, coll)).entries with
    | error stop =>
        have unresolved : removeTargets P filter
            (broadcast.engine.enter (ns, coll)).store.entries = .error stop := isTargets
        simp only [removeSection, unresolved] at ran
        cases ran
        rfl
    | ok targets =>
        rcases removeSection_loop isTargets ran with ⟨final, _, rfl⟩
        rfl

/-- Every step in turn. -/
theorem Publishing.perform (publishing : Publishing start broadcast log ahead) {action : Action}
    (inOrder : broadcast.InOrder P action) :
    Exists fun longer => Exists fun after =>
      Publishing start (broadcast.perform P action) longer after := by
  cases action with
  | arrive request =>
      have noNotice : Publisher.notices ⟨⟨request, .waiting⟩, []⟩ = [] := by
        cases request <;> rfl
      have noClaim : Task.pending ⟨request, .waiting⟩ = none := by
        cases request <;> rfl
      refine ⟨log, ahead, ?_, ?_, publishing.replays⟩
      · change InTurn log _ ((broadcast.publishers ++ [_]).map Publisher.notices) _
        rw [List.map_append, List.map_singleton, noNotice]
        exact publishing.inTurn.arrive
      · change Claims.Describes ((broadcast.publishers ++ [_]).map _) ahead
        rw [List.map_append, List.map_singleton, noClaim]
        exact publishing.describes.arrive
  | advance index moments =>
      cases isPublisher : broadcast.publishers[index]? with
      | none =>
          rw [Broadcast.perform, isPublisher]
          exact ⟨log, ahead, publishing⟩
      | some publisher =>
          have orderly := inOrder publisher isPublisher
          rcases publisher with ⟨⟨request, progress⟩, unsent⟩
          rw [Broadcast.perform, isPublisher]
          cases request with
          | insert ns coll doc => exact publishing.insert isPublisher orderly rfl
          | update ns coll assignments filter =>
              rcases publishing.update isPublisher orderly rfl with ⟨longer, after⟩
              exact ⟨longer, ahead, after⟩
          | remove ns coll filter =>
              rcases publishing.remove isPublisher orderly rfl with ⟨longer, after⟩
              exact ⟨longer, ahead, after⟩

end Steps

/-! ## Runs -/

/-- An engine whose first event is yet to come. -/
def Broadcast.begin (engine : DatabaseEngine) : Broadcast :=
  ⟨{ engine with events := [] }, []⟩

theorem Flows.publishing {P : Platform} {engine : DatabaseEngine} {broadcast : Broadcast}
    (run : Flows P (Broadcast.InOrder P) (.begin engine) broadcast) :
    Exists fun log => Exists fun ahead =>
      Publishing (contentsOf engine.collections) broadcast log ahead := by
  induction run with
  | start =>
      refine ⟨[], fun _ => none, InTurn.start _, Claims.describes_nil, ?_⟩
      funext place
      rfl
  | perform run permits ih =>
      rcases ih with ⟨log, ahead, publishing⟩
      exact publishing.perform permits
  | @rearranged broadcast engine run same ih =>
      rcases ih with ⟨log, ahead, publishing⟩
      refine ⟨log, ahead, ?_, publishing.describes, ?_⟩
      · change InTurn log (engine.events.map _) _ engine.wal.currentSequence.toNat
        rw [same.events, same.wal]
        exact publishing.inTurn
      · change _ = overlay ahead (contentsOf engine.collections)
        rw [← contentsOf_perm same.stores]
        exact publishing.replays

/-- What a subscriber has that applies the `after` of each event as it comes. -/
def followed (start : Contents) (events : List DataEvent) : Contents :=
  Edit.replay start (events.map DataEvent.edit)

/-- The events about one document ascend, and once no request is in flight a
subscriber that follows them has the contents of the engine. -/
structure Broadcast.Followable (start : Contents) (broadcast : Broadcast) : Prop where
  ascends : forall place, (broadcast.engine.events.filter
    (fun event => decide (event.place = place))).Pairwise
      (fun earlier later => earlier.sequence < later.sequence)
  follows : broadcast.Quiescent ->
    followed start broadcast.engine.events = contentsOf broadcast.engine.collections

/-- In every run whose steps are all in turn, the events about each document are
sent in strictly increasing sequence order, and a subscriber ends with the
engine's contents. -/
theorem events_in_order {P : Platform} {engine : DatabaseEngine} {broadcast : Broadcast}
    (run : Flows P (Broadcast.InOrder P) (.begin engine) broadcast) :
    broadcast.Followable (contentsOf engine.collections) := by
  rcases run.publishing with ⟨log, ahead, publishing⟩
  constructor
  · intro place
    have ordered := publishing.inTurn.ordered place
    rw [Notice.about, List.filter_map, List.pairwise_map] at ordered
    exact ordered.imp (fun precedes => UInt64.lt_iff_toNat_lt.mpr precedes)
  · intro quiescent
    have empty : forall box, box ∈ broadcast.publishers.map Publisher.notices -> box = [] := by
      intro box member
      rcases List.mem_map.mp member with ⟨⟨⟨request, progress⟩, unsent⟩, isPublisher, rfl⟩
      rcases quiescent _ isPublisher with ⟨outcome, isAnswer⟩
      change progress = .answered outcome at isAnswer
      subst isAnswer
      cases request <;> rfl
    have unclaimed : ahead = fun _ => none := by
      funext place
      apply publishing.describes.empty
      intro claim member
      rcases List.mem_map.mp member with ⟨⟨⟨request, progress⟩, unsent⟩, isPublisher, rfl⟩
      rcases quiescent _ isPublisher with ⟨outcome, isAnswer⟩
      change progress = .answered outcome at isAnswer
      subst isAnswer
      cases request <;> rfl
    have edits : broadcast.engine.events.map DataEvent.edit =
        (broadcast.engine.events.map DataEvent.notice).map Notice.edit := by
      rw [List.map_map]
      rfl
    calc followed (contentsOf engine.collections) broadcast.engine.events
        = Edit.replay (contentsOf engine.collections) (log.map Notice.edit) := by
          rw [followed, edits]
          exact publishing.inTurn.drained_replay empty _
      _ = overlay ahead (contentsOf broadcast.engine.collections) := publishing.replays
      _ = contentsOf broadcast.engine.collections := by
          rw [unclaimed]
          rfl

theorem Broadcast.quiescent_of_all {broadcast : Broadcast}
    (all : broadcast.publishers.all (fun publisher => publisher.task.progress.isAnswered) = true) :
    broadcast.Quiescent := by
  intro publisher member
  exact Progress.answered_of_isAnswered (List.all_eq_true.mp all publisher member)

/-- Actions one after another. -/
def Broadcast.performAll (P : Platform) (actions : List Action) (broadcast : Broadcast) :
    Broadcast :=
  actions.foldl (fun broadcast action => broadcast.perform P action) broadcast

theorem Flows.performAll {P : Platform} {start broadcast : Broadcast}
    (run : Flows P (fun _ _ => True) start broadcast) (actions : List Action) :
    Flows P (fun _ _ => True) start (broadcast.performAll P actions) := by
  induction actions generalizing broadcast with
  | nil => exact run
  | cons action rest ih => exact ih (run.perform trivial)

/-- The next step may append only for documents that nobody announces, does not end in
an error, and leaves the counter room. -/
def Broadcast.clear (P : Platform) (broadcast : Broadcast) : Action -> Bool
  | .arrive _ => true
  | .advance index moments =>
      match broadcast.publishers[index]? with
      | none => true
      | some publisher =>
          (publisher.task.appends P broadcast.engine).all (fun place =>
            broadcast.publishers.all fun other =>
              other.notices.all fun notice => decide (notice.edit.key ≠ place)) &&
          (match (publisher.task.request.advance P moments publisher.task.progress
              broadcast.engine).2 with
            | .answered (.error _) => false
            | _ => true) &&
          decide (broadcast.engine.wal.currentSequence.toNat +
            publisher.task.mayIssue broadcast.engine < 2 ^ 64)

theorem Broadcast.inOrder_of_clear {P : Platform} {broadcast : Broadcast} {action : Action}
    (isClear : broadcast.clear P action = true) : broadcast.InOrder P action := by
  cases action with
  | arrive request => trivial
  | advance index moments =>
      intro publisher isPublisher
      rw [Broadcast.clear, isPublisher] at isClear
      simp only [Bool.and_eq_true, decide_eq_true_eq] at isClear
      rcases isClear with ⟨⟨unannounced, unstopped⟩, room⟩
      refine ⟨?_, ?_, room⟩
      · rintro place mayAppend ⟨other, notice, member, held, sameKey⟩
        have noNotice := List.all_eq_true.mp unannounced place mayAppend.listed
        have notHeld := List.all_eq_true.mp (List.all_eq_true.mp noNotice other member) notice held
        exact of_decide_eq_true notHeld sameKey
      · intro stop next steps
        rw [steps] at unstopped
        cases unstopped

/-- All actions are clear when their turn comes. -/
def Broadcast.allClear (P : Platform) : List Action -> Broadcast -> Bool
  | [], _ => true
  | action :: rest, broadcast =>
      broadcast.clear P action && Broadcast.allClear P rest (broadcast.perform P action)

theorem Flows.performClear {P : Platform} {start broadcast : Broadcast}
    (run : Flows P (Broadcast.InOrder P) start broadcast) {actions : List Action}
    (isClear : broadcast.allClear P actions = true) :
    Flows P (Broadcast.InOrder P) start (broadcast.performAll P actions) := by
  induction actions generalizing broadcast with
  | nil => exact run
  | cons action rest inductionHypothesis =>
      rw [Broadcast.allClear, Bool.and_eq_true] at isClear
      exact inductionHypothesis (run.perform (Broadcast.inOrder_of_clear isClear.1)) isClear.2

/-- Events of different documents overtake one another, those of one document do not. -/
theorem events_in_order_overlapping : Exists fun broadcast =>
    Flows crowdPlatform (Broadcast.InOrder crowdPlatform) (.begin (emptyEngine 4096)) broadcast ∧
      broadcast.Quiescent ∧
      broadcast.engine.events.map (fun event => event.sequence) = [2, 1, 4, 3] ∧
      broadcast.Followable (contentsOf (emptyEngine 4096).collections) := by
  have run : Flows crowdPlatform (Broadcast.InOrder crowdPlatform) (.begin (emptyEngine 4096)) _ :=
    Flows.start.performClear (show Broadcast.allClear crowdPlatform overlapping
      (.begin (emptyEngine 4096)) = true by decide +kernel)
  exact ⟨_, run, Broadcast.quiescent_of_all (by decide +kernel), by decide +kernel,
    events_in_order run⟩

/-- An INSERT and a REMOVE of its document: the INSERT is overtaken between its index
insert and its event. -/
def overtaken : List Action :=
  [.arrive (.insert "default" "users" sampleDocument), .arrive (.remove "default" "users" none),
    .advance 0 quietMoments, .advance 0 quietMoments, .advance 0 quietMoments,
    .advance 0 quietMoments, .advance 1 quietMoments, .advance 1 quietMoments,
    .advance 1 quietMoments, .advance 0 quietMoments]

/-- The event of the REMOVE comes first, and a subscriber is left with a document
that the engine no longer has. -/
theorem overtaken_not_followable : Exists fun broadcast =>
    Flows samplePlatform (fun _ _ => True) (.begin (emptyEngine 4096)) broadcast ∧
      broadcast.Quiescent ∧
      ¬ (broadcast.engine.events.filter (fun event =>
          decide (event.place = (("default", "users"), sampleDocument.id)))).Pairwise
        (fun earlier later => earlier.sequence < later.sequence) ∧
      followed (contentsOf (emptyEngine 4096).collections) broadcast.engine.events ≠
        contentsOf broadcast.engine.collections := by
  let final := (Broadcast.begin (emptyEngine 4096)).performAll samplePlatform overtaken
  refine ⟨final, Flows.start.performAll overtaken, ?_, ?_, ?_⟩
  · exact Broadcast.quiescent_of_all (by decide +kernel)
  · have numbers : (final.engine.events.filter (fun event =>
        decide (event.place = (("default", "users"), sampleDocument.id)))).map
          (fun event => event.sequence) = [2, 1] := by decide +kernel
    intro ascends
    have pairwise := List.pairwise_map.mpr ascends
    rw [numbers] at pairwise
    exact absurd pairwise (by decide)
  · intro same
    have kept : (followed (contentsOf (emptyEngine 4096).collections) final.engine.events
        (("default", "users"), sampleDocument.id)).isSome = true := by decide +kernel
    have gone : (contentsOf final.engine.collections
        (("default", "users"), sampleDocument.id)).isSome = false := by decide +kernel
    rw [same, gone] at kept
    cases kept

end Server
end NovaDb
