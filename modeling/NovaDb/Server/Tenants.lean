import NovaDb.Server.EventOrder
import NovaDb.Server.IndexScan
import NovaDb.Storage.SharedLog

namespace NovaDb
namespace Server

open Core Foundation Index Query Storage DatabaseEngine

/-!
# Engines that agree outside a namespace

Collections, indexes, log records and events are all keyed by the namespace of the
statement.  Two engines agree outside a namespace if they hold the same in all
others; their logs may differ in all but the policy and the lock, and their events
in the numbers and times.  A statement of the namespace leaves the agreement, and a
statement of another one does the same on both sides.
-/

/-! ## Numbers and times -/

/-- A moment without the clocks that only the log and the events read. -/
def Moment.untimed (moment : Moment) : Moment :=
  { moment with append := { moment.append with now := 0 }, eventClock := 0 }

def DatabaseEngine.Change.unnumbered (change : Change) : Change :=
  { change with sequence := 0 }

def DataEvent.unnumbered (event : DataEvent) : DataEvent :=
  { event with sequence := 0, timestamp := 0 }

theorem steadyEnd_untimed {P : Platform} {moment other : Moment}
    (same : moment.untimed = other.untimed) (mutation : Mutation) (syncMode : SyncMode)
    (poisoned : Bool) :
    WriteAheadLog.steadyEnd P moment.append syncMode poisoned mutation =
      WriteAheadLog.steadyEnd P other.append syncMode poisoned mutation := by
  change WriteAheadLog.steadyEnd P moment.untimed.append syncMode poisoned mutation = _
  rw [same]
  rfl

theorem changeEvent_unnumbered (eventType : EventType) (ns coll : String) (moment other : Moment)
    {change changed : Change} (same : change.unnumbered = changed.unnumbered) :
    (changeEvent eventType ns coll moment change).unnumbered =
      (changeEvent eventType ns coll other changed).unnumbered := by
  rcases change with ⟨_, id, before, after⟩
  rcases changed with ⟨_, otherId, earlier, later⟩
  cases same
  rfl

/-! ## Critical sections on both sides -/

namespace DatabaseEngine

/-- Sections that work on the same documents. -/
structure Section.Alike (first second : Section) : Prop where
  store : first.store = second.store
  manager : first.manager = second.manager
  wal : first.wal.Alike second.wal

section Sections

variable {P : Platform} {ns coll : String} {moment other : Moment} {first second : Section}

theorem updateOne_together (same : moment.untimed = other.untimed)
    (steady : moment.append.Steady) (steadyToo : other.append.Steady)
    (assignments : List Assignment) (filter : Option Expr)
    (entry : Sigma fun _ : DocumentId => Document) (alike : first.Alike second)
    (room : first.wal.HasRoom P 1) (roomToo : second.wal.HasRoom P 1) :
    (updateOne P ns coll assignments filter moment entry first).1.Alike
        (updateOne P ns coll assignments filter other entry second).1 ∧
      (updateOne P ns coll assignments filter moment entry first).2.map
          (Option.map Change.unnumbered) =
        (updateOne P ns coll assignments filter other entry second).2.map
          (Option.map Change.unnumbered) := by
  have clock : moment.clock = other.clock := by
    change moment.untimed.clock = other.untimed.clock
    rw [same]
  unfold updateOne
  cases Evaluator.matchesFilter P filter entry.2 with
  | error fault => exact ⟨alike, rfl⟩
  | ok matched =>
      cases matched with
      | false => exact ⟨alike, rfl⟩
      | true =>
          simp only [clock, alike.store]
          cases Evaluator.applyAssignments P other.clock entry.2 assignments with
          | mk after outcome =>
              cases outcome with
              | error fault => exact ⟨⟨rfl, alike.manager, alike.wal⟩, rfl⟩
              | ok done =>
                  dsimp only
                  cases NbfRecord.payloadFromDocument P after with
                  | error failure => exact ⟨⟨rfl, alike.manager, alike.wal⟩, rfl⟩
                  | ok payload =>
                      dsimp only
                      rcases WriteAheadLog.append_together alike.wal steady steadyToo
                        (steadyEnd_untimed same ⟨.update, ns, coll, entry.1, payload, none⟩) room
                        roomToo with ⟨next, later, fault, kept, fails, failsToo⟩ |
                          ⟨next, later, number, numbered, kept, appends, appendsToo⟩
                      · rw [fails, failsToo]
                        exact ⟨⟨rfl, alike.manager, kept⟩, rfl⟩
                      · rw [appends, appendsToo, alike.manager]
                        exact ⟨⟨rfl, rfl, kept⟩, rfl⟩

theorem removeOne_together (same : moment.untimed = other.untimed)
    (steady : moment.append.Steady) (steadyToo : other.append.Steady) (id : DocumentId)
    (alike : first.Alike second) (room : first.wal.HasRoom P 1)
    (roomToo : second.wal.HasRoom P 1) :
    (removeOne P ns coll moment id first).1.Alike (removeOne P ns coll other id second).1 ∧
      (removeOne P ns coll moment id first).2.map (Option.map Change.unnumbered) =
        (removeOne P ns coll other id second).2.map (Option.map Change.unnumbered) := by
  unfold removeOne
  simp only [alike.store]
  cases second.store.lookup id with
  | none => exact ⟨alike, rfl⟩
  | some doc =>
      dsimp only
      rcases WriteAheadLog.append_together alike.wal steady steadyToo
        (steadyEnd_untimed same ⟨.delete, ns, coll, id, [], none⟩) room roomToo with
          ⟨next, later, fault, kept, fails, failsToo⟩ |
          ⟨next, later, number, numbered, kept, appends, appendsToo⟩
      · rw [fails, failsToo]
        exact ⟨⟨rfl, alike.manager, kept⟩, rfl⟩
      · rw [appends, appendsToo, alike.manager]
        exact ⟨⟨rfl, rfl, kept⟩, rfl⟩

/-- A loop does the same on both sides if each element does. -/
theorem runSection_together {α : Type}
    {one : Moment -> α -> Section -> Section × Except Stop (Option Change)}
    {moments others : Nat -> Moment}
    (together : forall turn element (first second : Section), first.Alike second ->
      first.wal.HasRoom P 1 -> second.wal.HasRoom P 1 ->
      (one (moments turn) element first).1.Alike (one (others turn) element second).1 ∧
        (one (moments turn) element first).2.map (Option.map Change.unnumbered) =
          (one (others turn) element second).2.map (Option.map Change.unnumbered))
    (takes : forall moment element state,
      (one moment element state).1.wal.currentSequence = state.wal.currentSequence ∨
        (one moment element state).1.wal.currentSequence = state.wal.currentSequence + 1)
    (turn : Nat) (elements : List α) (alike : first.Alike second)
    (room : first.wal.HasRoom P elements.length) (roomToo : second.wal.HasRoom P elements.length) :
    (runSection one moments turn elements first).1.Alike
        (runSection one others turn elements second).1 ∧
      (runSection one moments turn elements first).2.map (List.map Change.unnumbered) =
        (runSection one others turn elements second).2.map (List.map Change.unnumbered) := by
  induction elements generalizing turn first second with
  | nil => exact ⟨alike, rfl⟩
  | cons element rest inductionHypothesis =>
      have step := together turn element first second alike
        (room.fewer (Nat.succ_le_succ (Nat.zero_le _)))
        (roomToo.fewer (Nat.succ_le_succ (Nat.zero_le _)))
      have left := room.left (takes (moments turn) element first)
      have leftToo := roomToo.left (takes (others turn) element second)
      rw [runSection, runSection]
      generalize one (moments turn) element first = result at step left ⊢
      generalize one (others turn) element second = found at step leftToo ⊢
      rcases result with ⟨next, outcome⟩
      rcases found with ⟨later, ended⟩
      rcases step with ⟨kept, sameEnd⟩
      cases outcome with
      | error stop =>
          cases ended with
          | error halt =>
              cases sameEnd
              exact ⟨kept, rfl⟩
          | ok changed => cases sameEnd
      | ok change =>
          cases ended with
          | error halt => cases sameEnd
          | ok changed =>
              have sameChange : change.map Change.unnumbered = changed.map Change.unnumbered :=
                Except.ok.inj sameEnd
              have goesOn := inductionHypothesis (turn + 1) kept left leftToo
              dsimp only
              generalize runSection one moments (turn + 1) rest next = finish at goesOn ⊢
              generalize runSection one others (turn + 1) rest later = finished at goesOn ⊢
              rcases finish with ⟨final, outcome⟩
              rcases finished with ⟨last, ended⟩
              rcases goesOn with ⟨keptOn, sameEnds⟩
              cases outcome with
              | error stop =>
                  cases ended with
                  | error halt =>
                      cases sameEnds
                      exact ⟨keptOn, rfl⟩
                  | ok changes => cases sameEnds
              | ok changes =>
                  cases ended with
                  | error halt => cases sameEnds
                  | ok changesToo =>
                      have sameChanges : changes.map Change.unnumbered =
                          changesToo.map Change.unnumbered := Except.ok.inj sameEnds
                      refine ⟨keptOn, congrArg Except.ok ?_⟩
                      rw [List.map_append, List.map_append, sameChanges, ← Option.toList_map,
                        ← Option.toList_map, sameChange]

/-- Only a crash touches the lock of the log. -/
theorem runSection_wal {α : Type}
    {one : Moment -> α -> Section -> Section × Except Stop (Option Change)}
    {moments : Nat -> Moment}
    (keeps : forall turn element (state : Section),
      state.wal.Alike (one (moments turn) element state).1.wal)
    (turn : Nat) (elements : List α) (state : Section) :
    state.wal.Alike (runSection one moments turn elements state).1.wal := by
  induction elements generalizing turn state with
  | nil => exact WriteAheadLog.alike_refl state.wal
  | cons element rest inductionHypothesis =>
      have first := keeps turn element state
      rw [runSection]
      generalize one (moments turn) element state = result at first ⊢
      rcases result with ⟨next, outcome⟩
      cases outcome with
      | error stop => exact first
      | ok change =>
          have later := first.trans (inductionHypothesis (turn + 1) next)
          dsimp only
          generalize runSection one moments (turn + 1) rest next = finish at later ⊢
          rcases finish with ⟨final, outcome⟩
          cases outcome with
          | error stop => exact later
          | ok changes => exact later

theorem updateOne_wal (survives : moment.append.fault ≠ .crashAfterWal)
    (assignments : List Assignment) (filter : Option Expr)
    (entry : Sigma fun _ : DocumentId => Document) (state : Section) :
    state.wal.Alike (updateOne P ns coll assignments filter moment entry state).1.wal := by
  cases ran : updateOne P ns coll assignments filter moment entry state with
  | mk next outcome =>
      cases updateOne_exit ran with
      | unfiltered | passedOver | unassigned | unserialized =>
          exact WriteAheadLog.alike_refl _
      | @unlogged after payload wal fault _ _ _ fails =>
          have kept := @WriteAheadLog.append_alike P _ survives state.wal
            ⟨.update, ns, coll, entry.1, payload, none⟩
          rw [fails] at kept
          exact kept
      | @logged after payload wal sequence _ _ _ logs =>
          have kept := @WriteAheadLog.append_alike P _ survives state.wal
            ⟨.update, ns, coll, entry.1, payload, none⟩
          rw [logs] at kept
          exact kept

theorem removeOne_wal (survives : moment.append.fault ≠ .crashAfterWal) (id : DocumentId)
    (state : Section) :
    state.wal.Alike (removeOne P ns coll moment id state).1.wal := by
  cases ran : removeOne P ns coll moment id state with
  | mk next outcome =>
      have kept := @WriteAheadLog.append_alike P _ survives state.wal
        ⟨.delete, ns, coll, id, [], none⟩
      cases removeOne_exit ran with
      | absent => exact WriteAheadLog.alike_refl _
      | unlogged _ fails =>
          rw [fails] at kept
          exact kept
      | logged _ logs =>
          rw [logs] at kept
          exact kept

end Sections

end DatabaseEngine

/-! ## Engines on both sides -/

/-- Maps by collection that agree on the collections of other namespaces. -/
def AgreeOff {β : Type} (m : String) (first second : AList (fun _ : CollectionKey => β)) : Prop :=
  forall key : CollectionKey, key.1 ≠ m -> first.lookup key = second.lookup key

section Agreement

variable {β : Type} {m : String} {first second : AList (fun _ : CollectionKey => β)}
  {key : CollectionKey}

theorem AgreeOff.insert (agree : AgreeOff m first second) (key : CollectionKey) (value : β) :
    AgreeOff m (first.insert key value) (second.insert key value) := by
  intro other different
  by_cases same : other = key
  · rw [same, AList.lookup_insert, AList.lookup_insert]
  · rw [AList.lookup_insert_ne same, AList.lookup_insert_ne same]
    exact agree other different

theorem agreeOff_insert (isHidden : key.1 = m) (value : β) :
    AgreeOff m first (first.insert key value) := by
  intro other different
  rw [AList.lookup_insert_ne]
  intro same
  rw [same] at different
  exact different isHidden

end Agreement

/-- The events of other namespaces, up to their numbers and times. -/
def eventsOff (m : String) (events : List DataEvent) : List DataEvent :=
  (events.filter (fun event => event.namespaceName != m)).map DataEvent.unnumbered

/-- Engines that agree outside a namespace. -/
structure DatabaseEngine.AlikeOff (m : String) (first second : DatabaseEngine) : Prop where
  collections : AgreeOff m first.collections second.collections
  indexes : AgreeOff m first.indexes second.indexes
  wal : first.wal.Alike second.wal
  events : eventsOff m first.events = eventsOff m second.events

namespace DatabaseEngine

section Engines

variable {m : String} {first second third : DatabaseEngine} {key : CollectionKey}

theorem alikeOff_refl (m : String) (engine : DatabaseEngine) : engine.AlikeOff m engine :=
  ⟨fun _ _ => rfl, fun _ _ => rfl, WriteAheadLog.alike_refl _, rfl⟩

theorem AlikeOff.symm (alike : first.AlikeOff m second) : second.AlikeOff m first :=
  ⟨fun key different => (alike.collections key different).symm,
    fun key different => (alike.indexes key different).symm, alike.wal.symm, alike.events.symm⟩

theorem AlikeOff.trans (alike : first.AlikeOff m second) (further : second.AlikeOff m third) :
    first.AlikeOff m third :=
  ⟨fun key different => (alike.collections key different).trans (further.collections key different),
    fun key different => (alike.indexes key different).trans (further.indexes key different),
    alike.wal.trans further.wal, alike.events.trans further.events⟩

theorem AlikeOff.storeOf (alike : first.AlikeOff m second) (different : key.1 ≠ m) :
    Storage.storeOf first.collections key = Storage.storeOf second.collections key := by
  rw [Storage.storeOf, Storage.storeOf, alike.collections key different]

theorem AlikeOff.managerOf (alike : first.AlikeOff m second) (different : key.1 ≠ m) :
    Server.managerOf first.indexes key = Server.managerOf second.indexes key := by
  rw [Server.managerOf, Server.managerOf, alike.indexes key different]

/-! ### What one side does -/

theorem alikeOff_wal {wal : WriteAheadLog} (kept : first.wal.Alike wal) :
    first.AlikeOff m { first with wal } :=
  ⟨fun _ _ => rfl, fun _ _ => rfl, kept, rfl⟩

theorem alikeOff_storeInsert (isHidden : key.1 = m) (doc : Document) :
    first.AlikeOff m (storeInsert key doc first) :=
  ⟨agreeOff_insert isHidden _, fun _ _ => rfl, WriteAheadLog.alike_refl _, rfl⟩

theorem alikeOff_indexes (isHidden : key.1 = m) (manager : IndexManager) :
    first.AlikeOff m { first with indexes := first.indexes.insert key manager } :=
  ⟨fun _ _ => rfl, agreeOff_insert isHidden _, WriteAheadLog.alike_refl _, rfl⟩

theorem alikeOff_emitEvent {event : DataEvent} (isHidden : event.namespaceName = m) :
    first.AlikeOff m (emitEvent event first) := by
  refine ⟨fun _ _ => rfl, fun _ _ => rfl, WriteAheadLog.alike_refl _, ?_⟩
  rw [emitEvent, eventsOff, eventsOff, List.filter_append]
  simp [isHidden]

theorem alikeOff_leave (isHidden : key.1 = m) {state : Section}
    (kept : first.wal.Alike state.wal) : first.AlikeOff m (first.leave key state) :=
  ⟨agreeOff_insert isHidden _, agreeOff_insert isHidden _, kept, rfl⟩

/-! ### What both sides do -/

theorem AlikeOff.withWal (alike : first.AlikeOff m second) {wal other : WriteAheadLog}
    (kept : wal.Alike other) :
    AlikeOff m { first with wal := wal } { second with wal := other } :=
  ⟨alike.collections, alike.indexes, kept, alike.events⟩

theorem AlikeOff.storeInsert (alike : first.AlikeOff m second) (different : key.1 ≠ m)
    (doc : Document) :
    (storeInsert key doc first).AlikeOff m (storeInsert key doc second) := by
  refine ⟨?_, alike.indexes, alike.wal, alike.events⟩
  rw [DatabaseEngine.storeInsert, DatabaseEngine.storeInsert, alike.storeOf different]
  exact alike.collections.insert _ _

theorem AlikeOff.withIndexes (alike : first.AlikeOff m second) (key : CollectionKey)
    (manager : IndexManager) :
    AlikeOff m { first with indexes := first.indexes.insert key manager }
      { second with indexes := second.indexes.insert key manager } :=
  ⟨alike.collections, alike.indexes.insert _ _, alike.wal, alike.events⟩

theorem AlikeOff.emitEvent (alike : first.AlikeOff m second) {event other : DataEvent}
    (same : event.unnumbered = other.unnumbered) :
    (emitEvent event first).AlikeOff m (emitEvent other second) := by
  refine ⟨alike.collections, alike.indexes, alike.wal, ?_⟩
  have sameNamespace : event.namespaceName = other.namespaceName := by
    change event.unnumbered.namespaceName = other.unnumbered.namespaceName
    rw [same]
  have before := alike.events
  rw [DatabaseEngine.emitEvent, DatabaseEngine.emitEvent, eventsOff, eventsOff,
    List.filter_append, List.filter_append, List.map_append, List.map_append]
  rw [eventsOff, eventsOff] at before
  rw [before]
  congr 1
  simp only [List.filter_cons, List.filter_nil, sameNamespace]
  split
  · rw [List.map_singleton, List.map_singleton, same]
  · rfl

theorem AlikeOff.enter (alike : first.AlikeOff m second) (different : key.1 ≠ m) :
    (first.enter key).Alike (second.enter key) :=
  ⟨alike.storeOf different, alike.managerOf different, alike.wal⟩

theorem AlikeOff.leave (alike : first.AlikeOff m second) {state other : Section}
    (sections : state.Alike other) :
    (first.leave key state).AlikeOff m (second.leave key other) := by
  refine ⟨?_, ?_, sections.wal, alike.events⟩
  · rw [DatabaseEngine.leave, DatabaseEngine.leave, sections.store]
    exact alike.collections.insert _ _
  · rw [DatabaseEngine.leave, DatabaseEngine.leave, sections.manager]
    exact alike.indexes.insert _ _

end Engines

end DatabaseEngine

end Server
end NovaDb
