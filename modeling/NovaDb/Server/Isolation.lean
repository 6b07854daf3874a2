import NovaDb.Foundation.Unwinding
import NovaDb.Server.Service

namespace NovaDb
namespace Server

open Core Foundation Index Protocol Query Storage DatabaseEngine
open Session (openConfig requestFrame sampleDraw watchJson)

/-!
# Isolation of namespaces

Two runs of a server that differ in the statements of one namespace show the same to
the clients of all others, as far as the engine is concerned: stores, indexes and log
records are keyed by the namespace.  Events carry it too, but a WATCH compares only
the name of the collection.  So the clients of other namespaces see the same exactly
as long as no subscription takes an event of the namespace that it would send, or
loses its own events behind those of the namespace.
-/

/-! ## Events of other namespaces -/

section Events

variable {m : String} {event other : DataEvent} {events more : List DataEvent}

theorem eventsOff_append (m : String) (events more : List DataEvent) :
    eventsOff m (events ++ more) = eventsOff m events ++ eventsOff m more := by
  rw [eventsOff, List.filter_append, List.map_append]
  rfl

theorem eventsOff_cons_of_ne (different : event.namespaceName ≠ m) :
    eventsOff m (event :: events) = event.unnumbered :: eventsOff m events := by
  rw [eventsOff, List.filter_cons_of_pos (by simpa using different)]
  rfl

theorem eventsOff_cons_of_eq (same : event.namespaceName = m) :
    eventsOff m (event :: events) = eventsOff m events := by
  rw [eventsOff, List.filter_cons_of_neg (by simpa using same)]
  rfl

theorem eventsOff_of_none (none : forall event, event ∈ events -> event.namespaceName ≠ m) :
    eventsOff m events = events.map DataEvent.unnumbered := by
  rw [eventsOff, List.filter_eq_self.mpr]
  intro event member
  simpa using none event member

theorem length_eventsOff_le (m : String) (events : List DataEvent) :
    (eventsOff m events).length ≤ events.length := by
  rw [eventsOff, List.length_map]
  exact List.length_filter_le _ events

end Events

/-- Whether an event can be written as JSON does not depend on its numbers, the sequence
and the time, which other namespaces have an influence on. -/
def EncodesAlike (json : PayloadJson) : Prop :=
  forall event other : DataEvent, event.unnumbered = other.unnumbered ->
    (eventToBytes json event).toOption.isSome = (eventToBytes json other).toOption.isSome

/-- A WATCH task does the same with events that differ in their numbers. -/
theorem onEvent_unnumbered {P : Platform} {json : PayloadJson} (encodes : EncodesAlike json)
    {event other : DataEvent} (same : event.unnumbered = other.unnumbered) (watcher : Watcher) :
    (watcher.onEvent P json event).map Option.isSome =
      (watcher.onEvent P json other).map Option.isSome := by
  have sameCollection : event.collection = other.collection := by
    change event.unnumbered.collection = other.unnumbered.collection
    rw [same]
  have sameMatch : watcher.matchesEvent P event = watcher.matchesEvent P other := by
    change watcher.matchesEvent P event.unnumbered = watcher.matchesEvent P other.unnumbered
    rw [same]
  have sameBytes := encodes event other same
  unfold Watcher.onEvent
  rw [sameCollection, sameMatch]
  by_cases watched : other.collection = watcher.collection
  · rw [if_pos watched, if_pos watched]
    cases watcher.matchesEvent P other with
    | error fault => rfl
    | ok matched =>
        cases matched with
        | false => rfl
        | true => simp only [Except.map, Option.isSome_map, sameBytes]
  · rw [if_neg watched, if_neg watched]

/-! ## A subscription -/

namespace Subscription

/-- What the clients of other namespaces see of a subscription, now and to come. -/
def view (m : String) (events : List DataEvent) (subscription : Subscription) :
    Subscription × List DataEvent :=
  ({ subscription with
      position := 0
      delivered := subscription.delivered.map DataEvent.unnumbered },
    eventsOff m (events.drop subscription.position))

/-- Nothing of the namespace comes through: no events were overwritten with those of
the namespace among them, and the next event is not one of the namespace that the
subscription sends. -/
structure Undisturbed (P : Platform) (m : String) (events : List DataEvent)
    (subscription : Subscription) : Prop where
  keepsUp : subscription.Lags events ->
    forall event, event ∈ events.drop subscription.position -> event.namespaceName ≠ m
  passes : forall event, subscription.next events = some event -> event.namespaceName = m ->
    event.collection = subscription.watcher.collection ->
      subscription.watcher.matchesEvent P event = .ok false

section Views

variable {P : Platform} {json : PayloadJson} {m : String} {events others more : List DataEvent}
  {subscription twin : Subscription}

/-- More events behind the others. -/
theorem view_append (inside : subscription.position ≤ events.length) (more : List DataEvent) :
    view m (events ++ more) subscription =
      ((view m events subscription).1, (view m events subscription).2 ++ eventsOff m more) := by
  rw [view, List.drop_append_of_le_length inside, eventsOff_append]
  rfl

theorem drop_of_next {event : DataEvent} (isNext : subscription.next events = some event) :
    events.drop subscription.position = event :: events.drop (subscription.position + 1) := by
  rcases List.getElem?_eq_some_iff.mp isNext with ⟨bound, rfl⟩
  exact List.drop_eq_getElem_cons bound

theorem drop_of_none (none : subscription.next events = none) :
    events.drop subscription.position = [] :=
  List.drop_eq_nil_iff.mpr (List.getElem?_eq_none_iff.mp none)

/-- An event of the namespace goes unnoticed. -/
theorem receive_unnoticed (undisturbed : subscription.Undisturbed P m events) {event : DataEvent}
    (isNext : subscription.next events = some event) (isHidden : event.namespaceName = m) :
    view m events (subscription.receive P json events) = view m events subscription := by
  have pending := drop_of_next isNext
  have keeps : ¬ subscription.Lags events := by
    intro lags
    apply undisturbed.keepsUp lags event
    · rw [pending]
      exact List.mem_cons_self
    · exact isHidden
  have silent : subscription.watcher.onEvent P json event = .ok none := by
    unfold Watcher.onEvent
    by_cases watched : event.collection = subscription.watcher.collection
    · rw [if_pos watched, undisturbed.passes event isNext isHidden watched]
    · rw [if_neg watched]
  unfold receive
  by_cases isEnded : subscription.ended = true
  · rw [if_pos isEnded]
  · rw [if_neg isEnded, if_neg keeps, isNext]
    dsimp only
    rw [silent, took, view, view, pending, eventsOff_cons_of_eq isHidden]

theorem view_eq_iff : view m events subscription = view m others twin <->
    subscription.connection = twin.connection ∧ subscription.watcher = twin.watcher ∧
      subscription.delivered.map DataEvent.unnumbered = twin.delivered.map DataEvent.unnumbered ∧
      subscription.ended = twin.ended ∧
      eventsOff m (events.drop subscription.position) = eventsOff m (others.drop twin.position) := by
  simp only [view, Prod.mk.injEq, mk.injEq, true_and]
  constructor
  · rintro ⟨⟨connection, watcher, delivered, ended⟩, pending⟩
    exact ⟨connection, watcher, delivered, ended, pending⟩
  · rintro ⟨connection, watcher, delivered, ended, pending⟩
    exact ⟨⟨connection, watcher, delivered, ended⟩, pending⟩

/-- A subscription that loses its own events loses them on the other side too. -/
theorem lags_of_view
    (pending : eventsOff m (events.drop subscription.position) =
      eventsOff m (others.drop twin.position))
    (undisturbed : subscription.Undisturbed P m events) (lags : subscription.Lags events) :
    twin.Lags others := by
  have sized := congrArg List.length pending
  have fewer := length_eventsOff_le m (others.drop twin.position)
  rw [eventsOff_of_none (undisturbed.keepsUp lags), List.length_map, List.length_drop] at sized
  rw [List.length_drop] at fewer
  rw [Lags] at lags ⊢
  omega

/-- What is left when events of other namespaces were overwritten. -/
theorem eventsOff_overwritten (undisturbed : subscription.Undisturbed P m events)
    (lags : subscription.Lags events) :
    eventsOff m (events.drop (events.length - eventCapacity)) =
      (eventsOff m (events.drop subscription.position)).drop
        ((eventsOff m (events.drop subscription.position)).length - eventCapacity) := by
  have clear := undisturbed.keepsUp lags
  rw [Lags] at lags
  have position : events.length - eventCapacity =
      subscription.position + (events.length - subscription.position - eventCapacity) := by
    omega
  have left : events.drop (events.length - eventCapacity) =
      (events.drop subscription.position).drop
        (events.length - subscription.position - eventCapacity) := by
    rw [List.drop_drop, ← position]
  rw [left, eventsOff_of_none clear,
    eventsOff_of_none (fun event member => clear event (List.mem_of_mem_drop member)),
    List.length_map, List.length_drop, List.map_drop]

/-- The same event, sent or passed over on both sides. -/
theorem took_together (same : view m events subscription = view m others twin)
    {event other : DataEvent} (isNext : subscription.next events = some event)
    (isNextToo : twin.next others = some other) (shown : event.namespaceName ≠ m)
    (shownToo : other.namespaceName ≠ m) {outcome outcomeToo : Outcome (Option NvpFrame)}
    (sends : outcome.map Option.isSome = outcomeToo.map Option.isSome) :
    view m events (subscription.took event outcome) =
      view m others (twin.took other outcomeToo) := by
  rcases view_eq_iff.mp same with ⟨sameConnection, sameWatcher, sameDelivered, sameEnd, pending⟩
  have left := pending
  rw [drop_of_next isNext, drop_of_next isNextToo, eventsOff_cons_of_ne shown,
    eventsOff_cons_of_ne shownToo] at left
  rcases List.cons.inj left with ⟨sameEvent, sameRest⟩
  cases outcome with
  | error fault =>
      cases outcomeToo with
      | error failure =>
          exact view_eq_iff.mpr ⟨sameConnection, sameWatcher, sameDelivered, rfl, pending⟩
      | ok frameToo => cases sends
  | ok frame =>
      cases outcomeToo with
      | error failure => cases sends
      | ok frameToo =>
          cases frame with
          | none =>
              cases frameToo with
              | none =>
                  exact view_eq_iff.mpr
                    ⟨sameConnection, sameWatcher, sameDelivered, sameEnd, sameRest⟩
              | some sentToo => cases sends
          | some sent =>
              cases frameToo with
              | none => cases sends
              | some sentToo =>
                  refine view_eq_iff.mpr
                    ⟨sameConnection, sameWatcher, ?_, sameEnd, sameRest⟩
                  dsimp only [took]
                  rw [List.map_append, List.map_append, sameDelivered, List.map_singleton,
                    List.map_singleton, sameEvent]

/-- An event of another namespace is taken alike on both sides. -/
theorem receive_together (encodes : EncodesAlike json)
    (same : view m events subscription = view m others twin)
    (undisturbed : subscription.Undisturbed P m events)
    (undisturbedToo : twin.Undisturbed P m others)
    (shown : forall event, subscription.next events = some event -> event.namespaceName ≠ m)
    (shownToo : forall event, twin.next others = some event -> event.namespaceName ≠ m) :
    view m events (subscription.receive P json events) =
      view m others (twin.receive P json others) := by
  rcases view_eq_iff.mp same with ⟨sameConnection, sameWatcher, sameDelivered, sameEnd, pending⟩
  unfold receive
  by_cases isEnded : subscription.ended = true
  · rw [if_pos isEnded, if_pos (sameEnd.symm.trans isEnded)]
    exact same
  · rw [if_neg isEnded, if_neg (fun ended => isEnded (sameEnd.trans ended))]
    by_cases lags : subscription.Lags events
    · have lagsToo := lags_of_view pending undisturbed lags
      rw [if_pos lags, if_pos lagsToo]
      refine view_eq_iff.mpr ⟨sameConnection, sameWatcher, sameDelivered, sameEnd, ?_⟩
      dsimp only
      rw [eventsOff_overwritten undisturbed lags, eventsOff_overwritten undisturbedToo lagsToo,
        pending]
    · rw [if_neg lags, if_neg (fun lagsToo => lags (lags_of_view pending.symm undisturbedToo lagsToo))]
      cases isNext : subscription.next events with
      | none =>
          cases isNextToo : twin.next others with
          | none => exact same
          | some other =>
              rw [drop_of_none isNext, drop_of_next isNextToo,
                eventsOff_cons_of_ne (shownToo other isNextToo)] at pending
              cases pending
      | some event =>
          cases isNextToo : twin.next others with
          | none =>
              rw [drop_of_next isNext, drop_of_none isNextToo,
                eventsOff_cons_of_ne (shown event isNext)] at pending
              cases pending
          | some other =>
              rw [drop_of_next isNext, drop_of_next isNextToo,
                eventsOff_cons_of_ne (shown event isNext),
                eventsOff_cons_of_ne (shownToo other isNextToo)] at pending
              rcases List.cons.inj pending with ⟨sameEvent, sameRest⟩
              have sends := @onEvent_unnumbered P json encodes event other sameEvent
                subscription.watcher
              rw [← sameWatcher]
              exact took_together same isNext isNextToo (shown event isNext)
                (shownToo other isNextToo) sends

end Views

end Subscription

/-! ## A statement -/

/-- The events of an engine, and some more. -/
def Extends (events later : List DataEvent) : Prop :=
  Exists fun more => later = events ++ more

theorem extends_refl (events : List DataEvent) : Extends events events :=
  ⟨[], (List.append_nil events).symm⟩

namespace Call

section Steps

variable {P : Platform} {m ns : String} {moments others : Nat -> Moment} {call other : Call}
  {first second : DatabaseEngine}

theorem advance_of (isOf : call.Of ns) (engine : DatabaseEngine) :
    (call.advance P moments ns engine).2.Of ns := by
  rcases call with ⟨⟨⟨request, progress⟩, unsent⟩⟩ | ⟨statement, _ | answer⟩
  · exact isOf
  · exact isOf
  · exact isOf

/-- A step publishes at the end. -/
theorem advance_extends (isOf : call.Of ns) (engine : DatabaseEngine) :
    Extends engine.events (call.advance P moments ns engine).1.events := by
  have sections : forall {enters : DatabaseEngine -> DatabaseEngine × Except Stop (List Change)},
      (enters engine).1.events = engine.events ->
        forall eventType verb coll name progress unsent, Extends engine.events
          (Publisher.advanceSection enters eventType verb moments name coll progress unsent
            engine).1.events := by
    intro enters kept eventType verb coll name progress unsent
    cases progress with
    | waiting =>
        simp only [Publisher.advanceSection]
        generalize enters engine = result at kept ⊢
        rcases result with ⟨next, outcome⟩
        have same : next.events = engine.events := kept
        cases outcome with
        | error stop => exact ⟨[], by rw [same, List.append_nil]⟩
        | ok changes => exact ⟨[], by rw [same, List.append_nil]⟩
    | changed changes =>
        cases unsent with
        | nil => exact extends_refl _
        | cons change rest => exact ⟨_, rfl⟩
    | checked | logged | stored | indexed | answered => exact extends_refl _
  rcases call with ⟨⟨⟨request, progress⟩, unsent⟩⟩ | ⟨statement, _ | answer⟩
  · cases request with
    | insert name coll doc =>
        cases progress with
        | waiting =>
            simp only [advance, Publisher.advance, Request.advanceInsert]
            split <;> exact extends_refl _
        | checked =>
            simp only [advance, Publisher.advance, Request.advanceInsert]
            split <;> exact extends_refl _
        | indexed sequence => exact ⟨_, rfl⟩
        | logged | stored | changed | answered => exact extends_refl _
    | update name coll assignments filter => exact sections rfl _ _ _ _ _ _
    | remove name coll filter =>
        refine sections ?_ _ _ _ _ _ _
        unfold removeSection
        dsimp only
        split <;> rfl
  · cases statement with
    | insert | update | remove => cases isOf
    | dropIndex coll field =>
        simp only [advance, execute, executeDropIndex]
        split <;> exact extends_refl _
    | find | count | «exists» | createIndex | watch | begin | commit | rollback =>
        exact extends_refl _
  · exact extends_refl _

/-- A step of a statement of the namespace. -/
theorem advance_unnoticed (survived : Survived moments) (isOf : call.Of ns)
    (engine : DatabaseEngine) : engine.AlikeOff ns (call.advance P moments ns engine).1 := by
  rcases call with ⟨⟨⟨request, progress⟩, unsent⟩⟩ | ⟨statement, _ | answer⟩
  · have isName : request.namespaceName = ns := isOf
    rw [← isName]
    exact Server.advance_unnoticed survived request progress unsent engine
  · exact execute_unnoticed isOf engine
  · exact alikeOff_refl ns engine

/-- A step of a statement of another namespace, on both sides. -/
theorem advance_together (alike : first.AlikeOff m second) (different : ns ≠ m)
    (same : SameMoments moments others) (steady : AllSteady moments) (steadyToo : AllSteady others)
    (isOf : call.Of ns) (sameCall : call.unnumbered = other.unnumbered)
    (room : first.wal.HasRoom P (call.mayIssue first))
    (roomToo : second.wal.HasRoom P (other.mayIssue second)) :
    (call.advance P moments ns first).1.AlikeOff m (other.advance P others ns second).1 ∧
      (call.advance P moments ns first).2.unnumbered =
        (other.advance P others ns second).2.unnumbered := by
  rcases call with ⟨⟨⟨request, progress⟩, unsent⟩⟩ | ⟨statement, answer⟩
  · rcases other with ⟨⟨⟨asked, reached⟩, waiting⟩⟩ | ⟨stated, _⟩
    · simp only [unnumbered, staged.injEq, Publisher.mk.injEq, Task.mk.injEq] at sameCall
      rcases sameCall with ⟨⟨rfl, sameProgress⟩, sameUnsent⟩
      have isName : request.namespaceName = ns := isOf
      rw [← isName] at different
      have steps := @Server.advance_together P m moments others first second progress reached unsent
        waiting alike same steady steadyToo request different room roomToo sameProgress sameUnsent
      refine ⟨steps.engine, ?_⟩
      simp only [advance, unnumbered, steps.progress, steps.unsent]
    · cases sameCall
  · rcases other with ⟨⟨⟨asked, reached⟩, waiting⟩⟩ | ⟨stated, _⟩
    · cases sameCall
    · cases sameCall
      cases answer with
      | some answered => exact ⟨alike, rfl⟩
      | none =>
          have steps := @execute_together P m ns moments others statement first second alike different
            same isOf
          refine ⟨steps.1, ?_⟩
          simp only [advance, unnumbered, steps.2]

end Steps

end Call

/-! ## The service -/

/-- The namespace that the bytes of a web request name. -/
def httpNamespace {Number : Type} (fromStr : String -> Option (JsonValue Number))
    (bytes : List UInt8) : Option String :=
  if (bytes.take 8192).isEmpty then none
  else (routeHttp fromStr (fromUtf8Lossy (bytes.take 8192))).namespaceName

/-- A web request executes statements of its namespace only. -/
theorem mem_httpCalls {Number : Type} {fromStr : String -> Option (JsonValue Number)}
    {T : TextTables} {moment : HttpMoment} {bytes : List UInt8} {statement : Statement}
    {ns : String} (member : .execute statement ns ∈ httpCalls fromStr T moment bytes) :
    httpNamespace fromStr bytes = some ns := by
  rw [httpCalls] at member
  rw [httpNamespace]
  by_cases idle : (bytes.take 8192).isEmpty = true
  · rw [if_pos idle] at member
    cases member
  · rw [if_neg idle] at member ⊢
    cases isAction : routeHttp fromStr (fromUtf8Lossy (bytes.take 8192)) with
    | query text name =>
        rw [isAction, HttpAction.calls] at member
        split at member
        · cases member
        · rcases List.mem_map.mp member with ⟨_, _, same⟩
          cases same
          rfl
    | seed =>
        rw [isAction] at member
        rcases List.mem_map.mp (List.mem_of_mem_take member) with ⟨_, _, same⟩
        cases same
        rfl
    | events =>
        rw [isAction, HttpAction.calls] at member
        split at member
        · cases List.mem_singleton.mp member
        · cases member
    | preflight | studio | status | notFound =>
        rw [isAction] at member
        cases member

namespace Service

/-- What every turn keeps: each statement is one of its namespace, and no subscription
is ahead of the events. -/
structure Sound (service : Service) : Prop where
  calls : forall ns call, call ∈ service.calls ns -> call.Of ns
  positions : forall subscription, subscription ∈ service.subscriptions ->
    subscription.position ≤ service.engine.events.length

/-- Services that are alike outside of a namespace.  The connections of the binary
protocol are in the namespace `default`. -/
structure AlikeOff (m : String) (first second : Service) : Prop where
  engine : first.engine.AlikeOff m second.engine
  calls : forall ns, ns ≠ m ->
    (first.calls ns).map Call.unnumbered = (second.calls ns).map Call.unnumbered
  connections : m ≠ "default" -> first.connections = second.connections
  handled : m ≠ "default" -> first.handled = second.handled
  subscriptions : m ≠ "default" ->
    first.subscriptions.map (Subscription.view m first.engine.events) =
      second.subscriptions.map (Subscription.view m second.engine.events)

theorem alikeOff_equivalence (m : String) : Equivalence (AlikeOff m) where
  refl service := ⟨alikeOff_refl m service.engine, fun _ _ => rfl, fun _ => rfl, fun _ => rfl,
    fun _ => rfl⟩
  symm alike := ⟨alike.engine.symm, fun ns different => (alike.calls ns different).symm,
    fun served => (alike.connections served).symm, fun served => (alike.handled served).symm,
    fun served => (alike.subscriptions served).symm⟩
  trans alike further := ⟨alike.engine.trans further.engine,
    fun ns different => (alike.calls ns different).trans (further.calls ns different),
    fun served => (alike.connections served).trans (further.connections served),
    fun served => (alike.handled served).trans (further.handled served),
    fun served => (alike.subscriptions served).trans (further.subscriptions served)⟩

section Submissions

variable {m : String} {service first second : Service}

theorem Sound.submit (sound : service.Sound) (call : EngineCall) : (service.submit call).Sound := by
  cases call with
  | subscribeEvents => exact sound
  | execute statement ns =>
      refine ⟨?_, sound.positions⟩
      intro name call member
      by_cases same : name = ns
      · subst same
        have inside : call ∈ service.calls name ++ [Call.ofStatement name statement] := by
          simpa only [Service.submit, Function.update_self] using member
        rcases List.mem_append.mp inside with older | isNew
        · exact sound.calls name call older
        · rw [List.mem_singleton.mp isNew]
          exact Call.ofStatement_of name statement
      · have inside : call ∈ service.calls name := by
          simpa only [Service.submit, Function.update_of_ne same] using member
        exact sound.calls name call inside

theorem submit_unnoticed (service : Service) (statement : Statement) (m : String) :
    service.AlikeOff m (service.submit (.execute statement m)) := by
  refine ⟨alikeOff_refl m _, ?_, fun _ => rfl, fun _ => rfl, fun _ => rfl⟩
  intro ns different
  simp only [submit, Function.update_of_ne different]

theorem AlikeOff.submit (alike : first.AlikeOff m second) (call : EngineCall) :
    (first.submit call).AlikeOff m (second.submit call) := by
  cases call with
  | subscribeEvents => exact alike
  | execute statement ns =>
      refine ⟨alike.engine, ?_, alike.connections, alike.handled, alike.subscriptions⟩
      intro name different
      by_cases same : name = ns
      · subst same
        simp only [Service.submit, Function.update_self, List.map_append,
          alike.calls name different]
      · simp only [Service.submit, Function.update_of_ne same, alike.calls name different]

theorem Sound.submitAll (sound : service.Sound) (calls : List EngineCall) :
    (calls.foldl Service.submit service).Sound := by
  induction calls generalizing service with
  | nil => exact sound
  | cons call rest inductionHypothesis => exact inductionHypothesis (sound.submit call)

theorem submitAll_unnoticed (service : Service) {calls : List EngineCall}
    (only : forall statement ns, .execute statement ns ∈ calls -> ns = m) :
    service.AlikeOff m (calls.foldl Service.submit service) := by
  induction calls generalizing service with
  | nil => exact (alikeOff_equivalence m).refl service
  | cons call rest inductionHypothesis =>
      have first : service.AlikeOff m (service.submit call) := by
        cases call with
        | subscribeEvents => exact (alikeOff_equivalence m).refl service
        | execute statement ns =>
            rw [only statement ns List.mem_cons_self]
            exact submit_unnoticed service statement m
      exact (alikeOff_equivalence m).trans first (inductionHypothesis (service.submit call)
        fun statement ns member => only statement ns (List.mem_cons_of_mem call member))

theorem AlikeOff.submitAll (alike : first.AlikeOff m second) (calls : List EngineCall) :
    (calls.foldl Service.submit first).AlikeOff m (calls.foldl Service.submit second) := by
  induction calls generalizing first second with
  | nil => exact alike
  | cons call rest inductionHypothesis => exact inductionHypothesis (alike.submit call)

end Submissions

/-! ## What a namespace hides -/

section Turns

variable {Number : Type} (P : Platform) (json : PayloadJson) (T : TextTables)
  (fromStr : String -> Option (JsonValue Number)) (config : ServerConfig)

/-- The next event of a subscription. -/
def nextEvent (service : Service) (index : Nat) : Option DataEvent :=
  service.subscriptions[index]?.bind (Subscription.next service.engine.events)

/-- The turns that are there because of statements of the namespace: its requests and
frames, the steps of its statements, and taking one of its events. -/
def hidden (m : String) (service : Service) : ServiceTurn -> Bool
  | .request _ bytes => httpNamespace fromStr bytes == some m
  | .frame _ _ _ => m == "default"
  | .advance ns _ _ => ns == m
  | .receive index =>
      m == "default" || (service.nextEvent index).any (fun event => event.namespaceName == m)

/-- A turn without the clocks that only the log and the events read. -/
def untimed : ServiceTurn -> ServiceTurn
  | .advance ns index moments => .advance ns index (fun turn => (moments turn).untimed)
  | turn => turn

/-- The state before a turn lets it keep the namespace apart: a statement of the
namespace does not crash behind its append, another one meets a device whose failures
do not depend on what is in the log, and numbers to take; and a subscription is
undisturbed. -/
def KeepsApart (m : String) (service : Service) : ServiceTurn -> Prop
  | .request _ _ => True
  | .frame _ _ _ => True
  | .advance ns index moments =>
      (ns = m -> Survived moments) ∧
        (ns ≠ m -> AllSteady moments ∧ forall call, (service.calls ns)[index]? = some call ->
          service.engine.wal.HasRoom P (call.mayIssue service.engine))
  | .receive index => m ≠ "default" -> forall subscription,
      service.subscriptions[index]? = some subscription ->
        subscription.Undisturbed P m service.engine.events

variable {P} {json} {T} {fromStr} {config} {m : String} {service first second : Service}

theorem receive_position {events : List DataEvent} {subscription : Subscription}
    (inside : subscription.position ≤ events.length) :
    (subscription.receive P json events).position ≤ events.length := by
  unfold Subscription.receive
  split
  · exact inside
  · split
    · exact Nat.sub_le _ _
    · split
      · exact inside
      · rename_i event isNext
        rcases List.getElem?_eq_some_iff.mp isNext with ⟨bound, _⟩
        cases subscription.watcher.onEvent P json event with
        | error fault => exact inside
        | ok frame => cases frame <;> exact bound

/-- The service behind a frame, before it goes on to the engine. -/
theorem Sound.handle (sound : service.Sound) (connections : Nat -> ConnectionHandler)
    (handled : List (Nat × Handling)) : Sound { service with connections, handled } :=
  ⟨sound.calls, sound.positions⟩

theorem Sound.step (sound : service.Sound) (turn : ServiceTurn) :
    (step P json T fromStr config turn service).Sound := by
  cases turn with
  | request moment bytes => exact sound.submitAll _
  | frame connection draw frame =>
      simp only [Service.step, onFrame]
      split
      · exact (sound.handle _ _).submit _
      · refine ⟨sound.calls, ?_⟩
        intro subscription member
        rcases List.mem_append.mp member with older | isNew
        · exact sound.positions subscription older
        · rw [List.mem_singleton.mp isNew]
      · exact sound.handle _ _
      · exact sound.handle _ _
      · exact sound.handle _ _
  | advance ns index moments =>
      simp only [Service.step]
      cases isCall : (service.calls ns)[index]? with
      | none => exact sound
      | some call =>
          have isOf := sound.calls ns call (List.mem_of_getElem? isCall)
          refine ⟨?_, ?_⟩
          · intro name other member
            by_cases same : name = ns
            · subst same
              simp only [Function.update_self] at member
              rcases List.mem_or_eq_of_mem_set member with older | rfl
              · exact sound.calls name other older
              · exact Call.advance_of isOf service.engine
            · simp only [Function.update_of_ne same] at member
              exact sound.calls name other member
          · intro subscription member
            rcases @Call.advance_extends P ns moments call isOf service.engine with ⟨more, longer⟩
            have inside := sound.positions subscription member
            dsimp only
            rw [longer, List.length_append]
            exact Nat.le_add_right_of_le inside
  | receive index =>
      simp only [Service.step]
      cases isSubscription : service.subscriptions[index]? with
      | none => exact sound
      | some subscription =>
          refine ⟨sound.calls, ?_⟩
          intro other member
          rcases List.mem_or_eq_of_mem_set member with older | rfl
          · exact sound.positions other older
          · exact receive_position
              (sound.positions subscription (List.mem_of_getElem? isSubscription))

/-- What the events behind the others add to the views. -/
theorem map_view_append {subscriptions : List Subscription} {events : List DataEvent}
    (inside : forall subscription, subscription ∈ subscriptions ->
      subscription.position ≤ events.length) (more : List DataEvent) :
    subscriptions.map (Subscription.view m (events ++ more)) =
      (subscriptions.map (Subscription.view m events)).map
        (fun view => (view.1, view.2 ++ eventsOff m more)) := by
  rw [List.map_map]
  apply List.map_congr_left
  intro subscription member
  exact Subscription.view_append (inside subscription member) more

theorem map_set_view {subscriptions : List Subscription} {index : Nat}
    {subscription changed : Subscription} {events : List DataEvent}
    (isSubscription : subscriptions[index]? = some subscription)
    (same : Subscription.view m events changed = Subscription.view m events subscription) :
    (subscriptions.set index changed).map (Subscription.view m events) =
      subscriptions.map (Subscription.view m events) := by
  have isView : (subscriptions.map (Subscription.view m events))[index]? =
      some (Subscription.view m events subscription) := by
    rw [List.getElem?_map, isSubscription, Option.map_some]
  rcases List.getElem?_eq_some_iff.mp isView with ⟨bound, found⟩
  rw [List.map_set, same, ← found]
  exact List.set_getElem_self bound

/-- A hidden turn goes unnoticed. -/
theorem step_unnoticed (sound : service.Sound) (turn : ServiceTurn)
    (apart : KeepsApart P m service turn) (isHidden : hidden fromStr m service turn = true) :
    service.AlikeOff m (step P json T fromStr config turn service) := by
  cases turn with
  | request moment bytes =>
      have isName : httpNamespace fromStr bytes = some m := beq_iff_eq.mp isHidden
      apply submitAll_unnoticed
      intro statement ns member
      exact Option.some.inj ((mem_httpCalls member).symm.trans isName)
  | frame connection draw frame =>
      have isDefault : m = "default" := beq_iff_eq.mp isHidden
      have handles : forall connections handled,
          service.AlikeOff m { service with connections, handled } := by
        intro connections handled
        exact ⟨alikeOff_refl m _, fun _ _ => rfl, fun served => absurd isDefault served,
          fun served => absurd isDefault served, fun served => absurd isDefault served⟩
      simp only [Service.step, onFrame]
      split
      · rw [← isDefault]
        exact (alikeOff_equivalence m).trans (handles _ _) (submit_unnoticed _ _ m)
      · exact ⟨alikeOff_refl m _, fun _ _ => rfl, fun served => absurd isDefault served,
          fun served => absurd isDefault served, fun served => absurd isDefault served⟩
      · exact handles _ _
      · exact handles _ _
      · exact handles _ _
  | advance ns index moments =>
      have isName : ns = m := beq_iff_eq.mp isHidden
      subst isName
      simp only [Service.step]
      cases isCall : (service.calls ns)[index]? with
      | none => exact (alikeOff_equivalence ns).refl service
      | some call =>
          have isOf := sound.calls ns call (List.mem_of_getElem? isCall)
          have unnoticed := @Call.advance_unnoticed P ns moments call (apart.1 rfl) isOf service.engine
          rcases @Call.advance_extends P ns moments call isOf service.engine with ⟨more, longer⟩
          refine ⟨unnoticed, ?_, fun _ => rfl, fun _ => rfl, ?_⟩
          · intro name different
            simp only [Function.update_of_ne different]
          · intro served
            have nothing := unnoticed.events
            rw [longer, eventsOff_append, List.self_eq_append_right] at nothing
            dsimp only
            rw [longer, map_view_append sound.positions, nothing]
            simp only [List.append_nil, Prod.mk.eta, List.map_id']
  | receive index =>
      simp only [Service.step]
      cases isSubscription : service.subscriptions[index]? with
      | none => exact (alikeOff_equivalence m).refl service
      | some subscription =>
          refine ⟨alikeOff_refl m _, fun _ _ => rfl, fun _ => rfl, fun _ => rfl, ?_⟩
          intro served
          rw [hidden, nextEvent, isSubscription, Bool.or_eq_true] at isHidden
          rcases isHidden with isDefault | isNext
          · exact absurd (beq_iff_eq.mp isDefault) served
          · rcases (Option.any_eq_true _ _).mp isNext with ⟨event, found, isName⟩
            exact (map_set_view isSubscription (Subscription.receive_unnoticed
              (apart served subscription isSubscription) found (beq_iff_eq.mp isName))).symm

/-- Lists with the same views have the same view at an index. -/
theorem getElem?_alike {α β : Type} {left right : α -> β} {list others : List α}
    (same : list.map left = others.map right) (index : Nat) :
    (list[index]? = none ∧ others[index]? = none) ∨
      Exists fun element => Exists fun other =>
        list[index]? = some element ∧ others[index]? = some other ∧ left element = right other := by
  have here : (list.map left)[index]? = (others.map right)[index]? := by rw [same]
  rw [List.getElem?_map, List.getElem?_map] at here
  cases isElement : list[index]? with
  | none =>
      rw [isElement] at here
      exact Or.inl ⟨rfl, Option.map_eq_none_iff.mp here.symm⟩
  | some element =>
      rw [isElement] at here
      rcases Option.map_eq_some_iff.mp here.symm with ⟨other, isOther, isSame⟩
      exact Or.inr ⟨element, other, rfl, isOther, isSame.symm⟩

/-- A frame does the same on both sides. -/
theorem onFrame_together (alike : first.AlikeOff m second) (served : m ≠ "default")
    (connection : Nat) (draw : Draw) (frame : NvpFrame) :
    (onFrame json T config connection draw frame first).AlikeOff m
      (onFrame json T config connection draw frame second) := by
  have handles : forall connections handled,
      AlikeOff m { first with connections := connections, handled := first.handled ++ handled }
        { second with connections := connections, handled := second.handled ++ handled } := by
    intro connections handled
    exact ⟨alike.engine, alike.calls, fun _ => rfl, fun _ => by rw [alike.handled served],
      alike.subscriptions⟩
  simp only [onFrame, ← alike.connections served]
  split
  · exact (handles _ _).submit _
  · refine ⟨alike.engine, alike.calls, fun _ => rfl, fun _ => by rw [alike.handled served], ?_⟩
    intro _
    dsimp only
    rw [List.map_append, List.map_append, alike.subscriptions served, List.map_singleton,
      List.map_singleton, Subscription.view, Subscription.view, List.drop_length, List.drop_length]
  · exact handles _ _
  · exact handles _ _
  · exact handles _ _

/-- A step of a statement of another namespace, on both sides. -/
theorem advance_together (alike : first.AlikeOff m second) (soundFirst : first.Sound)
    (soundSecond : second.Sound) {ns : String} (different : ns ≠ m) {index : Nat}
    {moments others : Nat -> Moment} (same : SameMoments moments others)
    (apart : KeepsApart P m first (.advance ns index moments))
    (apartToo : KeepsApart P m second (.advance ns index others)) :
    (step P json T fromStr config (.advance ns index moments) first).AlikeOff m
      (step P json T fromStr config (.advance ns index others) second) := by
  rcases apart.2 different with ⟨steady, room⟩
  rcases apartToo.2 different with ⟨steadyToo, roomToo⟩
  simp only [Service.step]
  rcases getElem?_alike (alike.calls ns different) index with
    ⟨none, noneToo⟩ | ⟨call, other, isCall, isOther, sameCall⟩
  · rw [none, noneToo]
    exact alike
  · rw [isCall, isOther]
    have isOf := soundFirst.calls ns call (List.mem_of_getElem? isCall)
    have isOfToo := soundSecond.calls ns other (List.mem_of_getElem? isOther)
    rcases Call.advance_together alike.engine different same steady steadyToo isOf sameCall
      (room call isCall) (roomToo other isOther) with ⟨engines, calls⟩
    rcases @Call.advance_extends P ns moments call isOf first.engine with ⟨more, longer⟩
    rcases @Call.advance_extends P ns others other isOfToo second.engine with ⟨moreToo, longerToo⟩
    refine ⟨engines, ?_, alike.connections, alike.handled, ?_⟩
    · intro name apartName
      by_cases here : name = ns
      · subst here
        simp only [Function.update_self]
        rw [List.map_set, List.map_set, calls, alike.calls name different]
      · simp only [Function.update_of_ne here]
        exact alike.calls name apartName
    · intro served
      have published := engines.events
      rw [longer, longerToo, eventsOff_append, eventsOff_append, alike.engine.events,
        List.append_cancel_left_eq] at published
      dsimp only
      rw [longer, longerToo, map_view_append soundFirst.positions,
        map_view_append soundSecond.positions, alike.subscriptions served, published]

/-- An event of another namespace is taken alike on both sides. -/
theorem receive_together (encodes : EncodesAlike json) (alike : first.AlikeOff m second)
    (served : m ≠ "default") {index : Nat} (apart : KeepsApart P m first (.receive index))
    (apartToo : KeepsApart P m second (.receive index))
    (shown : hidden fromStr m first (.receive index) = false)
    (shownToo : hidden fromStr m second (.receive index) = false) :
    (step P json T fromStr config (.receive index) first).AlikeOff m
      (step P json T fromStr config (.receive index) second) := by
  simp only [Service.step]
  rcases getElem?_alike (alike.subscriptions served) index with
    ⟨none, noneToo⟩ | ⟨subscription, twin, isSubscription, isTwin, sameView⟩
  · rw [none, noneToo]
    exact alike
  · have other : forall {service : Service} {subscription : Subscription},
        service.subscriptions[index]? = some subscription ->
          hidden fromStr m service (.receive index) = false ->
            forall event, subscription.next service.engine.events = some event ->
              event.namespaceName ≠ m := by
      intro service subscription here visible event isNext
      rw [hidden, nextEvent, here, Bool.or_eq_false_iff] at visible
      exact beq_eq_false_iff_ne.mp ((Option.any_eq_false _ _).mp visible.2 event isNext)
    rw [isSubscription, isTwin]
    refine ⟨alike.engine, alike.calls, alike.connections, alike.handled, fun _ => ?_⟩
    dsimp only
    rw [List.map_set, List.map_set, alike.subscriptions served,
      Subscription.receive_together encodes sameView (apart served subscription isSubscription)
        (apartToo served twin isTwin) (other isSubscription shown) (other isTwin shownToo)]

/-- The same turn of other namespaces, on both sides. -/
theorem step_together (encodes : EncodesAlike json) (alike : first.AlikeOff m second)
    (soundFirst : first.Sound) (soundSecond : second.Sound) {turn other : ServiceTurn}
    (apart : KeepsApart P m first turn) (apartToo : KeepsApart P m second other)
    (shown : hidden fromStr m first turn = false)
    (shownToo : hidden fromStr m second other = false) (same : untimed turn = untimed other) :
    (step P json T fromStr config turn first).AlikeOff m
      (step P json T fromStr config other second) := by
  cases turn with
  | request moment bytes =>
      cases other with
      | request momentToo bytesToo =>
          cases same
          exact alike.submitAll _
      | frame | advance | receive => cases same
  | frame connection draw frame =>
      cases other with
      | frame =>
          cases same
          exact onFrame_together alike (beq_eq_false_iff_ne.mp shown) connection draw frame
      | request | advance | receive => cases same
  | advance ns index moments =>
      cases other with
      | advance name indexToo others =>
          simp only [untimed, ServiceTurn.advance.injEq] at same
          rcases same with ⟨rfl, rfl, sameMoments⟩
          exact advance_together alike soundFirst soundSecond (beq_eq_false_iff_ne.mp shown)
            (congrFun sameMoments) apart apartToo
      | request | frame | receive => cases same
  | receive index =>
      cases other with
      | receive indexToo =>
          cases same
          have served : m ≠ "default" := by
            rw [hidden, Bool.or_eq_false_iff] at shown
            exact beq_eq_false_iff_ne.mp shown.1
          exact receive_together encodes alike served apart apartToo shown shownToo
      | request | frame | advance => cases same

/-- The turns of a run unwind. -/
theorem unwinds (encodes : EncodesAlike json) (m : String) :
    Unwinding.Unwinds (step P json T fromStr config) (hidden fromStr m) untimed
      (KeepsApart P m) Sound (AlikeOff m) where
  equivalence := alikeOff_equivalence m
  keeps _ turn _ sound := sound.step turn
  unnoticed _ turn apart sound isHidden := step_unnoticed sound turn apart isHidden
  together _ _ _ _ apart apartToo sound soundToo shown shownToo same alike :=
    step_together encodes alike sound soundToo apart apartToo shown shownToo same

end Turns

end Service

/-! ## What clients see -/

/-- The client of a subscription, its id and the events it was sent, up to their numbers
and times. -/
def Subscription.sent (subscription : Subscription) : Nat × UInt64 × List DataEvent :=
  (subscription.connection, subscription.watcher.subId,
    subscription.delivered.map DataEvent.unnumbered)

namespace Service

/-- The clients of all namespaces but one see the same: the answers to their statements,
and those of the binary protocol, which are in the namespace `default`, what their
frames were handled as and what their subscriptions were sent. -/
structure SeesSame (m : String) (first second : Service) : Prop where
  answers : forall ns, ns ≠ m ->
    (first.calls ns).map Call.answer = (second.calls ns).map Call.answer
  handled : m ≠ "default" -> first.handled = second.handled
  sent : m ≠ "default" ->
    first.subscriptions.map Subscription.sent = second.subscriptions.map Subscription.sent

theorem AlikeOff.seesSame {m : String} {first second : Service} (alike : first.AlikeOff m second) :
    SeesSame m first second := by
  refine ⟨?_, alike.handled, ?_⟩
  · intro ns different
    have answers : forall calls : List Call,
        calls.map Call.answer = (calls.map Call.unnumbered).map Call.answer := by
      intro calls
      rw [List.map_map]
      exact List.map_congr_left (fun call _ => call.answer_unnumbered.symm)
    rw [answers (first.calls ns), answers (second.calls ns), alike.calls ns different]
  · intro served
    have views : forall (events : List DataEvent) (subscriptions : List Subscription),
        subscriptions.map Subscription.sent =
          (subscriptions.map (Subscription.view m events)).map (fun view =>
            (view.1.connection, view.1.watcher.subId, view.1.delivered)) := by
      intro events subscriptions
      rw [List.map_map]
      rfl
    rw [views first.engine.events, views second.engine.events, alike.subscriptions served]

theorem sound_start (config : ServerConfig) (engine : DatabaseEngine) :
    (start config engine).Sound :=
  ⟨fun _ _ => nofun, fun _ => nofun⟩

/-- Two runs whose turns all keep the namespace apart, and that differ only in turns of
the namespace, show the same to the clients of all other namespaces.  Whether an event
can be written does not depend on its number and time.  -/
theorem namespaces_isolated {Number : Type} (P : Platform) {json : PayloadJson} (T : TextTables)
    (fromStr : String -> Option (JsonValue Number)) (config : ServerConfig)
    (encodes : EncodesAlike json) (m : String) (engine : DatabaseEngine)
    (turns others : List ServiceTurn)
    (apart : Run.Along (step P json T fromStr config) (KeepsApart P m) (start config engine) turns)
    (apartToo : Run.Along (step P json T fromStr config) (KeepsApart P m) (start config engine)
      others)
    (same : Unwinding.visible (step P json T fromStr config) (hidden fromStr m) untimed
        (start config engine) turns =
      Unwinding.visible (step P json T fromStr config) (hidden fromStr m) untimed
        (start config engine) others) :
    SeesSame m (Run.last (step P json T fromStr config) (start config engine) turns)
      (Run.last (step P json T fromStr config) (start config engine) others) := by
  have started := sound_start config engine
  have unwound := @unwinds _ P json T fromStr config encodes m
  exact (unwound.last_alike apart apartToo started started same
    ((alikeOff_equivalence m).refl _)).seesSame

/-! ## Another namespace's INSERT -/

/-- An INSERT of a document into a collection of the namespace `m`, as a web request. -/
def tenantBody (coll : String) : String :=
  "\x7b\"query\":\"INSERT INTO " ++ coll ++ " VALUES \x7bid: 'a'\x7d\",\"namespace\":\"m\"\x7d"

def tenantRequest (coll : String) : List UInt8 :=
  utf8Bytes ("POST /api/query HTTP/1.1\r\n\r\n" ++ tenantBody coll)

/-- `serde_json::from_str` on the bodies for two collections. -/
def tenantFromStr (text : String) : Option (JsonValue Nat) :=
  (["users", "orders"].find? (fun coll => tenantBody coll = text)).map fun coll =>
    .object [("query", .string ("INSERT INTO " ++ coll ++ " VALUES \x7bid: 'a'\x7d")),
      ("namespace", .string "m")]

/-- A client watches the collection `users` of the namespace `default`. -/
def watchTurn : ServiceTurn :=
  .frame 0 sampleDraw (requestFrame 1 (.watch "WATCH users"))

/-- Then the document is inserted, in five steps. -/
def tenantTurns (coll : String) : List ServiceTurn :=
  [watchTurn, .request ⟨fun _ => sampleDraw, true, 0⟩ (tenantRequest coll),
    .advance "m" 0 quietMoments, .advance "m" 0 quietMoments, .advance "m" 0 quietMoments,
    .advance "m" 0 quietMoments, .advance "m" 0 quietMoments]

def tenantStep : ServiceTurn -> Service -> Service :=
  step samplePlatform watchJson referenceTables tenantFromStr openConfig

def tenantStart : Service :=
  start openConfig (emptyEngine 4096)

/-- Only the WATCH is seen from outside of the namespace. -/
theorem visible_tenantTurns {coll : String}
    (named : httpNamespace tenantFromStr (tenantRequest coll) = some "m")
    (taken : hidden tenantFromStr "m" (Run.last tenantStep tenantStart (tenantTurns coll))
      (.receive 0) = true) :
    Unwinding.visible tenantStep (hidden tenantFromStr "m") untimed tenantStart
        (tenantTurns coll ++ [.receive 0]) =
      Unwinding.visible tenantStep (hidden tenantFromStr "m") untimed tenantStart [watchTurn] := by
  have isRequest : forall service, hidden tenantFromStr "m" service
      (.request ⟨fun _ => sampleDraw, true, 0⟩ (tenantRequest coll)) = true := by
    intro service
    rw [hidden, named]
    decide
  have isStep : forall service,
      hidden tenantFromStr "m" service (.advance "m" 0 quietMoments) = true :=
    fun _ => beq_self_eq_true "m"
  have isWatch : hidden tenantFromStr "m" tenantStart watchTurn = false := by
    rw [watchTurn, hidden]
    decide
  rw [Unwinding.visible_append, Unwinding.visible_hidden taken, tenantTurns,
    Unwinding.visible_shown isWatch, Unwinding.visible_shown isWatch,
    Unwinding.visible_hidden (isRequest _), Unwinding.visible_hidden (isStep _),
    Unwinding.visible_hidden (isStep _), Unwinding.visible_hidden (isStep _),
    Unwinding.visible_hidden (isStep _), Unwinding.visible_hidden (isStep _)]
  rfl

/-- The event has a JSON text. -/
def hasText (event : DataEvent) : Bool :=
  match Session.imageText event.before, Session.imageText event.after, event.txId with
  | some _, some _, none => true
  | _, _, _ => false

theorem encodesAlike_watchJson : EncodesAlike watchJson := by
  have encoded : forall event, (eventToBytes watchJson event).toOption.isSome = hasText event := by
    intro event
    change ((Session.eventText event).mapError _).toOption.isSome = _
    unfold Session.eventText hasText
    generalize Session.imageText event.before = front
    generalize Session.imageText event.after = back
    cases front with
    | none => rfl
    | some before =>
        cases back with
        | none => rfl
        | some after => cases event.txId <;> rfl
  intro event other same
  rw [encoded, encoded]
  change hasText event.unnumbered = hasText other.unnumbered
  rw [same]

/-- The subscription has taken no event, and the only one is about another collection. -/
theorem keepsApart_of_other {service : Service} {watched : String}
    (shows : service.subscriptions.map (fun subscription =>
      (subscription.watcher.collection, subscription.position)) = [(watched, 0)])
    (published : Exists fun event => service.engine.events = [event] ∧
      event.collection ≠ watched) (P : Platform) (m : String) :
    KeepsApart P m service (.receive 0) := by
  intro served subscription isSubscription
  rcases published with ⟨event, isEvent, different⟩
  have isShown : (service.subscriptions.map (fun subscription =>
      (subscription.watcher.collection, subscription.position)))[0]? =
        some (subscription.watcher.collection, subscription.position) := by
    rw [List.getElem?_map, isSubscription, Option.map_some]
  rw [shows] at isShown
  rcases Prod.mk.inj (Option.some.inj isShown) with ⟨isWatched, isPosition⟩
  rw [isEvent]
  refine ⟨?_, ?_⟩
  · intro lags
    have many : eventCapacity < 1 - subscription.position := lags
    rw [← isPosition] at many
    exact absurd many (by decide)
  · intro next isNext _ watches
    have isFirst : [event][0]? = some next := by
      rw [isPosition]
      exact isNext
    rw [← isWatched, ← Option.some.inj isFirst] at watches
    exact absurd watches different

/-- Another collection: the watcher is sent nothing. -/
theorem namespaces_isolated_sample :
    SeesSame "m" (Run.last tenantStep tenantStart (tenantTurns "orders" ++ [.receive 0]))
      (Run.last tenantStep tenantStart [watchTurn]) := by
  refine namespaces_isolated samplePlatform referenceTables tenantFromStr openConfig
    encodesAlike_watchJson "m" (emptyEngine 4096) _ _ ?_ ⟨trivial, trivial⟩
      (@visible_tenantTurns "orders" (by decide +kernel) (by decide +kernel))
  have survived : Survived quietMoments := fun _ => nofun
  have steps : forall service,
      KeepsApart samplePlatform "m" service (.advance "m" 0 quietMoments) :=
    fun _ => ⟨fun _ => survived, fun different => absurd rfl different⟩
  have shows : (Run.last tenantStep tenantStart (tenantTurns "orders")).subscriptions.map
      (fun subscription => (subscription.watcher.collection, subscription.position)) =
        [("users", 0)] := by
    decide +kernel
  have collections : (Run.last tenantStep tenantStart (tenantTurns "orders")).engine.events.map
      DataEvent.collection = ["orders"] := by
    decide +kernel
  rcases List.map_eq_singleton_iff.mp collections with ⟨event, isEvent, isOrders⟩
  have last := @keepsApart_of_other _ "users" shows
    ⟨event, isEvent, by rw [isOrders]; decide⟩ samplePlatform "m"
  exact Run.along_append.mpr ⟨⟨trivial, trivial, steps _, steps _, steps _, steps _, steps _, trivial⟩,
    last, trivial⟩

/-- The watched collection of the other namespace: the document goes to the watcher. -/
theorem watch_crosses_namespaces :
    ¬ forall turns others,
      Unwinding.visible tenantStep (hidden tenantFromStr "m") untimed tenantStart turns =
          Unwinding.visible tenantStep (hidden tenantFromStr "m") untimed tenantStart others ->
        SeesSame "m" (Run.last tenantStep tenantStart turns)
          (Run.last tenantStep tenantStart others) := by
  intro isolated
  have same := @visible_tenantTurns "users" (by decide +kernel) (by decide +kernel)
  have sent := (isolated _ _ same).sent (by decide)
  have counts := congrArg (List.map fun seen => seen.2.2.length) sent
  have leaked : (((Run.last tenantStep tenantStart (tenantTurns "users" ++ [.receive 0])).subscriptions.map
      Subscription.sent).map fun seen => seen.2.2.length) = [1] := by
    decide +kernel
  have silent : (((Run.last tenantStep tenantStart [watchTurn]).subscriptions.map
      Subscription.sent).map fun seen => seen.2.2.length) = [0] := by
    decide +kernel
  rw [leaked, silent] at counts
  exact absurd counts (by decide)

end Service

end Server
end NovaDb
