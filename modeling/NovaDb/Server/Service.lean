import NovaDb.Server.Subscriptions
import NovaDb.Server.TenantStatements

namespace NovaDb
namespace Server

open Core Foundation Index Protocol Query Storage DatabaseEngine

/-!
# The server and its clients

Clients of the binary protocol work in the namespace `default` and may watch
collections; a web request names its namespace.  Statements of all clients advance
step by step in one engine, in any order, and each subscription takes the events of
all of them one by one.
-/

/-! ## Statements in progress -/

/-- A statement in the engine: a request that comes to its answer step by step, or a
statement of one step. -/
inductive Call where
  | staged (publisher : Publisher)
  | single (statement : Statement) (answer : Option (Outcome ResponsePayload))

namespace Call

def ofStatement (ns : String) (statement : Statement) : Call :=
  match requestOf ns statement with
  | some request => .staged ⟨⟨request, .waiting⟩, []⟩
  | none => .single statement none

/-- What the client is answered, once the statement is done. -/
def answer : Call -> Option (Outcome ResponsePayload)
  | .staged publisher =>
      match publisher.task.progress with
      | .answered outcome => some (outcome.mapError Stop.fault)
      | _ => none
  | .single _ answer => answer

/-- One step of a statement. -/
def advance (P : Platform) (moments : Nat -> Moment) (ns : String) (call : Call)
    (engine : DatabaseEngine) : DatabaseEngine × Call :=
  match call with
  | .staged ⟨⟨request, progress⟩, unsent⟩ =>
      let next := Publisher.advance P moments request progress unsent engine
      (next.1, .staged ⟨⟨request, next.2.1⟩, next.2.2⟩)
  | .single statement none =>
      let result := execute P moments statement ns engine
      (result.1, .single statement (some result.2))
  | .single statement (some answer) => (engine, .single statement (some answer))

/-- How many numbers the next step may take from the log's counter. -/
def mayIssue (engine : DatabaseEngine) : Call -> Nat
  | .staged publisher => publisher.task.mayIssue engine
  | .single _ _ => 0

/-- The statement is one of the namespace. -/
def Of (ns : String) : Call -> Prop
  | .staged publisher => publisher.task.request.namespaceName = ns
  | .single statement _ => requestOf ns statement = none

/-- A statement in progress, but for the numbers it was given. -/
def unnumbered : Call -> Call
  | .staged ⟨⟨request, progress⟩, unsent⟩ =>
      .staged ⟨⟨request, progress.unnumbered⟩, unsent.map Change.unnumbered⟩
  | .single statement answer => .single statement answer

theorem ofStatement_of (ns : String) (statement : Statement) : (ofStatement ns statement).Of ns := by
  unfold ofStatement
  split
  · rename_i request isRequest
    exact requestOf_namespaceName isRequest
  · rename_i single
    exact single

theorem answer_unnumbered (call : Call) : call.unnumbered.answer = call.answer := by
  rcases call with ⟨⟨⟨request, progress⟩, unsent⟩⟩ | ⟨statement, answer⟩
  · cases progress <;> rfl
  · rfl

end Call

/-! ## Subscriptions -/

/-- A subscription of a connection: how many events of the channel are behind it, those
it has sent to the client, and whether its task has died. -/
structure Subscription where
  connection : Nat
  watcher : Watcher
  position : Nat
  delivered : List DataEvent
  ended : Bool

namespace Subscription

/-- The next event of the channel, for a task that lives. -/
def next (events : List DataEvent) (subscription : Subscription) : Option DataEvent :=
  events[subscription.position]?

/-- The channel has overwritten events that the task has not taken. -/
def Lags (events : List DataEvent) (subscription : Subscription) : Prop :=
  eventCapacity < events.length - subscription.position

instance (events : List DataEvent) (subscription : Subscription) :
    Decidable (subscription.Lags events) :=
  inferInstanceAs (Decidable (_ < _))

/-- The WATCH task behind an event, which it has sent or passed over. -/
def took (event : DataEvent) (subscription : Subscription) :
    Outcome (Option NvpFrame) -> Subscription
  | .error _ => { subscription with ended := true }
  | .ok none => { subscription with position := subscription.position + 1 }
  | .ok (some _) =>
      { subscription with
        position := subscription.position + 1
        delivered := subscription.delivered ++ [event] }

/-- The WATCH task takes an event; one that lags behind goes on with the oldest event
that is still there. -/
def receive (P : Platform) (json : PayloadJson) (events : List DataEvent)
    (subscription : Subscription) : Subscription :=
  if subscription.ended then subscription
  else if subscription.Lags events then
    { subscription with position := events.length - eventCapacity }
  else
    match subscription.next events with
    | none => subscription
    | some event => subscription.took event (subscription.watcher.onEvent P json event)

end Subscription

/-! ## The machine -/

/-- The engine, the connections of the binary protocol with what their frames were
handled as, the statements of each namespace and the subscriptions. -/
structure Service where
  engine : DatabaseEngine
  connections : Nat -> ConnectionHandler
  handled : List (Nat × Handling)
  calls : String -> List Call
  subscriptions : List Subscription

/-- Who takes a turn: a web request or a frame comes in, a statement makes a step, or
a subscription takes an event. -/
inductive ServiceTurn where
  | request (moment : HttpMoment) (bytes : List UInt8)
  | frame (connection : Nat) (draw : Draw) (frame : NvpFrame)
  | advance (ns : String) (index : Nat) (moments : Nat -> Moment)
  | receive (index : Nat)

/-- The namespace of the statements of a web request. -/
def HttpAction.namespaceName : HttpAction -> Option String
  | .query _ ns => some ns
  | .seed => some "default"
  | .preflight | .studio | .status | .events | .notFound => none

namespace Service

def start (config : ServerConfig) (engine : DatabaseEngine) : Service where
  engine := engine
  connections := fun _ => ConnectionHandler.new config
  handled := []
  calls := fun _ => []
  subscriptions := []

/-- A statement reaches the engine. -/
def submit (service : Service) : EngineCall -> Service
  | .execute statement ns =>
      { service with
        calls := Function.update service.calls ns
          (service.calls ns ++ [Call.ofStatement ns statement]) }
  | .subscribeEvents => service

section Turns

variable {Number : Type} (P : Platform) (json : PayloadJson) (T : TextTables)
  (fromStr : String -> Option (JsonValue Number)) (config : ServerConfig)

def onFrame (connection : Nat) (draw : Draw) (frame : NvpFrame) (service : Service) : Service :=
  let handled := (service.connections connection).handleFrame json T config draw frame
  let answered :=
    { service with
      connections := Function.update service.connections connection handled.1
      handled := service.handled ++ [(connection, handled.2)] }
  match handled.2 with
  | .executes _ statement => answered.submit (.execute statement "default")
  | .watches watcher =>
      { answered with
        subscriptions := answered.subscriptions ++
          [⟨connection, watcher, answered.engine.events.length, [], false⟩] }
  | .replied _ | .answered _ _ | .panicked => answered

/-- One turn. -/
def step (turn : ServiceTurn) (service : Service) : Service :=
  match turn with
  | .request moment bytes => (httpCalls fromStr T moment bytes).foldl submit service
  | .frame connection draw frame => onFrame json T config connection draw frame service
  | .advance ns index moments =>
      match (service.calls ns)[index]? with
      | none => service
      | some call =>
          let next := call.advance P moments ns service.engine
          { service with
            engine := next.1
            calls := Function.update service.calls ns ((service.calls ns).set index next.2) }
  | .receive index =>
      match service.subscriptions[index]? with
      | none => service
      | some subscription =>
          { service with
            subscriptions := service.subscriptions.set index
              (subscription.receive P json service.engine.events) }

end Turns

end Service

end Server
end NovaDb
