import NovaDb.Protocol.Payload
import NovaDb.Query.WholeText

namespace NovaDb
namespace Server

open Core Protocol Query

/-!
# Connections

A connection handler keeps one flag, whether its client is authenticated, and
turns each frame of the client into at most one reply.  Handling a frame is cut
where it calls the engine: it has an answer, or it executes a statement, or it
subscribes to the events for a WATCH, and `finish` goes on with what the engine
returned.  Every answer becomes a frame in the same way, so what is answered is
kept apart from its bytes.
-/

/-- The part of the server's configuration that its listeners read. -/
structure ServerConfig where
  maxConnections : Nat
  authToken : Option String
  webPort : Option UInt16

/-- A call into the engine. -/
inductive EngineCall where
  | execute (statement : Statement) (ns : String)
  | subscribeEvents

/-- What a WATCH task holds. -/
structure Watcher where
  subId : UInt64
  collection : String
  filter : Option Expr

/-- A frame handled as far as the engine. -/
inductive Handling where
  | replied (reply : Option NvpFrame)
  | answered (reqId : UInt64) (answer : Except NovaError ResponsePayload)
  | executes (reqId : UInt64) (statement : Statement)
  | watches (watcher : Watcher)
  | panicked

/-- The `Debug` text of a frame type. -/
def debugFrameType : FrameType -> String
  | .request => "Request"
  | .response => "Response"
  | .event => "Event"
  | .error => "Error"
  | .ping => "Ping"
  | .pong => "Pong"

/-- Manages a single client connection. -/
structure ConnectionHandler where
  authenticated : Bool
  deriving DecidableEq, Repr

namespace ConnectionHandler

def new (config : ServerConfig) : ConnectionHandler where
  authenticated := !config.authToken.isSome

/-- `RequestPayload::Query` behind the check of the flag. -/
def query (T : TextTables) (draw : Draw) (reqId : UInt64) (nql : String) : Handling :=
  match parseNql T draw nql with
  | .ok (.watch collection filter) _ => .watches ⟨reqId, collection, filter⟩
  | .ok statement _ => .executes reqId statement
  | .error failure => .answered reqId (.error failure)
  | .panic | .outOfFuel => .panicked

/-- `RequestPayload::Watch` behind the check of the flag. -/
def watch (T : TextTables) (draw : Draw) (reqId : UInt64) (nql : String) : Handling :=
  match parseNql T draw nql with
  | .ok (.watch collection filter) _ => .watches ⟨reqId, collection, filter⟩
  | .ok _ _ => .answered reqId (.error (NovaError.invalidQuery "Expected WATCH statement"))
  | .error failure => .answered reqId (.error failure)
  | .panic | .outOfFuel => .panicked

/-- The requests that require authentication if enabled. -/
def guarded (handler : ConnectionHandler) (reqId : UInt64) (handling : Handling) : Handling :=
  if handler.authenticated then handling
  else .answered reqId (.error
    (NovaError.new .permissionDenied "Authentication required before issuing queries"))

def handleRequest (T : TextTables) (config : ServerConfig) (draw : Draw)
    (reqId : UInt64) (payload : RequestPayload) (handler : ConnectionHandler) :
    ConnectionHandler × Handling :=
  match payload with
  | .auth token =>
      match config.authToken with
      | some expected =>
          if token = expected then
            (⟨true⟩, .answered reqId (.ok (.success "Authentication successful" 0)))
          else
            (handler, .answered reqId (.error
              (NovaError.new .authenticationFailed "Invalid authentication token")))
      | none => (⟨true⟩, .answered reqId (.ok (.success "No authentication required" 0)))
  | .ping => (handler, .answered reqId (.ok .pong))
  | .query nql => (handler, handler.guarded reqId (query T draw reqId nql))
  | .watch nql => (handler, handler.guarded reqId (watch T draw reqId nql))
  | .unwatch _ => (handler, handler.guarded reqId (.answered reqId (.ok (.success "Unwatched" 1))))

def handleFrame (json : PayloadJson) (T : TextTables) (config : ServerConfig) (draw : Draw)
    (frame : NvpFrame) (handler : ConnectionHandler) : ConnectionHandler × Handling :=
  match frame.frameType with
  | .ping => (handler, .replied (some (NvpFrame.pong frame.requestId)))
  | .pong => (handler, .replied none)
  | .request =>
      match RequestPayload.fromBytes json frame.payload with
      | .error failure => (handler, .answered frame.requestId (.error failure))
      | .ok payload => handleRequest T config draw frame.requestId payload handler
  | other =>
      (handler, .answered frame.requestId (.error (NovaError.protocol
        ("Unexpected frame type " ++ debugFrameType other ++ " sent from client"))))

end ConnectionHandler

namespace Handling

/-- The calls into the engine. -/
def calls : Handling -> List EngineCall
  | .executes _ statement => [.execute statement "default"]
  | .watches _ => [.subscribeEvents]
  | .replied _ | .answered _ _ | .panicked => []

end Handling

/-- A response frame. -/
def respond (json : PayloadJson) (reqId : UInt64) (payload : ResponsePayload) :
    Except NovaError (Option NvpFrame) := do
  let bytes <- payload.toBytes json
  return some (NvpFrame.new .response reqId bytes)

/-- The result of `handle_frame`, from what the engine returned for the statement. -/
def Handling.finish (json : PayloadJson) (outcome : Outcome ResponsePayload) :
    Handling -> Outcome (Option NvpFrame)
  | .replied reply => .ok reply
  | .answered reqId answer => (answer >>= respond json reqId).mapError Fault.error
  | .executes reqId _ => do
      let payload <- outcome
      (respond json reqId payload).mapError Fault.error
  | .watches watcher =>
      (respond json watcher.subId (.watchAck watcher.subId)).mapError Fault.error
  | .panicked => .error (.panic "")

/-- What the reader loop puts into the outgoing channel; after a panic there is no
loop any more. -/
def replies (json : PayloadJson) (reqId : UInt64) :
    Outcome (Option NvpFrame) -> Option (List NvpFrame)
  | .ok reply => some reply.toList
  | .error (.error failure) =>
      match (ResponsePayload.error failure).toBytes json with
      | .ok bytes => some [NvpFrame.new .error reqId bytes]
      | .error _ => some []
  | .error (.panic _) => none

/-- The filter of a WATCH on the document after a change, or before it. -/
def Watcher.matchesEvent (P : Platform) (event : DataEvent) (watcher : Watcher) : Outcome Bool :=
  match event.after.or event.before with
  | some doc =>
      match Evaluator.matchesFilter P watcher.filter doc with
      | .ok matched => .ok matched
      | .error (.error _) => .ok false
      | .error (.panic message) => .error (.panic message)
  | none => .ok true

/-- A WATCH task on one event of the broadcast channel. -/
def Watcher.onEvent (P : Platform) (json : PayloadJson) (event : DataEvent) (watcher : Watcher) :
    Outcome (Option NvpFrame) :=
  if event.collection = watcher.collection then
    match watcher.matchesEvent P event with
    | .error fault => .error fault
    | .ok false => .ok none
    | .ok true => .ok ((eventToBytes json event).toOption.map (NvpFrame.new .event watcher.subId))
  else .ok none

/-- A WATCH task sends events, under the id of its subscription. -/
theorem onEvent_frame {P : Platform} {json : PayloadJson} {event : DataEvent} {watcher : Watcher}
    {frame : NvpFrame} (sends : watcher.onEvent P json event = .ok (some frame)) :
    frame.frameType = .event ∧ frame.requestId = watcher.subId := by
  unfold Watcher.onEvent at sends
  split at sends
  · split at sends
    · cases sends
    · cases sends
    · rcases Option.map_eq_some_iff.mp (Except.ok.inj sends) with ⟨bytes, _, rfl⟩
      exact ⟨rfl, rfl⟩
  · cases sends

end Server
end NovaDb
