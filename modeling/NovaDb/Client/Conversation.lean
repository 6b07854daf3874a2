import NovaDb.Client.NovaClient
import NovaDb.Server.Connection

namespace NovaDb
namespace Client

open Core Foundation Protocol Server Query

/-!
# A client and its server

One connection from end to end, as long as it does not fail: the client with its
calls, the socket in both directions, the server's reader loop, its WATCH tasks and
the channel to its write task.  The reader loop handles one frame at a time, and
while it does the WATCH tasks may put events into the channel.

What the engine returns for a statement and which events it broadcasts comes from
outside.  A frame too large for the codec and a panic of the reader loop are failures
of the connection; the steps that would meet them are not taken.

The socket is a list of frames in each direction: framing is exact, however the bytes
arrive.
-/

/-! ## What the server answers -/

/-- The payload or the error that the frame of a handling is about; only Ping and
Pong frames are not answered with one. -/
def answerOf (outcome : Outcome ResponsePayload) : Handling -> Option (Outcome ResponsePayload)
  | .answered _ answer => some (answer.mapError Fault.error)
  | .executes _ _ => some outcome
  | .watches watcher => some (.ok (.watchAck watcher.subId))
  | .panicked => some (.error (.panic ""))
  | .replied _ => none

/-- A payload that cannot be written is answered with the error of writing it. -/
def settle (json : PayloadJson) : Outcome ResponsePayload -> Option (Except NovaError ResponsePayload)
  | .ok payload => some ((payload.toBytes json).map (fun _ => payload))
  | .error (.error failure) => some (.error failure)
  | .error (.panic _) => none

/-- The payload of the frame of an answer. -/
def payloadOf : Except NovaError ResponsePayload -> ResponsePayload
  | .ok payload => payload
  | .error failure => .error failure

def frameTypeOf : Except NovaError ResponsePayload -> FrameType
  | .ok _ => .response
  | .error _ => .error

/-- A payload that is read as it was written. -/
def RoundTrips (json : PayloadJson) (payload : ResponsePayload) : Prop :=
  forall bytes, payload.toBytes json = .ok bytes -> ResponsePayload.fromBytes json bytes = .ok payload

/-- Every error can be written, which is all the reader loop relies on. -/
def WritesErrors (json : PayloadJson) : Prop :=
  forall failure, Exists fun bytes => (ResponsePayload.error failure).toBytes json = .ok bytes

/-- Every request can be written. -/
def WritesRequests (json : PayloadJson) : Prop :=
  forall payload : RequestPayload, Exists fun bytes => payload.toBytes json = .ok bytes

/-! ## The state -/

/-- A request and what the reader loop did with it. -/
structure Served where
  request : NvpFrame
  answer : Except NovaError ResponsePayload
  replies : List NvpFrame

/-- Both ends and the socket between them; then the frames the server has read, what
it did with each, what it put into its channel, and the frames other than events that
the client has read, all oldest first. -/
structure Conversation where
  client : NovaClient
  upstream : List NvpFrame
  handler : ConnectionHandler
  handling : Option (NvpFrame × Handling)
  watchers : List Watcher
  outgoing : List NvpFrame
  downstream : List NvpFrame
  read : List NvpFrame
  served : List Served
  enqueued : List NvpFrame
  received : List NvpFrame

inductive Move where
  | call (kind : CallKind)
  | advance (index : Nat)
  | clientWrites
  | serverReads (draw : Draw)
  | serverReplies (outcome : Outcome ResponsePayload)
  | watcherSends (turn : Nat) (event : DataEvent)
  | serverWrites
  | clientReads

/-- The task that a handling spawns. -/
def spawned : Handling -> List Watcher
  | .watches watcher => [watcher]
  | .replied _ | .answered _ _ | .executes _ _ | .panicked => []

def isEvent (frame : NvpFrame) : Bool :=
  decide (frame.frameType = .event)

/-- The frame fits into the codec. -/
def fits (frame : NvpFrame) : Bool :=
  decide (frame.payload.length ≤ maxFramePayloadSize)

namespace Conversation

def start (config : ServerConfig) : Conversation where
  client := NovaClient.connected
  upstream := []
  handler := ConnectionHandler.new config
  handling := none
  watchers := []
  outgoing := []
  downstream := []
  read := []
  served := []
  enqueued := []
  received := []

variable (P : Platform) (json : PayloadJson) (T : TextTables) (config : ServerConfig)

/-- The client's write task takes a frame from its channel to the socket. -/
def clientWrites (conversation : Conversation) : Conversation :=
  match conversation.client.queue with
  | [] => conversation
  | frame :: rest =>
      if fits frame then
        { conversation with
          client := { conversation.client with queue := rest }
          upstream := conversation.upstream ++ [frame] }
      else conversation

/-- The reader loop reads the next frame and handles it as far as the engine. -/
def serverReads (draw : Draw) (conversation : Conversation) : Conversation :=
  match conversation.handling, conversation.upstream with
  | none, frame :: rest =>
      let handled := conversation.handler.handleFrame json T config draw frame
      { conversation with
        upstream := rest
        handler := handled.1
        handling := some (frame, handled.2)
        watchers := conversation.watchers ++ spawned handled.2
        read := conversation.read ++ [frame] }
  | _, _ => conversation

/-- The engine has returned, and the reader loop puts its reply into the channel. -/
def serverReplies (outcome : Outcome ResponsePayload) (conversation : Conversation) :
    Conversation :=
  match conversation.handling with
  | none => conversation
  | some (frame, handling) =>
      match replies json frame.requestId (handling.finish json outcome) with
      | none => conversation
      | some frames =>
          if conversation.outgoing.length < 1024 then
            { conversation with
              handling := none
              outgoing := conversation.outgoing ++ frames
              served := conversation.served ++
                ((answerOf outcome handling).bind (settle json)).toList.map
                  (fun answer => ⟨frame, answer, frames⟩)
              enqueued := conversation.enqueued ++ frames }
          else conversation

/-- A WATCH task receives an event and passes it on if it matches. -/
def watcherSends (turn : Nat) (event : DataEvent) (conversation : Conversation) : Conversation :=
  match conversation.watchers[turn]? with
  | none => conversation
  | some watcher =>
      match watcher.onEvent P json event with
      | .ok (some frame) =>
          if conversation.outgoing.length < 1024 then
            { conversation with
              outgoing := conversation.outgoing ++ [frame]
              enqueued := conversation.enqueued ++ [frame] }
          else conversation
      | .ok none | .error _ => conversation

/-- The server's write task takes a frame from its channel to the socket. -/
def serverWrites (conversation : Conversation) : Conversation :=
  match conversation.outgoing with
  | [] => conversation
  | frame :: rest =>
      if fits frame then
        { conversation with
          outgoing := rest
          downstream := conversation.downstream ++ [frame] }
      else conversation

/-- The client's read task reads the next frame. -/
def clientReads (conversation : Conversation) : Conversation :=
  match conversation.downstream with
  | [] => conversation
  | frame :: rest =>
      { conversation with
        client := conversation.client.receive json frame
        downstream := rest
        received := conversation.received ++ if isEvent frame then [] else [frame] }

def perform (move : Move) (conversation : Conversation) : Conversation :=
  match move with
  | .call kind => { conversation with client := conversation.client.draw kind }
  | .advance index => { conversation with client := conversation.client.advance json index }
  | .clientWrites => conversation.clientWrites
  | .serverReads draw => conversation.serverReads json T config draw
  | .serverReplies outcome => conversation.serverReplies json outcome
  | .watcherSends turn event => conversation.watcherSends P json turn event
  | .serverWrites => conversation.serverWrites
  | .clientReads => conversation.clientReads json

end Conversation

end Client
end NovaDb
