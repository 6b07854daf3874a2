import Mathlib
import NovaDb.Foundation.Runs
import NovaDb.Protocol.Payload

namespace NovaDb
namespace Client

open Core Foundation Protocol Server

/-!
# The client

All clones of a `NovaClient` share a counter for request ids, a map of reply
senders, a map of event senders and the channel to the write task.  A call draws
an id, registers the sender of its oneshot channel under it, dispatches a frame and
waits; the read task takes a sender out of the map and sends the reply.  Steps of
different calls and of the two tasks interleave between these points.

A call is named by its number.  The maps hold for an id the number of the call
whose receiver belongs to the sender.  A sender that is replaced in the map is
dropped, which its receiver sees.
-/

inductive CallKind where
  | sendRequest (payload : RequestPayload)
  | registerWatch (nql : String)

/-- What a call returns: the payload, or the event stream of a watch. -/
inductive Returned where
  | payload (response : ResponsePayload)
  | stream

/-- The oneshot channel of a call. -/
inductive Oneshot where
  | empty
  | value (result : Except NovaError ResponsePayload)
  | closed

/-- How far a call has come. -/
inductive Phase where
  | drawn
  | listening
  | registered (frame : NvpFrame)
  | awaiting
  | returned (result : Except NovaError Returned)

structure Call where
  kind : CallKind
  reqId : UInt64
  phase : Phase
  reply : Oneshot

namespace CallKind

def request : CallKind -> RequestPayload
  | .sendRequest payload => payload
  | .registerWatch nql => .watch nql

/-- The end of a call: what the channel gave, or nothing when it was closed. -/
def conclude (json : PayloadJson) (reply : Option (Except NovaError ResponsePayload)) :
    CallKind -> Except NovaError Returned
  | .sendRequest _ =>
      match reply with
      | some result => result.map Returned.payload
      | none => .error (NovaError.protocol "Server dropped connection before replying")
  | .registerWatch _ =>
      match reply with
      | some (.ok (.watchAck _)) => .ok .stream
      | some (.ok other) =>
          .error (NovaError.protocol ("Unexpected watch response: " ++ json.debug other))
      | some (.error failure) => .error failure
      | none => .error (NovaError.protocol "Server closed before acknowledging WATCH")

/-- The message of a call that finds the write task gone. -/
def undispatched : CallKind -> NovaError
  | .sendRequest _ => NovaError.protocol "Failed to dispatch request: channel closed"
  | .registerWatch _ => NovaError.protocol "Failed to send watch: channel closed"

end CallKind

namespace Call

/-- The sender of the channel is dropped. -/
def dropSender (call : Call) : Call :=
  match call.reply with
  | .empty => { call with reply := .closed }
  | _ => call

/-- The call has registered and nothing has come for it. -/
def waits (call : Call) : Bool :=
  match call.phase, call.reply with
  | .registered _, .empty => true
  | .awaiting, .empty => true
  | _, _ => false

/-- The call puts its sender into the map in its next step. -/
def registersNext (json : PayloadJson) (call : Call) : Bool :=
  match call.phase, call.kind with
  | .drawn, .sendRequest payload => (payload.toBytes json).isOk
  | .listening, kind => (kind.request.toBytes json).isOk
  | _, _ => false

section Waiting

variable {call : Call}

theorem waits_dropSender (call : Call) : call.dropSender.waits = false := by
  cases call with
  | mk kind reqId phase reply => cases reply <;> cases phase <;> rfl

theorem waits_answered (call : Call) (result : Except NovaError ResponsePayload) :
    ({ call with reply := .value result } : Call).waits = false := by
  unfold waits
  cases call.phase <;> rfl

theorem waits_dispatched {frame : NvpFrame} (isRegistered : call.phase = .registered frame) :
    ({ call with phase := .awaiting } : Call).waits = call.waits := by
  unfold waits
  rw [isRegistered]
  cases call.reply <;> rfl

theorem not_waits_of_phase (unregistered : call.phase = .drawn ∨ call.phase = .listening) :
    call.waits = false := by
  unfold waits
  rcases unregistered with isPhase | isPhase
  · rw [isPhase]
  · rw [isPhase]

theorem not_waits_of_value {result : Except NovaError ResponsePayload}
    (received : call.reply = .value result) : call.waits = false := by
  unfold waits
  rw [received]
  cases call.phase <;> rfl

theorem phase_of_registersNext {json : PayloadJson} (registers : call.registersNext json = true) :
    call.phase = .drawn ∨ call.phase = .listening := by
  unfold registersNext at registers
  split at registers
  · rename_i isDrawn _
    exact Or.inl isDrawn
  · rename_i isListening
    exact Or.inr isListening
  · cases registers

end Waiting

end Call

/-- How the read task ends: at the end of the stream or with a framing error. -/
inductive ReadEnd where
  | endOfStream
  | framing (failure : InvalidData)

/-- The client's shared state and the calls made on it, with what the read task has
done, oldest first: the replies it gave to calls, and the events it handed to their
streams. -/
structure NovaClient where
  nextReqId : UInt64
  pending : AList (fun _ : UInt64 => Nat)
  watchers : AList (fun _ : UInt64 => Nat)
  calls : List Call
  queue : List NvpFrame
  writing : Bool
  reading : Bool
  delivered : List (Nat × NvpFrame)
  handed : List (Nat × NvpFrame)

/-- The steps of the calls and of the two tasks. -/
inductive Action where
  | call (kind : CallKind)
  | advance (index : Nat)
  | write
  | writeEnds
  | frame (frame : NvpFrame)
  | readEnds (reason : ReadEnd)

/-- The reply that a frame carries. -/
def decodeReply (json : PayloadJson) (frame : NvpFrame) :
    Option (Except NovaError ResponsePayload) :=
  match frame.frameType with
  | .response => some (ResponsePayload.fromBytes json frame.payload)
  | .error =>
      match ResponsePayload.fromBytes json frame.payload with
      | .ok (.error failure) => some (.error failure)
      | .ok _ => some (.error (NovaError.protocol "Unknown error format"))
      | .error failure => some (.error failure)
  | .pong => some (.ok .pong)
  | .request | .event | .ping => none

namespace NovaClient

/-- A client that has connected. -/
def connected : NovaClient where
  nextReqId := 1
  pending := ∅
  watchers := ∅
  calls := []
  queue := []
  writing := true
  reading := true
  delivered := []
  handed := []

/-! ## The steps of a call -/

/-- `fetch_add` on the counter. -/
def draw (kind : CallKind) (client : NovaClient) : NovaClient :=
  { client with
    nextReqId := client.nextReqId + 1
    calls := client.calls ++ [⟨kind, client.nextReqId, .drawn, .empty⟩] }

def move (index : Nat) (call : Call) (phase : Phase) (client : NovaClient) : NovaClient :=
  { client with calls := client.calls.set index { call with phase } }

/-- A watch puts the sender of its stream into the map. -/
def listen (index : Nat) (call : Call) (client : NovaClient) : NovaClient :=
  { client.move index call .listening with watchers := client.watchers.insert call.reqId index }

/-- The calls when the sender registered under an id is dropped. -/
def dropReplaced (reqId : UInt64) (client : NovaClient) : List Call :=
  match client.pending.lookup reqId with
  | none => client.calls
  | some other => client.calls.modify other Call.dropSender

/-- The frame is made and the reply sender goes into the map, where it may replace
another. -/
def register (json : PayloadJson) (index : Nat) (call : Call) (client : NovaClient) : NovaClient :=
  match call.kind.request.toBytes json with
  | .error failure => client.move index call (.returned (.error failure))
  | .ok bytes =>
      { client with
        pending := client.pending.insert call.reqId index
        calls := (client.dropReplaced call.reqId).set index
          { call with phase := .registered (NvpFrame.new .request call.reqId bytes) } }

/-- The frame goes into the channel to the write task when there is room; without
the task the call fails. -/
def dispatch (index : Nat) (call : Call) (frame : NvpFrame) (client : NovaClient) : NovaClient :=
  if client.writing then
    if client.queue.length < 512 then
      { client.move index call .awaiting with queue := client.queue ++ [frame] }
    else client
  else client.move index call (.returned (.error call.kind.undispatched))

/-- The call goes on when its channel has a value or is closed. -/
def conclude (json : PayloadJson) (index : Nat) (call : Call) (client : NovaClient) : NovaClient :=
  match call.reply with
  | .empty => client
  | .value result => client.move index call (.returned (call.kind.conclude json (some result)))
  | .closed => client.move index call (.returned (call.kind.conclude json none))

/-- The next step of a call. -/
def advance (json : PayloadJson) (index : Nat) (client : NovaClient) : NovaClient :=
  match client.calls[index]? with
  | none => client
  | some call =>
      match call.phase with
      | .drawn =>
          match call.kind with
          | .sendRequest _ => client.register json index call
          | .registerWatch _ => client.listen index call
      | .listening => client.register json index call
      | .registered frame => client.dispatch index call frame
      | .awaiting => client.conclude json index call
      | .returned _ => client

/-! ## The read task -/

/-- The sender of an id is taken out of the map and used. -/
def deliver (frame : NvpFrame) (result : Except NovaError ResponsePayload) (client : NovaClient) :
    NovaClient :=
  match client.pending.lookup frame.requestId with
  | none => client
  | some index =>
      { client with
        pending := client.pending.erase frame.requestId
        calls := client.calls.modify index (fun call => { call with reply := .value result })
        delivered := client.delivered ++ [(index, frame)] }

/-- An event goes to the stream that is registered under its id. -/
def hand (json : PayloadJson) (frame : NvpFrame) (client : NovaClient) : NovaClient :=
  match client.watchers.lookup frame.requestId with
  | none => client
  | some index =>
      match eventFromBytes json frame.payload with
      | .ok _ => { client with handed := client.handed ++ [(index, frame)] }
      | .error _ => client

/-- The read task on one frame. -/
def receive (json : PayloadJson) (frame : NvpFrame) (client : NovaClient) : NovaClient :=
  match frame.frameType with
  | .event => client.hand json frame
  | _ =>
      match decodeReply json frame with
      | some result => client.deliver frame result
      | none => client

def perform (json : PayloadJson) (action : Action) (client : NovaClient) : NovaClient :=
  match action with
  | .call kind => client.draw kind
  | .advance index => client.advance json index
  | .write => if client.writing then { client with queue := client.queue.tail } else client
  | .writeEnds => { client with writing := false }
  | .frame frame => if client.reading then client.receive json frame else client
  | .readEnds _ => { client with reading := false }

/-! ## What the steps of a call can do -/

/-- A step of a call that leaves the map of reply senders alone. -/
inductive Moves (json : PayloadJson) (client : NovaClient) (index : Nat) (call : Call) :
    NovaClient -> Prop where
  | rests : Moves json client index call client
  | listens {nql : String} (isDrawn : call.phase = .drawn) (isWatch : call.kind = .registerWatch nql) :
      Moves json client index call (client.listen index call)
  | fails {failure : NovaError} (unregistered : call.phase = .drawn ∨ call.phase = .listening)
      (unserialized : call.kind.request.toBytes json = .error failure) :
      Moves json client index call (client.move index call (.returned (.error failure)))
  | dispatches {frame : NvpFrame} (isRegistered : call.phase = .registered frame)
      (writes : client.writing = true) :
      Moves json client index call
        { client.move index call .awaiting with queue := client.queue ++ [frame] }
  | undispatched {frame : NvpFrame} (isRegistered : call.phase = .registered frame)
      (gone : client.writing = false) :
      Moves json client index call
        (client.move index call (.returned (.error call.kind.undispatched)))
  | concludes {reply : Option (Except NovaError ResponsePayload)} (isAwaiting : call.phase = .awaiting)
      (received : reply.elim (call.reply = .closed) (fun result => call.reply = .value result)) :
      Moves json client index call
        (client.move index call (.returned (call.kind.conclude json reply)))

/-- A step of a call registers it, or leaves the map alone. -/
theorem advance_cases {json : PayloadJson} {client : NovaClient} {index : Nat} {call : Call}
    (isCall : client.calls[index]? = some call) :
    (call.registersNext json = true ∧
      Exists fun bytes => call.kind.request.toBytes json = .ok bytes ∧
        client.advance json index = client.register json index call) ∨
    (call.registersNext json = false ∧ Moves json client index call (client.advance json index)) := by
  have registers : forall unregistered : call.phase = .drawn ∨ call.phase = .listening,
      call.registersNext json = (call.kind.request.toBytes json).isOk ->
      client.advance json index = client.register json index call ->
      (call.registersNext json = true ∧
        Exists fun bytes => call.kind.request.toBytes json = .ok bytes ∧
          client.advance json index = client.register json index call) ∨
      (call.registersNext json = false ∧
        Moves json client index call (client.advance json index)) := by
    intro unregistered next same
    cases serialized : call.kind.request.toBytes json with
    | ok bytes =>
        rw [serialized] at next
        exact Or.inl ⟨next, bytes, rfl, same⟩
    | error failure =>
        rw [serialized] at next
        refine Or.inr ⟨next, ?_⟩
        rw [same, register, serialized]
        exact .fails unregistered serialized
  cases isPhase : call.phase with
  | drawn =>
      cases isKind : call.kind with
      | sendRequest payload =>
          rw [← isKind]
          apply registers (Or.inl isPhase)
          · simp only [Call.registersNext, isPhase, isKind, CallKind.request]
          · simp only [advance, isCall, isPhase, isKind]
      | registerWatch nql =>
          refine Or.inr ⟨?_, ?_⟩
          · simp only [Call.registersNext, isPhase, isKind]
          · simp only [advance, isCall, isPhase, isKind]
            exact .listens isPhase isKind
  | listening =>
      apply registers (Or.inr isPhase)
      · simp only [Call.registersNext, isPhase]
      · simp only [advance, isCall, isPhase]
  | registered frame =>
      refine Or.inr ⟨?_, ?_⟩
      · simp only [Call.registersNext, isPhase]
      · simp only [advance, isCall, isPhase, dispatch]
        split
        · rename_i writes
          split
          · exact .dispatches isPhase writes
          · exact .rests
        · rename_i gone
          exact .undispatched isPhase (Bool.eq_false_of_not_eq_true gone)
  | awaiting =>
      refine Or.inr ⟨?_, ?_⟩
      · simp only [Call.registersNext, isPhase]
      · simp only [advance, isCall, isPhase, conclude]
        split
        · exact .rests
        · rename_i result received
          exact @Moves.concludes _ _ _ _ (some result) isPhase received
        · rename_i closed
          exact @Moves.concludes _ _ _ _ none isPhase closed
  | returned result =>
      refine Or.inr ⟨?_, ?_⟩
      · simp only [Call.registersNext, isPhase]
      · simp only [advance, isCall, isPhase]
        exact .rests

end NovaClient

end Client
end NovaDb
