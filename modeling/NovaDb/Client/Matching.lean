import NovaDb.Client.Bookkeeping
import NovaDb.Storage.ReferencePlatform

namespace NovaDb
namespace Client

open Core Foundation Protocol Server Query

/-!
# Requests and replies are matched

The frames a client sends are read in order and answered one by one; the answers come
back in the same order, between the events.  As long as no more calls are made than
there are request ids, every reply finds the call whose frame it answers.  After that
ids are used again, and a call may lose its sender to another.
-/

/-! ## What the reader loop replies -/

section Replies

variable {json : PayloadJson} {T : TextTables} {config : ServerConfig} {reqId : UInt64}

/-- The handling of a request with an id. -/
def IsFor (reqId : UInt64) : Handling -> Prop
  | .answered id _ => id = reqId
  | .executes id _ => id = reqId
  | .watches watcher => watcher.subId = reqId
  | .panicked => True
  | .replied _ => False

theorem isFor_guarded {handler : ConnectionHandler} {handling : Handling}
    (isFor : IsFor reqId handling) : IsFor reqId (handler.guarded reqId handling) := by
  unfold ConnectionHandler.guarded
  split
  · exact isFor
  · exact rfl

theorem isFor_query {draw : Draw} {nql : String} :
    IsFor reqId (ConnectionHandler.query T draw reqId nql) := by
  unfold ConnectionHandler.query
  split
  · exact rfl
  · exact rfl
  · exact rfl
  · exact trivial
  · exact trivial

theorem isFor_watch {draw : Draw} {nql : String} :
    IsFor reqId (ConnectionHandler.watch T draw reqId nql) := by
  unfold ConnectionHandler.watch
  split
  · exact rfl
  · exact rfl
  · exact rfl
  · exact trivial
  · exact trivial

theorem isFor_handleFrame {draw : Draw} {frame : NvpFrame} {handler : ConnectionHandler}
    (isRequest : frame.frameType = .request) :
    IsFor frame.requestId (handler.handleFrame json T config draw frame).2 := by
  simp only [ConnectionHandler.handleFrame, isRequest]
  split
  · exact rfl
  · rename_i payload _
    cases payload with
    | query nql => exact isFor_guarded isFor_query
    | watch nql => exact isFor_guarded isFor_watch
    | unwatch subscription => exact isFor_guarded rfl
    | ping => exact rfl
    | auth token =>
        simp only [ConnectionHandler.handleRequest]
        split
        · split
          · exact rfl
          · exact rfl
        · exact rfl

/-- The frames of an answer: one, unless its payload cannot be written. -/
def replyFrames (json : PayloadJson) (reqId : UInt64) (answer : Except NovaError ResponsePayload) :
    List NvpFrame :=
  ((payloadOf answer).toBytes json).toOption.toList.map (NvpFrame.new (frameTypeOf answer) reqId)

theorem replies_error (failure : NovaError) :
    replies json reqId (.error (.error failure)) =
      (settle json (.error (.error failure))).map (replyFrames json reqId) := by
  simp only [replies, settle, Option.map_some, replyFrames, payloadOf, frameTypeOf]
  cases (ResponsePayload.error failure).toBytes json with
  | error reason => rfl
  | ok bytes => rfl

theorem replies_respond (payload : ResponsePayload) :
    replies json reqId ((respond json reqId payload).mapError Fault.error) =
      (settle json (.ok payload)).map (replyFrames json reqId) := by
  cases written : payload.toBytes json with
  | ok bytes =>
      simp only [respond, written, settle, Except.map, Option.map_some, replyFrames, payloadOf,
        frameTypeOf]
      rfl
  | error failure =>
      have failed : (respond json reqId payload).mapError Fault.error = .error (.error failure) := by
        rw [respond, written]
        rfl
      rw [failed, replies_error, settle, settle, written]
      rfl

/-- The reader loop puts into the channel the frames of the answer. -/
theorem replies_finish {handling : Handling} (isFor : IsFor reqId handling)
    (outcome : Outcome ResponsePayload) :
    replies json reqId (handling.finish json outcome) =
      ((answerOf outcome handling).bind (settle json)).map (replyFrames json reqId) := by
  cases handling with
  | replied reply => exact isFor.elim
  | panicked => rfl
  | watches watcher =>
      cases isFor
      exact replies_respond _
  | executes id statement =>
      cases isFor
      cases outcome with
      | ok payload => exact replies_respond payload
      | error fault =>
          cases fault with
          | error failure => exact replies_error failure
          | panic message => rfl
  | answered id answer =>
      cases isFor
      cases answer with
      | ok payload => exact replies_respond payload
      | error failure => exact replies_error failure

/-- Under `WritesErrors` an answer that was settled can be written. -/
theorem settle_written (writesErrors : WritesErrors json) {outcome : Outcome ResponsePayload}
    {answer : Except NovaError ResponsePayload} (settled : settle json outcome = some answer) :
    Exists fun bytes => (payloadOf answer).toBytes json = .ok bytes := by
  cases outcome with
  | ok payload =>
      cases written : payload.toBytes json with
      | ok bytes =>
          rw [settle, written] at settled
          cases settled
          exact ⟨bytes, written⟩
      | error failure =>
          rw [settle, written] at settled
          cases settled
          exact writesErrors failure
  | error fault =>
      cases fault with
      | error failure =>
          rw [settle] at settled
          cases settled
          exact writesErrors failure
      | panic message =>
          rw [settle] at settled
          cases settled

/-- What is read back from the frame of an answer is the answer, if its payload is read
as it was written. -/
theorem decodeReply_answer {answer : Except NovaError ResponsePayload} {bytes : List UInt8}
    (written : (payloadOf answer).toBytes json = .ok bytes)
    (roundTrips : RoundTrips json (payloadOf answer)) :
    decodeReply json (NvpFrame.new (frameTypeOf answer) reqId bytes) = some answer := by
  have back := roundTrips bytes written
  cases answer with
  | ok payload => exact congrArg some back
  | error failure =>
      simp only [payloadOf] at back
      simp only [decodeReply, frameTypeOf, NvpFrame.new, back]

end Replies

/-! ## The frames of the calls -/

/-- The call has sent a frame. -/
def Call.Sent (json : PayloadJson) (frame : NvpFrame) (call : Call) : Prop :=
  call.dispatched = true ∧ call.frame json = some frame

theorem Call.frame_shape {json : PayloadJson} {call : Call} {frame : NvpFrame}
    (isFrame : call.frame json = some frame) :
    frame.requestId = call.reqId ∧ frame.frameType = .request := by
  rcases Option.map_eq_some_iff.mp isFrame with ⟨bytes, _, rfl⟩
  exact ⟨rfl, rfl⟩

/-- The frames sent are those of calls, no two under the same id. -/
structure Sending (json : PayloadJson) (calls : List Call) (sent : List NvpFrame) : Prop where
  sentBy : forall frame, frame ∈ sent ->
    Exists fun index : Nat => Exists fun call : Call => calls[index]? = some call ∧ call.Sent json frame
  apart : (sent.map NvpFrame.requestId).Nodup

namespace Sending

variable {json : PayloadJson} {calls : List Call} {sent : List NvpFrame} {index : Nat}
  {old new : Call}

theorem append (sending : Sending json calls sent) (added : Call) :
    Sending json (calls ++ [added]) sent where
  sentBy := by
    intro frame member
    rcases sending.sentBy frame member with ⟨index, sender⟩
    exact ⟨index, exists_append added sender⟩
  apart := sending.apart

theorem set (sending : Sending json calls sent) (isOld : calls[index]? = some old)
    (kept : forall frame, old.Sent json frame -> new.Sent json frame) :
    Sending json (calls.set index new) sent where
  sentBy := by
    intro frame member
    rcases sending.sentBy frame member with ⟨other, sender⟩
    exact ⟨other, exists_set isOld (kept frame) sender⟩
  apart := sending.apart

/-- A call that has not sent before sends its frame. -/
theorem concat (sending : Sending json calls sent) {call : Call} {frame : NvpFrame}
    (isCall : calls[index]? = some call) (sends : call.Sent json frame)
    (first : forall (other : Nat) (found : Call) earlier, calls[other]? = some found -> earlier ∈ sent ->
      found.Sent json earlier -> found.reqId ≠ call.reqId) :
    Sending json calls (sent ++ [frame]) where
  sentBy := by
    intro earlier member
    rcases List.mem_append.mp member with before | new
    · exact sending.sentBy earlier before
    · rw [List.mem_singleton] at new
      subst new
      exact ⟨index, call, isCall, sends⟩
  apart := by
    rw [List.map_append, List.map_singleton, ← List.concat_eq_append]
    refine List.Nodup.concat ?_ sending.apart
    intro member
    rcases List.mem_map.mp member with ⟨earlier, isEarlier, sameId⟩
    rcases sending.sentBy earlier isEarlier with ⟨other, found, isFound, hasSent⟩
    apply first other found earlier isFound isEarlier hasSent
    rw [← (Call.frame_shape hasSent.2).1, sameId, (Call.frame_shape sends.2).1]

end Sending

/-! ## The reader loop -/

/-- The entry is a request with the answer computed for it, and the one frame that
carries the answer under the same id. -/
structure Served.Answered (json : PayloadJson) (T : TextTables) (config : ServerConfig)
    (entry : Served) : Prop where
  computed : Exists fun handler : ConnectionHandler => Exists fun draw => Exists fun outcome =>
    (answerOf outcome (handler.handleFrame json T config draw entry.request).2).bind (settle json) =
      some entry.answer
  replied : Exists fun bytes => (payloadOf entry.answer).toBytes json = .ok bytes ∧
    entry.replies = [NvpFrame.new (frameTypeOf entry.answer) entry.request.requestId bytes]

/-- The frames read are the requests served, in their order, and the one in hand; the
frames put into the channel, but for events, are the replies in the same order. -/
structure Serving (json : PayloadJson) (T : TextTables) (config : ServerConfig)
    (read : List NvpFrame) (served : List Served) (handling : Option (NvpFrame × Handling))
    (enqueued : List NvpFrame) : Prop where
  reads : read = served.map Served.request ++ (handling.map Prod.fst).toList
  handles : forall frame state, handling = some (frame, state) ->
    Exists fun handler : ConnectionHandler => Exists fun draw =>
      state = (handler.handleFrame json T config draw frame).2
  answered : forall entry, entry ∈ served -> entry.Answered json T config
  replies : enqueued.filter (fun frame => !isEvent frame) = served.flatMap Served.replies

/-- The replies put into the channel are those the client has read and those on their
way, in this order, and what is delivered is a part of what was read. -/
structure Flowing (enqueued received underway : List NvpFrame) (delivered : List (Nat × NvpFrame)) :
    Prop where
  flows : enqueued.filter (fun frame => !isEvent frame) =
    received ++ underway.filter (fun frame => !isEvent frame)
  delivers : (delivered.map Prod.snd).Sublist received

section Steps

variable {json : PayloadJson} {T : TextTables} {config : ServerConfig}
  {read enqueued received underway : List NvpFrame} {served : List Served}
  {handling : Option (NvpFrame × Handling)} {delivered : List (Nat × NvpFrame)}

theorem Serving.take (serving : Serving json T config read served none enqueued) (draw : Draw)
    (frame : NvpFrame) (handler : ConnectionHandler) :
    Serving json T config (read ++ [frame]) served
      (some (frame, (handler.handleFrame json T config draw frame).2)) enqueued where
  reads := by
    rw [serving.reads]
    simp
  handles := by
    intro other state same
    cases same
    exact ⟨handler, draw, rfl⟩
  answered := serving.answered
  replies := serving.replies

theorem Serving.event (serving : Serving json T config read served handling enqueued)
    {frame : NvpFrame} (isEvent : frame.frameType = .event) :
    Serving json T config read served handling (enqueued ++ [frame]) where
  reads := serving.reads
  handles := serving.handles
  answered := serving.answered
  replies := by
    rw [List.filter_append, serving.replies]
    simp [Client.isEvent, isEvent]

/-- The reader loop finishes with a request. -/
theorem Serving.reply {frame : NvpFrame} {state : Handling} {entry : Served}
    (serving : Serving json T config read served (some (frame, state)) enqueued)
    (isEntry : entry.request = frame) (answered : entry.Answered json T config) :
    Serving json T config read (served ++ [entry]) none (enqueued ++ entry.replies) where
  reads := by
    rw [serving.reads, List.map_append, List.map_singleton, isEntry]
    simp
  handles := nofun
  answered := by
    intro other member
    rcases List.mem_append.mp member with earlier | new
    · exact serving.answered other earlier
    · rw [List.mem_singleton] at new
      rw [new]
      exact answered
  replies := by
    rcases answered.replied with ⟨bytes, _, single⟩
    have isReply : (!isEvent (NvpFrame.new (frameTypeOf entry.answer) entry.request.requestId bytes)) =
        true := by
      cases entry.answer <;> rfl
    rw [List.filter_append, serving.replies, List.flatMap_append, List.flatMap_singleton, single,
      List.filter_cons, if_pos isReply, List.filter_nil]

theorem Flowing.enqueue (flowing : Flowing enqueued received underway delivered)
    (frames : List NvpFrame) :
    Flowing (enqueued ++ frames) received (underway ++ frames) delivered where
  flows := by
    rw [List.filter_append, List.filter_append, flowing.flows, List.append_assoc]
  delivers := flowing.delivers

/-- The client reads the next frame and may deliver it. -/
theorem Flowing.next {frame : NvpFrame} {rest : List NvpFrame}
    (flowing : Flowing enqueued received (frame :: rest) delivered) {more : List (Nat × NvpFrame)}
    (delivers : (more.map Prod.snd).Sublist (if isEvent frame then [] else [frame])) :
    Flowing enqueued (received ++ if isEvent frame then [] else [frame]) rest
      (delivered ++ more) where
  flows := by
    rw [flowing.flows, List.filter_cons]
    cases isEvent frame with
    | true => simp
    | false => simp
  delivers := by
    rw [List.map_append]
    exact flowing.delivers.append delivers

end Steps

/-! ## Steps of the calls -/

section Calls

variable {json : PayloadJson} {client : NovaClient} {before : List NvpFrame} {index : Nat}
  {call : Call}

/-- A call in an early phase has sent nothing. -/
theorem Call.not_sent {frame : NvpFrame} (early : call.dispatched = false) :
    ¬ call.Sent json frame := by
  intro sent
  rw [sent.1] at early
  cases early

theorem Call.not_dispatched_of_phase (unregistered : call.phase = .drawn ∨ call.phase = .listening) :
    call.dispatched = false := by
  unfold Call.dispatched
  rcases unregistered with isPhase | isPhase
  · rw [isPhase]
  · rw [isPhase]

theorem Call.not_dispatched_of_registered {frame : NvpFrame} (isPhase : call.phase = .registered frame) :
    call.dispatched = false := by
  unfold Call.dispatched
  rw [isPhase]

/-- A step of a call leaves what was delivered, and the call sends its frame at most
once. -/
theorem Sending.advance (sending : Sending json client.calls (before ++ client.queue))
    (orderly : Orderly json client) (few : client.calls.length ≤ 2 ^ 64) (index : Nat) :
    Sending json (client.advance json index).calls (before ++ (client.advance json index).queue) ∧
      (client.advance json index).delivered = client.delivered := by
  cases isCall : client.calls[index]? with
  | none =>
      rw [NovaClient.advance, isCall]
      exact ⟨sending, rfl⟩
  | some call =>
      rcases @NovaClient.advance_cases json client index call isCall with
        ⟨registers, bytes, serialized, same⟩ | ⟨_, moves⟩
      · have isPhase := Call.phase_of_registersNext registers
        have absent := orderly.unregistered few isCall (Call.not_waits_of_phase isPhase)
        have early := Call.not_dispatched_of_phase isPhase
        rw [same, NovaClient.register, serialized]
        dsimp only
        rw [NovaClient.dropReplaced, absent]
        exact ⟨sending.set isCall (fun frame sent => absurd sent (Call.not_sent early)), rfl⟩
      · generalize client.advance json index = next at moves
        cases moves with
        | rests => exact ⟨sending, rfl⟩
        | listens isDrawn isWatch =>
            have early := Call.not_dispatched_of_phase (Or.inl isDrawn)
            exact ⟨sending.set isCall (fun frame sent => absurd sent (Call.not_sent early)), rfl⟩
        | fails unregistered unserialized =>
            have early := Call.not_dispatched_of_phase unregistered
            exact ⟨sending.set isCall (fun frame sent => absurd sent (Call.not_sent early)), rfl⟩
        | undispatched isRegistered gone =>
            have early := Call.not_dispatched_of_registered isRegistered
            exact ⟨sending.set isCall (fun frame sent => absurd sent (Call.not_sent early)), rfl⟩
        | concludes isAwaiting received =>
            exact ⟨sending.set isCall (fun frame sent => ⟨rfl, sent.2⟩), rfl⟩
        | @dispatches frame isRegistered writes =>
            have early := Call.not_dispatched_of_registered isRegistered
            have isFrame := (orderly.sound index call isCall).framed frame isRegistered
            have inside := (List.getElem?_eq_some_iff.mp isCall).1
            have set := @Sending.set _ _ _ _ _ { call with phase := .awaiting } sending isCall
              (fun frame sent => absurd sent (Call.not_sent early))
            refine ⟨?_, rfl⟩
            dsimp only [NovaClient.move]
            rw [← List.append_assoc]
            refine set.concat (List.getElem?_set_self inside) ⟨rfl, isFrame⟩ ?_
            intro other found earlier isFound member hasSent sameId
            -- The call whose id is used again would be this one, which had not sent.
            rcases getElem?_set_cases isFound with ⟨rfl, rfl⟩ | isOther
            · rcases sending.sentBy earlier member with ⟨sender, sentCall, isSender, sent⟩
              have senderId : sentCall.reqId = call.reqId := by
                rw [← (Call.frame_shape sent.2).1, (Call.frame_shape hasSent.2).1]
              have same := orderly.same_index few isSender isCall senderId
              subst same
              rw [isCall] at isSender
              cases isSender
              exact Call.not_sent early sent
            · have same := orderly.same_index few isOther isCall sameId
              subst same
              rw [isCall] at isOther
              cases isOther
              exact Call.not_sent early hasSent

/-- A frame the client reads changes no call's frame and sends nothing. -/
theorem Sending.receive {sent : List NvpFrame} (sending : Sending json client.calls sent)
    (orderly : Orderly json client) (frame : NvpFrame) :
    Sending json (client.receive json frame).calls sent ∧
      (client.receive json frame).queue = client.queue ∧
      Exists fun more => (client.receive json frame).delivered = client.delivered ++ more ∧
        (more.map Prod.snd).Sublist (if isEvent frame then [] else [frame]) := by
  have receives := receive_cases orderly frame
  generalize client.receive json frame = next at receives
  cases receives with
  | ignores => exact ⟨sending, rfl, [], (List.append_nil _).symm, List.nil_sublist _⟩
  | hands isEvent registered =>
      exact ⟨sending, rfl, [], (List.append_nil _).symm, List.nil_sublist _⟩
  | answers isReply decoded registered isCall waits =>
      refine ⟨sending.set isCall (fun frame sent => sent), rfl, _, rfl, ?_⟩
      rw [isEvent, decide_eq_false isReply]
      exact List.Sublist.refl _

end Calls

/-! ## Runs -/

/-- What every step keeps while ids are not used again. -/
structure Kept (json : PayloadJson) (T : TextTables) (config : ServerConfig)
    (conversation : Conversation) : Prop where
  orderly : Orderly json conversation.client
  sending : Sending json conversation.client.calls
    (conversation.read ++ conversation.upstream ++ conversation.client.queue)
  serving : Serving json T config conversation.read conversation.served conversation.handling
    conversation.enqueued
  flowing : Flowing conversation.enqueued conversation.received
    (conversation.downstream ++ conversation.outgoing) conversation.client.delivered

namespace Kept

variable {P : Platform} {json : PayloadJson} {T : TextTables} {config : ServerConfig}
  {conversation : Conversation}

theorem start : Kept json T config (Conversation.start config) where
  orderly := Orderly.connected
  sending := ⟨nofun, List.nodup_nil⟩
  serving := ⟨rfl, nofun, nofun, rfl⟩
  flowing := ⟨rfl, List.Sublist.slnil⟩

theorem clientWrites (kept : Kept json T config conversation) :
    Kept json T config conversation.clientWrites := by
  unfold Conversation.clientWrites
  split
  · exact kept
  · rename_i frame rest queued
    split
    · refine ⟨kept.orderly.queue rest, ?_, kept.serving, kept.flowing⟩
      have sending := kept.sending
      rw [queued] at sending
      dsimp only
      rw [← List.append_assoc, List.append_assoc _ [frame] rest]
      exact sending
    · exact kept

theorem serverReads (kept : Kept json T config conversation) (draw : Draw) :
    Kept json T config (conversation.serverReads json T config draw) := by
  unfold Conversation.serverReads
  split
  · rename_i frame rest idle arrived
    refine ⟨kept.orderly, ?_, ?_, kept.flowing⟩
    · have sending := kept.sending
      rw [arrived] at sending
      dsimp only
      rw [List.append_assoc conversation.read [frame] rest]
      exact sending
    · have serving := kept.serving
      rw [idle] at serving
      exact serving.take draw frame conversation.handler
  · exact kept

theorem serverReplies (kept : Kept json T config conversation) (writesErrors : WritesErrors json)
    (outcome : Outcome ResponsePayload) :
    Kept json T config (conversation.serverReplies json outcome) := by
  unfold Conversation.serverReplies
  split
  · exact kept
  · rename_i frame state inHand
    have serving := kept.serving
    rw [inHand] at serving
    -- The frame in hand is a request, since the client sends no other frames.
    have isRead : frame ∈ conversation.read := by
      rw [serving.reads]
      exact List.mem_append_right _ List.mem_cons_self
    have isSent := List.mem_append_left conversation.client.queue
      (List.mem_append_left conversation.upstream isRead)
    rcases kept.sending.sentBy frame isSent with ⟨index, call, _, sent⟩
    have isRequest := (Call.frame_shape sent.2).2
    rcases serving.handles frame state rfl with ⟨handler, draw, rfl⟩
    have isFor := @isFor_handleFrame json T config draw frame handler isRequest
    rw [replies_finish isFor]
    cases settled : (answerOf outcome (handler.handleFrame json T config draw frame).2).bind
        (settle json) with
    | none => exact kept
    | some answer =>
        dsimp only [Option.map_some]
        split
        · rcases Option.bind_eq_some_iff.mp settled with ⟨result, _, isSettled⟩
          rcases settle_written writesErrors isSettled with ⟨bytes, written⟩
          have single : replyFrames json frame.requestId answer =
              [NvpFrame.new (frameTypeOf answer) frame.requestId bytes] := by
            rw [replyFrames, written]
            rfl
          have answered : Served.Answered json T config
              ⟨frame, answer, replyFrames json frame.requestId answer⟩ :=
            ⟨⟨handler, draw, outcome, settled⟩, bytes, written, single⟩
          refine ⟨kept.orderly, kept.sending, serving.reply rfl answered, ?_⟩
          dsimp only
          rw [← List.append_assoc]
          exact kept.flowing.enqueue _
        · exact kept

theorem watcherSends (kept : Kept json T config conversation) (turn : Nat) (event : DataEvent) :
    Kept json T config (conversation.watcherSends P json turn event) := by
  unfold Conversation.watcherSends
  split
  · exact kept
  · rename_i watcher isWatcher
    split
    · rename_i frame sends
      split
      · refine ⟨kept.orderly, kept.sending, kept.serving.event ?_, ?_⟩
        · exact (onEvent_frame sends).1
        · dsimp only
          rw [← List.append_assoc]
          exact kept.flowing.enqueue [frame]
      · exact kept
    · exact kept
    · exact kept

theorem serverWrites (kept : Kept json T config conversation) :
    Kept json T config conversation.serverWrites := by
  unfold Conversation.serverWrites
  split
  · exact kept
  · rename_i frame rest queued
    split
    · refine ⟨kept.orderly, kept.sending, kept.serving, ?_⟩
      have flowing := kept.flowing
      rw [queued] at flowing
      dsimp only
      rw [List.append_assoc]
      exact flowing
    · exact kept

theorem clientReads (kept : Kept json T config conversation) :
    Kept json T config (conversation.clientReads json) := by
  unfold Conversation.clientReads
  split
  · exact kept
  · rename_i frame rest arrived
    rcases kept.sending.receive kept.orderly frame with ⟨sending, queue, more, delivered, delivers⟩
    refine ⟨kept.orderly.receive frame, ?_, kept.serving, ?_⟩
    · dsimp only
      rw [queue]
      exact sending
    · dsimp only
      rw [delivered]
      have flowing := kept.flowing
      rw [arrived] at flowing
      exact flowing.next delivers

/-- Every step keeps it while no id is used again. -/
theorem perform (kept : Kept json T config conversation) (writesRequests : WritesRequests json)
    (writesErrors : WritesErrors json) (few : conversation.client.calls.length ≤ 2 ^ 64)
    (move : Move) : Kept json T config (conversation.perform P json T config move) := by
  cases move with
  | call kind =>
      exact ⟨kept.orderly.draw kind, kept.sending.append _, kept.serving, kept.flowing⟩
  | advance index =>
      rcases kept.sending.advance kept.orderly few index with ⟨sending, delivered⟩
      refine ⟨kept.orderly.advance few writesRequests index, sending, kept.serving, ?_⟩
      simp only [Conversation.perform, delivered]
      exact kept.flowing
  | clientWrites => exact kept.clientWrites
  | serverReads draw => exact kept.serverReads draw
  | serverReplies outcome => exact kept.serverReplies writesErrors outcome
  | watcherSends turn event => exact kept.watcherSends turn event
  | serverWrites => exact kept.serverWrites
  | clientReads => exact kept.clientReads

end Kept

/-! ## The number of calls -/

/-- The move makes a call. -/
def Move.isCall : Move -> Bool
  | .call _ => true
  | .advance _ | .clientWrites | .serverReads _ | .serverReplies _ | .watcherSends _ _
  | .serverWrites | .clientReads => false

theorem advance_length (json : PayloadJson) (client : NovaClient) (index : Nat) :
    (client.advance json index).calls.length = client.calls.length := by
  cases isCall : client.calls[index]? with
  | none => rw [NovaClient.advance, isCall]
  | some call =>
      rcases @NovaClient.advance_cases json client index call isCall with
        ⟨_, bytes, serialized, same⟩ | ⟨_, moves⟩
      · rw [same, NovaClient.register, serialized]
        dsimp only
        rw [List.length_set, NovaClient.dropReplaced]
        split
        · rfl
        · exact List.length_modify _ _ _
      · generalize client.advance json index = next at moves
        cases moves with
        | rests => rfl
        | listens | fails | undispatched | concludes | dispatches => exact List.length_set

theorem receive_length (json : PayloadJson) (client : NovaClient) (frame : NvpFrame) :
    (client.receive json frame).calls.length = client.calls.length := by
  unfold NovaClient.receive NovaClient.hand NovaClient.deliver
  repeat' split
  all_goals first | rfl | exact List.length_modify _ _ _

/-- Calls are made by no other move. -/
theorem perform_length (P : Platform) (json : PayloadJson) (T : TextTables) (config : ServerConfig)
    (move : Move) (conversation : Conversation) :
    (conversation.perform P json T config move).client.calls.length =
      conversation.client.calls.length + (if move.isCall then 1 else 0) := by
  cases move with
  | call kind =>
      simp only [Conversation.perform, NovaClient.draw, List.length_append, List.length_singleton,
        Move.isCall, if_true]
  | advance index => exact advance_length json conversation.client index
  | clientReads =>
      simp only [Conversation.perform, Conversation.clientReads, Move.isCall, Bool.false_eq_true,
        if_false, Nat.add_zero]
      split
      · rfl
      · exact receive_length json conversation.client _
  | clientWrites | serverReads draw | serverReplies outcome | watcherSends turn event
  | serverWrites =>
      simp only [Conversation.perform, Conversation.clientWrites, Conversation.serverReads,
        Conversation.serverReplies, Conversation.watcherSends, Conversation.serverWrites,
        Move.isCall, Bool.false_eq_true, if_false, Nat.add_zero]
      repeat' split
      all_goals rfl

theorem last_length (P : Platform) (json : PayloadJson) (T : TextTables) (config : ServerConfig)
    (conversation : Conversation) (moves : List Move) :
    (Run.last (Conversation.perform P json T config) conversation moves).client.calls.length =
      conversation.client.calls.length + moves.countP Move.isCall := by
  induction moves generalizing conversation with
  | nil => rfl
  | cons move rest inductionHypothesis =>
      rw [Run.last, inductionHypothesis, perform_length, List.countP_cons]
      omega

/-- It holds in every state of a run in which no id is used again. -/
theorem Kept.last {P : Platform} {json : PayloadJson} {T : TextTables} {config : ServerConfig}
    {conversation : Conversation} {moves : List Move} (kept : Kept json T config conversation)
    (writesRequests : WritesRequests json) (writesErrors : WritesErrors json)
    (few : conversation.client.calls.length + moves.countP Move.isCall ≤ 2 ^ 64) :
    Kept json T config (Run.last (Conversation.perform P json T config) conversation moves) := by
  induction moves generalizing conversation with
  | nil => exact kept
  | cons move rest inductionHypothesis =>
      rw [List.countP_cons] at few
      have fewer : conversation.client.calls.length ≤ 2 ^ 64 := by omega
      apply inductionHypothesis (kept.perform writesRequests writesErrors fewer move)
      rw [perform_length]
      omega

/-! ## Matching -/

/-- What a call returned is the reply to its own request, and is the answer computed
for it when that is read as it was written. -/
def Returns (json : PayloadJson) (served : List Served) (call : Call)
    (result : Except NovaError Returned) : Prop :=
  Exists fun entry => entry ∈ served ∧ call.frame json = some entry.request ∧
    Exists fun value => result = call.kind.conclude json (some value) ∧
      (Exists fun reply => entry.replies = [reply] ∧ decodeReply json reply = some value) ∧
      (RoundTrips json (payloadOf entry.answer) -> value = entry.answer)

/-- Requests and replies are matched one to one: requests are read in the order of their
frames and each is answered once; every call that has returned got the reply to its own
request, no reply is used twice, and the events of a stream are those of its own WATCH.
-/
structure Matched (json : PayloadJson) (T : TextTables) (config : ServerConfig)
    (conversation : Conversation) : Prop where
  answered : forall entry, entry ∈ conversation.served -> entry.Answered json T config
  inOrder : conversation.read =
    conversation.served.map Served.request ++ (conversation.handling.map Prod.fst).toList
  replied : conversation.enqueued.filter (fun frame => !isEvent frame) =
    conversation.served.flatMap Served.replies
  returned : forall (index : Nat) (call : Call) result,
    conversation.client.calls[index]? = some call ->
    call.phase = .returned result -> Returns json conversation.served call result
  once : (conversation.client.delivered.map Prod.fst).Nodup ∧
    (conversation.client.delivered.map (fun pair => pair.2.requestId)).Nodup
  handed : forall pair, pair ∈ conversation.client.handed ->
    Exists fun call : Call => conversation.client.calls[pair.1]? = some call ∧
      call.Watches pair.2.requestId

section Matching

variable {json : PayloadJson} {T : TextTables} {config : ServerConfig} {conversation : Conversation}

/-- The ids of the replies are those of the requests served. -/
theorem replies_requestId {served : List Served}
    (answered : forall entry, entry ∈ served -> entry.Answered json T config) :
    (served.flatMap Served.replies).map NvpFrame.requestId =
      (served.map Served.request).map NvpFrame.requestId := by
  induction served with
  | nil => rfl
  | cons entry rest inductionHypothesis =>
      rcases (answered entry List.mem_cons_self).replied with ⟨bytes, _, single⟩
      rw [List.flatMap_cons, List.map_append, single,
        inductionHypothesis (fun other member => answered other (List.mem_cons_of_mem _ member))]
      rfl

/-- The replies the client has read are a leading part of those to the requests
served. -/
theorem Kept.received_sublist (kept : Kept json T config conversation) :
    conversation.received.Sublist (conversation.served.flatMap Served.replies) := by
  rw [← kept.serving.replies, kept.flowing.flows]
  exact List.sublist_append_left _ _

theorem Kept.delivered_nodup (kept : Kept json T config conversation) :
    (conversation.client.delivered.map (fun pair => pair.2.requestId)).Nodup := by
  have served : ((conversation.served.map Served.request).map NvpFrame.requestId).Nodup := by
    refine List.Nodup.sublist (List.Sublist.map _ ?_) kept.sending.apart
    rw [kept.serving.reads, List.append_assoc, List.append_assoc]
    exact List.sublist_append_left _ _
  have parts := (kept.flowing.delivers.trans kept.received_sublist).map NvpFrame.requestId
  rw [List.map_map, replies_requestId kept.serving.answered] at parts
  exact List.Nodup.sublist parts served

/-- A call that has returned got the reply to its own frame. -/
theorem Kept.returns (kept : Kept json T config conversation)
    (few : conversation.client.calls.length ≤ 2 ^ 64) {index : Nat} {call : Call}
    {result : Except NovaError Returned} (isCall : conversation.client.calls[index]? = some call)
    (isReturned : call.phase = .returned result) :
    Returns json conversation.served call result := by
  have sound := kept.orderly.sound index call isCall
  rcases sound.concluded result isReturned with ⟨value, received, same⟩
  rcases sound.answered value received with ⟨frame, isDelivered, decoded⟩
  have isReply := kept.received_sublist.subset
    (kept.flowing.delivers.subset (List.mem_map_of_mem isDelivered))
  rcases List.mem_flatMap.mp isReply with ⟨entry, isEntry, ofEntry⟩
  rcases (kept.serving.answered entry isEntry).replied with ⟨bytes, written, single⟩
  rw [single, List.mem_singleton] at ofEntry
  -- The entry's request was sent by a call with the id of this one.
  have isRead : entry.request ∈ conversation.read := by
    rw [kept.serving.reads]
    exact List.mem_append_left _ (List.mem_map_of_mem isEntry)
  rcases kept.sending.sentBy entry.request
    (List.mem_append_left _ (List.mem_append_left _ isRead)) with ⟨sender, sentCall, isSender, sent⟩
  rcases kept.orderly.delivered (index, frame) isDelivered with ⟨found, isFound, sameId, _⟩
  rw [isCall] at isFound
  cases isFound
  have senderId : sentCall.reqId = call.reqId := by
    rw [← (Call.frame_shape sent.2).1, sameId, ofEntry]
    rfl
  have sameIndex := kept.orderly.same_index few isSender isCall senderId
  subst sameIndex
  rw [isCall] at isSender
  cases isSender
  refine ⟨entry, isEntry, sent.2, value, same, ⟨frame, ?_, decoded⟩, ?_⟩
  · rw [single, ← ofEntry]
  · intro roundTrips
    have back := @decodeReply_answer json entry.request.requestId entry.answer bytes written roundTrips
    rw [← ofEntry, decoded] at back
    exact Option.some.inj back

theorem Kept.matched (kept : Kept json T config conversation)
    (few : conversation.client.calls.length ≤ 2 ^ 64) : Matched json T config conversation where
  answered := kept.serving.answered
  inOrder := kept.serving.reads
  replied := kept.serving.replies
  returned := fun _ _ _ isCall isReturned => kept.returns few isCall isReturned
  once := ⟨kept.orderly.once, kept.delivered_nodup⟩
  handed := kept.orderly.handed

/-- On a connection that does not fail, requests and replies are matched one to one as
long as no more calls are made than there are request ids. -/
theorem requests_matched (P : Platform) (json : PayloadJson) (T : TextTables) (config : ServerConfig)
    (writesRequests : WritesRequests json) (writesErrors : WritesErrors json) (moves : List Move)
    (few : moves.countP Move.isCall ≤ 2 ^ 64) :
    Matched json T config
      (Run.last (Conversation.perform P json T config) (Conversation.start config) moves) := by
  have length : (Conversation.start config).client.calls.length = 0 := rfl
  have total := last_length P json T config (Conversation.start config) moves
  have kept : Kept json T config
      (Run.last (Conversation.perform P json T config) (Conversation.start config) moves) := by
    apply Kept.start.last writesRequests writesErrors
    omega
  apply kept.matched
  omega

end Matching

/-! ## When ids are used again -/

section Wrapping

variable {json : PayloadJson} {client : NovaClient}

/-- Calls that have only drawn their ids. -/
def freshCalls (kind : CallKind) (reqId : UInt64) : Nat -> List Call
  | 0 => []
  | count + 1 => ⟨kind, reqId, .drawn, .empty⟩ :: freshCalls kind (reqId + 1) count

theorem length_freshCalls (kind : CallKind) (reqId : UInt64) (count : Nat) :
    (freshCalls kind reqId count).length = count := by
  induction count generalizing reqId with
  | zero => rfl
  | succ count inductionHypothesis => rw [freshCalls, List.length_cons, inductionHypothesis]

/-- A run of calls that only draw their ids. -/
theorem last_calls (P : Platform) (json : PayloadJson) (T : TextTables) (config : ServerConfig)
    (kind : CallKind) (count : Nat) (conversation : Conversation) :
    Run.last (Conversation.perform P json T config) conversation (List.replicate count (.call kind)) =
      { conversation with
        client :=
          { conversation.client with
            nextReqId := conversation.client.nextReqId + UInt64.ofNat count
            calls := conversation.client.calls ++
              freshCalls kind conversation.client.nextReqId count } } := by
  induction count generalizing conversation with
  | zero =>
      rw [List.replicate_zero, Run.last, freshCalls, List.append_nil]
      have same : conversation.client.nextReqId + UInt64.ofNat 0 = conversation.client.nextReqId :=
        UInt64.add_zero _
      rw [same]
  | succ count inductionHypothesis =>
      have next : conversation.client.nextReqId + 1 + UInt64.ofNat count =
          conversation.client.nextReqId + UInt64.ofNat (count + 1) := by
        rw [UInt64.ofNat_add, UInt64.add_assoc, UInt64.add_comm (UInt64.ofNat count)]
        rfl
      rw [List.replicate_succ, Run.last, inductionHypothesis]
      simp only [Conversation.perform, NovaClient.draw, next, freshCalls, List.append_assoc,
        List.singleton_append]

/-- A call that registers under an id in use has the other call return an error. -/
theorem dropped_returns {first : Call} {rest : List Call} {payload : RequestPayload}
    {bytes : List UInt8} {turn : Nat} (calls : client.calls = first :: rest)
    (awaits : first.phase = .awaiting) (unanswered : first.reply = .empty)
    (registered : client.pending.lookup first.reqId = some 0)
    (isCall : rest[turn]? = some ⟨.sendRequest payload, first.reqId, .drawn, .empty⟩)
    (serialized : payload.toBytes json = .ok bytes) :
    ((client.advance json (turn + 1)).advance json 0).calls[0]? =
      some { first with
        reply := .closed
        phase := .returned (first.kind.conclude json none) } := by
  have second : client.calls[turn + 1]? = some ⟨.sendRequest payload, first.reqId, .drawn, .empty⟩ := by
    rw [calls]
    exact isCall
  have closed : first.dropSender = { first with reply := .closed } := by
    rw [Call.dropSender, unanswered]
  have dropped : client.dropReplaced first.reqId = { first with reply := .closed } :: rest := by
    rw [NovaClient.dropReplaced, registered, calls, ← closed]
    rfl
  have front : (client.advance json (turn + 1)).calls[0]? = some { first with reply := .closed } := by
    simp only [NovaClient.advance, second, NovaClient.register, CallKind.request, serialized, dropped]
    rfl
  have inside := (List.getElem?_eq_some_iff.mp front).1
  generalize client.advance json (turn + 1) = next at front inside
  simp only [NovaClient.advance, front, awaits, NovaClient.conclude, NovaClient.move]
  exact List.getElem?_set_self inside

/-- The small platform of the examples. -/
def pingPlatform : Platform :=
  Storage.referencePlatform true []

/-- A server that asks for no token. -/
def openConfig : ServerConfig where
  maxConnections := 1000
  authToken := none
  webPort := none

/-- A ping that is registered and dispatched, so many calls that only draw their ids,
and one more ping that registers; then the first ping looks at its channel. -/
def reusing (count : Nat) : List Move :=
  [.call (.sendRequest .ping), .advance 0, .advance 0] ++
    (List.replicate count (.call (.sendRequest .ping)) ++
      [.call (.sendRequest .ping), .advance (count + 1), .advance 0])

/-- After the first three moves one ping waits under the id 1. -/
def pinged : Conversation :=
  Run.last (Conversation.perform pingPlatform pingJson referenceTables openConfig)
    (Conversation.start openConfig) [.call (.sendRequest .ping), .advance 0, .advance 0]

theorem pinged_calls : pinged.client.calls = [⟨.sendRequest .ping, 1, .awaiting, .empty⟩] := rfl

theorem pinged_registered : pinged.client.pending.lookup 1 = some 0 := by
  decide +kernel

/-- When the ids have come round, the first ping returns and nothing was served. -/
theorem reusing_returns {count : Nat} (wraps : (2 : UInt64) + UInt64.ofNat count = 1) :
    Exists fun final => final = Run.last
        (Conversation.perform pingPlatform pingJson referenceTables openConfig)
        (Conversation.start openConfig) (reusing count) ∧ final.served = [] ∧
      Exists fun call : Call => final.client.calls[0]? = some call ∧
        call.phase = .returned ((CallKind.sendRequest .ping).conclude pingJson none) := by
  have nextReqId : pinged.client.nextReqId + UInt64.ofNat count = 1 := wraps
  have split : Run.last (Conversation.perform pingPlatform pingJson referenceTables openConfig)
      (Conversation.start openConfig) (reusing count) =
    Run.last (Conversation.perform pingPlatform pingJson referenceTables openConfig)
      (Run.last (Conversation.perform pingPlatform pingJson referenceTables openConfig) pinged
        (List.replicate count (.call (.sendRequest .ping))))
      [.call (.sendRequest .ping), .advance (count + 1), .advance 0] := by
    rw [reusing, Run.last_append, Run.last_append, pinged]
  refine ⟨_, rfl, ?_⟩
  rw [split, last_calls, nextReqId]
  simp only [Run.last, Conversation.perform]
  refine ⟨rfl, ?_⟩
  have size := length_freshCalls (.sendRequest .ping) pinged.client.nextReqId count
  generalize freshCalls (.sendRequest .ping) pinged.client.nextReqId count = fresh at size
  let first : Call := ⟨.sendRequest .ping, 1, .awaiting, .empty⟩
  let second : Call := ⟨.sendRequest .ping, 1, .drawn, .empty⟩
  have isSecond : (fresh ++ [second])[count]? = some second := by
    rw [← size, List.getElem?_concat_length]
  have serialized : RequestPayload.ping.toBytes pingJson =
      .ok (Storage.utf8Bytes (String.ofList (requestText .ping))) := rfl
  have calls : pinged.client.calls ++ fresh ++ [second] = first :: (fresh ++ [second]) := by
    rw [pinged_calls, List.append_assoc, List.singleton_append]
  refine ⟨{ first with
    reply := .closed
    phase := .returned (first.kind.conclude pingJson none) }, ?_, rfl⟩
  exact @dropped_returns _ _ first _ _ _ _ calls rfl rfl pinged_registered isSecond serialized

/-- After 2 ^ 64 calls the ids start again, and a call returns without its reply. -/
theorem reused_not_matched :
    ¬ Matched pingJson referenceTables openConfig
      (Run.last (Conversation.perform pingPlatform pingJson referenceTables openConfig)
        (Conversation.start openConfig) (reusing (2 ^ 64 - 1))) := by
  intro matched
  have wraps : (2 : UInt64) + UInt64.ofNat (2 ^ 64 - 1) = 1 := by decide
  rcases reusing_returns wraps with ⟨final, same, unserved, call, isCall, isReturned⟩
  rw [← same] at matched
  rcases matched.returned 0 call _ isCall isReturned with ⟨entry, isEntry, _⟩
  rw [unserved] at isEntry
  cases isEntry

/-- The event of an INSERT into `users`. -/
def userEvent : DataEvent :=
  ⟨1, .create, "default", "users", Storage.sampleDocument.id, none, some Storage.sampleDocument, 0,
    none⟩

def userEventText : String :=
  "\x7b\"sequence\":1,\"event_type\":\"Create\",\"namespace\":\"default\"," ++
    "\"collection\":\"users\",\"document_id\":\"" ++ Storage.sampleDocument.id.asStr ++
    "\",\"before\":null,\"after\":" ++ (Storage.documentText Storage.sampleDocument).getD "null" ++
    ",\"timestamp\":0,\"tx_id\":null\x7d"

/-- The acknowledgement of a WATCH that was sent as the second request. -/
def watchAckText : String :=
  String.ofList (memberText "WatchAck" (memberText "subscription_id" (decimal 2)))

/-- A ping, a WATCH, their answers and an event as `serde_json` writes and reads them;
other answers are written empty, and other texts are not read. -/
def overlappingJson : PayloadJson where
  request :=
    { toVec := pingJson.request.toVec
      fromSlice := fun bytes =>
        match [RequestPayload.ping, .watch "WATCH users"].find? (fun payload =>
          Storage.utf8Bytes (String.ofList (requestText payload)) = bytes) with
        | some payload => .ok payload
        | none => .error "expected value at line 1 column 1" }
  response :=
    { toVec := fun payload =>
        match payload with
        | .pong => .ok (Storage.utf8Bytes "\"Pong\"")
        | .watchAck 2 => .ok (Storage.utf8Bytes watchAckText)
        | _ => .ok []
      fromSlice := fun bytes =>
        if bytes = Storage.utf8Bytes watchAckText then .ok (.watchAck 2)
        else readsOnly .pong "\"Pong\"" bytes }
  event :=
    { toVec := fun _ => .ok (Storage.utf8Bytes userEventText)
      fromSlice := readsOnly userEvent userEventText }
  debug := fun _ => "Pong"

/-- A ping and a WATCH at once: the WATCH draws its id last and is dispatched first, and
its event overtakes the answer to the ping. -/
def overlappingMoves : List Move :=
  let draw : Draw := ⟨Vector.replicate 16 0, 0⟩
  [.call (.sendRequest .ping), .call (.registerWatch "WATCH users"), .advance 1, .advance 0,
    .advance 1, .advance 1, .advance 0, .clientWrites, .clientWrites, .serverReads draw,
    .serverReplies (.ok .pong), .serverReads draw, .watcherSends 0 userEvent,
    .serverReplies (.ok .pong), .serverWrites, .serverWrites, .serverWrites, .clientReads,
    .clientReads, .clientReads, .advance 0, .advance 1]

def overlapped : Conversation :=
  Run.last (Conversation.perform pingPlatform overlappingJson referenceTables openConfig)
    (Conversation.start openConfig) overlappingMoves

/-- The call has returned, and not an error. -/
def Call.succeeded (call : Call) : Bool :=
  match call.phase with
  | .returned (.ok _) => true
  | _ => false

/-- Both calls return what they asked for, and the stream of the WATCH has its event. -/
theorem requests_matched_sample :
    overlapped.client.calls.map Call.succeeded = [true, true] ∧
      overlapped.received.map NvpFrame.requestId = [2, 1] ∧
      overlapped.client.handed.map Prod.fst = [1] ∧
      Matched overlappingJson referenceTables openConfig overlapped := by
  have writesRequests : WritesRequests overlappingJson := fun payload => ⟨_, rfl⟩
  have writesErrors : WritesErrors overlappingJson := fun failure => ⟨[], rfl⟩
  exact ⟨by decide +kernel, by decide +kernel, by decide +kernel,
    requests_matched _ _ _ _ writesRequests writesErrors overlappingMoves (by decide)⟩

end Wrapping

end Client
end NovaDb
