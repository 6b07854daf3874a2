import NovaDb.Client.Conversation

namespace NovaDb
namespace Client

open Core Foundation Protocol Server Query

/-!
# The client while its tasks run

Request ids come from one counter, so as long as no more calls are made than there
are ids, an id names one call.  A sender in the map then belongs to a call that waits
under its id, a value in a call's channel is the reply that a delivered frame carries,
and no sender is ever replaced.
-/

/-! ## Lists of records -/

section Records

variable {α : Type} {records : List α} {index other : Nat} {old new found : α}

theorem getElem?_set_cases (isFound : (records.set index new)[other]? = some found) :
    (other = index ∧ found = new) ∨ records[other]? = some found := by
  rw [List.getElem?_set] at isFound
  split at isFound
  · rename_i same
    split at isFound
    · exact Or.inl ⟨same.symm, (Option.some.inj isFound).symm⟩
    · cases isFound
  · exact Or.inr isFound

theorem exists_set {holds : α -> Prop} (isOld : records[index]? = some old)
    (kept : holds old -> holds new)
    (exists_old : Exists fun record => records[other]? = some record ∧ holds record) :
    Exists fun record => (records.set index new)[other]? = some record ∧ holds record := by
  rcases exists_old with ⟨record, isRecord, held⟩
  by_cases same : index = other
  · subst other
    have inside := (List.getElem?_eq_some_iff.mp isOld).1
    rw [isOld] at isRecord
    cases isRecord
    exact ⟨new, List.getElem?_set_self inside, kept held⟩
  · exact ⟨record, (List.getElem?_set_ne same).trans isRecord, held⟩

theorem exists_append {holds : α -> Prop} (added : α)
    (exists_old : Exists fun record => records[other]? = some record ∧ holds record) :
    Exists fun record => (records ++ [added])[other]? = some record ∧ holds record := by
  rcases exists_old with ⟨record, isRecord, held⟩
  have inside := (List.getElem?_eq_some_iff.mp isRecord).1
  exact ⟨record, (List.getElem?_append_left inside).trans isRecord, held⟩

theorem getElem?_append_cases (isFound : (records ++ [new])[other]? = some found) :
    (other = records.length ∧ found = new) ∨ records[other]? = some found := by
  rw [List.getElem?_append] at isFound
  split at isFound
  · exact Or.inr isFound
  · rename_i behind
    rcases List.getElem?_eq_some_iff.mp isFound with ⟨inside, same⟩
    rw [List.length_singleton] at inside
    rw [List.getElem_singleton] at same
    exact Or.inl ⟨by omega, same.symm⟩

end Records

/-! ## Calls -/

/-- The frame of a call's request. -/
def Call.frame (json : PayloadJson) (call : Call) : Option NvpFrame :=
  (call.kind.request.toBytes json).toOption.map (NvpFrame.new .request call.reqId)

/-- The call has put its frame into the channel. -/
def Call.dispatched (call : Call) : Bool :=
  match call.phase with
  | .awaiting | .returned _ => true
  | .drawn | .listening | .registered _ => false

/-- What holds of a call, given the replies that were delivered. -/
structure Call.Sound (json : PayloadJson) (delivered : List (Nat × NvpFrame)) (index : Nat)
    (call : Call) : Prop where
  numbered : call.reqId = UInt64.ofNat (index + 1)
  fresh : call.phase = .drawn ∨ call.phase = .listening -> call.reply = .empty
  framed : forall frame, call.phase = .registered frame -> call.frame json = some frame
  opened : call.reply ≠ .closed
  answered : forall result, call.reply = .value result ->
    Exists fun frame => (index, frame) ∈ delivered ∧ decodeReply json frame = some result
  concluded : forall result, call.phase = .returned result ->
    Exists fun value => call.reply = .value value ∧ result = call.kind.conclude json (some value)

/-- The call watches under an id. -/
def Call.Watches (reqId : UInt64) (call : Call) : Prop :=
  call.reqId = reqId ∧ Exists fun nql => call.kind = .registerWatch nql

/-- The call waits under an id. -/
def Call.WaitsFor (reqId : UInt64) (call : Call) : Prop :=
  call.reqId = reqId ∧ call.waits = true

/-- The call has the reply that a frame carries. -/
def Call.Has (json : PayloadJson) (frame : NvpFrame) (call : Call) : Prop :=
  call.reqId = frame.requestId ∧
    Exists fun result => decodeReply json frame = some result ∧ call.reply = .value result

/-- What holds of a client both of whose tasks run. -/
structure Orderly (json : PayloadJson) (client : NovaClient) : Prop where
  counter : client.nextReqId = UInt64.ofNat (client.calls.length + 1)
  writes : client.writing = true
  reads : client.reading = true
  sound : forall index (call : Call), client.calls[index]? = some call ->
    call.Sound json client.delivered index
  pending : forall reqId index, client.pending.lookup reqId = some index ->
    Exists fun call => client.calls[index]? = some call ∧ call.WaitsFor reqId
  watching : forall reqId index, client.watchers.lookup reqId = some index ->
    Exists fun call => client.calls[index]? = some call ∧ call.Watches reqId
  delivered : forall pair, pair ∈ client.delivered ->
    Exists fun call => client.calls[pair.1]? = some call ∧ call.Has json pair.2
  once : (client.delivered.map Prod.fst).Nodup
  handed : forall pair, pair ∈ client.handed ->
    Exists fun call => client.calls[pair.1]? = some call ∧ call.Watches pair.2.requestId

namespace Orderly

variable {json : PayloadJson} {client : NovaClient} {index other : Nat} {call : Call}

theorem connected : Orderly json NovaClient.connected where
  counter := rfl
  writes := rfl
  reads := rfl
  sound := by
    intro index call isCall
    cases isCall
  pending := by
    intro reqId index registered
    rw [NovaClient.connected, AList.lookup_empty] at registered
    cases registered
  watching := by
    intro reqId index registered
    rw [NovaClient.connected, AList.lookup_empty] at registered
    cases registered
  delivered := nofun
  once := List.nodup_nil
  handed := nofun

/-- As long as there are no more calls than ids, an id names one call. -/
theorem same_index (orderly : Orderly json client) (few : client.calls.length ≤ 2 ^ 64)
    {first second : Call} (isFirst : client.calls[index]? = some first)
    (isSecond : client.calls[other]? = some second) (sameId : first.reqId = second.reqId) :
    index = other := by
  have inside := (List.getElem?_eq_some_iff.mp isFirst).1
  have otherInside := (List.getElem?_eq_some_iff.mp isSecond).1
  rw [(orderly.sound index first isFirst).numbered, (orderly.sound other second isSecond).numbered]
    at sameId
  have numbers := congrArg UInt64.toNat sameId
  rw [UInt64.toNat_ofNat', UInt64.toNat_ofNat'] at numbers
  omega

theorem draw (orderly : Orderly json client) (kind : CallKind) : Orderly json (client.draw kind) where
  counter := by
    simp only [NovaClient.draw, orderly.counter, List.length_append, List.length_singleton]
    rw [UInt64.ofNat_add (client.calls.length + 1) 1]
    rfl
  writes := orderly.writes
  reads := orderly.reads
  sound := by
    intro index call isCall
    rcases getElem?_append_cases isCall with ⟨same, rfl⟩ | before
    · subst index
      exact ⟨orderly.counter, fun _ => rfl, nofun, nofun, nofun, nofun⟩
    · exact orderly.sound index call before
  pending := fun reqId index registered => exists_append _ (orderly.pending reqId index registered)
  watching := fun reqId index registered => exists_append _ (orderly.watching reqId index registered)
  delivered := fun pair member => exists_append _ (orderly.delivered pair member)
  once := orderly.once
  handed := fun pair member => exists_append _ (orderly.handed pair member)

/-- A call moves to another phase. -/
theorem move (orderly : Orderly json client) (isCall : client.calls[index]? = some call)
    (phase : Phase) (waits : call.waits = true -> ({ call with phase } : Call).waits = true)
    (fresh : phase = .drawn ∨ phase = .listening -> call.reply = .empty)
    (framed : forall frame, phase = .registered frame -> call.frame json = some frame)
    (concluded : forall result, phase = .returned result -> Exists fun value =>
      call.reply = .value value ∧ result = call.kind.conclude json (some value)) :
    Orderly json (client.move index call phase) where
  counter := by
    simp only [NovaClient.move, List.length_set]
    exact orderly.counter
  writes := orderly.writes
  reads := orderly.reads
  sound := by
    have before := orderly.sound index call isCall
    intro other found isFound
    rcases getElem?_set_cases isFound with ⟨rfl, rfl⟩ | isFound
    · exact ⟨before.numbered, fresh, framed, before.opened, before.answered, concluded⟩
    · exact orderly.sound other found isFound
  pending := fun reqId other registered =>
    exists_set isCall (fun waiting => ⟨waiting.1, waits waiting.2⟩)
      (orderly.pending reqId other registered)
  watching := fun reqId other registered =>
    exists_set isCall id (orderly.watching reqId other registered)
  delivered := fun pair member => exists_set isCall id (orderly.delivered pair member)
  once := orderly.once
  handed := fun pair member => exists_set isCall id (orderly.handed pair member)

theorem queue (orderly : Orderly json client) (queue : List NvpFrame) :
    Orderly json { client with queue } := by
  cases orderly
  constructor
  all_goals assumption

/-- A watch registers its stream under its own id. -/
theorem listen (orderly : Orderly json client) (isCall : client.calls[index]? = some call)
    {nql : String} (isWatch : call.kind = .registerWatch nql) :
    Orderly json { client with watchers := client.watchers.insert call.reqId index } where
  counter := orderly.counter
  writes := orderly.writes
  reads := orderly.reads
  sound := orderly.sound
  pending := orderly.pending
  watching := by
    intro reqId other registered
    dsimp only at registered
    by_cases same : reqId = call.reqId
    · rw [same, AList.lookup_insert] at registered
      cases registered
      exact ⟨call, isCall, same.symm, nql, isWatch⟩
    · rw [AList.lookup_insert_ne same] at registered
      exact orderly.watching reqId other registered
  delivered := orderly.delivered
  once := orderly.once
  handed := orderly.handed

/-- A call registers under its own id, where nothing is registered. -/
theorem insert (orderly : Orderly json client) (isCall : client.calls[index]? = some call)
    (waits : call.waits = true) :
    Orderly json { client with pending := client.pending.insert call.reqId index } where
  counter := orderly.counter
  writes := orderly.writes
  reads := orderly.reads
  sound := orderly.sound
  pending := by
    intro reqId other registered
    dsimp only at registered
    by_cases same : reqId = call.reqId
    · rw [same, AList.lookup_insert] at registered
      cases registered
      exact ⟨call, isCall, same.symm, waits⟩
    · rw [AList.lookup_insert_ne same] at registered
      exact orderly.pending reqId other registered
  watching := orderly.watching
  delivered := orderly.delivered
  once := orderly.once
  handed := orderly.handed

/-- Nothing is registered under the id of a call that does not wait. -/
theorem unregistered (orderly : Orderly json client) (few : client.calls.length ≤ 2 ^ 64)
    (isCall : client.calls[index]? = some call) (idle : call.waits = false) :
    client.pending.lookup call.reqId = none := by
  cases registered : client.pending.lookup call.reqId with
  | none => rfl
  | some other =>
      rcases orderly.pending call.reqId other registered with ⟨waiting, isWaiting, sameId, waits⟩
      have same := orderly.same_index few isCall isWaiting sameId.symm
      subst same
      rw [isCall] at isWaiting
      cases isWaiting
      rw [idle] at waits
      cases waits

theorem advance (orderly : Orderly json client) (few : client.calls.length ≤ 2 ^ 64)
    (writesRequests : WritesRequests json) (index : Nat) :
    Orderly json (client.advance json index) := by
  cases isCall : client.calls[index]? with
  | none =>
      rw [NovaClient.advance, isCall]
      exact orderly
  | some call =>
      have sound := orderly.sound index call isCall
      have inside := (List.getElem?_eq_some_iff.mp isCall).1
      rcases @NovaClient.advance_cases json client index call isCall with
        ⟨registers, bytes, serialized, same⟩ | ⟨_, moves⟩
      · have isPhase := Call.phase_of_registersNext registers
        have idle := Call.not_waits_of_phase isPhase
        have absent := orderly.unregistered few isCall idle
        have isFrame : call.frame json = some (NvpFrame.new .request call.reqId bytes) := by
          rw [Call.frame, serialized]
          rfl
        have moved := orderly.move isCall (.registered (NvpFrame.new .request call.reqId bytes))
          (absurd · (by rw [idle]; exact Bool.false_ne_true))
          (by rintro (isFresh | isFresh) <;> cases isFresh)
          (fun frame isRegistered => Phase.registered.inj isRegistered ▸ isFrame)
          (fun _ isReturned => Phase.noConfusion isReturned)
        have inserted := moved.insert (List.getElem?_set_self inside) (by
          unfold Call.waits
          rw [sound.fresh isPhase])
        rw [same, NovaClient.register, serialized]
        dsimp only
        rw [NovaClient.dropReplaced, absent]
        exact inserted
      · generalize client.advance json index = next at moves
        cases moves with
        | rests => exact orderly
        | listens isDrawn isWatch =>
            have idle := Call.not_waits_of_phase (Or.inl isDrawn)
            have moved := orderly.move isCall .listening
              (absurd · (by rw [idle]; exact Bool.false_ne_true))
              (fun _ => sound.fresh (Or.inl isDrawn))
              (fun _ isRegistered => Phase.noConfusion isRegistered)
              (fun _ isReturned => Phase.noConfusion isReturned)
            exact @listen json _ index { call with phase := .listening } moved
              (List.getElem?_set_self inside) _ isWatch
        | fails unregistered unserialized =>
            rcases writesRequests call.kind.request with ⟨bytes, serialized⟩
            rw [serialized] at unserialized
            cases unserialized
        | undispatched isRegistered gone =>
            rw [orderly.writes] at gone
            cases gone
        | dispatches isRegistered writes =>
            have moved := orderly.move isCall .awaiting
              (fun waits => (Call.waits_dispatched isRegistered).trans waits)
              (by rintro (isFresh | isFresh) <;> cases isFresh)
              (fun _ isRegistered => Phase.noConfusion isRegistered)
              (fun _ isReturned => Phase.noConfusion isReturned)
            exact moved.queue _
        | @concludes reply isAwaiting received =>
            cases reply with
            | none => exact absurd received sound.opened
            | some result =>
                have idle := Call.not_waits_of_value received
                exact orderly.move isCall (.returned (call.kind.conclude json (some result)))
                  (absurd · (by rw [idle]; exact Bool.false_ne_true))
                  (by rintro (isFresh | isFresh) <;> cases isFresh)
                  (fun _ isRegistered => Phase.noConfusion isRegistered)
                  (fun value isReturned =>
                    ⟨result, received, (Phase.returned.inj isReturned).symm⟩)

/-! ## The read task -/

/-- A reply to a call that waits. -/
theorem answer (orderly : Orderly json client) (isCall : client.calls[index]? = some call)
    {frame : NvpFrame} {result : Except NovaError ResponsePayload}
    (waits : call.WaitsFor frame.requestId) (decoded : decodeReply json frame = some result) :
    Orderly json
      { client with
        pending := client.pending.erase frame.requestId
        calls := client.calls.set index { call with reply := .value result }
        delivered := client.delivered ++ [(index, frame)] } where
  counter := by
    simp only [List.length_set]
    exact orderly.counter
  writes := orderly.writes
  reads := orderly.reads
  sound := by
    have before := orderly.sound index call isCall
    intro other found isFound
    rcases getElem?_set_cases isFound with ⟨rfl, rfl⟩ | isFound
    · refine ⟨before.numbered, ?_, before.framed, nofun, ?_, ?_⟩
      · intro isPhase
        exact absurd waits.2 (by rw [@Call.not_waits_of_phase call isPhase]; exact Bool.false_ne_true)
      · intro value isValue
        cases isValue
        exact ⟨frame, List.mem_append_right _ List.mem_cons_self, decoded⟩
      · intro value isReturned
        rcases before.concluded value isReturned with ⟨earlier, received, _⟩
        exact absurd waits.2 (by rw [@Call.not_waits_of_value call _ received]; exact Bool.false_ne_true)
    · have sound := orderly.sound other found isFound
      refine ⟨sound.numbered, sound.fresh, sound.framed, sound.opened, ?_, sound.concluded⟩
      intro value isValue
      rcases sound.answered value isValue with ⟨earlier, member, isDecoded⟩
      exact ⟨earlier, List.mem_append_left _ member, isDecoded⟩
  pending := by
    intro reqId other registered
    dsimp only at registered
    have different : reqId ≠ frame.requestId := by
      rintro rfl
      rw [AList.lookup_erase] at registered
      cases registered
    rw [AList.lookup_erase_ne different] at registered
    rcases orderly.pending reqId other registered with ⟨found, isFound, waiting⟩
    have apart : index ≠ other := by
      rintro rfl
      rw [isCall] at isFound
      cases isFound
      exact different (waiting.1.symm.trans waits.1)
    exact ⟨found, (List.getElem?_set_ne apart).trans isFound, waiting⟩
  watching := fun reqId other registered =>
    exists_set isCall id (orderly.watching reqId other registered)
  delivered := by
    intro pair member
    rcases List.mem_append.mp member with earlier | new
    · refine exists_set isCall ?_ (orderly.delivered pair earlier)
      rintro ⟨_, value, _, received⟩
      exact absurd waits.2 (by rw [Call.not_waits_of_value received]; exact Bool.false_ne_true)
    · rw [List.mem_singleton] at new
      subst new
      have inside := (List.getElem?_eq_some_iff.mp isCall).1
      exact ⟨_, List.getElem?_set_self inside, waits.1, result, decoded, rfl⟩
  once := by
    dsimp only
    rw [List.map_append, List.map_singleton, ← List.concat_eq_append]
    refine List.Nodup.concat ?_ orderly.once
    intro member
    rcases List.mem_map.mp member with ⟨pair, isPair, rfl⟩
    rcases orderly.delivered pair isPair with ⟨found, isFound, _, value, _, received⟩
    rw [isCall] at isFound
    cases isFound
    exact absurd waits.2 (by rw [Call.not_waits_of_value received]; exact Bool.false_ne_true)
  handed := fun pair member => exists_set isCall id (orderly.handed pair member)

/-- An event handed to the stream registered under its id. -/
theorem hand (orderly : Orderly json client) {frame : NvpFrame}
    (registered : client.watchers.lookup frame.requestId = some index) :
    Orderly json { client with handed := client.handed ++ [(index, frame)] } where
  counter := orderly.counter
  writes := orderly.writes
  reads := orderly.reads
  sound := orderly.sound
  pending := orderly.pending
  watching := orderly.watching
  delivered := orderly.delivered
  once := orderly.once
  handed := by
    intro pair member
    rcases List.mem_append.mp member with earlier | new
    · exact orderly.handed pair earlier
    · rw [List.mem_singleton] at new
      subst new
      exact orderly.watching frame.requestId index registered

end Orderly

/-- What the read task does with a frame. -/
inductive Receives (json : PayloadJson) (client : NovaClient) (frame : NvpFrame) :
    NovaClient -> Prop where
  | ignores : Receives json client frame client
  | hands {index : Nat} (isEvent : frame.frameType = .event)
      (registered : client.watchers.lookup frame.requestId = some index) :
      Receives json client frame { client with handed := client.handed ++ [(index, frame)] }
  | answers {index : Nat} {call : Call} {result : Except NovaError ResponsePayload}
      (isReply : frame.frameType ≠ .event) (decoded : decodeReply json frame = some result)
      (registered : client.pending.lookup frame.requestId = some index)
      (isCall : client.calls[index]? = some call) (waits : call.WaitsFor frame.requestId) :
      Receives json client frame
        { client with
          pending := client.pending.erase frame.requestId
          calls := client.calls.set index { call with reply := .value result }
          delivered := client.delivered ++ [(index, frame)] }

theorem receive_cases {json : PayloadJson} {client : NovaClient} (orderly : Orderly json client)
    (frame : NvpFrame) : Receives json client frame (client.receive json frame) := by
  unfold NovaClient.receive
  split
  · rename_i isEvent
    unfold NovaClient.hand
    split
    · exact .ignores
    · rename_i index registered
      split
      · exact .hands isEvent registered
      · exact .ignores
  · rename_i isReply
    split
    · rename_i result decoded
      unfold NovaClient.deliver
      split
      · exact .ignores
      · rename_i index registered
        rcases orderly.pending frame.requestId index registered with ⟨call, isCall, waits⟩
        have modified : client.calls.modify index (fun call => { call with reply := .value result }) =
            client.calls.set index { call with reply := .value result } := by
          rw [List.modify_eq_set_getElem?, isCall]
          rfl
        rw [modified]
        exact .answers isReply decoded registered isCall waits
    · exact .ignores

theorem Orderly.receive {json : PayloadJson} {client : NovaClient} (orderly : Orderly json client)
    (frame : NvpFrame) : Orderly json (client.receive json frame) := by
  have receives := receive_cases orderly frame
  generalize client.receive json frame = next at receives
  cases receives with
  | ignores => exact orderly
  | hands isEvent registered => exact orderly.hand registered
  | answers isReply decoded registered isCall waits => exact orderly.answer isCall waits decoded

end Client
end NovaDb
