import NovaDb.Client.NovaClient

namespace NovaDb
namespace Client

open Core Foundation Protocol Server

/-!
# When the connection is lost

The read task leaves its loop at the end of the stream and at a framing error, and
leaves the map of reply senders as it is.  A sender that is in the map then, or is
put there later, is never used and never dropped: its call waits for good.  No call
is left waiting exactly when there is no such sender.
-/

namespace NovaClient

/-- Once the read task has ended, no reply sender is in the map and no call waits for a
reply; as long as it runs, nothing is asked. -/
def Released (client : NovaClient) : Prop :=
  client.reading = false ->
    client.pending = ∅ ∧ forall call, call ∈ client.calls -> call.waits = false

/-- The read task ends only when every registered call has been answered, and no
call registers after that. -/
def Permitted (json : PayloadJson) (client : NovaClient) : Action -> Prop
  | .readEnds _ => client.reading = true -> client.pending = ∅
  | .advance index => client.reading = false ->
      forall call, client.calls[index]? = some call -> call.registersNext json = false
  | .call _ | .write | .writeEnds | .frame _ => True

/-! ## Calls that wait are in the map -/

def Held (calls : List Call) (pending : AList (fun _ : UInt64 => Nat)) : Prop :=
  forall index call, calls[index]? = some call -> call.waits = true ->
    pending.lookup call.reqId = some index

variable {json : PayloadJson} {client : NovaClient} {calls : List Call}
  {pending : AList (fun _ : UInt64 => Nat)} {index : Nat} {call : Call}

theorem Held.set (held : Held calls pending)
    (kept : call.waits = true -> pending.lookup call.reqId = some index) :
    Held (calls.set index call) pending := by
  intro other found isCall waits
  rw [List.getElem?_set] at isCall
  split at isCall
  · rename_i same
    split at isCall
    · cases isCall
      rw [← same]
      exact kept waits
    · cases isCall
  · exact held other found isCall waits

theorem Held.append (held : Held calls pending) (idle : call.waits = false) :
    Held (calls ++ [call]) pending := by
  intro other found isCall waits
  rw [List.getElem?_append] at isCall
  split at isCall
  · exact held other found isCall waits
  · have member := List.mem_of_getElem? isCall
    rw [List.mem_singleton] at member
    rw [member, idle] at waits
    cases waits

/-- Calls that still wait when a sender was dropped have other ids. -/
theorem Held.dropReplaced (held : Held client.calls client.pending) {reqId : UInt64}
    (isCall : (client.dropReplaced reqId)[index]? = some call) (waits : call.waits = true) :
    client.calls[index]? = some call ∧ call.reqId ≠ reqId := by
  unfold NovaClient.dropReplaced at isCall
  cases registered : client.pending.lookup reqId with
  | none =>
      rw [registered] at isCall
      refine ⟨isCall, ?_⟩
      rintro rfl
      rw [held index call isCall waits] at registered
      cases registered
  | some other =>
      rw [registered] at isCall
      dsimp only at isCall
      rw [List.getElem?_modify] at isCall
      split at isCall
      · rcases Option.map_eq_some_iff.mp isCall with ⟨before, _, dropped⟩
        rw [← dropped, Call.waits_dropSender] at waits
        cases waits
      · rename_i different
        rw [id_map'] at isCall
        refine ⟨isCall, ?_⟩
        rintro rfl
        rw [held index call isCall waits] at registered
        exact different (Option.some.inj registered).symm

theorem deliver_held (held : Held client.calls client.pending) (frame : NvpFrame)
    (result : Except NovaError ResponsePayload) :
    Held (client.deliver frame result).calls (client.deliver frame result).pending := by
  unfold deliver
  cases registered : client.pending.lookup frame.requestId with
  | none => exact held
  | some answered =>
      intro other found isCall waits
      dsimp only at isCall ⊢
      rw [List.getElem?_modify] at isCall
      split at isCall
      · rcases Option.map_eq_some_iff.mp isCall with ⟨before, _, same⟩
        rw [← same, Call.waits_answered] at waits
        cases waits
      · rename_i different
        rw [id_map'] at isCall
        have holds := held other found isCall waits
        rw [AList.lookup_erase_ne, holds]
        intro sameId
        rw [sameId, registered] at holds
        exact different (Option.some.inj holds)

theorem advance_held (held : Held client.calls client.pending) (index : Nat) :
    Held (client.advance json index).calls (client.advance json index).pending := by
  cases isCall : client.calls[index]? with
  | none =>
      simp only [advance, isCall]
      exact held
  | some call =>
      rcases @advance_cases json client index call isCall with ⟨_, bytes, serialized, same⟩ | ⟨_, moves⟩
      · rw [same, register, serialized]
        intro other found isFound waits
        dsimp only at isFound ⊢
        rw [List.getElem?_set] at isFound
        split at isFound
        · rename_i sameIndex
          split at isFound
          · cases isFound
            rw [AList.lookup_insert, sameIndex]
          · cases isFound
        · rcases held.dropReplaced isFound waits with ⟨before, otherId⟩
          rw [AList.lookup_insert_ne otherId]
          exact held other found before waits
      · generalize client.advance json index = next at moves
        cases moves with
        | rests => exact held
        | listens => exact held.set (fun waits => Bool.noConfusion waits)
        | fails => exact held.set (fun waits => Bool.noConfusion waits)
        | undispatched => exact held.set (fun waits => Bool.noConfusion waits)
        | concludes => exact held.set (fun waits => Bool.noConfusion waits)
        | dispatches isRegistered writes =>
            apply held.set
            intro waits
            apply held index call isCall
            rw [← Call.waits_dispatched isRegistered]
            exact waits

theorem receive_held (held : Held client.calls client.pending) (frame : NvpFrame) :
    Held (client.receive json frame).calls (client.receive json frame).pending := by
  unfold receive
  split
  · unfold hand
    split
    · exact held
    · split
      · exact held
      · exact held
  · split
    · exact deliver_held held _ _
    · exact held

/-- Every step keeps the calls that wait in the map. -/
theorem perform_held (client : NovaClient) (action : Action)
    (held : Held client.calls client.pending) :
    Held (client.perform json action).calls (client.perform json action).pending := by
  cases action with
  | call kind => exact held.append rfl
  | advance index => exact advance_held held index
  | write =>
      simp only [perform]
      split
      · exact held
      · exact held
  | writeEnds => exact held
  | frame frame =>
      simp only [perform]
      split
      · exact receive_held held frame
      · exact held
  | readEnds reason => exact held

/-- With the map empty no call waits. -/
theorem Held.idle (held : Held calls pending) (empty : pending = ∅) :
    forall call, call ∈ calls -> call.waits = false := by
  intro call member
  rcases List.getElem?_of_mem member with ⟨index, isCall⟩
  by_contra waits
  have registered := held index call isCall (Bool.eq_true_of_not_eq_false waits)
  rw [empty, AList.lookup_empty] at registered
  cases registered

theorem released_iff_empty (held : Held client.calls client.pending) :
    client.Released <-> (client.reading = false -> client.pending = ∅) := by
  constructor
  · intro released ended
    exact (released ended).1
  · intro empty ended
    exact ⟨empty ended, held.idle (empty ended)⟩

/-! ## Steps once the read task has ended -/

theorem Moves.keeps {next : NovaClient} (moves : Moves json client index call next) :
    next.pending = client.pending ∧ next.reading = client.reading := by
  cases moves with
  | rests | listens | fails | dispatches | undispatched | concludes => exact ⟨rfl, rfl⟩

theorem receive_reading (client : NovaClient) (frame : NvpFrame) :
    (client.receive json frame).reading = client.reading := by
  unfold receive hand deliver
  repeat' split
  all_goals rfl

theorem register_nonempty {bytes : List UInt8} (serialized : call.kind.request.toBytes json = .ok bytes) :
    (client.register json index call).pending ≠ ∅ ∧
      (client.register json index call).reading = client.reading := by
  rw [register, serialized]
  refine ⟨?_, rfl⟩
  intro empty
  have found := AList.lookup_insert (b := index) (a := call.reqId) client.pending
  dsimp only at empty
  rw [empty, AList.lookup_empty] at found
  cases found

/-- A step releases the calls exactly when it is permitted. -/
theorem perform_released_iff (client : NovaClient) (action : Action)
    (held : Held client.calls client.pending) (released : client.Released) :
    (client.perform json action).Released <-> Permitted json client action := by
  rw [released_iff_empty (perform_held client action held)]
  have empty := (released_iff_empty held).mp released
  cases action with
  | call kind => exact ⟨fun _ => trivial, fun _ => empty⟩
  | write =>
      simp only [perform]
      refine ⟨fun _ => trivial, fun _ => ?_⟩
      split
      · exact empty
      · exact empty
  | writeEnds => exact ⟨fun _ => trivial, fun _ => empty⟩
  | frame frame =>
      simp only [perform]
      refine ⟨fun _ => trivial, fun _ => ?_⟩
      split
      · rename_i reads
        rw [receive_reading, reads]
        intro stopped
        cases stopped
      · exact empty
  | readEnds reason =>
      simp only [perform, Permitted, true_implies]
      constructor
      · intro emptied _
        exact emptied
      · intro permitted
        by_cases reads : client.reading = true
        · exact permitted reads
        · exact empty (Bool.eq_false_of_not_eq_true reads)
  | advance index =>
      simp only [perform, Permitted]
      cases isCall : client.calls[index]? with
      | none =>
          have rests : client.advance json index = client := by
            rw [advance, isCall]
          rw [rests]
          refine ⟨fun _ _ call absent => ?_, fun _ => empty⟩
          cases absent
      | some call =>
          rcases @advance_cases json client index call isCall with
            ⟨registers, bytes, serialized, same⟩ | ⟨idle, moves⟩
          · rcases @register_nonempty json client index call bytes serialized with ⟨nonempty, reads⟩
            rw [same, reads]
            constructor
            · intro emptied ended
              exact absurd (emptied ended) nonempty
            · intro permitted ended
              rw [permitted ended call rfl] at registers
              cases registers
          · rw [moves.keeps.1, moves.keeps.2]
            refine ⟨fun _ _ other isOther => ?_, fun _ => empty⟩
            cases isOther
            exact idle

/-! ## Runs -/

theorem connected_held : Held connected.calls connected.pending := by
  intro index call isCall
  cases isCall

/-- A lost connection leaves no caller waiting, in any state of a run, exactly when
the read task ends with every registered call answered and no call registers after
that. -/
theorem released_iff (json : PayloadJson) (actions : List Action) :
    Run.Throughout (perform json) Released connected actions <->
      Run.Along (perform json) (Permitted json) connected actions := by
  apply Run.throughout_iff_along perform_held perform_released_iff connected_held
  intro ended
  cases ended

/-- A ping whose reply never comes. -/
def unanswered : List Action :=
  [.call (.sendRequest .ping), .advance 0, .advance 0, .write, .readEnds .endOfStream]

/-- The stream ends while a call waits, and the call keeps waiting. -/
theorem unanswered_not_released :
    ¬ Run.Throughout (perform pingJson) Released connected unanswered := by
  intro throughout
  have released : (Run.last (perform pingJson) connected unanswered).Released := throughout.last
  have registered : (Run.last (perform pingJson) connected unanswered).pending.lookup 1 = some 0 := by
    decide +kernel
  rw [(released rfl).1, AList.lookup_empty] at registered
  cases registered

end NovaClient

end Client
end NovaDb
