import NovaDb.Foundation.Runs
import NovaDb.Server.Web

namespace NovaDb
namespace Server

open Core Foundation Protocol Query Storage

/-!
# Who reaches the engine

The server listens twice: always for NVP, and for HTTP when a web port is
configured.  Frames and requests arrive on any number of connections in any
order.  The NVP side asks the flag of the connection in front of every call into
the engine; the HTTP side has no flag to ask.
-/

/-! ## Handling a frame -/

section Handlers

variable {json : PayloadJson} {T : TextTables} {config : ServerConfig} {draw : Draw}
  {frame : NvpFrame} {handler : ConnectionHandler} {token : String}

/-- The payload a frame carries as a request. -/
def sentPayload (json : PayloadJson) (frame : NvpFrame) : Option RequestPayload :=
  if frame.frameType = .request then (RequestPayload.fromBytes json frame.payload).toOption
  else none

theorem handleFrame_of_sent {payload : RequestPayload}
    (sent : sentPayload json frame = some payload) :
    handler.handleFrame json T config draw frame =
      handler.handleRequest T config draw frame.requestId payload := by
  unfold sentPayload at sent
  split at sent
  · rename_i isRequest
    rw [ConnectionHandler.handleFrame, isRequest]
    dsimp only
    cases decoded : RequestPayload.fromBytes json frame.payload with
    | error failure =>
        rw [decoded] at sent
        cases sent
    | ok other =>
        rw [decoded] at sent
        cases sent
        rfl
  · cases sent

/-- A frame that carries no request leaves the flag and does not reach the engine. -/
theorem handleFrame_of_not_sent (sent : sentPayload json frame = none) :
    (handler.handleFrame json T config draw frame).1 = handler ∧
      (handler.handleFrame json T config draw frame).2.calls = [] := by
  unfold sentPayload at sent
  rw [ConnectionHandler.handleFrame]
  cases isType : frame.frameType with
  | request =>
      rw [if_pos isType] at sent
      cases decoded : RequestPayload.fromBytes json frame.payload with
      | error failure => exact ⟨rfl, rfl⟩
      | ok payload =>
          rw [decoded] at sent
          cases sent
  | response | event | error | ping | pong => exact ⟨rfl, rfl⟩

theorem calls_guarded {reqId : UInt64} {handling : Handling} {call : EngineCall}
    (called : call ∈ (handler.guarded reqId handling).calls) : handler.authenticated = true := by
  unfold ConnectionHandler.guarded at called
  split at called
  · assumption
  · cases called

/-- The engine is called for authenticated clients only. -/
theorem authenticated_of_call {call : EngineCall}
    (called : call ∈ (handler.handleFrame json T config draw frame).2.calls) :
    handler.authenticated = true := by
  cases sent : sentPayload json frame with
  | none =>
      rw [(handleFrame_of_not_sent sent).2] at called
      cases called
  | some payload =>
      rw [handleFrame_of_sent sent] at called
      cases payload with
      | query nql => exact calls_guarded called
      | watch nql => exact calls_guarded called
      | unwatch subscription => exact calls_guarded called
      | ping => cases called
      | auth given =>
          simp only [ConnectionHandler.handleRequest] at called
          split at called
          · split at called <;> cases called
          · cases called

/-- The flag is set by the right token alone, and never taken back. -/
theorem handleFrame_flag (isToken : config.authToken = some token) :
    (handler.handleFrame json T config draw frame).1 =
      if sentPayload json frame = some (.auth token) then ⟨true⟩ else handler := by
  cases sent : sentPayload json frame with
  | none =>
      rw [(handleFrame_of_not_sent sent).1, if_neg (by nofun)]
  | some payload =>
      rw [handleFrame_of_sent sent]
      cases payload with
      | query nql => rw [if_neg (by nofun), ConnectionHandler.handleRequest]
      | watch nql => rw [if_neg (by nofun), ConnectionHandler.handleRequest]
      | unwatch subscription => rw [if_neg (by nofun), ConnectionHandler.handleRequest]
      | ping => rw [if_neg (by nofun), ConnectionHandler.handleRequest]
      | auth given =>
          simp only [ConnectionHandler.handleRequest, isToken, Option.some.injEq,
            RequestPayload.auth.injEq]
          split
          · rfl
          · rfl

end Handlers

/-! ## Arrivals -/

/-- An accepted connection. -/
inductive Connection where
  | serving (handler : ConnectionHandler)
  | ended
  deriving DecidableEq, Repr

/-- What is done on behalf of a connection: it sends a request, or the engine is
called for it. -/
inductive Deed where
  | sent (connection : Nat) (payload : RequestPayload)
  | reached (connection : Nat) (call : EngineCall)

def Deed.connection : Deed -> Nat
  | .sent connection _ => connection
  | .reached connection _ => connection

/-- What arrives from outside.  A connection ends by itself, by a framing error or
with a panic of its handler. -/
inductive Arrival where
  | connect
  | frame (connection : Nat) (frame : NvpFrame) (draw : Draw)
  | disconnect (connection : Nat)
  | http (bytes : List UInt8) (moment : HttpMoment)

/-- The connections accepted so far, and what was done for them, oldest first. -/
structure Listening where
  connections : List Connection
  trace : List Deed

namespace Listening

def start : Listening where
  connections := []
  trace := []

/-- The permits taken. -/
def served (listening : Listening) : Nat :=
  listening.connections.countP (fun connection => decide (connection ≠ .ended))

section Arrivals

variable {Number : Type} (json : PayloadJson) (T : TextTables)
  (fromStr : String -> Option (JsonValue Number)) (config : ServerConfig)

/-- The two accept loops of `NovaServer::run`, and the tasks they spawn. -/
def perform (arrival : Arrival) (listening : Listening) : Listening :=
  match arrival with
  | .connect =>
      { listening with
        connections := listening.connections ++
          [if listening.served < config.maxConnections then .serving (ConnectionHandler.new config)
            else .ended] }
  | .frame connection frame draw =>
      match listening.connections[connection]? with
      | some (.serving handler) =>
          let handled := handler.handleFrame json T config draw frame
          { connections := listening.connections.set connection (.serving handled.1)
            trace := listening.trace ++ (sentPayload json frame).toList.map (Deed.sent connection) ++
              handled.2.calls.map (Deed.reached connection) }
      | _ => listening
  | .disconnect connection =>
      { listening with connections := listening.connections.set connection .ended }
  | .http bytes moment =>
      if config.webPort.isSome then
        { connections := listening.connections ++ [.ended]
          trace := listening.trace ++
            (httpCalls fromStr T moment bytes).map (Deed.reached listening.connections.length) }
      else listening

/-- The engine is reached on behalf of a connection only behind the right token. -/
def Guarded (token : String) (trace : List Deed) : Prop :=
  forall before connection call after, trace = before ++ Deed.reached connection call :: after ->
    Deed.sent connection (.auth token) ∈ before

/-- An arrival that is a failed `Auth` leaves every connection as it is. -/
def Inert (token : String) (listening : Listening) (arrival : Arrival) : Prop :=
  forall connection frame draw given, arrival = .frame connection frame draw ->
    sentPayload json frame = some (.auth given) -> given ≠ token ->
    (perform json T fromStr config arrival listening).connections = listening.connections

/-- Authentication guards the engine in a run: its trace has no call of the engine by a
connection that has not sent the token, and no step lets a wrong token change the
connections. -/
def Guards (token : String) (arrivals : List Arrival) : Prop :=
  Guarded token (Run.last (perform json T fromStr config) start arrivals).trace ∧
    Run.Along (perform json T fromStr config) (Inert json T fromStr config token) start arrivals

end Arrivals

end Listening

/-! ## Requests to the web console that need the engine -/

/-- A query that is not blank and parses, the sample data when one of its
statements parses, and the event stream when its header can be written. -/
def HttpAction.NeedsEngine (T : TextTables) (moment : HttpMoment) : HttpAction -> Prop
  | .query text _ => trim text ≠ "" ∧ accepted T (moment.draws 0) text ≠ none
  | .seed => acceptedFrom T moment.draws 0 seedQueries ≠ []
  | .events => moment.writable = true
  | .preflight | .studio | .status | .notFound => False

theorem HttpAction.calls_eq_nil_iff {T : TextTables} {moment : HttpMoment} {action : HttpAction} :
    action.calls T moment = [] <-> ¬ action.NeedsEngine T moment := by
  cases action with
  | query text ns =>
      simp only [calls, NeedsEngine]
      split
      · rename_i blank
        exact ⟨fun _ needs => needs.1 blank, fun _ => rfl⟩
      · rename_i written
        cases accepted T (moment.draws 0) text with
        | none => exact ⟨fun _ needs => needs.2 rfl, fun _ => rfl⟩
        | some statement =>
            refine ⟨fun empty => absurd empty (List.cons_ne_nil _ _), ?_⟩
            intro none
            exact absurd ⟨written, Option.some_ne_none statement⟩ none
  | seed =>
      simp only [calls, NeedsEngine, List.take_eq_nil_iff, List.map_eq_nil_iff, ne_eq,
        Nat.add_one_ne_zero, false_or, not_not]
  | events =>
      simp only [calls, NeedsEngine]
      split
      · rename_i writable
        exact ⟨fun empty => absurd empty (List.cons_ne_nil _ _),
          fun unwritable => absurd writable unwritable⟩
      · rename_i unwritable
        exact ⟨fun _ => unwritable, fun _ => rfl⟩
  | preflight | studio | status | notFound => exact ⟨fun _ => id, fun _ => rfl⟩

/-- The arrival is a request to a listening web console that needs the engine. -/
def Arrival.OpensWeb {Number : Type} (fromStr : String -> Option (JsonValue Number))
    (T : TextTables) (config : ServerConfig) : Arrival -> Prop
  | .http bytes moment =>
      config.webPort.isSome = true ∧ bytes ≠ [] ∧
        (routeHttp fromStr (fromUtf8Lossy (bytes.take 8192))).NeedsEngine T moment
  | _ => False

theorem httpCalls_eq_nil_iff {Number : Type} {fromStr : String -> Option (JsonValue Number)}
    {T : TextTables} {moment : HttpMoment} {bytes : List UInt8} :
    httpCalls fromStr T moment bytes = [] <->
      ¬ (bytes ≠ [] ∧ (routeHttp fromStr (fromUtf8Lossy (bytes.take 8192))).NeedsEngine T moment) := by
  rw [httpCalls]
  cases bytes with
  | nil => exact ⟨fun _ needs => needs.1 rfl, fun _ => rfl⟩
  | cons byte rest =>
      rw [if_neg (by rw [List.take_succ_cons]; nofun), HttpAction.calls_eq_nil_iff]
      exact ⟨fun idle needs => idle needs.2, fun idle needs => idle ⟨nofun, needs⟩⟩

namespace Listening

variable {Number : Type} {json : PayloadJson} {T : TextTables}
  {fromStr : String -> Option (JsonValue Number)} {config : ServerConfig} {token : String}
  {listening : Listening} {trace deeds : List Deed}

/-! ## The trace -/

theorem Guarded.nil : Guarded token [] := by
  intro before connection call after split
  exact absurd split.symm (List.append_ne_nil_of_right_ne_nil _ (List.cons_ne_nil _ _))

theorem Guarded.of_append (guarded : Guarded token (trace ++ deeds)) : Guarded token trace := by
  intro before connection call after split
  apply guarded before connection call (after ++ deeds)
  rw [split, List.append_assoc, List.cons_append]

/-- New deeds whose calls are all covered by what was sent before. -/
theorem Guarded.append (guarded : Guarded token trace)
    (covered : forall connection call, Deed.reached connection call ∈ deeds ->
      Deed.sent connection (.auth token) ∈ trace) : Guarded token (trace ++ deeds) := by
  intro before connection call after split
  rcases List.append_eq_append_iff.mp split with ⟨more, whole, rest⟩ | ⟨more, whole, rest⟩
  · rw [whole]
    refine List.mem_append_left _ (covered connection call ?_)
    rw [rest]
    exact List.mem_append_right _ (List.mem_cons_self)
  · cases more with
    | nil =>
        rw [List.append_nil] at whole
        rw [← whole]
        refine covered connection call ?_
        rw [← List.nil_append deeds, ← rest]
        exact List.mem_cons_self
    | cons first more =>
        rw [List.cons_append] at rest
        injection rest with same rest
        rw [← same] at whole
        exact guarded before connection call more whole

/-! ## The invariant -/

/-- Authenticated connections have sent the token, and the trace is about the
connections there are. -/
structure Accounted (token : String) (listening : Listening) : Prop where
  granted : forall connection, listening.connections[connection]? = some (.serving ⟨true⟩) ->
    Deed.sent connection (.auth token) ∈ listening.trace
  known : forall deed, deed ∈ listening.trace -> deed.connection < listening.connections.length

/-- The deeds of a frame of an authenticated or other client. -/
theorem perform_frame {connection : Nat} {frame : NvpFrame} {draw : Draw}
    {handler : ConnectionHandler} (isToken : config.authToken = some token)
    (serves : listening.connections[connection]? = some (.serving handler)) :
    Exists fun calls => (calls ≠ [] -> handler.authenticated = true) ∧
      perform json T fromStr config (.frame connection frame draw) listening =
        { connections := listening.connections.set connection
            (.serving (if sentPayload json frame = some (.auth token) then ⟨true⟩ else handler))
          trace := listening.trace ++ ((sentPayload json frame).toList.map (Deed.sent connection) ++
            calls.map (Deed.reached connection)) } := by
  refine ⟨(handler.handleFrame json T config draw frame).2.calls, ?_, ?_⟩
  · intro called
    rcases List.exists_mem_of_ne_nil _ called with ⟨call, isCall⟩
    exact authenticated_of_call isCall
  · simp only [perform, serves, handleFrame_flag isToken, List.append_assoc]

/-- Without a serving connection a frame has no effect. -/
theorem perform_frame_unserved {connection : Nat} {frame : NvpFrame} {draw : Draw}
    (unserved : forall handler, listening.connections[connection]? ≠ some (.serving handler)) :
    perform json T fromStr config (.frame connection frame draw) listening = listening := by
  rw [perform]
  split
  · rename_i handler serves
    exact absurd serves (unserved handler)
  · rfl

theorem perform_accounted (isToken : config.authToken = some token) (arrival : Arrival)
    (accounted : Accounted token listening) :
    Accounted token (perform json T fromStr config arrival listening) := by
  cases arrival with
  | connect =>
      refine ⟨?_, ?_⟩
      · intro connection serves
        simp only [perform] at serves
        rw [List.getElem?_append] at serves
        split at serves
        · exact accounted.granted connection serves
        · split at serves
          · rw [ConnectionHandler.new, isToken] at serves
            have found := List.mem_of_getElem? serves
            rw [List.mem_singleton] at found
            cases found
          · have found := List.mem_of_getElem? serves
            rw [List.mem_singleton] at found
            cases found
      · intro deed done
        have known := accounted.known deed done
        simp only [perform, List.length_append]
        exact Nat.lt_add_right _ known
  | frame connection frame draw =>
      by_cases served : Exists fun handler => listening.connections[connection]? = some (.serving handler)
      · rcases served with ⟨handler, serves⟩
        rcases @perform_frame _ json T fromStr config token listening connection frame draw handler
          isToken serves with ⟨calls, _, performed⟩
        have inside : connection < listening.connections.length :=
          (List.getElem?_eq_some_iff.mp serves).1
        rw [performed]
        refine ⟨?_, ?_⟩
        · intro other granted
          dsimp only at granted ⊢
          by_cases same : connection = other
          · subst other
            rw [List.getElem?_set_self inside] at granted
            by_cases sent : sentPayload json frame = some (.auth token)
            · rw [sent]
              exact List.mem_append_right _ (List.mem_append_left _ List.mem_cons_self)
            · rw [if_neg sent] at granted
              apply List.mem_append_left
              apply accounted.granted connection
              rw [serves]
              exact granted
          · rw [List.getElem?_set_ne same] at granted
            exact List.mem_append_left _ (accounted.granted other granted)
        · intro deed done
          rw [List.length_set]
          rcases List.mem_append.mp done with old | new
          · exact accounted.known deed old
          · rcases List.mem_append.mp new with sent | reached
            · rcases List.mem_map.mp sent with ⟨payload, _, rfl⟩
              exact inside
            · rcases List.mem_map.mp reached with ⟨call, _, rfl⟩
              exact inside
      · rw [perform_frame_unserved (fun handler serves => served ⟨handler, serves⟩)]
        exact accounted
  | disconnect connection =>
      refine ⟨?_, ?_⟩
      · intro other granted
        apply accounted.granted other
        simp only [perform, List.getElem?_set] at granted
        split at granted
        · split at granted <;> cases granted
        · exact granted
      · intro deed done
        simp only [perform, List.length_set]
        exact accounted.known deed done
  | http bytes moment =>
      rw [perform]
      split
      · refine ⟨?_, ?_⟩
        · intro connection granted
          rw [List.getElem?_append] at granted
          split at granted
          · exact List.mem_append_left _ (accounted.granted connection granted)
          · have found := List.mem_of_getElem? granted
            rw [List.mem_singleton] at found
            cases found
        · intro deed done
          rw [List.length_append, List.length_singleton]
          rcases List.mem_append.mp done with old | new
          · exact Nat.lt_succ_of_lt (accounted.known deed old)
          · rcases List.mem_map.mp new with ⟨call, _, rfl⟩
            exact Nat.lt_succ_self _
      · exact accounted

/-- An arrival keeps the trace guarded unless it opens the web console's way. -/
theorem perform_guarded_iff (isToken : config.authToken = some token) (arrival : Arrival)
    (accounted : Accounted token listening) (guarded : Guarded token listening.trace) :
    Guarded token (perform json T fromStr config arrival listening).trace <->
      ¬ arrival.OpensWeb fromStr T config := by
  cases arrival with
  | connect => exact ⟨fun _ => id, fun _ => guarded⟩
  | disconnect connection => exact ⟨fun _ => id, fun _ => guarded⟩
  | frame connection frame draw =>
      refine ⟨fun _ => id, fun _ => ?_⟩
      by_cases served : Exists fun handler => listening.connections[connection]? = some (.serving handler)
      · rcases served with ⟨handler, serves⟩
        rcases @perform_frame _ json T fromStr config token listening connection frame draw handler
          isToken serves with ⟨calls, flagged, performed⟩
        rw [performed]
        apply guarded.append
        intro other call reached
        rcases List.mem_append.mp reached with sent | called
        · rcases List.mem_map.mp sent with ⟨payload, _, same⟩
          cases same
        · rcases List.mem_map.mp called with ⟨made, isCall, same⟩
          cases same
          apply accounted.granted connection
          rw [serves]
          have flag := flagged (List.ne_nil_of_mem isCall)
          cases handler
          cases flag
          rfl
      · rw [perform_frame_unserved (fun handler serves => served ⟨handler, serves⟩)]
        exact guarded
  | http bytes moment =>
      rw [perform]
      split
      · rename_i listens
        constructor
        · rintro kept ⟨_, needs⟩
          have called : httpCalls fromStr T moment bytes ≠ [] :=
            fun idle => httpCalls_eq_nil_iff.mp idle needs
          cases calls : httpCalls fromStr T moment bytes with
          | nil => exact called calls
          | cons call rest =>
              rw [calls] at kept
              have sent := kept listening.trace listening.connections.length call _ rfl
              exact absurd (accounted.known _ sent) (Nat.lt_irrefl _)
        · intro closed
          have idle : httpCalls fromStr T moment bytes = [] :=
            httpCalls_eq_nil_iff.mpr (fun needs => closed ⟨listens, needs⟩)
          dsimp only
          rw [idle, List.map_nil, List.append_nil]
          exact guarded
      · rename_i silent
        exact ⟨fun _ opens => silent opens.1, fun _ => guarded⟩

/-- A failed `Auth` has no effect on any connection. -/
theorem inert (isToken : config.authToken = some token) (arrival : Arrival) :
    Inert json T fromStr config token listening arrival := by
  rintro connection frame draw given rfl sent different
  by_cases served : Exists fun handler => listening.connections[connection]? = some (.serving handler)
  · rcases served with ⟨handler, serves⟩
    rcases @perform_frame _ json T fromStr config token listening connection frame draw handler
      isToken serves with ⟨calls, _, performed⟩
    have refused : sentPayload json frame ≠ some (.auth token) := by
      rw [sent]
      intro same
      cases same
      exact different rfl
    rw [performed, if_neg refused]
    dsimp only
    rcases List.getElem?_eq_some_iff.mp serves with ⟨inside, same⟩
    rw [← same, List.set_getElem_self inside]
  · rw [perform_frame_unserved (fun handler serves => served ⟨handler, serves⟩)]

/-! ## Runs -/

theorem start_accounted : Accounted token start where
  granted := by
    intro connection serves
    cases serves
  known := nofun

/-- Nothing that was done is taken back. -/
theorem perform_trace (arrival : Arrival) : Exists fun deeds =>
    (perform json T fromStr config arrival listening).trace = listening.trace ++ deeds := by
  cases arrival with
  | connect => exact ⟨[], (List.append_nil _).symm⟩
  | disconnect connection => exact ⟨[], (List.append_nil _).symm⟩
  | frame connection frame draw =>
      rw [perform]
      split
      · exact ⟨_, List.append_assoc _ _ _⟩
      · exact ⟨[], (List.append_nil _).symm⟩
  | http bytes moment =>
      rw [perform]
      split
      · exact ⟨_, rfl⟩
      · exact ⟨[], (List.append_nil _).symm⟩

/-- The engine is reached only behind the token exactly when no arrival opens the
web console's way; a failed `Auth` has no effect in any run. -/
theorem guards_iff (isToken : config.authToken = some token) (arrivals : List Arrival) :
    Guards json T fromStr config token arrivals <->
      forall arrival, arrival ∈ arrivals -> ¬ arrival.OpensWeb fromStr T config := by
  have failed : Run.Along (perform json T fromStr config) (Inert json T fromStr config token) start
      arrivals := Run.along_of_always (fun _ arrival => inert isToken arrival)
  have lasting : forall listening arrival,
      Guarded token (perform json T fromStr config arrival listening).trace ->
        Guarded token listening.trace := by
    intro listening arrival guarded
    rcases @perform_trace _ json T fromStr config listening arrival with ⟨deeds, extended⟩
    rw [extended] at guarded
    exact guarded.of_append
  rw [Guards, and_iff_left failed, ← Run.along_iff_forall,
    ← Run.throughout_iff_along (fun _ arrival => perform_accounted isToken arrival)
      (fun _ arrival => perform_guarded_iff isToken arrival) start_accounted Guarded.nil]
  exact (@Run.throughout_iff_last _ _ _ (fun (listening : Listening) => Guarded token listening.trace) _ _
    lasting).symm

/-! ## The event stream of the web console -/

/-- `GET /api/events HTTP/1.1`, as a browser sends it. -/
def eventsRequest : Arrival :=
  .http (utf8Bytes "GET /api/events HTTP/1.1\r\n\r\n") ⟨fun _ => ⟨Vector.replicate 16 0, 0⟩, true, 0⟩

theorem eventsRequest_opensWeb (listens : config.webPort ≠ none) :
    eventsRequest.OpensWeb fromStr T config := by
  have parts : splitWhitespace (firstLine (fromUtf8Lossy
      ((utf8Bytes "GET /api/events HTTP/1.1\r\n\r\n").take 8192))) =
        ["GET".toList, "/api/events".toList, "HTTP/1.1".toList] := by
    decide +kernel
  refine ⟨Option.isSome_iff_ne_none.mpr listens, by decide +kernel, ?_⟩
  have route : routeHttp fromStr (fromUtf8Lossy
      ((utf8Bytes "GET /api/events HTTP/1.1\r\n\r\n").take 8192)) = .events := by
    rw [routeHttp, parts]
    rfl
  rw [route]
  rfl

/-- With a token configured, authentication guards the engine in every run exactly
when there is no web port; in a run with one, exactly when no request to the web
console needs the engine. -/
theorem auth_guards_iff (json : PayloadJson) (T : TextTables)
    (fromStr : String -> Option (JsonValue Number)) (config : ServerConfig) (token : String)
    (isToken : config.authToken = some token) :
    ((forall arrivals, Guards json T fromStr config token arrivals) <-> config.webPort = none) ∧
      forall arrivals, Guards json T fromStr config token arrivals <->
        forall arrival, arrival ∈ arrivals -> ¬ arrival.OpensWeb fromStr T config := by
  refine ⟨⟨?_, ?_⟩, guards_iff isToken⟩
  · intro guards
    by_contra listens
    apply (guards_iff isToken [eventsRequest]).mp (guards [eventsRequest]) eventsRequest
    · exact List.mem_cons_self
    · exact eventsRequest_opensWeb listens
  · intro silent arrivals
    apply (guards_iff isToken arrivals).mpr
    intro arrival _ opens
    cases arrival with
    | http bytes moment =>
        rw [Arrival.OpensWeb, silent] at opens
        cases opens.1
    | connect | frame | disconnect => exact opens

/-- A server that asks for a token and has a web console. -/
def consoleConfig : ServerConfig where
  maxConnections := 1000
  authToken := some "secret"
  webPort := some 8080

/-- The condition and its failure at one configuration each. -/
theorem auth_guards_sample :
    ({ consoleConfig with webPort := none } : ServerConfig).authToken = some "secret" ∧
      ((forall arrivals, Guards pingJson referenceTables (fun _ => (none : Option (JsonValue Nat)))
        { consoleConfig with webPort := none } "secret" arrivals) <-> (none : Option UInt16) = none) ∧
      forall arrivals, Guards pingJson referenceTables (fun _ => (none : Option (JsonValue Nat)))
          { consoleConfig with webPort := none } "secret" arrivals <->
        forall arrival, arrival ∈ arrivals -> ¬ arrival.OpensWeb
          (fun _ => (none : Option (JsonValue Nat))) referenceTables
          { consoleConfig with webPort := none } := by
  have isToken : ({ consoleConfig with webPort := none } : ServerConfig).authToken = some "secret" := rfl
  exact ⟨isToken, auth_guards_iff _ _ _ _ _ isToken⟩

/-- The web console hands its event stream to a client that never sent the token. -/
theorem events_unguarded :
    ¬ Guards pingJson referenceTables (fun _ => (none : Option (JsonValue Nat))) consoleConfig "secret"
      [eventsRequest] := by
  intro guards
  apply (guards_iff rfl [eventsRequest]).mp guards eventsRequest List.mem_cons_self
  exact eventsRequest_opensWeb (by decide)

end Listening

end Server
end NovaDb
