import NovaDb.Server.Authentication
import NovaDb.Server.LiveState

namespace NovaDb
namespace Server

open Core Foundation Protocol Query Storage DatabaseEngine

/-!
# Subscriptions of a connection

The reader loop of a connection handles one frame at a time and enqueues its reply;
each accepted WATCH leaves a task behind that takes the events of the broadcast
channel one by one and enqueues those that match.  The tasks and the loop share
nothing but the outgoing channel, and they take turns in any order.  An `Unwatch` is
answered by the loop; no task hears of it.
-/

/-- The capacities of the broadcast channel and of the outgoing channel. -/
def eventCapacity : Nat := 4096

def frameCapacity : Nat := 1024

/-- A WATCH task: how many events of the channel are behind it, and the frame it is
waiting to enqueue. -/
structure WatchTask where
  watcher : Watcher
  position : Nat
  waiting : Option NvpFrame

/-- Where the reader loop is: waiting for a frame, for the engine, or for room for
the reply to a request. -/
inductive Reader where
  | idle
  | calling (request : Option RequestPayload) (reqId : UInt64) (handling : Handling)
  | replying (request : Option RequestPayload) (frame : NvpFrame)
  | stopped

/-- What a connection has done: accepted a WATCH, or enqueued a frame, in reply to a
request or from a WATCH task. -/
inductive Mark where
  | accepted (subId : UInt64)
  | enqueued (request : Option RequestPayload) (frame : NvpFrame)

/-- One connection, with the events that all clients together have published: the
handler and the reader loop, the WATCH tasks with their receivers, the frames between
the channel and the socket, and a trace of what was accepted and enqueued. -/
structure Session where
  handler : ConnectionHandler
  reader : Reader
  tasks : List WatchTask
  events : List DataEvent
  queue : List NvpFrame
  channelOpen : Bool
  trace : List Mark

/-- What the watcher sends of an event, if it survives it. -/
def Watcher.sends (P : Platform) (json : PayloadJson) (watcher : Watcher) (event : DataEvent) :
    Option NvpFrame :=
  match watcher.onEvent P json event with
  | .ok frame => frame
  | .error _ => none

/-- The frames of a list of events. -/
def due (P : Platform) (json : PayloadJson) (watcher : Watcher) (events : List DataEvent) :
    List NvpFrame :=
  events.filterMap (watcher.sends P json)

/-- The events that a receiver at this position still gets: what has not fallen out of
the channel. -/
def receivable (events : List DataEvent) (position : Nat) : List DataEvent :=
  events.drop (max position (events.length - eventCapacity))

/-- The task has nothing left to send: no frame in hand, and nothing due from the events
in its receiver. -/
def WatchTask.Drained (P : Platform) (json : PayloadJson) (events : List DataEvent)
    (task : WatchTask) : Prop :=
  task.waiting = none ∧ due P json task.watcher (receivable events task.position) = []

/-- Who takes a turn.  Frames come from the client, outcomes from the engine, events
from the statements of any client. -/
inductive Turn where
  | frame (frame : NvpFrame) (draw : Draw)
  | returned (outcome : Outcome ResponsePayload)
  | reply
  | disconnect
  | published (event : DataEvent)
  | receive (task : Nat)
  | deliver (task : Nat)
  | write
  | writerEnds

/-- How a subscription stands. -/
inductive Standing where
  | unknown
  | active
  | cancelled
  deriving DecidableEq, Repr

/-- An accepted WATCH starts a subscription, the reply to an `Unwatch` ends it. -/
def standingAfter (subId : UInt64) (standing : Standing) : Mark -> Standing
  | .accepted other => if other = subId then .active else standing
  | .enqueued (some (.unwatch other)) _ => if other = subId then .cancelled else standing
  | .enqueued _ _ => standing

def standing (subId : UInt64) (trace : List Mark) : Standing :=
  trace.foldl (standingAfter subId) .unknown

/-- Every event frame was enqueued while the subscription of its id was active: behind
an accepted WATCH of the id, and not behind the reply to an `Unwatch` of it. -/
def OnlyWhileActive (trace : List Mark) : Prop :=
  forall before request frame after, trace = before ++ Mark.enqueued request frame :: after ->
    frame.frameType = .event -> standing frame.requestId before = .active

namespace Session

/-- An accepted connection. -/
def accept (config : ServerConfig) (events : List DataEvent) : Session where
  handler := ConnectionHandler.new config
  reader := .idle
  tasks := []
  events := events
  queue := []
  channelOpen := true
  trace := []

section Turns

variable (P : Platform) (json : PayloadJson) (T : TextTables) (config : ServerConfig)

/-- What the reader loop does with the result of `handle_frame`. -/
def settle (request : Option RequestPayload) (reqId : UInt64)
    (outcome : Outcome ResponsePayload) (handling : Handling) : Reader :=
  match replies json reqId (handling.finish json outcome) with
  | none => .stopped
  | some [] => .idle
  | some (frame :: _) => .replying request frame

/-- The reader loop on a frame, up to the engine. -/
def onFrame (frame : NvpFrame) (draw : Draw) (session : Session) : Session :=
  let request := sentPayload json frame
  let handled := session.handler.handleFrame json T config draw frame
  match handled.2 with
  | .executes reqId statement =>
      { session with
        handler := handled.1
        reader := .calling request frame.requestId (.executes reqId statement) }
  | .watches watcher =>
      { session with
        handler := handled.1
        reader := settle json request frame.requestId (.ok .pong) (.watches watcher)
        tasks := session.tasks ++ [⟨watcher, session.events.length, none⟩]
        trace := session.trace ++ [.accepted watcher.subId] }
  | handling =>
      { session with
        handler := handled.1
        reader := settle json request frame.requestId (.ok .pong) handling }

/-- The reader loop sends its reply when there is room; without a receiver it breaks
out, except behind an error. -/
def onReply (request : Option RequestPayload) (frame : NvpFrame) (session : Session) : Session :=
  if session.channelOpen then
    if session.queue.length < frameCapacity then
      { session with
        reader := .idle
        queue := session.queue ++ [frame]
        trace := session.trace ++ [.enqueued request frame] }
    else session
  else { session with reader := if frame.frameType = .error then .idle else .stopped }

/-- A WATCH task takes its next event.  One that lags behind goes on with the oldest
event that is still there. -/
def onReceive (index : Nat) (task : WatchTask) (session : Session) : Session :=
  if eventCapacity < session.events.length - task.position then
    { session with
      tasks := session.tasks.set index
        { task with position := session.events.length - eventCapacity } }
  else
    match session.events[task.position]? with
    | none => session
    | some event =>
        match task.watcher.onEvent P json event with
        | .error _ => { session with tasks := session.tasks.eraseIdx index }
        | .ok waiting =>
            { session with
              tasks := session.tasks.set index
                { task with position := task.position + 1, waiting := waiting } }

/-- A WATCH task enqueues its frame when there is room; without a receiver it ends. -/
def onDeliver (index : Nat) (task : WatchTask) (frame : NvpFrame) (session : Session) : Session :=
  if session.channelOpen then
    if session.queue.length < frameCapacity then
      { session with
        tasks := session.tasks.set index { task with waiting := none }
        queue := session.queue ++ [frame]
        trace := session.trace ++ [.enqueued none frame] }
    else session
  else { session with tasks := session.tasks.eraseIdx index }

/-- One turn.  Whoever has nothing to do leaves everything as it is. -/
def step (turn : Turn) (session : Session) : Session :=
  match turn with
  | .frame frame draw =>
      match session.reader with
      | .idle => onFrame json T config frame draw session
      | _ => session
  | .returned outcome =>
      match session.reader with
      | .calling request reqId handling =>
          { session with reader := settle json request reqId outcome handling }
      | _ => session
  | .reply =>
      match session.reader with
      | .replying request frame => onReply request frame session
      | _ => session
  | .disconnect =>
      match session.reader with
      | .idle => { session with reader := .stopped }
      | _ => session
  | .published event => { session with events := session.events ++ [event] }
  | .receive index =>
      match session.tasks[index]? with
      | some task =>
          match task.waiting with
          | none => onReceive P json index task session
          | some _ => session
      | none => session
  | .deliver index =>
      match session.tasks[index]? with
      | some task =>
          match task.waiting with
          | some frame => onDeliver index task frame session
          | none => session
      | none => session
  | .write => { session with queue := session.queue.tail }
  | .writerEnds => { session with channelOpen := false, queue := [] }

/-- No task enqueues an event of a subscription that was cancelled. -/
def Permitted (session : Session) (turn : Turn) : Prop :=
  forall index task, turn = .deliver index -> session.tasks[index]? = some task ->
    task.waiting.isSome -> session.channelOpen = true -> session.queue.length < frameCapacity ->
    standing task.watcher.subId session.trace ≠ .cancelled

/-- Nothing is left for a cancelled subscription.  When the reply to an `Unwatch` is
enqueued, the tasks of that subscription have nothing left to send; and an event is
published only if no task sends it whose subscription stands cancelled. -/
def Quieted (session : Session) (turn : Turn) : Prop :=
  match turn, session.reader with
  | .reply, .replying (some (.unwatch subId)) _ =>
      session.channelOpen = true -> session.queue.length < frameCapacity ->
        forall task, task ∈ session.tasks -> task.watcher.subId = subId ->
          task.Drained P json session.events
  | .published event, _ =>
      forall task, task ∈ session.tasks -> standing task.watcher.subId session.trace = .cancelled ->
        task.watcher.sends P json event = none
  | _, _ => True

instance decidableQuieted (session : Session) (turn : Turn) :
    Decidable (Quieted P json session turn) := by
  unfold Quieted WatchTask.Drained
  split <;> infer_instance

end Turns

end Session

/-! ## Standings and traces -/

theorem standing_append (subId : UInt64) (trace : List Mark) (mark : Mark) :
    standing subId (trace ++ [mark]) = standingAfter subId (standing subId trace) mark := by
  rw [standing, List.foldl_append]
  rfl

/-- A subscription that once was accepted stays known. -/
theorem standing_known {subId : UInt64} {trace : List Mark}
    (known : standing subId trace ≠ .unknown) (mark : Mark) :
    standing subId (trace ++ [mark]) ≠ .unknown := by
  rw [standing_append, standingAfter.eq_def]
  split
  · split
    · nofun
    · exact known
  · split
    · nofun
    · exact known
  · exact known

theorem standing_accepted (subId : UInt64) (trace : List Mark) :
    standing subId (trace ++ [.accepted subId]) = .active := by
  rw [standing_append]
  exact if_pos rfl

theorem onlyWhileActive_nil : OnlyWhileActive [] := by
  intro before request frame after split
  cases before <;> cases split

/-- One mark more. -/
theorem onlyWhileActive_append {trace : List Mark} {mark : Mark} :
    OnlyWhileActive (trace ++ [mark]) <-> OnlyWhileActive trace ∧
      forall request frame, mark = .enqueued request frame -> frame.frameType = .event ->
        standing frame.requestId trace = .active := by
  constructor
  · intro only
    refine ⟨?_, ?_⟩
    · intro before request frame after split
      apply only before request frame (after ++ [mark])
      rw [split, List.append_assoc, List.cons_append]
    · intro request frame isMark
      apply only trace request frame []
      rw [isMark]
  · rintro ⟨older, newest⟩ before request frame after split
    rcases List.eq_nil_or_concat after with nothing | ⟨front, last, isAfter⟩
    · rw [nothing] at split
      rcases List.append_inj' split rfl with ⟨sameTrace, sameMark⟩
      rw [← sameTrace]
      exact newest request frame (List.singleton_inj.mp sameMark)
    · rw [isAfter, List.concat_eq_append, ← List.cons_append, ← List.append_assoc] at split
      rcases List.append_inj' split rfl with ⟨sameTrace, _⟩
      exact older before request frame front sameTrace

/-- A mark that is no event frame. -/
theorem onlyWhileActive_other {trace : List Mark} {mark : Mark}
    (other : forall request frame, mark = .enqueued request frame -> frame.frameType ≠ .event) :
    OnlyWhileActive (trace ++ [mark]) <-> OnlyWhileActive trace := by
  rw [onlyWhileActive_append]
  constructor
  · exact fun both => both.1
  · intro older
    exact ⟨older, fun request frame isMark isEvent => absurd isEvent (other request frame isMark)⟩

/-! ## Replies -/

/-- What is replied at once is no event. -/
def Handling.Plain : Handling -> Prop
  | .replied (some frame) => frame.frameType ≠ .event
  | _ => True

section Replies

variable {json : PayloadJson} {T : TextTables} {config : ServerConfig} {draw : Draw}

theorem guarded_plain {handler : ConnectionHandler} {reqId : UInt64} {handling : Handling}
    (plain : handling.Plain) : (handler.guarded reqId handling).Plain := by
  unfold ConnectionHandler.guarded
  split
  · exact plain
  · exact trivial

theorem query_plain (reqId : UInt64) (nql : String) :
    (ConnectionHandler.query T draw reqId nql).Plain := by
  unfold ConnectionHandler.query
  split <;> exact trivial

theorem watch_plain (reqId : UInt64) (nql : String) :
    (ConnectionHandler.watch T draw reqId nql).Plain := by
  unfold ConnectionHandler.watch
  split <;> exact trivial

theorem handleFrame_plain (frame : NvpFrame) (handler : ConnectionHandler) :
    (handler.handleFrame json T config draw frame).2.Plain := by
  unfold ConnectionHandler.handleFrame
  split
  · exact nofun
  · exact trivial
  · split
    · exact trivial
    · unfold ConnectionHandler.handleRequest
      split
      · split
        · split <;> exact trivial
        · exact trivial
      · exact trivial
      · exact guarded_plain (query_plain _ _)
      · exact guarded_plain (watch_plain _ _)
      · exact guarded_plain trivial
  · exact trivial

theorem respond_frame {reqId : UInt64} {payload : ResponsePayload} {reply : Option NvpFrame}
    (responds : respond json reqId payload = .ok reply) :
    forall frame, frame ∈ reply -> frame.frameType ≠ .event := by
  unfold respond at responds
  cases encoded : payload.toBytes json with
  | error failure =>
      rw [encoded] at responds
      cases responds
  | ok bytes =>
      rw [encoded] at responds
      cases responds
      intro frame member
      cases Option.mem_some.mp member
      exact nofun

theorem finish_frame {handling : Handling} (plain : handling.Plain)
    {outcome : Outcome ResponsePayload} {reply : Option NvpFrame}
    (finished : handling.finish json outcome = .ok reply) :
    forall frame, frame ∈ reply -> frame.frameType ≠ .event := by
  have mapped : forall {α : Type} {result : Except NovaError α} {value : α},
      (result.mapError Fault.error : Outcome α) = .ok value -> result = .ok value := by
    intro α result value same
    cases result with
    | error failure => cases same
    | ok found =>
        cases same
        rfl
  cases handling with
  | replied already =>
      cases finished
      intro frame member
      cases reply with
      | none => cases member
      | some other =>
          cases Option.mem_some.mp member
          exact plain
  | answered reqId answer =>
      have responds := mapped finished
      cases answer with
      | error failure => cases responds
      | ok payload => exact respond_frame responds
  | executes reqId statement =>
      cases outcome with
      | error fault => cases finished
      | ok payload => exact respond_frame (mapped finished)
  | watches watcher => exact respond_frame (mapped finished)
  | panicked => cases finished

/-- The reader loop enqueues responses, errors and pongs. -/
theorem settle_frame {request cause : Option RequestPayload} {reqId : UInt64}
    {handling : Handling} (plain : handling.Plain) {outcome : Outcome ResponsePayload}
    {frame : NvpFrame}
    (settles : Session.settle json request reqId outcome handling = .replying cause frame) :
    frame.frameType ≠ .event := by
  unfold Session.settle replies at settles
  cases finished : handling.finish json outcome with
  | ok reply =>
      rw [finished] at settles
      cases reply with
      | none => cases settles
      | some found =>
          cases settles
          exact finish_frame plain finished frame rfl
  | error fault =>
      rw [finished] at settles
      cases fault with
      | panic message => cases settles
      | error failure =>
          simp only at settles
          cases encoded : (ResponsePayload.error failure).toBytes json with
          | error other =>
              rw [encoded] at settles
              cases settles
          | ok bytes =>
              rw [encoded] at settles
              cases settles
              exact nofun

end Replies

/-! ## The invariant -/

namespace Session

/-- Each task is that of an accepted WATCH and waits with events under its id; the
reader loop does not reply with events. -/
structure Sound (session : Session) : Prop where
  accepted : forall task, task ∈ session.tasks ->
    standing task.watcher.subId session.trace ≠ .unknown
  waiting : forall task frame, task ∈ session.tasks -> task.waiting = some frame ->
    frame.frameType = .event ∧ frame.requestId = task.watcher.subId
  replying : forall request frame, session.reader = .replying request frame ->
    frame.frameType ≠ .event
  calling : forall request reqId handling, session.reader = .calling request reqId handling ->
    handling.Plain

section Steps

variable {P : Platform} {json : PayloadJson} {T : TextTables} {config : ServerConfig}
  {session : Session}

theorem sound_accept (config : ServerConfig) (events : List DataEvent) :
    (accept config events).Sound := by
  refine ⟨nofun, nofun, ?_, ?_⟩
  · intro request frame same
    cases same
  · intro request reqId handling same
    cases same

/-- The same tasks behind a longer trace, or some of them. -/
theorem Sound.accepted_append (sound : session.Sound) (mark : Mark) {task : WatchTask}
    (member : task ∈ session.tasks) :
    standing task.watcher.subId (session.trace ++ [mark]) ≠ .unknown :=
  standing_known (sound.accepted task member) mark

/-- Another place of the reader loop. -/
theorem Sound.read (sound : session.Sound) {reader : Reader}
    (replying : forall request frame, reader = .replying request frame -> frame.frameType ≠ .event)
    (calling : forall request reqId handling, reader = .calling request reqId handling ->
      handling.Plain) : Sound { session with reader } :=
  ⟨sound.accepted, sound.waiting, replying, calling⟩

/-- The reader loop with nothing to reply. -/
theorem Sound.rest (sound : session.Sound) {reader : Reader}
    (quiet : reader = .idle ∨ reader = .stopped) : Sound { session with reader } := by
  apply sound.read
  · rintro request frame rfl
    rcases quiet with same | same <;> cases same
  · rintro request reqId handling rfl
    rcases quiet with same | same <;> cases same

/-- A task changed in its place, under the same watcher. -/
theorem Sound.setTask (sound : session.Sound) (changed : WatchTask) {index : Nat}
    {task : WatchTask} (isTask : session.tasks[index]? = some task) (same : changed.watcher = task.watcher)
    (waits : forall frame, changed.waiting = some frame ->
      frame.frameType = .event ∧ frame.requestId = task.watcher.subId) :
    Sound { session with tasks := session.tasks.set index changed } := by
  refine ⟨?_, ?_, sound.replying, sound.calling⟩
  · intro other member
    rcases List.mem_or_eq_of_mem_set member with older | rfl
    · exact sound.accepted other older
    · rw [same]
      exact sound.accepted task (List.mem_of_getElem? isTask)
  · intro other frame member isWaiting
    rcases List.mem_or_eq_of_mem_set member with older | rfl
    · exact sound.waiting other frame older isWaiting
    · rw [same]
      exact waits frame isWaiting

theorem Sound.endTask (sound : session.Sound) (index : Nat) :
    Sound { session with tasks := session.tasks.eraseIdx index } :=
  ⟨fun task member => sound.accepted task (List.mem_of_mem_eraseIdx member),
    fun task frame member => sound.waiting task frame (List.mem_of_mem_eraseIdx member),
    sound.replying, sound.calling⟩

/-- Another mark behind the trace. -/
theorem Sound.marked (sound : session.Sound) (mark : Mark) :
    Sound { session with trace := session.trace ++ [mark] } :=
  ⟨fun _ member => sound.accepted_append mark member, sound.waiting, sound.replying, sound.calling⟩

theorem Sound.onFrame (sound : session.Sound) (frame : NvpFrame) (draw : Draw) :
    (onFrame json T config frame draw session).Sound := by
  have plain := @handleFrame_plain json T config draw frame session.handler
  unfold Session.onFrame
  simp only
  split
  · refine ⟨sound.accepted, sound.waiting, nofun, ?_⟩
    intro request reqId handling same
    cases same
    exact trivial
  · rename_i watcher isWatch
    refine ⟨?_, ?_, fun request other same =>
      @settle_frame json _ _ _ (.watches watcher) trivial _ _ same, ?_⟩
    · intro task member
      rcases List.mem_append.mp member with older | isNew
      · exact sound.accepted_append _ older
      · rw [List.mem_singleton.mp isNew, standing_accepted]
        exact nofun
    · intro task other member isWaiting
      rcases List.mem_append.mp member with older | isNew
      · exact sound.waiting task other older isWaiting
      · rw [List.mem_singleton.mp isNew] at isWaiting
        cases isWaiting
    · intro request reqId handling same
      unfold settle at same
      split at same <;> cases same
  · refine ⟨sound.accepted, sound.waiting, fun request other same => settle_frame plain same, ?_⟩
    intro request reqId handling same
    unfold settle at same
    split at same <;> cases same

theorem Sound.onReply (sound : session.Sound) (request : Option RequestPayload) (frame : NvpFrame) :
    (onReply request frame session).Sound := by
  unfold Session.onReply
  split
  · split
    · have marked := (sound.rest (Or.inl rfl)).marked (.enqueued request frame)
      exact ⟨marked.accepted, marked.waiting, marked.replying, marked.calling⟩
    · exact sound
  · split
    · exact sound.rest (Or.inl rfl)
    · exact sound.rest (Or.inr rfl)

theorem Sound.onReceive (sound : session.Sound) {index : Nat} {task : WatchTask}
    (isTask : session.tasks[index]? = some task) (idle : task.waiting = none) :
    (onReceive P json index task session).Sound := by
  unfold Session.onReceive
  split
  · refine sound.setTask { task with position := session.events.length - eventCapacity } isTask rfl ?_
    intro frame isWaiting
    cases idle.symm.trans isWaiting
  · split
    · exact sound
    · rename_i event _
      split
      · exact sound.endTask index
      · rename_i waiting sends
        refine sound.setTask { task with position := task.position + 1, waiting := waiting } isTask
          rfl ?_
        intro frame isWaiting
        have isFrame : waiting = some frame := isWaiting
        rw [isFrame] at sends
        exact onEvent_frame sends

theorem Sound.onDeliver (sound : session.Sound) {index : Nat} {task : WatchTask} {frame : NvpFrame}
    (isTask : session.tasks[index]? = some task) : (onDeliver index task frame session).Sound := by
  unfold Session.onDeliver
  split
  · split
    · have changed := sound.setTask { task with waiting := none } isTask rfl nofun
      have marked := changed.marked (.enqueued none frame)
      exact ⟨marked.accepted, marked.waiting, marked.replying, marked.calling⟩
    · exact sound
  · exact sound.endTask index

theorem Sound.step (turn : Turn) (sound : session.Sound) :
    (step P json T config turn session).Sound := by
  cases turn with
  | frame frame draw =>
      simp only [Session.step]
      split
      · exact sound.onFrame frame draw
      · exact sound
  | returned outcome =>
      simp only [Session.step]
      split
      · rename_i request reqId handling isCalling
        have plain := sound.calling request reqId handling isCalling
        apply sound.read
        · exact fun request frame same => settle_frame plain same
        · intro request reqId handling same
          unfold settle at same
          split at same <;> cases same
      · exact sound
  | reply =>
      simp only [Session.step]
      split
      · exact sound.onReply _ _
      · exact sound
  | disconnect =>
      simp only [Session.step]
      split
      · exact sound.rest (Or.inr rfl)
      · exact sound
  | published event => exact ⟨sound.accepted, sound.waiting, sound.replying, sound.calling⟩
  | receive index =>
      simp only [Session.step]
      split
      · rename_i task isTask
        split
        · rename_i idle
          exact sound.onReceive isTask idle
        · exact sound
      · exact sound
  | deliver index =>
      simp only [Session.step]
      split
      · rename_i task isTask
        split
        · exact sound.onDeliver isTask
        · exact sound
      · exact sound
  | write => exact ⟨sound.accepted, sound.waiting, sound.replying, sound.calling⟩
  | writerEnds => exact ⟨sound.accepted, sound.waiting, sound.replying, sound.calling⟩

/-! ## What a turn adds to the trace -/

/-- A turn that is no delivery enqueues no event. -/
theorem step_other {turn : Turn} (sound : session.Sound)
    (other : forall index, turn ≠ .deliver index) :
    OnlyWhileActive (step P json T config turn session).trace <-> OnlyWhileActive session.trace := by
  cases turn with
  | frame frame draw =>
      simp only [Session.step]
      split
      · unfold Session.onFrame
        simp only
        split
        · exact Iff.rfl
        · exact onlyWhileActive_other nofun
        · exact Iff.rfl
      · exact Iff.rfl
  | returned outcome =>
      simp only [Session.step]
      split <;> exact Iff.rfl
  | reply =>
      simp only [Session.step]
      split
      · rename_i request frame isReplying
        unfold Session.onReply
        split
        · split
          · apply onlyWhileActive_other
            intro cause found same
            cases same
            exact sound.replying request frame isReplying
          · exact Iff.rfl
        · exact Iff.rfl
      · exact Iff.rfl
  | disconnect =>
      simp only [Session.step]
      split <;> exact Iff.rfl
  | published event => exact Iff.rfl
  | receive index =>
      simp only [Session.step]
      split
      · split
        · unfold Session.onReceive
          split
          · exact Iff.rfl
          · split
            · exact Iff.rfl
            · split <;> exact Iff.rfl
        · exact Iff.rfl
      · exact Iff.rfl
  | deliver index => exact absurd rfl (other index)
  | write => exact Iff.rfl
  | writerEnds => exact Iff.rfl

/-- A delivery enqueues an event of an active subscription exactly when it was not
cancelled, since it was accepted. -/
theorem step_deliver (index : Nat) (sound : session.Sound) (only : OnlyWhileActive session.trace) :
    OnlyWhileActive (step P json T config (.deliver index) session).trace <->
      session.Permitted (.deliver index) := by
  have quiet : (forall task frame, session.tasks[index]? = some task ->
        task.waiting = some frame -> session.channelOpen = true ->
        ¬ session.queue.length < frameCapacity) ->
      session.Permitted (.deliver index) := by
    intro stuck other task same isTask isWaiting isOpen room
    cases same
    rcases Option.isSome_iff_exists.mp isWaiting with ⟨frame, isFrame⟩
    exact absurd room (stuck task frame isTask isFrame isOpen)
  simp only [Session.step]
  cases isTask : session.tasks[index]? with
  | none =>
      refine iff_of_true only (quiet ?_)
      intro task frame found
      cases isTask.symm.trans found
  | some task =>
      cases isWaiting : task.waiting with
      | none =>
          refine iff_of_true (by simpa only [isWaiting] using only) (quiet ?_)
          intro other frame found isFrame
          cases isTask.symm.trans found
          cases isWaiting.symm.trans isFrame
      | some frame =>
          simp only [isWaiting]
          unfold Session.onDeliver
          by_cases isOpen : session.channelOpen = true
          · by_cases room : session.queue.length < frameCapacity
            · rw [if_pos isOpen, if_pos room]
              have member := List.mem_of_getElem? isTask
              have known := sound.accepted task member
              rcases sound.waiting task frame member isWaiting with ⟨isEvent, isId⟩
              rw [onlyWhileActive_append]
              constructor
              · rintro ⟨_, active⟩ other found same isFound _ _ _
                cases same
                cases isTask.symm.trans isFound
                rw [← isId, active none frame rfl isEvent]
                exact nofun
              · intro permitted
                refine ⟨only, ?_⟩
                intro request enqueued same _
                cases same
                have uncancelled := permitted index task rfl isTask
                  (by rw [isWaiting]; rfl) isOpen room
                rw [isId]
                cases stands : standing task.watcher.subId session.trace with
                | unknown => exact absurd stands known
                | active => rfl
                | cancelled => exact absurd stands uncancelled
            · rw [if_pos isOpen, if_neg room]
              refine iff_of_true only (quiet ?_)
              exact fun _ _ _ _ _ => room
          · rw [if_neg isOpen]
            refine iff_of_true only (quiet ?_)
            exact fun _ _ _ _ isOpen' => absurd isOpen' isOpen

theorem step_exact (turn : Turn) (sound : session.Sound) (only : OnlyWhileActive session.trace) :
    OnlyWhileActive (step P json T config turn session).trace <-> session.Permitted turn := by
  by_cases delivers : Exists fun index => turn = .deliver index
  · rcases delivers with ⟨index, rfl⟩
    exact step_deliver index sound only
  · have other : forall index, turn ≠ .deliver index :=
      fun index same => delivers ⟨index, same⟩
    rw [step_other sound other]
    refine iff_of_true only ?_
    intro index task same
    exact absurd same (other index)

end Steps

/-- Every run of a connection enqueues events of active subscriptions only, exactly
when none of its turns lets a task deliver an event of a cancelled one. -/
theorem onlyWhileActive_iff_permitted (P : Platform) (json : PayloadJson) (T : TextTables)
    (config : ServerConfig) (events : List DataEvent) (turns : List Turn) :
    Run.Throughout (step P json T config) (fun session => OnlyWhileActive session.trace)
        (accept config events) turns <->
      Run.Along (step P json T config) Permitted (accept config events) turns :=
  Run.throughout_iff_along (fun _ turn sound => Sound.step turn sound)
    (fun _ turn sound only => step_exact turn sound only) (sound_accept config events)
    onlyWhileActive_nil

/-! ## Nothing left for a cancelled subscription -/

/-- The tasks of cancelled subscriptions have nothing left to send. -/
def Silenced (P : Platform) (json : PayloadJson) (session : Session) : Prop :=
  forall task, task ∈ session.tasks -> standing task.watcher.subId session.trace = .cancelled ->
    task.Drained P json session.events

section Silence

variable {P : Platform} {json : PayloadJson} {T : TextTables} {config : ServerConfig}
  {session : Session}

theorem due_eq_nil_of_subset {watcher : Watcher} {events fewer : List DataEvent}
    (subset : fewer ⊆ events) (nothing : due P json watcher events = []) :
    due P json watcher fewer = [] :=
  List.filterMap_eq_nil_iff.mpr fun event member =>
    List.filterMap_eq_nil_iff.mp nothing event (subset member)

/-- A receiver that has gone on gets no more than before. -/
theorem receivable_subset {events : List DataEvent} {position further : Nat}
    (ahead : position ≤ further) : receivable events further ⊆ receivable events position :=
  List.drop_subset_drop_left events (by omega)

/-- Another event in the channel is all that a receiver can get besides. -/
theorem receivable_published {events : List DataEvent} {position : Nat} (event : DataEvent) :
    receivable (events ++ [event]) position ⊆ event :: receivable events position := by
  intro other member
  rw [receivable, List.drop_append] at member
  rcases List.mem_append.mp member with older | newer
  · refine List.mem_cons_of_mem _ (List.drop_subset_drop_left events ?_ older)
    rw [List.length_append, List.length_singleton]
    omega
  · rw [List.mem_singleton.mp (List.mem_of_mem_drop newer)]
    exact List.mem_cons_self

theorem silenced_accept (config : ServerConfig) (events : List DataEvent) :
    (accept config events).Silenced P json :=
  nofun

/-- A task changed in its place, which has as little to send as before. -/
theorem Silenced.setTask (silenced : session.Silenced P json) {index : Nat}
    {task changed : WatchTask} (isTask : session.tasks[index]? = some task)
    (same : changed.watcher = task.watcher)
    (drained : task.Drained P json session.events -> changed.Drained P json session.events) :
    Silenced P json { session with tasks := session.tasks.set index changed } := by
  intro other member cancelled
  rcases List.mem_or_eq_of_mem_set member with older | rfl
  · exact silenced other older cancelled
  · rw [same] at cancelled
    exact drained (silenced task (List.mem_of_getElem? isTask) cancelled)

theorem Silenced.endTask (silenced : session.Silenced P json) (index : Nat) :
    Silenced P json { session with tasks := session.tasks.eraseIdx index } :=
  fun task member => silenced task (List.mem_of_mem_eraseIdx member)

/-- An accepted WATCH is active, and so are all tasks under its id. -/
theorem Silenced.onFrame (silenced : session.Silenced P json) (frame : NvpFrame) (draw : Draw) :
    (onFrame json T config frame draw session).Silenced P json := by
  unfold Session.onFrame
  simp only
  split
  · exact silenced
  · rename_i watcher _
    intro task member cancelled
    rw [standing_append, standingAfter] at cancelled
    split at cancelled
    · cases cancelled
    · rename_i different
      rcases List.mem_append.mp member with older | isNew
      · exact silenced task older cancelled
      · rw [List.mem_singleton.mp isNew] at different
        exact absurd rfl different
  · exact silenced

/-- The reply to an `Unwatch` finds the tasks of its subscription drained. -/
theorem Silenced.onReply (silenced : session.Silenced P json) {request : Option RequestPayload}
    {frame : NvpFrame} (isReplying : session.reader = .replying request frame)
    (quieted : session.Quieted P json .reply) :
    (onReply request frame session).Silenced P json := by
  unfold Session.onReply
  split
  · rename_i isOpen
    split
    · rename_i room
      intro task member cancelled
      rw [standing_append] at cancelled
      unfold standingAfter at cancelled
      split at cancelled
      · rename_i same
        cases same
      · rename_i subId _ same
        cases same
        split at cancelled
        · rename_i isSub
          simp only [Quieted, isReplying] at quieted
          exact quieted isOpen room task member isSub.symm
        · exact silenced task member cancelled
      · exact silenced task member cancelled
    · exact silenced
  · exact silenced

theorem Silenced.onReceive (silenced : session.Silenced P json) {index : Nat} {task : WatchTask}
    (isTask : session.tasks[index]? = some task) :
    (onReceive P json index task session).Silenced P json := by
  unfold Session.onReceive
  split
  · refine silenced.setTask isTask rfl ?_
    rintro ⟨rests, passes⟩
    exact ⟨rests, due_eq_nil_of_subset (receivable_subset (by dsimp only; omega)) passes⟩
  · rename_i inTime
    split
    · exact silenced
    · rename_i event isEvent
      split
      · exact silenced.endTask index
      · rename_i waiting sends
        refine silenced.setTask isTask rfl ?_
        rintro ⟨rests, passes⟩
        have here : max task.position (session.events.length - eventCapacity) = task.position := by
          omega
        have next : event ∈ receivable session.events task.position := by
          rw [receivable, here]
          exact List.mem_of_getElem? (i := 0) (by rw [List.getElem?_drop]; exact isEvent)
        have passed := List.filterMap_eq_nil_iff.mp passes event next
        rw [Watcher.sends, sends] at passed
        exact ⟨passed, due_eq_nil_of_subset (receivable_subset (Nat.le_succ _)) passes⟩

theorem Silenced.onDeliver (silenced : session.Silenced P json) {index : Nat} {task : WatchTask}
    {frame : NvpFrame} (isTask : session.tasks[index]? = some task) :
    (onDeliver index task frame session).Silenced P json := by
  unfold Session.onDeliver
  split
  · split
    · have changed := @Silenced.setTask P json session silenced index task
        { task with waiting := none } isTask rfl fun drained => ⟨rfl, drained.2⟩
      intro other member cancelled
      rw [standing_append] at cancelled
      exact changed other member cancelled
    · exact silenced
  · exact silenced.endTask index

/-- Quieted turns leave nothing for a cancelled subscription. -/
theorem Silenced.step {turn : Turn} (silenced : session.Silenced P json)
    (quieted : session.Quieted P json turn) :
    (step P json T config turn session).Silenced P json := by
  cases turn with
  | frame frame draw =>
      simp only [Session.step]
      split
      · exact silenced.onFrame frame draw
      · exact silenced
  | returned outcome =>
      simp only [Session.step]
      split <;> exact silenced
  | reply =>
      simp only [Session.step]
      split
      · rename_i request frame isReplying
        exact silenced.onReply isReplying quieted
      · exact silenced
  | disconnect =>
      simp only [Session.step]
      split <;> exact silenced
  | published event =>
      intro task member cancelled
      rcases silenced task member cancelled with ⟨rests, passes⟩
      refine ⟨rests, due_eq_nil_of_subset (receivable_published event) ?_⟩
      rw [due, List.filterMap_cons, quieted task member cancelled]
      exact passes
  | receive index =>
      simp only [Session.step]
      split
      · rename_i task isTask
        split
        · exact silenced.onReceive isTask
        · exact silenced
      · exact silenced
  | deliver index =>
      simp only [Session.step]
      split
      · rename_i task isTask
        split
        · exact silenced.onDeliver isTask
        · exact silenced
      · exact silenced
  | write | writerEnds => exact silenced

/-- A task that waits with a frame has something left to send. -/
theorem Silenced.permitted (silenced : session.Silenced P json) (turn : Turn) :
    session.Permitted turn := by
  intro index task _ isTask waits _ _ cancelled
  rcases silenced task (List.mem_of_getElem? isTask) cancelled with ⟨rests, _⟩
  rw [rests] at waits
  cases waits

end Silence

/-- A connection enqueues events of active subscriptions only, in every run whose turns
leave nothing for cancelled ones: no reply to an `Unwatch` while a task of that
subscription has an event in hand or in its receiver that it sends, and no event
published that it sends while the subscription stands cancelled. -/
theorem delivers_while_active (P : Platform) (json : PayloadJson) (T : TextTables)
    (config : ServerConfig) (events : List DataEvent) (turns : List Turn)
    (quieted : Run.Along (step P json T config) (Quieted P json) (accept config events) turns) :
    Run.Throughout (step P json T config) (fun session => OnlyWhileActive session.trace)
      (accept config events) turns := by
  apply (onlyWhileActive_iff_permitted P json T config events turns).mpr
  exact Run.along_of_along (fun _ _ quieted silenced => Silenced.step silenced quieted)
    (fun _ turn _ silenced => Silenced.permitted silenced turn) (silenced_accept config events)
    quieted

/-! ## A subscription before and behind its end -/

/-- The JSON of the two answers. -/
def answerText : ResponsePayload -> Except String (List UInt8)
  | .watchAck subscription =>
      .ok (utf8Bytes (String.ofList (memberText "WatchAck"
        (memberText "subscription_id" (decimal subscription.toNat)))))
  | .success message affected =>
      .ok (utf8Bytes ("\x7b\"Success\":\x7b\"message\":\"" ++ message ++ "\",\"affected\":" ++
        toString affected ++ "\x7d\x7d"))
  | _ => .error "unsupported value"

def eventTypeText : EventType -> String
  | .create => "Create"
  | .update => "Update"
  | .delete => "Delete"

/-- The JSON of the document in front of a change, or behind it. -/
def imageText : Option Document -> Option String
  | none => some "null"
  | some doc => documentText doc

/-- The JSON of an event whose documents have one. -/
def eventText (event : DataEvent) : Except String (List UInt8) :=
  match imageText event.before, imageText event.after, event.txId with
  | some before, some after, none =>
      .ok (utf8Bytes ("\x7b\"sequence\":" ++ toString event.sequence.toNat ++
        ",\"event_type\":\"" ++ eventTypeText event.eventType ++ "\",\"namespace\":\"" ++
        event.namespaceName ++ "\",\"collection\":\"" ++ event.collection ++
        "\",\"document_id\":\"" ++ event.documentId.asStr ++ "\",\"before\":" ++ before ++
        ",\"after\":" ++ after ++ ",\"timestamp\":" ++ toString event.timestamp.toInt ++
        ",\"tx_id\":null\x7d"))
  | _, _, _ => .error "unsupported value"

/-- Requests of one subscription as `serde_json` reads them, and what is sent to it. -/
def watchJson : PayloadJson where
  request :=
    { toVec := fun payload => .ok (utf8Bytes (String.ofList (requestText payload)))
      fromSlice := fun bytes =>
        match [RequestPayload.watch "WATCH users", .unwatch 1].find? (fun payload =>
          utf8Bytes (String.ofList (requestText payload)) = bytes) with
        | some payload => .ok payload
        | none => .error "expected value at line 1 column 1" }
  response :=
    { toVec := answerText
      fromSlice := fun _ => .error "expected value at line 1 column 1" }
  event :=
    { toVec := eventText
      fromSlice := fun _ => .error "expected value at line 1 column 1" }
  debug := fun _ => "Pong"

def requestFrame (reqId : UInt64) (payload : RequestPayload) : NvpFrame :=
  NvpFrame.new .request reqId (utf8Bytes (String.ofList (requestText payload)))

def openConfig : ServerConfig where
  maxConnections := 1000
  authToken := none
  webPort := none

def sampleDraw : Draw := ⟨Vector.replicate 16 0, 0⟩

/-- A WATCH and its answer, an INSERT whose event the task takes and enqueues, an
`Unwatch` and its answer, and an INSERT into another collection. -/
def quietedTurns : List Turn :=
  [.frame (requestFrame 1 (.watch "WATCH users")) sampleDraw, .reply,
    .published (insertEvent (quietMoments 0) "default" "users" sampleDocument 1),
    .receive 0, .deliver 0, .frame (requestFrame 2 (.unwatch 1)) sampleDraw, .reply,
    .published (insertEvent (quietMoments 0) "default" "orders" sampleDocument 2),
    .receive 0]

theorem delivers_while_active_sample :
    (Run.last (step samplePlatform watchJson referenceTables openConfig) (accept openConfig [])
        quietedTurns).trace.length = 4 ∧
      Run.Throughout (step samplePlatform watchJson referenceTables openConfig)
        (fun session => OnlyWhileActive session.trace) (accept openConfig []) quietedTurns :=
  ⟨by decide +kernel, delivers_while_active samplePlatform watchJson referenceTables openConfig []
    quietedTurns (by decide +kernel)⟩

/-- A WATCH and its answer, an `Unwatch` and its answer, an INSERT, and the task takes
its event. -/
def unwatchedTurns : List Turn :=
  [.frame (requestFrame 1 (.watch "WATCH users")) sampleDraw, .reply,
    .frame (requestFrame 2 (.unwatch 1)) sampleDraw, .reply,
    .published (insertEvent (quietMoments 0) "default" "users" sampleDocument 1),
    .receive 0]

/-- The connection before the task enqueues it. -/
def unwatchedSession : Session :=
  Run.last (step samplePlatform watchJson referenceTables openConfig) (accept openConfig [])
    unwatchedTurns

theorem unwatched_delivers :
    ¬ Run.Throughout (step samplePlatform watchJson referenceTables openConfig)
      (fun session => OnlyWhileActive session.trace) (accept openConfig [])
      (unwatchedTurns ++ [.deliver 0]) := by
  intro throughout
  rcases throughout.around with ⟨before, after⟩
  have sound : unwatchedSession.Sound := by
    unfold unwatchedSession
    exact Run.last_of_invariant (fun _ turn sound => Sound.step turn sound)
      (sound_accept openConfig []) unwatchedTurns
  have permitted : unwatchedSession.Permitted (.deliver 0) :=
    (step_deliver 0 sound before).mp after
  have cancelled : standing 1 unwatchedSession.trace = .cancelled := by decide +kernel
  have waits : (unwatchedSession.tasks[0]?.map fun task =>
      (task.watcher.subId, task.waiting.isSome)) = some (1, true) := by decide +kernel
  rcases Option.map_eq_some_iff.mp waits with ⟨task, isTask, same⟩
  rcases Prod.mk.inj same with ⟨isId, isWaiting⟩
  apply permitted 0 task rfl isTask isWaiting
  · decide +kernel
  · decide +kernel
  · rw [isId]
    exact cancelled

end Session

end Server
end NovaDb
