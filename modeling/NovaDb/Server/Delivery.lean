import NovaDb.Foundation.GrowingLog
import NovaDb.Server.Subscriptions

namespace NovaDb
namespace Server

open Core Foundation Protocol Query Storage DatabaseEngine

/-!
# Delivery

Behind an accepted WATCH the events of all clients are still to come.  The task of the
subscription reads them as a growing log, and enqueues what its watcher sends.  However
the turns of the connection fall, the frames under the id of the subscription are those
of events published behind its acceptance, each at most once and in the order of the
channel; none that is due is missing as long as the task has not fallen behind the
capacity of the channel.
-/

/-! ## What is due and what is sent -/

/-- The event frame of a subscription that a mark tells of. -/
def Mark.sent (subId : UInt64) : Mark -> Option NvpFrame
  | .enqueued _ frame =>
      if frame.frameType = .event ∧ frame.requestId = subId then some frame else none
  | .accepted _ => none

/-- The event frames enqueued under the id of a subscription. -/
def sentTo (subId : UInt64) (trace : List Mark) : List NvpFrame :=
  trace.filterMap (Mark.sent subId)

/-- How often the id of the subscription was accepted. -/
def acceptances (subId : UInt64) (trace : List Mark) : Nat :=
  trace.countP fun mark =>
    match mark with
    | .accepted other => other == subId
    | .enqueued _ _ => false

def WatchTask.isOf (subId : UInt64) (task : WatchTask) : Bool :=
  task.watcher.subId == subId

namespace Session

/-- The tasks under the id of a subscription. -/
def tasksOf (subId : UInt64) (session : Session) : List WatchTask :=
  session.tasks.filter (WatchTask.isOf subId)

/-- The task has fallen behind the capacity of the channel. -/
def Lagging (session : Session) (task : WatchTask) : Prop :=
  eventCapacity < session.events.length - task.position

/-- No task of the subscription is told that it has fallen behind. -/
def InTime (subId : UInt64) (session : Session) (turn : Turn) : Prop :=
  forall index task, turn = .receive index -> session.tasks[index]? = some task ->
    task.watcher.subId = subId -> ¬session.Lagging task

/-! ## What a turn does -/

/-- What a turn can do to the tasks, to the events and to the trace. -/
inductive Moves (P : Platform) (json : PayloadJson) (turn : Turn) (session next : Session) :
    Prop where
  | quiet (tasks : next.tasks = session.tasks) (events : next.events = session.events)
      (trace : next.trace = session.trace)
  | replied (request : Option RequestPayload) (frame : NvpFrame) (plain : frame.frameType ≠ .event)
      (tasks : next.tasks = session.tasks) (events : next.events = session.events)
      (trace : next.trace = session.trace ++ [.enqueued request frame])
  | accepted (watcher : Watcher)
      (tasks : next.tasks = session.tasks ++ [⟨watcher, session.events.length, none⟩])
      (events : next.events = session.events)
      (trace : next.trace = session.trace ++ [.accepted watcher.subId])
  | published (event : DataEvent) (tasks : next.tasks = session.tasks)
      (events : next.events = session.events ++ [event]) (trace : next.trace = session.trace)
  | skipped (front back : List WatchTask) (task : WatchTask)
      (isTurn : turn = .receive front.length) (found : session.tasks = front ++ task :: back)
      (lags : session.Lagging task)
      (tasks : next.tasks = front ++
        { task with position := session.events.length - eventCapacity } :: back)
      (events : next.events = session.events) (trace : next.trace = session.trace)
  | took (front back : List WatchTask) (task : WatchTask) (event : DataEvent)
      (waiting : Option NvpFrame) (found : session.tasks = front ++ task :: back)
      (idle : task.waiting = none) (isEvent : session.events[task.position]? = some event)
      (sends : task.watcher.onEvent P json event = .ok waiting)
      (tasks : next.tasks = front ++
        { task with position := task.position + 1, waiting := waiting } :: back)
      (events : next.events = session.events) (trace : next.trace = session.trace)
  | ended (front back : List WatchTask) (task : WatchTask)
      (found : session.tasks = front ++ task :: back) (tasks : next.tasks = front ++ back)
      (events : next.events = session.events) (trace : next.trace = session.trace)
  | delivered (front back : List WatchTask) (task : WatchTask) (frame : NvpFrame)
      (found : session.tasks = front ++ task :: back) (waits : task.waiting = some frame)
      (tasks : next.tasks = front ++ { task with waiting := none } :: back)
      (events : next.events = session.events)
      (trace : next.trace = session.trace ++ [.enqueued none frame])

section Turns

variable {P : Platform} {json : PayloadJson} {T : TextTables} {config : ServerConfig}
  {session : Session}

end Turns

/-! ## One subscription -/

/-- What has been sent under an id that was accepted once, and what is still to be sent
of what its task has read. -/
inductive Follows (P : Platform) (json : PayloadJson) (skips : Prop) (start : Nat)
    (watcher : Watcher) (session : Session) : Prop where
  | live {position : Nat} {taken : List DataEvent} {waiting : Option NvpFrame}
      (reads : Taken session.events skips start position taken)
      (isTask : session.tasksOf watcher.subId = [⟨watcher, position, waiting⟩])
      (told : sentTo watcher.subId session.trace ++ waiting.toList = due P json watcher taken)
  | ended {position : Nat} {taken : List DataEvent}
      (reads : Taken session.events skips start position taken)
      (noTask : session.tasksOf watcher.subId = [])
      (told : sentTo watcher.subId session.trace <+: due P json watcher taken)

section Marks

variable {subId : UInt64} {trace : List Mark} {mark : Mark}

theorem sentTo_snoc : sentTo subId (trace ++ [mark]) =
    sentTo subId trace ++ (mark.sent subId).toList := by
  rw [sentTo, List.filterMap_append]
  cases sends : mark.sent subId with
  | none => rw [List.filterMap_cons_none sends]; rfl
  | some frame => rw [List.filterMap_cons_some sends]; rfl

theorem sent_plain {request : Option RequestPayload} {frame : NvpFrame}
    (plain : frame.frameType ≠ .event) : (Mark.enqueued request frame).sent subId = none :=
  if_neg fun isEvent => plain isEvent.1

theorem acceptances_accepted (other : UInt64) :
    acceptances subId (trace ++ [.accepted other]) =
      acceptances subId trace + if other = subId then 1 else 0 := by
  rw [acceptances, List.countP_append]
  by_cases same : other = subId
  · rw [if_pos same, List.countP_singleton, if_pos (beq_iff_eq.mpr same)]
    rfl
  · rw [if_neg same, List.countP_singleton, if_neg (mt beq_iff_eq.mp same)]
    rfl

end Marks

section Tasks

variable {subId : UInt64} {front back : List WatchTask} {task changed other : WatchTask}

theorem isOf_own (own : task.watcher.subId = subId) : task.isOf subId = true :=
  beq_iff_eq.mpr own

theorem filter_tasks (other : task.watcher.subId ≠ subId) :
    (front ++ task :: back).filter (WatchTask.isOf subId) =
      (front ++ back).filter (WatchTask.isOf subId) := by
  have isOther : ¬task.isOf subId = true := mt beq_iff_eq.mp other
  rw [List.filter_append, List.filter_append, List.filter_cons_of_neg isOther]

theorem filter_changed (other : task.watcher.subId ≠ subId)
    (same : changed.watcher = task.watcher) :
    (front ++ changed :: back).filter (WatchTask.isOf subId) =
      (front ++ task :: back).filter (WatchTask.isOf subId) :=
  (filter_tasks (same ▸ other)).trans (filter_tasks other).symm

theorem filter_none (other : task.watcher.subId ≠ subId) (same : changed.watcher = task.watcher)
    (nothing : (front ++ task :: back).filter (WatchTask.isOf subId) = []) :
    (front ++ changed :: back).filter (WatchTask.isOf subId) = [] :=
  (filter_changed other same).trans nothing

/-- The only task under an id, among others. -/
theorem only_task (own : task.watcher.subId = subId)
    (only : (front ++ task :: back).filter (WatchTask.isOf subId) = [other]) :
    task = other ∧
      (front ++ back).filter (WatchTask.isOf subId) = [] ∧
      forall changed : WatchTask, changed.watcher.subId = subId ->
        (front ++ changed :: back).filter (WatchTask.isOf subId) =
          [changed] := by
  rw [List.filter_append, List.filter_cons_of_pos (isOf_own own)] at only
  rcases List.append_eq_singleton_iff.mp only with ⟨noFront, isTask⟩ | ⟨_, impossible⟩
  · injection isTask with same noBack
    refine ⟨same, ?_, ?_⟩
    · rw [List.filter_append, noFront, noBack]
      rfl
    · intro changed isOwn
      rw [List.filter_append, List.filter_cons_of_pos (isOf_own isOwn), noFront, noBack]
      rfl
  · cases impossible

theorem no_task (own : task.watcher.subId = subId) :
    (front ++ task :: back).filter (WatchTask.isOf subId) ≠ [] := by
  rw [List.filter_append, List.filter_cons_of_pos (isOf_own own)]
  exact List.append_ne_nil_of_right_ne_nil _ (List.cons_ne_nil _ _)

end Tasks

section Following

variable {P : Platform} {json : PayloadJson} {skips : Prop} {start : Nat} {watcher : Watcher}
  {session next : Session} {turn : Turn}

/-- The same tasks and marks of the subscription, and perhaps more events. -/
theorem Follows.same (follows : Follows P json skips start watcher session)
    {more : List DataEvent} (events : next.events = session.events ++ more)
    (tasks : next.tasksOf watcher.subId = session.tasksOf watcher.subId)
    (trace : sentTo watcher.subId next.trace = sentTo watcher.subId session.trace) :
    Follows P json skips start watcher next := by
  cases follows with
  | live reads isTask told =>
      exact .live (events ▸ reads.grow more) (tasks.trans isTask) (trace ▸ told)
  | ended reads noTask told =>
      exact .ended (events ▸ reads.grow more) (tasks.trans noTask) (trace ▸ told)

theorem due_snoc {taken : List DataEvent} {event : DataEvent} {waiting : Option NvpFrame}
    (sends : watcher.onEvent P json event = .ok waiting) :
    due P json watcher (taken ++ [event]) = due P json watcher taken ++ waiting.toList := by
  have isWaiting : watcher.sends P json event = waiting := by rw [Watcher.sends, sends]
  rw [due, List.filterMap_append]
  cases waiting with
  | none => rw [List.filterMap_cons_none isWaiting]; rfl
  | some frame => rw [List.filterMap_cons_some isWaiting]; rfl

/-- A turn of the connection, unless it accepts the id once more. -/
theorem Follows.moves (follows : Follows P json skips start watcher session)
    (sound : session.Sound) (moves : Moves P json turn session next)
    (once : acceptances watcher.subId next.trace = acceptances watcher.subId session.trace)
    (inTime : skips ∨ InTime watcher.subId session turn) :
    Follows P json skips start watcher next := by
  cases moves with
  | quiet tasks events trace =>
      exact @Follows.same _ _ _ _ _ _ _ follows [] (by rw [events, List.append_nil])
        (by rw [tasksOf, tasksOf, tasks]) (by rw [trace])
  | replied request frame plain tasks events trace =>
      refine @Follows.same _ _ _ _ _ _ _ follows [] (by rw [events, List.append_nil])
        (by rw [tasksOf, tasksOf, tasks]) ?_
      rw [trace, sentTo_snoc, sent_plain plain]
      exact List.append_nil _
  | accepted other tasks events trace =>
      rw [trace, acceptances_accepted] at once
      have different : other.subId ≠ watcher.subId := by
        intro same
        rw [if_pos same] at once
        omega
      refine @Follows.same _ _ _ _ _ _ _ follows [] (by rw [events, List.append_nil]) ?_ ?_
      · rw [tasksOf, tasksOf, tasks, filter_tasks different, List.append_nil]
      · rw [trace, sentTo_snoc]
        exact List.append_nil _
  | published event tasks events trace =>
      exact follows.same events (by rw [tasksOf, tasksOf, tasks]) (by rw [trace])
  | skipped front back task isTurn found lags tasks events trace =>
      by_cases own : task.watcher.subId = watcher.subId
      · cases follows with
        | ended reads noTask told =>
            rw [tasksOf, found] at noTask
            exact absurd noTask (no_task own)
        | live reads isTask told =>
            rw [tasksOf, found] at isTask
            rcases only_task own isTask with ⟨rfl, _, changes⟩
            have allowed : skips := by
              rcases inTime with allowed | inTime
              · exact allowed
              · refine absurd lags (inTime _ _ isTurn ?_ own)
                rw [found, List.getElem?_append_right (Nat.le_refl _), Nat.sub_self]
                rfl
            have ahead := Nat.lt_sub_iff_add_lt.mp lags
            refine .live (.skip allowed (events ▸ reads) (Nat.le_sub_of_add_le' ?_))
              ((congrArg _ tasks).trans (changes _ own)) (trace ▸ told)
            exact Nat.le_of_lt ahead
      · refine @Follows.same _ _ _ _ _ _ _ follows [] (by rw [events, List.append_nil]) ?_
          (by rw [trace])
        rw [tasksOf, tasksOf, tasks, found]
        exact filter_changed own rfl
  | took front back task event waiting found idle isEvent sends tasks events trace =>
      by_cases own : task.watcher.subId = watcher.subId
      · cases follows with
        | ended reads noTask told =>
            rw [tasksOf, found] at noTask
            exact absurd noTask (no_task own)
        | live reads isTask told =>
            rw [tasksOf, found] at isTask
            rcases only_task own isTask with ⟨rfl, _, changes⟩
            refine .live (.take (events ▸ reads) (events ▸ isEvent))
              ((congrArg _ tasks).trans (changes _ own)) ?_
            rw [due_snoc sends, trace, ← told]
            cases idle
            rw [Option.toList_none, List.append_nil]
      · refine @Follows.same _ _ _ _ _ _ _ follows [] (by rw [events, List.append_nil]) ?_
          (by rw [trace])
        rw [tasksOf, tasksOf, tasks, found]
        exact filter_changed own rfl
  | ended front back task found tasks events trace =>
      by_cases own : task.watcher.subId = watcher.subId
      · cases follows with
        | ended reads noTask told =>
            rw [tasksOf, found] at noTask
            exact absurd noTask (no_task own)
        | live reads isTask told =>
            rw [tasksOf, found] at isTask
            rcases only_task own isTask with ⟨rfl, none_left, _⟩
            refine .ended (events ▸ reads) ?_ ?_
            · rw [tasksOf, tasks]
              exact none_left
            · rw [trace, ← told]
              exact List.prefix_append _ _
      · refine @Follows.same _ _ _ _ _ _ _ follows [] (by rw [events, List.append_nil]) ?_
          (by rw [trace])
        rw [tasksOf, tasksOf, tasks, found, filter_tasks own]
  | delivered front back task frame found waits tasks events trace =>
      have member : task ∈ session.tasks := by
        rw [found]
        exact List.mem_append_right _ List.mem_cons_self
      rcases sound.waiting task frame member waits with ⟨isEvent, isId⟩
      by_cases own : task.watcher.subId = watcher.subId
      · cases follows with
        | ended reads noTask told =>
            rw [tasksOf, found] at noTask
            exact absurd noTask (no_task own)
        | live reads isTask told =>
            rw [tasksOf, found] at isTask
            rcases only_task own isTask with ⟨rfl, _, changes⟩
            cases waits
            have sends : (Mark.enqueued none frame).sent watcher.subId = some frame :=
              if_pos ⟨isEvent, isId.trans own⟩
            refine .live (events ▸ reads) ((congrArg _ tasks).trans (changes _ own)) ?_
            rw [trace, sentTo_snoc, sends, Option.toList_none, List.append_nil]
            exact told
      · refine @Follows.same _ _ _ _ _ _ _ follows [] (by rw [events, List.append_nil]) ?_ ?_
        · rw [tasksOf, tasksOf, tasks, found]
          exact filter_changed own rfl
        · have other : (Mark.enqueued none frame).sent watcher.subId = none :=
            if_neg fun isOwn => own (isId.symm.trans isOwn.2)
          rw [trace, sentTo_snoc, other]
          exact List.append_nil _

end Following

/-! ## Before the first acceptance -/

/-- Nothing goes by the id of a subscription that was never accepted. -/
structure Unheard (subId : UInt64) (session : Session) : Prop where
  tasks : session.tasksOf subId = []
  sent : sentTo subId session.trace = []

section Beginning

variable {P : Platform} {json : PayloadJson} {T : TextTables} {config : ServerConfig}
  {session next : Session} {turn : Turn} {subId : UInt64}

theorem Unheard.moves (unheard : Unheard subId session) (sound : session.Sound)
    (moves : Moves P json turn session next) (never : acceptances subId next.trace = 0) :
    Unheard subId next := by
  have noTask : forall {front back task}, session.tasks = front ++ task :: back ->
      task.watcher.subId ≠ subId := by
    intro front back task found own
    have nothing := unheard.tasks
    rw [tasksOf, found] at nothing
    exact no_task own nothing
  cases moves with
  | quiet tasks _ trace | published _ tasks _ trace =>
      exact ⟨(congrArg _ tasks).trans unheard.tasks, trace ▸ unheard.sent⟩
  | replied request frame plain tasks _ trace =>
      refine ⟨(congrArg _ tasks).trans unheard.tasks, ?_⟩
      rw [trace, sentTo_snoc, sent_plain plain, unheard.sent]
      rfl
  | accepted watcher tasks _ trace =>
      rw [trace, acceptances_accepted] at never
      have other : watcher.subId ≠ subId := by
        intro same
        rw [if_pos same] at never
        omega
      refine ⟨?_, ?_⟩
      · rw [tasksOf, tasks, filter_tasks other, List.append_nil]
        exact unheard.tasks
      · rw [trace, sentTo_snoc, unheard.sent]
        rfl
  | skipped front back task _ found _ tasks _ trace =>
      have kept := unheard.tasks
      rw [tasksOf, found] at kept
      refine ⟨?_, trace ▸ unheard.sent⟩
      exact (congrArg _ tasks).trans (filter_none (noTask found) rfl kept)
  | took front back task _ _ found _ _ _ tasks _ trace =>
      have kept := unheard.tasks
      rw [tasksOf, found] at kept
      refine ⟨?_, trace ▸ unheard.sent⟩
      exact (congrArg _ tasks).trans (filter_none (noTask found) rfl kept)
  | ended front back task found tasks _ trace =>
      refine ⟨?_, trace ▸ unheard.sent⟩
      rw [tasksOf, tasks, ← filter_tasks (noTask found), ← found]
      exact unheard.tasks
  | delivered front back task frame found waits tasks _ trace =>
      have member : task ∈ session.tasks := by
        rw [found]
        exact List.mem_append_right _ List.mem_cons_self
      have kept := unheard.tasks
      rw [tasksOf, found] at kept
      have other : (Mark.enqueued none frame).sent subId = none :=
        if_neg fun isOwn => noTask found ((sound.waiting task frame member waits).2.symm.trans
          isOwn.2)
      refine ⟨?_, ?_⟩
      · exact (congrArg _ tasks).trans (filter_none (noTask found) rfl kept)
      · rw [trace, sentTo_snoc, other, unheard.sent]
        rfl

/-- The state behind the acceptance of a WATCH. -/
theorem Unheard.follows {watcher : Watcher} {frame : NvpFrame} {draw : Draw}
    (unheard : Unheard watcher.subId session) (idle : session.reader = .idle)
    (accepts : (session.handler.handleFrame json T config draw frame).2 = .watches watcher)
    (skips : Prop) :
    Follows P json skips session.events.length watcher
      (step P json T config (.frame frame draw) session) := by
  have stepped : step P json T config (.frame frame draw) session =
      onFrame json T config frame draw session := by
    simp only [Session.step, idle]
  have isOwn : (WatchTask.mk watcher session.events.length none).isOf watcher.subId = true :=
    isOf_own rfl
  have isTask : (session.tasks ++ [WatchTask.mk watcher session.events.length none]).filter
      (WatchTask.isOf watcher.subId) = [WatchTask.mk watcher session.events.length none] := by
    rw [List.filter_append, List.filter_cons_of_pos isOwn]
    exact congrArg (· ++ _) unheard.tasks
  rw [stepped, onFrame]
  simp only [accepts]
  refine .live .nothing isTask ?_
  rw [sentTo_snoc, unheard.sent]
  rfl

end Beginning

/-! ## Runs -/

/-- Sent is, in order and nothing twice, what was due of the events that the task has
passed, but for the last frame that waits; of all of them, if it was always in time. -/
inductive Delivered (P : Platform) (json : PayloadJson) (inTime : Prop) (start : Nat)
    (watcher : Watcher) (session : Session) : Prop where
  | live (task : WatchTask) (taken : List DataEvent)
      (isTask : session.tasksOf watcher.subId = [task])
      (inOrder : taken.Sublist (between session.events start task.position))
      (all : inTime -> taken = between session.events start task.position)
      (told : sentTo watcher.subId session.trace ++ task.waiting.toList =
        due P json watcher taken)
  | ended (position : Nat) (taken : List DataEvent) (noTask : session.tasksOf watcher.subId = [])
      (inOrder : taken.Sublist (between session.events start position))
      (all : inTime -> taken = between session.events start position)
      (told : sentTo watcher.subId session.trace <+: due P json watcher taken)

theorem Follows.delivered {P : Platform} {json : PayloadJson} {inTime : Prop} {start : Nat}
    {watcher : Watcher} {session : Session}
    (follows : Follows P json (¬inTime) start watcher session) :
    Delivered P json inTime start watcher session := by
  cases follows with
  | live reads isTask told =>
      exact .live _ _ isTask reads.sublist (fun always => reads.all (not_not_intro always)) told
  | ended reads noTask told =>
      exact .ended _ _ noTask reads.sublist (fun always => reads.all (not_not_intro always)) told

section Runs

variable {P : Platform} {json : PayloadJson} {T : TextTables} {config : ServerConfig}

end Runs

/-! ## A sample -/

end Session

end Server
end NovaDb
