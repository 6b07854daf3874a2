import Mathlib

namespace NovaDb
namespace Foundation

/-!
# Locks taken in ascending order

Tasks take and release locks, shared or exclusive, and stand in the queue of a lock while
they wait for it.  A fair lock is given to the front of its queue only, so a reader waits
behind a writer that waits.  Tasks that take their locks in ascending order, and release
what they took, never block one another for good: no run goes on forever, and none ends
before every task is done.
-/

namespace Locking

inductive Mode where
  | shared
  | exclusive
  deriving DecidableEq, Repr

inductive LockStep (L : Type) where
  | acquire (lock : L) (mode : Mode)
  | release (lock : L)
  deriving DecidableEq, Repr

/-- What a task holds, the lock taken last in front, and what it is still to do. -/
structure Task (L : Type) where
  held : List (L × Mode)
  todo : List (LockStep L)

structure State (ι L : Type) where
  tasks : ι -> Task L
  queue : L -> List ι

section Steps

variable {ι L : Type} [DecidableEq ι] [DecidableEq L]

/-- Nobody holds the lock in a way that excludes the mode. -/
def Free (state : State ι L) (lock : L) (mode : Mode) : Prop :=
  forall index other, (lock, other) ∈ (state.tasks index).held -> mode = .shared ∧ other = .shared

/-- The task stands in the queue of the lock. -/
def State.enqueue (state : State ι L) (index : ι) (lock : L) : State ι L where
  tasks := state.tasks
  queue := Function.update state.queue lock (state.queue lock ++ [index])

/-- The task holds the lock and goes on behind it. -/
def State.give (state : State ι L) (index : ι) (lock : L) (mode : Mode)
    (rest : List (LockStep L)) : State ι L where
  tasks := Function.update state.tasks index ⟨(lock, mode) :: (state.tasks index).held, rest⟩
  queue := Function.update state.queue lock
    ((state.queue lock).filter (fun other => other ≠ index))

def State.takeBack (state : State ι L) (index : ι) (lock : L) (rest : List (LockStep L)) :
    State ι L where
  tasks := Function.update state.tasks index
    ⟨(state.tasks index).held.filter (fun other => other.1 ≠ lock), rest⟩
  queue := state.queue

/-- A task asks for a lock, is given it, or releases it. -/
inductive Step (fair : L -> Prop) (state : State ι L) : State ι L -> Prop where
  | request {index : ι} {lock : L} {mode : Mode} {rest : List (LockStep L)}
      (next : (state.tasks index).todo = .acquire lock mode :: rest)
      (absent : index ∉ state.queue lock) : Step fair state (state.enqueue index lock)
  | grant {index : ι} {lock : L} {mode : Mode} {rest : List (LockStep L)}
      (next : (state.tasks index).todo = .acquire lock mode :: rest)
      (present : index ∈ state.queue lock)
      (front : fair lock -> (state.queue lock).head? = some index)
      (free : Free state lock mode) : Step fair state (state.give index lock mode rest)
  | release {index : ι} {lock : L} {rest : List (LockStep L)}
      (next : (state.tasks index).todo = .release lock :: rest) :
      Step fair state (state.takeBack index lock rest)

/-- A run, with the number of its steps. -/
inductive Reaches (fair : L -> Prop) (start : State ι L) : Nat -> State ι L -> Prop where
  | start : Reaches fair start 0 start
  | step {length : Nat} {state next : State ι L} (run : Reaches fair start length state)
      (step : Step fair state next) : Reaches fair start (length + 1) next

/-- Tasks that hold nothing, and nobody waits. -/
def State.initial (todo : ι -> List (LockStep L)) : State ι L where
  tasks index := ⟨[], todo index⟩
  queue _ := []

end Steps

/-! ## Tasks that take their locks in order -/

section Order

variable {L : Type} [LinearOrder L]

/-- Every lock taken is above those held, what is released is held, and in the end nothing
is held. -/
def Upward : List (L × Mode) -> List (LockStep L) -> Prop
  | held, [] => held = []
  | held, .acquire lock mode :: rest =>
      (forall other, other ∈ held -> other.1 < lock) ∧ Upward ((lock, mode) :: held) rest
  | held, .release lock :: rest =>
      lock ∈ held.map Prod.fst ∧ Upward (held.filter (fun other => other.1 ≠ lock)) rest

/-- The steps take and release locks above those held, in order. -/
def Balanced (held : List (L × Mode)) (steps : List (LockStep L)) : Prop :=
  forall rest, Upward held rest -> Upward held (steps ++ rest)

/-- The steps between taking a lock and releasing it. -/
def holding (lock : L) (mode : Mode) (inner : List (LockStep L)) : List (LockStep L) :=
  .acquire lock mode :: (inner ++ [.release lock])

variable {held : List (L × Mode)} {steps more : List (LockStep L)} {lock : L} {mode : Mode}

theorem todo_of_held {other : L × Mode} (upward : Upward held steps) (member : other ∈ held) :
    steps ≠ [] := by
  rintro rfl
  rw [Upward] at upward
  rw [upward] at member
  cases member

theorem balanced_nil : Balanced held [] :=
  fun _ upward => upward

theorem Balanced.append (first : Balanced held steps) (second : Balanced held more) :
    Balanced held (steps ++ more) := by
  intro rest upward
  rw [List.append_assoc]
  exact first _ (second rest upward)

theorem Balanced.flatMap {α : Type} {pieces : List α} {piece : α -> List (LockStep L)}
    (each : forall entry, Balanced held (piece entry)) : Balanced held (pieces.flatMap piece) := by
  induction pieces with
  | nil => exact balanced_nil
  | cons entry pieces inductionHypothesis =>
      rw [List.flatMap_cons]
      exact (each entry).append inductionHypothesis

theorem filter_above (above : forall other, other ∈ held -> other.1 < lock) :
    ((lock, mode) :: held).filter (fun other => other.1 ≠ lock) = held := by
  rw [List.filter_cons_of_neg (by simp), List.filter_eq_self]
  intro other member
  exact decide_eq_true (above other member).ne

theorem Balanced.holding (above : forall other, other ∈ held -> other.1 < lock)
    (inner : Balanced ((lock, mode) :: held) steps) :
    Balanced held (holding lock mode steps) := by
  intro rest upward
  have behind : Upward ((lock, mode) :: held) (.release lock :: rest) := by
    refine ⟨List.mem_cons_self, ?_⟩
    rw [filter_above above]
    exact upward
  rw [Locking.holding, List.cons_append, List.append_assoc]
  exact ⟨above, inner _ behind⟩

theorem Balanced.upward (balanced : Balanced [] steps) : Upward [] steps := by
  have upward := balanced [] rfl
  rwa [List.append_nil] at upward

end Order

/-! ## What every step keeps -/

section Invariant

variable {ι L : Type} [DecidableEq ι] [LinearOrder L] {fair : L -> Prop}
  {start state next : State ι L}

/-- Every task goes on in order, only those wait whose next step is to take the lock, and a
lock taken exclusively has one holder. -/
structure Orderly (state : State ι L) : Prop where
  upward : forall index, Upward (state.tasks index).held (state.tasks index).todo
  waits : forall lock index, index ∈ state.queue lock ->
    Exists fun mode => Exists fun rest =>
      (state.tasks index).todo = .acquire lock mode :: rest
  alone : forall first second lock mode, (lock, Mode.exclusive) ∈ (state.tasks first).held ->
    (lock, mode) ∈ (state.tasks second).held -> first = second

omit [DecidableEq ι] in
theorem orderly_initial {todo : ι -> List (LockStep L)}
    (upward : forall index, Upward [] (todo index)) : Orderly (State.initial todo) where
  upward := upward
  waits := nofun
  alone := nofun

section Operations

variable {index : ι} {lock : L} {mode : Mode} {rest : List (LockStep L)}

omit [DecidableEq ι] in
theorem Orderly.enqueue (orderly : Orderly state)
    (isNext : (state.tasks index).todo = .acquire lock mode :: rest) :
    Orderly (state.enqueue index lock) := by
  refine ⟨orderly.upward, ?_, orderly.alone⟩
  intro other waiting member
  dsimp only [State.enqueue] at member ⊢
  by_cases same : other = lock
  · subst same
    rw [Function.update_self, List.mem_append, List.mem_singleton] at member
    rcases member with before | rfl
    · exact orderly.waits other waiting before
    · exact ⟨mode, rest, isNext⟩
  · rw [Function.update_of_ne same] at member
    exact orderly.waits other waiting member

/-- A task that is given a lock waits for no other. -/
theorem Orderly.waits_give (orderly : Orderly state)
    (isNext : (state.tasks index).todo = .acquire lock mode :: rest) {other : L} {waiting : ι}
    (member : waiting ∈ (state.give index lock mode rest).queue other) :
    waiting ∈ state.queue other ∧ waiting ≠ index := by
  dsimp only [State.give] at member
  by_cases same : other = lock
  · subst same
    rw [Function.update_self, List.mem_filter] at member
    exact ⟨member.1, of_decide_eq_true member.2⟩
  · rw [Function.update_of_ne same] at member
    refine ⟨member, ?_⟩
    rintro rfl
    rcases orderly.waits other waiting member with ⟨_, _, wants⟩
    rw [isNext] at wants
    cases wants
    exact same rfl

/-- What is held then was held before, or is the lock given. -/
theorem held_give {other : ι} {taken : L × Mode}
    (member : taken ∈ ((state.give index lock mode rest).tasks other).held) :
    taken ∈ (state.tasks other).held ∨ (other = index ∧ taken = (lock, mode)) := by
  dsimp only [State.give] at member
  by_cases same : other = index
  · subst same
    rw [Function.update_self, List.mem_cons] at member
    exact member.elim (fun given => Or.inr ⟨rfl, given⟩) Or.inl
  · rw [Function.update_of_ne same] at member
    exact Or.inl member

theorem Orderly.give (orderly : Orderly state)
    (isNext : (state.tasks index).todo = .acquire lock mode :: rest)
    (free : Free state lock mode) : Orderly (state.give index lock mode rest) := by
  have upward := orderly.upward index
  rw [isNext, Upward] at upward
  refine ⟨?_, ?_, ?_⟩
  · exact (Function.forall_update_iff _ fun _ (task : Task L) => Upward task.held task.todo).mpr
      ⟨upward.2, fun other _ => orderly.upward other⟩
  · intro other waiting member
    rcases orderly.waits_give isNext member with ⟨before, apart⟩
    dsimp only [State.give]
    rw [Function.update_of_ne apart]
    exact orderly.waits other waiting before
  · intro first second other held exclusive member
    rcases held_give exclusive with before | ⟨rfl, taken⟩
    · rcases held_give member with beforeToo | ⟨rfl, takenToo⟩
      · exact orderly.alone first second other held before beforeToo
      · cases takenToo
        cases (free first .exclusive before).2
    · rcases held_give member with before | ⟨rfl, _⟩
      · cases taken
        cases (free second held before).1
      · rfl

theorem Orderly.takeBack (orderly : Orderly state)
    (isNext : (state.tasks index).todo = .release lock :: rest) :
    Orderly (state.takeBack index lock rest) := by
  have upward := orderly.upward index
  rw [isNext, Upward] at upward
  have kept : forall other held, held ∈ ((state.takeBack index lock rest).tasks other).held ->
      held ∈ (state.tasks other).held :=
    (Function.forall_update_iff _ fun other (task : Task L) =>
      forall held, held ∈ task.held -> held ∈ (state.tasks other).held).mpr
        ⟨fun _ => List.mem_of_mem_filter, fun _ _ _ member => member⟩
  refine ⟨?_, ?_, ?_⟩
  · exact (Function.forall_update_iff _ fun _ (task : Task L) => Upward task.held task.todo).mpr
      ⟨upward.2, fun other _ => orderly.upward other⟩
  · intro other waiting member
    rcases orderly.waits other waiting member with ⟨mode, behind, wants⟩
    have apart : waiting ≠ index := by
      rintro rfl
      rw [isNext] at wants
      cases wants
    dsimp only [State.takeBack]
    rw [Function.update_of_ne apart]
    exact ⟨mode, behind, wants⟩
  · intro first second other held exclusive member
    exact orderly.alone first second other held (kept first _ exclusive) (kept second _ member)

end Operations

theorem Orderly.step (orderly : Orderly state) (step : Step fair state next) : Orderly next := by
  cases step with
  | request isNext _ => exact orderly.enqueue isNext
  | grant isNext _ _ free => exact orderly.give isNext free
  | release isNext => exact orderly.takeBack isNext

theorem Orderly.run {length : Nat} (orderly : Orderly start)
    (run : Reaches fair start length state) : Orderly state := by
  induction run with
  | start => exact orderly
  | step _ step inductionHypothesis => exact inductionHypothesis.step step

/-! ## No deadlock -/

/-- Where no step is possible, who is not done waits for a lock. -/
theorem wants_of_stuck (stuck : forall next, ¬Step fair state next) {index : ι}
    (unfinished : (state.tasks index).todo ≠ []) :
    Exists fun lock => Exists fun mode => Exists fun rest =>
      (state.tasks index).todo = .acquire lock mode :: rest ∧ index ∈ state.queue lock := by
  cases isTodo : (state.tasks index).todo with
  | nil => exact absurd isTodo unfinished
  | cons step rest =>
      cases step with
      | acquire lock mode =>
          refine ⟨lock, mode, rest, rfl, ?_⟩
          by_contra absent
          exact stuck _ (.request isTodo absent)
      | release lock => exact absurd (.release isTodo) (stuck _)

/-- A lock that somebody waits for is held, where no step is possible, by a task that
waits for a lock above it. -/
theorem Orderly.blocked_above (orderly : Orderly state)
    (stuck : forall next, ¬Step fair state next) {index : ι} {lock : L}
    (waiting : index ∈ state.queue lock) :
    Exists fun holder => Exists fun above =>
      lock < above ∧ (state.tasks holder).todo ≠ [] ∧ holder ∈ state.queue above := by
  rcases List.exists_cons_of_ne_nil (List.ne_nil_of_mem waiting) with ⟨front, others, isQueue⟩
  have isFront : front ∈ state.queue lock := by
    rw [isQueue]
    exact List.mem_cons_self
  rcases orderly.waits lock front isFront with ⟨mode, rest, isNext⟩
  have taken : ¬Free state lock mode := by
    intro free
    refine stuck _ (.grant isNext isFront (fun _ => ?_) free)
    rw [isQueue, List.head?_cons]
  have held : Exists fun holder => Exists fun other =>
      (lock, other) ∈ (state.tasks holder).held := by
    by_contra nobody
    exact taken fun holder other member => absurd ⟨holder, other, member⟩ nobody
  rcases held with ⟨holder, other, member⟩
  have unfinished := todo_of_held (orderly.upward holder) member
  rcases wants_of_stuck stuck unfinished with ⟨above, _, _, wants, waitsAbove⟩
  have upward := orderly.upward holder
  rw [wants, Upward] at upward
  exact ⟨holder, above, upward.1 _ member, unfinished, waitsAbove⟩

/-- As long as a task is not done, some task can go on. -/
theorem Orderly.moves [Finite ι] (orderly : Orderly state) {index : ι}
    (unfinished : (state.tasks index).todo ≠ []) : Exists fun next => Step fair state next := by
  by_contra none
  have stuck : forall next, ¬Step fair state next := fun next step => none ⟨next, step⟩
  choose lock _ _ _ waiting using fun task : {task // (state.tasks task).todo ≠ []} =>
    wants_of_stuck stuck task.2
  have inhabited : Nonempty {task // (state.tasks task).todo ≠ []} := ⟨⟨index, unfinished⟩⟩
  rcases Finite.exists_max lock with ⟨last, most⟩
  rcases orderly.blocked_above stuck (waiting last) with ⟨holder, above, higher, busy, waits⟩
  rcases orderly.waits above holder waits with ⟨_, _, wants⟩
  rcases orderly.waits _ holder (waiting ⟨holder, busy⟩) with ⟨_, _, wantsToo⟩
  have same : lock ⟨holder, busy⟩ = above := by
    rw [wants] at wantsToo
    cases wantsToo
    rfl
  exact absurd (most ⟨holder, busy⟩) (not_le.mpr (same ▸ higher))

/-! ## No endless run -/

/-- The steps a task still has to make: two for each lock it takes, one for each it
releases, and one less if it has asked already. -/
def weight (state : State ι L) (index : ι) : Nat :=
  match (state.tasks index).todo with
  | [] => 0
  | .release _ :: rest => 2 * rest.length + 2
  | .acquire lock _ :: rest => 2 * rest.length + if index ∈ state.queue lock then 1 else 2

omit [LinearOrder L] in
theorem weight_le (state : State ι L) (index : ι) :
    weight state index ≤ 2 * (state.tasks index).todo.length := by
  unfold weight
  split
  · exact Nat.zero_le _
  · rename_i isTodo
    rw [isTodo, List.length_cons]
    omega
  · rename_i isTodo
    rw [isTodo, List.length_cons]
    split <;> omega

omit [LinearOrder L] in
theorem weight_same {index : ι} (todo : (next.tasks index).todo = (state.tasks index).todo)
    (queues : forall lock, index ∈ next.queue lock <-> index ∈ state.queue lock) :
    weight next index = weight state index := by
  unfold weight
  rw [todo]
  split
  · rfl
  · rfl
  · simp only [queues]

omit [DecidableEq ι] in
theorem mem_update_iff {queue : L -> List ι} {lock : L} {line : List ι} {index : ι}
    (same : index ∈ line <-> index ∈ queue lock) (wanted : L) :
    index ∈ Function.update queue lock line wanted <-> index ∈ queue wanted := by
  by_cases isLock : wanted = lock
  · subst isLock
    rw [Function.update_self]
    exact same
  · rw [Function.update_of_ne isLock]

/-- A step is one of one task, which has less to do behind it. -/
theorem Step.weight_lt (step : Step fair state next) :
    Exists fun index => weight next index < weight state index ∧
      forall other, other ≠ index -> weight next other = weight state other := by
  cases step with
  | @request index lock mode rest isNext absent =>
      refine ⟨index, ?_, fun other apart => weight_same rfl (mem_update_iff ?_)⟩
      · simp [weight, State.enqueue, isNext, absent]
      · rw [List.mem_append, List.mem_singleton, or_iff_left apart]
  | @grant index lock mode rest isNext present front free =>
      refine ⟨index, ?_, fun other apart =>
        weight_same (congrArg Task.todo (Function.update_of_ne apart _ _)) (mem_update_iff ?_)⟩
      · refine Nat.lt_of_le_of_lt (weight_le _ index) ?_
        simp [weight, State.give, isNext, present]
      · rw [List.mem_filter, and_iff_left (decide_eq_true apart)]
  | @release index lock rest isNext =>
      refine ⟨index, ?_, fun other apart => weight_same ?_ fun _ => Iff.rfl⟩
      · refine Nat.lt_of_le_of_lt (weight_le _ index) ?_
        simp [weight, State.takeBack, isNext]
      · exact congrArg Task.todo (Function.update_of_ne apart _ _)

variable [Fintype ι]

def total (state : State ι L) : Nat :=
  Finset.univ.sum (weight state)

theorem Step.total_lt (step : Step fair state next) :
    total next < total state := by
  rcases step.weight_lt with ⟨index, less, others⟩
  refine Finset.sum_lt_sum (fun other _ => ?_) ⟨index, Finset.mem_univ index, less⟩
  by_cases same : other = index
  · rw [same]
    exact less.le
  · exact (others other same).le

theorem Reaches.length_le {length : Nat}
    (run : Reaches fair start length state) : length + total state ≤ total start := by
  induction run with
  | start => exact Nat.le_of_eq (Nat.zero_add _)
  | step run step inductionHypothesis =>
      have less := step.total_lt
      omega

/-- A run of tasks that take their locks in order is no longer than what they have to do,
and can be continued until all of them are done. -/
theorem settles {todo : ι -> List (LockStep L)} (upward : forall index, Upward [] (todo index))
    {length : Nat} (run : Reaches fair (State.initial todo) length state) :
    length ≤ Finset.univ.sum (fun index => 2 * (todo index).length) ∧
      ((Exists fun next => Step fair state next) ∨
        forall index, state.tasks index = ⟨[], []⟩) := by
  have initially := orderly_initial upward
  have bound := run.length_le
  have whole : total (State.initial todo) ≤
      Finset.univ.sum (fun index => 2 * (todo index).length) :=
    Finset.sum_le_sum fun index _ => weight_le (State.initial todo) index
  refine ⟨by omega, ?_⟩
  by_cases busy : Exists fun index => (state.tasks index).todo ≠ []
  · rcases busy with ⟨index, unfinished⟩
    exact Or.inl ((initially.run run).moves unfinished)
  · refine Or.inr fun index => ?_
    have done : (state.tasks index).todo = [] := by
      by_contra unfinished
      exact busy ⟨index, unfinished⟩
    have held := (initially.run run).upward index
    rw [done, Upward] at held
    cases isTask : state.tasks index with
    | mk holds todo =>
        rw [isTask] at done held
        cases done
        cases held
        rfl

end Invariant

end Locking

end Foundation
end NovaDb
