import NovaDb.Foundation.OrderedLocks
import NovaDb.Query.Statement

namespace NovaDb
namespace Server

open Core Foundation Query Locking

/-!
# The locks of the engine

Every statement takes the locks it needs in one order: the collections, then the indexes,
and the file of the log last.  A statement that waits for a lock therefore waits for one
that is on its way to be released, whatever the other connections execute.
-/

/-- The two locks of the engine and the one of the log. -/
inductive Lock where
  | collections
  | indexes
  | activeFile
  deriving Repr

namespace Lock

def rank : Lock -> Nat
  | collections => 0
  | indexes => 1
  | activeFile => 2

theorem rank_injective : Function.Injective rank := by
  intro first second same
  cases first <;> cases second <;> first | rfl | cases same

instance : LinearOrder Lock :=
  LinearOrder.lift' rank rank_injective

/-- The locks of tokio are given in the order they were asked for; the mutex of the
standard library is given to anyone. -/
def fair : Lock -> Prop
  | collections | indexes => True
  | activeFile => False

end Lock

/-- What one append does with the lock of the log: nothing, if the record cannot be
encoded; it takes it once, to write the record or in a rotation that fails; or it takes it
to rotate, releases it, and takes it again to write. -/
inductive AppendLocks : List (LockStep Lock) -> Prop where
  | unencoded : AppendLocks []
  | once : AppendLocks (holding .activeFile .exclusive [])
  | rotated :
      AppendLocks (holding .activeFile .exclusive [] ++ holding .activeFile .exclusive [])

/-- The locks taken and released by a statement, for each of the ways it can go.  A guard
is dropped at the end of its block, on an error and on a panic as well. -/
inductive StatementLocks : Statement -> List (LockStep Lock) -> Prop where
  | insertRefused {collection : String} {document : Document} :
      StatementLocks (.insert collection document) (holding .collections .shared [])
  | insertUnlogged {collection : String} {document : Document} {log : List (LockStep Lock)}
      (logs : AppendLocks log) :
      StatementLocks (.insert collection document) (holding .collections .shared [] ++ log)
  | inserted {collection : String} {document : Document} {log : List (LockStep Lock)}
      (logs : AppendLocks log) :
      StatementLocks (.insert collection document)
        (holding .collections .shared [] ++
          (log ++ (holding .collections .exclusive [] ++ holding .indexes .exclusive [])))
  | find {collection : String} {filter : Option Expr} {sort : Option SortClause}
      {limit offset : Option UInt64} :
      StatementLocks (.find collection filter sort limit offset)
        (holding .collections .shared (holding .indexes .shared []))
  | update {collection : String} {assignments : List Assignment} {filter : Option Expr}
      {logs : List (List (LockStep Lock))} (each : forall log, log ∈ logs -> AppendLocks log) :
      StatementLocks (.update collection assignments filter)
        (holding .collections .exclusive (holding .indexes .exclusive logs.flatten))
  | remove {collection : String} {filter : Option Expr}
      {logs : List (List (LockStep Lock))} (each : forall log, log ∈ logs -> AppendLocks log) :
      StatementLocks (.remove collection filter)
        (holding .collections .exclusive (holding .indexes .exclusive logs.flatten))
  | count {collection : String} {filter : Option Expr} :
      StatementLocks (.count collection filter) (holding .collections .shared [])
  | exists {collection : String} {filter : Option Expr} :
      StatementLocks (.exists collection filter) (holding .collections .shared [])
  | createIndex {collection field : String} {indexType : Index.IndexType} :
      StatementLocks (.createIndex collection field indexType)
        (holding .collections .shared (holding .indexes .exclusive []))
  | dropIndex {collection field : String} :
      StatementLocks (.dropIndex collection field) (holding .indexes .exclusive [])
  | watch {collection : String} {filter : Option Expr} :
      StatementLocks (.watch collection filter) []
  | begin : StatementLocks .begin []
  | commit : StatementLocks .commit []
  | rollback : StatementLocks .rollback []

/-- The locks of a task that executes statements and answers requests for the status page,
one after another. -/
inductive TaskLocks : List (LockStep Lock) -> Prop where
  | done : TaskLocks []
  | statement {statement : Statement} {locks more : List (LockStep Lock)}
      (executes : StatementLocks statement locks) (later : TaskLocks more) :
      TaskLocks (locks ++ more)
  | getSystemStatus {more : List (LockStep Lock)} (later : TaskLocks more) :
      TaskLocks (holding .collections .shared (holding .indexes .shared []) ++ more)

/-! ## Every task takes its locks in order -/

section Order

variable {held : List (Lock × Mode)} {steps : List (LockStep Lock)}

/-- The locks held are below the one of the log. -/
theorem AppendLocks.balanced (logs : AppendLocks steps)
    (above : forall other, other ∈ held -> other.1 < Lock.activeFile) : Balanced held steps := by
  have once : Balanced held (holding .activeFile .exclusive []) := .holding above balanced_nil
  cases logs with
  | unencoded => exact balanced_nil
  | once => exact once
  | rotated => exact once.append once

theorem balanced_flatten {logs : List (List (LockStep Lock))}
    (each : forall log, log ∈ logs -> AppendLocks log)
    (above : forall other, other ∈ held -> other.1 < Lock.activeFile) :
    Balanced held logs.flatten := by
  induction logs with
  | nil => exact balanced_nil
  | cons log logs inductionHypothesis =>
      rw [List.forall_mem_cons] at each
      rw [List.flatten_cons]
      exact (each.1.balanced above).append (inductionHypothesis each.2)

/-- One lock, or the indexes behind the collections. -/
theorem balanced_nested {mode inner : Mode}
    (behind : Balanced [(Lock.indexes, inner), (Lock.collections, mode)] steps) :
    Balanced [] (holding .collections mode (holding .indexes inner steps)) :=
  .holding (List.forall_mem_nil _) (.holding (by simp; decide) behind)

theorem StatementLocks.balanced {statement : Statement}
    (executes : StatementLocks statement steps) : Balanced [] steps := by
  have single : forall (lock : Lock) (mode : Mode), Balanced [] (holding lock mode []) :=
    fun _ _ => .holding (List.forall_mem_nil _) balanced_nil
  have both : forall {logs : List (List (LockStep Lock))},
      (forall log, log ∈ logs -> AppendLocks log) ->
        Balanced [] (holding .collections .exclusive (holding .indexes .exclusive logs.flatten)) :=
    fun each => balanced_nested (balanced_flatten each (by simp; decide))
  cases executes with
  | insertRefused | count | «exists» | dropIndex => exact single _ _
  | insertUnlogged logs => exact (single _ _).append (logs.balanced (List.forall_mem_nil _))
  | inserted logs =>
      have log := logs.balanced (List.forall_mem_nil _)
      exact (single _ _).append (log.append ((single _ _).append (single _ _)))
  | find | createIndex => exact balanced_nested balanced_nil
  | update each | remove each => exact both each
  | watch | begin | commit | rollback => exact balanced_nil

theorem TaskLocks.balanced (task : TaskLocks steps) : Balanced [] steps := by
  induction task with
  | done => exact balanced_nil
  | statement executes _ inductionHypothesis => exact executes.balanced.append inductionHypothesis
  | getSystemStatus _ inductionHypothesis =>
      exact (balanced_nested balanced_nil).append inductionHypothesis

end Order

/-- Whatever tasks run at once and in whatever order they go on: the number of steps is
bounded, a lock held exclusively has one holder, and as long as a task is not done some
task can go on. -/
theorem statements_never_deadlock {ι : Type} [Fintype ι] [DecidableEq ι]
    {todo : ι -> List (LockStep Lock)} (each : forall index, TaskLocks (todo index))
    {length : Nat} {state : State ι Lock}
    (run : Reaches Lock.fair (State.initial todo) length state) :
    length ≤ Finset.univ.sum (fun index => 2 * (todo index).length) ∧
      (forall first second lock mode, (lock, Mode.exclusive) ∈ (state.tasks first).held ->
        (lock, mode) ∈ (state.tasks second).held -> first = second) ∧
        ((Exists fun next => Step Lock.fair state next) ∨
          forall index, state.tasks index = ⟨[], []⟩) := by
  have upward : forall index, Upward [] (todo index) := fun index =>
    (each index).balanced.upward
  rcases settles upward run with ⟨bounded, goesOn⟩
  exact ⟨bounded, ((orderly_initial upward).run run).alone, goesOn⟩

/-- An UPDATE of one document, and a COUNT of the same collection. -/
def contendingTasks : Bool -> List (LockStep Lock)
  | true => holding .collections .exclusive (holding .indexes .exclusive
      [holding .activeFile .exclusive []].flatten) ++ []
  | false => holding .collections .shared [] ++ []

/-- The UPDATE holds the collections, and the COUNT waits for them. -/
def contended : State Bool Lock :=
  (((State.initial contendingTasks).enqueue true .collections).give true .collections .exclusive
    (contendingTasks true).tail).enqueue false .collections

theorem statements_never_deadlock_sample :
    (contended.tasks true).held = [(.collections, .exclusive)] ∧
      contended.queue .collections = [false] ∧ ¬Free contended .collections .shared ∧
      Exists fun next => Step Lock.fair contended next := by
  have each : forall index, TaskLocks (contendingTasks index) :=
    Bool.forall_bool.mpr ⟨.statement (@StatementLocks.count "users" none) .done,
      .statement (@StatementLocks.update "users" [] none _
        (List.forall_mem_singleton.mpr .once)) .done⟩
  have asked : Reaches Lock.fair (State.initial contendingTasks) 1
      ((State.initial contendingTasks).enqueue true .collections) :=
    .step .start (.request rfl List.not_mem_nil)
  have holds : Reaches Lock.fair (State.initial contendingTasks) 2
      (((State.initial contendingTasks).enqueue true .collections).give true .collections
        .exclusive (contendingTasks true).tail) := by
    refine .step asked (.grant rfl (by decide) (fun _ => by decide) ?_)
    intro index other member
    cases member
  have run : Reaches Lock.fair (State.initial contendingTasks) 3 contended :=
    .step holds (.request rfl (by decide))
  refine ⟨by decide, by decide, ?_, ?_⟩
  · intro free
    cases (free true .exclusive List.mem_cons_self).2
  · rcases (statements_never_deadlock each run).2.2 with goesOn | done
    · exact goesOn
    · exact absurd (congrArg Task.todo (done false)) (by decide)

end Server
end NovaDb
