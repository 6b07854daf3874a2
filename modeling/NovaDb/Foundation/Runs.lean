import Mathlib

namespace NovaDb
namespace Foundation

/-!
# Runs of a machine

A machine is a function that carries out an action on a state.  A run is a list
of actions.  What is asked of a run is asked of its steps, each with the state
before it, or of its states.
-/

namespace Run

variable {σ α : Type} (step : α -> σ -> σ)

/-- The state a run ends in. -/
def last (state : σ) : List α -> σ
  | [] => state
  | action :: rest => last (step action state) rest

/-- Every step of the run is permitted in the state before it.  So a condition on runs
is one on states and actions, and says nothing of what the steps lead to. -/
def Along (permitted : σ -> α -> Prop) (state : σ) : List α -> Prop
  | [] => True
  | action :: rest => permitted state action ∧ Along permitted (step action state) rest

/-- What every state of the run has, the first and the last included. -/
def Throughout (holds : σ -> Prop) (state : σ) : List α -> Prop
  | [] => holds state
  | action :: rest => holds state ∧ Throughout holds (step action state) rest

/-- Whether a run is permitted can be decided step by step. -/
instance decidableAlong (permitted : σ -> α -> Prop)
    [forall state action, Decidable (permitted state action)] (state : σ) (actions : List α) :
    Decidable (Along step permitted state actions) :=
  match actions with
  | [] => inferInstanceAs (Decidable True)
  | action :: rest =>
      have := decidableAlong permitted (step action state) rest
      inferInstanceAs (Decidable (permitted state action ∧
        Along step permitted (step action state) rest))

variable {step} {permitted : σ -> α -> Prop} {invariant holds : σ -> Prop} {start : σ}
  {actions more : List α}

theorem last_append : last step start (actions ++ more) = last step (last step start actions) more := by
  induction actions generalizing start with
  | nil => rfl
  | cons action rest inductionHypothesis => exact inductionHypothesis

theorem along_append : Along step permitted start (actions ++ more) <->
    Along step permitted start actions ∧ Along step permitted (last step start actions) more := by
  induction actions generalizing start with
  | nil => exact ⟨fun along => ⟨trivial, along⟩, fun along => along.2⟩
  | cons action rest inductionHypothesis =>
      simp only [List.cons_append, Along, last, inductionHypothesis, and_assoc]

theorem along_of_always (always : forall state action, permitted state action) :
    Along step permitted start actions := by
  induction actions generalizing start with
  | nil => exact trivial
  | cons action rest inductionHypothesis => exact ⟨always start action, inductionHypothesis⟩

/-- A condition that does not look at the state is one on the actions. -/
theorem along_iff_forall {allowed : α -> Prop} :
    Along step (fun _ action => allowed action) start actions <->
      forall action, action ∈ actions -> allowed action := by
  induction actions generalizing start with
  | nil => exact ⟨fun _ => nofun, fun _ => trivial⟩
  | cons action rest inductionHypothesis =>
      simp only [Along, inductionHypothesis, List.forall_mem_cons]

/-- Steps that keep an invariant and are permitted where it holds make up a permitted
run. -/
theorem along_of_along {asked : σ -> α -> Prop}
    (keeps : forall state action, asked state action -> invariant state ->
      invariant (step action state))
    (implies : forall state action, asked state action -> invariant state ->
      permitted state action)
    (initially : invariant start) (along : Along step asked start actions) :
    Along step permitted start actions := by
  induction actions generalizing start with
  | nil => exact trivial
  | cons action rest inductionHypothesis =>
      exact ⟨implies start action along.1 initially,
        inductionHypothesis (keeps start action along.1 initially) along.2⟩

/-- What every step keeps holds at the end of every run. -/
theorem last_of_invariant
    (keeps : forall state action, invariant state -> invariant (step action state))
    (initially : invariant start) (actions : List α) : invariant (last step start actions) := by
  induction actions generalizing start with
  | nil => exact initially
  | cons action rest inductionHypothesis =>
      exact inductionHypothesis (keeps start action initially)

theorem Throughout.first (throughout : Throughout step holds start actions) : holds start := by
  cases actions with
  | nil => exact throughout
  | cons action rest => exact throughout.1

theorem Throughout.last (throughout : Throughout step holds start actions) :
    holds (last step start actions) := by
  induction actions generalizing start with
  | nil => exact throughout
  | cons action rest inductionHypothesis => exact inductionHypothesis throughout.2

/-- What a run has throughout, it has before and behind its last step. -/
theorem Throughout.around {action : α}
    (throughout : Throughout step holds start (actions ++ [action])) :
    holds (Run.last step start actions) ∧ holds (step action (Run.last step start actions)) := by
  induction actions generalizing start with
  | nil => exact ⟨throughout.1, throughout.2⟩
  | cons earlier rest inductionHypothesis => exact inductionHypothesis throughout.2

/-- Where a step keeps the property exactly when it is permitted, a run has it
throughout exactly when all its steps are. -/
theorem throughout_iff_along
    (keeps : forall state action, invariant state -> invariant (step action state))
    (exact_step : forall state action, invariant state -> holds state ->
      (holds (step action state) <-> permitted state action))
    (initially : invariant start) (begins : holds start) :
    Throughout step holds start actions <-> Along step permitted start actions := by
  induction actions generalizing start with
  | nil => exact ⟨fun _ => trivial, fun _ => begins⟩
  | cons action rest inductionHypothesis =>
      have next := keeps start action initially
      constructor
      · intro throughout
        have kept := throughout.2.first
        exact ⟨(exact_step start action initially begins).mp kept,
          (inductionHypothesis next kept).mp throughout.2⟩
      · intro along
        have kept := (exact_step start action initially begins).mpr along.1
        exact ⟨begins, (inductionHypothesis next kept).mpr along.2⟩

/-- A property that a step can lose but not regain is had throughout when the last
state has it. -/
theorem throughout_iff_last
    (lasting : forall state action, holds (step action state) -> holds state) :
    Throughout step holds start actions <-> holds (last step start actions) := by
  induction actions generalizing start with
  | nil => exact Iff.rfl
  | cons action rest inductionHypothesis =>
      rw [Throughout, last, inductionHypothesis]
      constructor
      · intro throughout
        exact throughout.2
      · intro kept
        refine ⟨?_, kept⟩
        exact lasting start action (inductionHypothesis.mpr kept).first

end Run

end Foundation
end NovaDb
