import NovaDb.Foundation.Runs

namespace NovaDb
namespace Foundation

/-!
# Actions an observer does not see

Some actions of a machine are hidden, depending on the state they are taken in.
What is left of a run is the list of the labels of its other actions.  Two runs
that leave the same end alike, if a hidden action goes unnoticed and the same
visible action keeps alike states alike.
-/

namespace Unwinding

variable {σ α γ : Type} (step : α -> σ -> σ) (hidden : σ -> α -> Bool) (label : α -> γ)

/-- The labels of the actions that are not hidden in the state before them. -/
def visible (state : σ) : List α -> List γ
  | [] => []
  | action :: rest =>
      if hidden state action then visible (step action state) rest
      else label action :: visible (step action state) rest

variable {step} {hidden} {label} {state : σ} {action : α} {rest : List α}

theorem visible_hidden (unseen : hidden state action = true) :
    visible step hidden label state (action :: rest) =
      visible step hidden label (step action state) rest :=
  if_pos unseen

theorem visible_shown (seen : hidden state action = false) :
    visible step hidden label state (action :: rest) =
      label action :: visible step hidden label (step action state) rest := by
  rw [visible, seen]
  rfl

/-- What is seen of a run that goes on. -/
theorem visible_append (actions more : List α) :
    visible step hidden label state (actions ++ more) =
      visible step hidden label state actions ++
        visible step hidden label (Run.last step state actions) more := by
  induction actions generalizing state with
  | nil => rfl
  | cons action rest inductionHypothesis =>
      rw [List.cons_append]
      cases isHidden : hidden state action with
      | true =>
          rw [visible_hidden isHidden, visible_hidden isHidden, inductionHypothesis]
          rfl
      | false =>
          rw [visible_shown isHidden, visible_shown isHidden, inductionHypothesis]
          rfl

/-- What unwinding asks of the steps that are permitted: they keep an invariant, a
hidden one goes unnoticed, and those with one label do the same to alike states. -/
structure Unwinds (step : α -> σ -> σ) (hidden : σ -> α -> Bool) (label : α -> γ)
    (permitted : σ -> α -> Prop) (invariant : σ -> Prop) (alike : σ -> σ -> Prop) : Prop where
  equivalence : Equivalence alike
  keeps : forall state action, permitted state action -> invariant state ->
    invariant (step action state)
  unnoticed : forall state action, permitted state action -> invariant state ->
    hidden state action = true -> alike state (step action state)
  together : forall first second action other, permitted first action -> permitted second other ->
    invariant first -> invariant second -> hidden first action = false ->
    hidden second other = false -> label action = label other -> alike first second ->
    alike (step action first) (step other second)

variable {permitted : σ -> α -> Prop} {invariant : σ -> Prop} {alike : σ -> σ -> Prop}

/-- A run of which nothing is seen goes unnoticed. -/
theorem Unwinds.last_of_unseen (unwinds : Unwinds step hidden label permitted invariant alike)
    {actions : List α} (along : Run.Along step permitted state actions) (holds : invariant state)
    (unseen : visible step hidden label state actions = []) :
    alike state (Run.last step state actions) := by
  induction actions generalizing state with
  | nil => exact unwinds.equivalence.refl state
  | cons action rest inductionHypothesis =>
      cases isHidden : hidden state action with
      | true =>
          rw [visible_hidden isHidden] at unseen
          apply unwinds.equivalence.trans (unwinds.unnoticed state action along.1 holds isHidden)
          exact inductionHypothesis along.2 (unwinds.keeps state action along.1 holds) unseen
      | false =>
          rw [visible_shown isHidden] at unseen
          cases unseen

/-- A run of which something is seen comes to an action with the first label. -/
theorem Unwinds.until_seen (unwinds : Unwinds step hidden label permitted invariant alike)
    {actions : List α} (along : Run.Along step permitted state actions) (holds : invariant state)
    {first : γ} {others : List γ}
    (seen : visible step hidden label state actions = first :: others) :
    Exists fun before => Exists fun action => Exists fun rest =>
      permitted before action ∧ Run.Along step permitted (step action before) rest ∧
      invariant before ∧ alike state before ∧ hidden before action = false ∧
      label action = first ∧ visible step hidden label (step action before) rest = others ∧
      Run.last step state actions = Run.last step (step action before) rest := by
  induction actions generalizing state with
  | nil => cases seen
  | cons action rest inductionHypothesis =>
      cases isHidden : hidden state action with
      | true =>
          rw [visible_hidden isHidden] at seen
          rcases inductionHypothesis along.2 (unwinds.keeps state action along.1 holds) seen with
            ⟨before, next, later, permits, onwards, kept, same, found⟩
          exact ⟨before, next, later, permits, onwards, kept,
            unwinds.equivalence.trans (unwinds.unnoticed state action along.1 holds isHidden) same,
            found⟩
      | false =>
          rw [visible_shown isHidden] at seen
          rcases List.cons.inj seen with ⟨isLabel, isRest⟩
          exact ⟨state, action, rest, along.1, along.2, holds, unwinds.equivalence.refl state,
            isHidden, isLabel, isRest, rfl⟩

/-- Runs of which the same is seen, from alike states, end alike. -/
theorem Unwinds.last_alike (unwinds : Unwinds step hidden label permitted invariant alike)
    {first second : σ} {actions others : List α}
    (alongFirst : Run.Along step permitted first actions)
    (alongSecond : Run.Along step permitted second others)
    (holdsFirst : invariant first) (holdsSecond : invariant second)
    (seen : visible step hidden label first actions = visible step hidden label second others)
    (same : alike first second) :
    alike (Run.last step first actions) (Run.last step second others) := by
  induction actions generalizing first second others with
  | nil =>
      exact unwinds.equivalence.trans same
        (unwinds.last_of_unseen alongSecond holdsSecond seen.symm)
  | cons action rest inductionHypothesis =>
      have kept := unwinds.keeps first action alongFirst.1 holdsFirst
      cases isHidden : hidden first action with
      | true =>
          rw [visible_hidden isHidden] at seen
          apply inductionHypothesis alongFirst.2 alongSecond kept holdsSecond seen
          exact unwinds.equivalence.trans
            (unwinds.equivalence.symm (unwinds.unnoticed first action alongFirst.1 holdsFirst isHidden))
            same
      | false =>
          rw [visible_shown isHidden] at seen
          rcases unwinds.until_seen alongSecond holdsSecond seen.symm with
            ⟨before, other, later, permits, onwards, holds, unmoved, shown, sameLabel, left, isLast⟩
          rw [isLast]
          apply inductionHypothesis alongFirst.2 onwards kept
            (unwinds.keeps before other permits holds) left.symm
          exact unwinds.together first before action other alongFirst.1 permits holdsFirst holds
            isHidden shown sameLabel.symm (unwinds.equivalence.trans same unmoved)

end Unwinding

end Foundation
end NovaDb
