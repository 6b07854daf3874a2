import Mathlib.Data.List.Nodup

namespace NovaDb
namespace Foundation

/-!
# Linearizability

Clients call operations of a shared object and are answered later.  A history of
calls and answers is linearizable when the operations, each taken at one moment,
make up a serial run of the object: every answer is the one of the serial run, and
an operation that was answered before another was called comes before it.

A serial order grows along with the history by three rules: a call adds nothing to
it, an operation takes effect at most once and after it was called, and an answer
is that of an operation that has taken effect.
-/

/-- What is seen from outside: calls, by their number, and their answers. -/
inductive Occurrence (Op Ans : Type) where
  | called (call : Nat) (operation : Op)
  | returned (call : Nat) (answer : Ans)

/-- An operation in a serial order. -/
structure Effect (Op Ans : Type) where
  call : Nat
  operation : Op
  answer : Ans

/-- The serial runs of an object, given what its operations may do. -/
inductive Serial {σ Op Ans : Type} (means : σ -> Op -> Ans -> σ -> Prop) (start : σ) :
    List (Effect Op Ans) -> σ -> Prop where
  | start : Serial means start [] start
  | step {order : List (Effect Op Ans)} {state next : σ} {effect : Effect Op Ans}
      (serial : Serial means start order state)
      (meant : means state effect.operation effect.answer next) :
      Serial means start (order ++ [effect]) next

/-- The order is a serial run that explains the history: its effects are those of
operations that were called, each at most once; whatever was answered took effect with
that answer; and what was answered before another operation was called precedes it. -/
structure Linearizes {σ Op Ans : Type} (means : σ -> Op -> Ans -> σ -> Prop) (start : σ)
    (history : List (Occurrence Op Ans)) (order : List (Effect Op Ans)) (state : σ) : Prop where
  serial : Serial means start order state
  once : (order.map Effect.call).Nodup
  called : forall {effect : Effect Op Ans}, effect ∈ order ->
    .called effect.call effect.operation ∈ history
  answered : forall {call : Nat} {answer : Ans}, .returned call answer ∈ history ->
    Exists fun operation => ⟨call, operation, answer⟩ ∈ order
  realTime : forall {earlier later : Effect Op Ans}, earlier ∈ order -> later ∈ order ->
    List.Sublist [.returned earlier.call earlier.answer, .called later.call later.operation]
      history -> List.Sublist [earlier, later] order

/-- A pair in a longer list is a pair of the list, or ends with the new element. -/
theorem pair_sublist_snoc {α : Type} {first second last : α} {list : List α}
    (pair : List.Sublist [first, second] (list ++ [last])) :
    List.Sublist [first, second] list ∨ second = last := by
  rcases List.sublist_append_iff.mp pair with ⟨front, back, split, inFront, inBack⟩
  cases back with
  | nil =>
      rw [List.append_nil] at split
      exact Or.inl (split ▸ inFront)
  | cons head tail =>
      have single := inBack.length_le
      cases tail with
      | cons _ _ => simp at single
      | nil =>
          have same : head = last := by simpa using inBack
          have ends : second = head := by simpa using congrArg List.getLast? split
          exact Or.inr (ends.trans same)

namespace Linearizes

variable {σ Op Ans : Type} {means : σ -> Op -> Ans -> σ -> Prop} {start state next : σ}
  {history : List (Occurrence Op Ans)} {order : List (Effect Op Ans)} {call : Nat}
  {operation : Op} {answer : Ans}

theorem nil (means : σ -> Op -> Ans -> σ -> Prop) (start : σ) :
    Linearizes means start [] [] start where
  serial := .start
  once := List.nodup_nil
  called := nofun
  answered := nofun
  realTime := nofun

/-- A call with a new number. -/
theorem call_new (linearizes : Linearizes means start history order state)
    (fresh : forall operation, .called call operation ∉ history) :
    Linearizes means start (history ++ [.called call operation]) order state where
  serial := linearizes.serial
  once := linearizes.once
  called := fun member => List.mem_append_left _ (linearizes.called member)
  answered := by
    intro returned answer member
    rcases List.mem_append.mp member with member | isNew
    · exact linearizes.answered member
    · exact nomatch List.mem_singleton.mp isNew
  realTime := by
    intro earlier later isEarlier isLater pair
    rcases pair_sublist_snoc pair with pair | isNew
    · exact linearizes.realTime isEarlier isLater pair
    · -- the later operation has not taken effect: it has only been called now
      injection isNew with sameCall sameOperation
      exact absurd (sameCall ▸ linearizes.called isLater) (fresh _)

/-- An operation that was called takes effect. -/
theorem takes_effect (linearizes : Linearizes means start history order state)
    (isCalled : .called call operation ∈ history)
    (pending : forall effect, effect ∈ order -> effect.call ≠ call)
    (meant : means state operation answer next) :
    Linearizes means start history (order ++ [⟨call, operation, answer⟩]) next where
  serial := .step linearizes.serial meant
  once := by
    rw [List.map_append]
    refine List.Nodup.append linearizes.once (List.nodup_singleton _) ?_
    intro other member isNew
    rcases List.mem_map.mp member with ⟨effect, isEffect, rfl⟩
    exact pending effect isEffect (List.mem_singleton.mp isNew)
  called := by
    intro effect member
    rcases List.mem_append.mp member with member | isNew
    · exact linearizes.called member
    · rw [List.mem_singleton.mp isNew]
      exact isCalled
  answered := by
    intro returned given member
    rcases linearizes.answered member with ⟨answeredOperation, isEffect⟩
    exact ⟨answeredOperation, List.mem_append_left _ isEffect⟩
  realTime := by
    intro earlier later isEarlier isLater pair
    rcases List.mem_append.mp isEarlier with isEarlier | isNew
    · rcases List.mem_append.mp isLater with isLater | isNew
      · exact (linearizes.realTime isEarlier isLater pair).trans (List.sublist_append_left _ _)
      · rw [List.mem_singleton.mp isNew]
        exact (List.singleton_sublist.mpr isEarlier).append (List.Sublist.refl _)
    · -- an operation that takes effect now has not been answered
      rw [List.mem_singleton.mp isNew] at pair
      have isReturned := pair.subset List.mem_cons_self
      rcases linearizes.answered isReturned with ⟨answeredOperation, isEffect⟩
      exact absurd rfl (pending _ isEffect)

/-- The answer of an operation that has taken effect. -/
theorem answer_given (linearizes : Linearizes means start history order state)
    (isEffect : ⟨call, operation, answer⟩ ∈ order) :
    Linearizes means start (history ++ [.returned call answer]) order state where
  serial := linearizes.serial
  once := linearizes.once
  called := fun member => List.mem_append_left _ (linearizes.called member)
  answered := by
    intro returned given member
    rcases List.mem_append.mp member with member | isNew
    · exact linearizes.answered member
    · injection List.mem_singleton.mp isNew with sameCall sameAnswer
      exact ⟨operation, sameCall ▸ sameAnswer ▸ isEffect⟩
  realTime := by
    intro earlier later isEarlier isLater pair
    rcases pair_sublist_snoc pair with pair | isNew
    · exact linearizes.realTime isEarlier isLater pair
    · exact nomatch isNew

end Linearizes

end Foundation
end NovaDb
