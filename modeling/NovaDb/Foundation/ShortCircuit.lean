import Mathlib

namespace NovaDb
namespace Foundation

/-!
# Connectives that stop early

A truth value is computed, and its computation can fail.  Conjunction and
disjunction ask for their second operand only if the first one leaves the result
open, and a failure of an operand that is asked for is the failure of the whole.
-/

namespace ShortCircuit

variable {ε : Type}

def invert (truth : Except ε Bool) : Except ε Bool :=
  truth.map not

def conj (left right : Except ε Bool) : Except ε Bool :=
  match left with
  | .error failure => .error failure
  | .ok false => .ok false
  | .ok true => right

def disj (left right : Except ε Bool) : Except ε Bool :=
  match left with
  | .error failure => .error failure
  | .ok true => .ok true
  | .ok false => right

/-- Some operand holds, asked from the left until one does. -/
def anyOf : List (Except ε Bool) -> Except ε Bool
  | [] => .ok false
  | first :: rest => disj first (anyOf rest)

theorem invert_conj (left right : Except ε Bool) :
    invert (conj left right) = disj (invert left) (invert right) := by
  cases left with
  | error failure => rfl
  | ok holds => cases holds <;> rfl

theorem invert_disj (left right : Except ε Bool) :
    invert (disj left right) = conj (invert left) (invert right) := by
  cases left with
  | error failure => rfl
  | ok holds => cases holds <;> rfl

theorem disj_assoc (first second third : Except ε Bool) :
    disj (disj first second) third = disj first (disj second third) := by
  cases first with
  | error failure => rfl
  | ok holds => cases holds <;> rfl

theorem disj_false (truth : Except ε Bool) : disj truth (.ok false) = truth := by
  cases truth with
  | error failure => rfl
  | ok holds => cases holds <;> rfl

/-- Nested to the left, the disjunctions ask the same operands in the same order. -/
theorem foldl_disj (first : Except ε Bool) (rest : List (Except ε Bool)) :
    rest.foldl disj first = disj first (anyOf rest) := by
  induction rest generalizing first with
  | nil => exact (disj_false first).symm
  | cons second rest inductionHypothesis =>
      rw [List.foldl_cons, inductionHypothesis, disj_assoc]
      rfl

end ShortCircuit

end Foundation
end NovaDb
