import NovaDb.Foundation.ShortCircuit
import NovaDb.Query.Evaluator
import NovaDb.Storage.ReferencePlatform

namespace NovaDb
namespace Query

open Core Foundation ShortCircuit

/-!
# Laws for rewriting filters

The logical operators look at the truth of their operands, and stop early.  Each of
them is a connective on computed truth values, so that the laws of the connectives
are laws of filters, failures included.
-/

namespace Evaluator

variable (P : Platform) (doc : Document)

/-- The truth of an expression, as the logical operators see it. -/
def truth (expr : Expr) : Outcome Bool :=
  (eval P doc expr).map isTruthy

variable {P doc}

theorem eval_not (expr : Expr) :
    eval P doc (.unary .not expr) = (invert (truth P doc expr)).map .bool := by
  rw [eval, truth]
  cases eval P doc expr <;> rfl

theorem eval_and (left right : Expr) :
    eval P doc (.binary .and left right) =
      (conj (truth P doc left) (truth P doc right)).map .bool := by
  rw [eval, truth, truth]
  cases eval P doc left with
  | error fault => rfl
  | ok value =>
      cases holds : isTruthy value with
      | false => simp [bind, Except.bind, Except.map, conj, holds, pure, Except.pure]
      | true =>
          simp only [bind, Except.bind, Except.map, holds, conj, Bool.not_true, Bool.false_eq_true,
            if_false]
          cases eval P doc right <;> rfl

theorem eval_or (left right : Expr) :
    eval P doc (.binary .or left right) =
      (disj (truth P doc left) (truth P doc right)).map .bool := by
  rw [eval, truth, truth]
  cases eval P doc left with
  | error fault => rfl
  | ok value =>
      cases holds : isTruthy value with
      | true => simp [bind, Except.bind, Except.map, disj, holds, pure, Except.pure]
      | false =>
          simp only [bind, Except.bind, Except.map, holds, disj, Bool.false_eq_true, if_false]
          cases eval P doc right <;> rfl

/-- The truth of an expression whose value is a computed truth value. -/
theorem truth_of_eval {expr : Expr} {found : Outcome Bool}
    (evaluates : eval P doc expr = found.map .bool) : truth P doc expr = found := by
  rw [truth, evaluates]
  cases found <;> rfl

theorem truth_not (expr : Expr) : truth P doc (.unary .not expr) = invert (truth P doc expr) :=
  truth_of_eval (eval_not expr)

theorem truth_or (left right : Expr) :
    truth P doc (.binary .or left right) = disj (truth P doc left) (truth P doc right) :=
  truth_of_eval (eval_or left right)

/-! ## Comparisons -/

/-- The operators that compare, and when they hold. -/
def compares : BinaryOp -> Option (Value -> Value -> Bool)
  | .eq => some fun left right => left.eq right
  | .notEq => some fun left right => !left.eq right
  | .gt => some fun left right => left.cmp right == .gt
  | .gtEq => some fun left right => left.cmp right == .gt || left.cmp right == .eq
  | .lt => some fun left right => left.cmp right == .lt
  | .ltEq => some fun left right => left.cmp right == .lt || left.cmp right == .eq
  | .and | .or | .plus | .minus | .multiply | .divide | .modulo => none

/-- A comparison evaluates both operands and cannot fail itself. -/
theorem eval_comparison {op : BinaryOp} {holds : Value -> Value -> Bool}
    (isComparison : compares op = some holds) (left right : Expr) :
    eval P doc (.binary op left right) = (do
      let leftValue <- eval P doc left
      let rightValue <- eval P doc right
      return .bool (holds leftValue rightValue)) := by
  cases op with
  | eq | notEq | gt | gtEq | lt | ltEq =>
      rw [← Option.some.inj isComparison, eval]
      · rfl
      · intro isAnd
        cases isAnd
      · intro isOr
        cases isOr
  | and | or | plus | minus | multiply | divide | modulo => cases isComparison

/-- An operator that holds exactly when another does not is its negation. -/
theorem eval_negation {op other : BinaryOp} {holds fails : Value -> Value -> Bool}
    (isComparison : compares op = some holds) (isOther : compares other = some fails)
    (opposite : forall left right, holds left right = !fails left right) (left right : Expr) :
    eval P doc (.binary op left right) = eval P doc (.unary .not (.binary other left right)) := by
  rw [eval_comparison isComparison, eval, eval_comparison isOther]
  cases eval P doc left with
  | error fault => rfl
  | ok leftValue =>
      cases eval P doc right with
      | error fault => rfl
      | ok rightValue =>
          change Except.ok (Value.bool (holds leftValue rightValue)) = _
          rw [opposite]
          rfl

/-! ## Membership -/

/-- `x == l1 OR x == l2 OR ...`, nested to the left. -/
def orOfEquals (expr first : Expr) (rest : List Expr) : Expr :=
  rest.foldl (fun sofar item => .binary .or sofar (.binary .eq expr item)) (.binary .eq expr first)

theorem truth_orOfEquals (expr : Expr) (rest : List Expr) (sofar : Expr) :
    truth P doc (rest.foldl (fun sofar item => .binary .or sofar (.binary .eq expr item)) sofar) =
      (rest.map fun item => truth P doc (.binary .eq expr item)).foldl disj (truth P doc sofar) := by
  induction rest generalizing sofar with
  | nil => rfl
  | cons item rest inductionHypothesis =>
      rw [List.foldl_cons, inductionHypothesis, truth_or]
      rfl

/-- The chain has the value of its truth, since each of its links is a boolean. -/
theorem eval_orOfEquals (expr first : Expr) (rest : List Expr) :
    eval P doc (orOfEquals expr first rest) =
      (truth P doc (orOfEquals expr first rest)).map .bool := by
  unfold orOfEquals
  rcases List.eq_nil_or_concat rest with rfl | ⟨front, last, rfl⟩
  · rw [List.foldl_nil, truth, eval_comparison rfl]
    cases eval P doc expr with
    | error fault => rfl
    | ok value =>
        cases eval P doc first with
        | error fault => rfl
        | ok firstValue => rfl
  · rw [List.concat_eq_append, List.foldl_append, List.foldl_cons, List.foldl_nil, truth_or,
      eval_or]

theorem truth_equal {expr : Expr} {value : Value} (evaluates : eval P doc expr = .ok value)
    (item : Expr) :
    truth P doc (.binary .eq expr item) = (eval P doc item).map (fun found => value.eq found) := by
  rw [truth, eval_comparison rfl, evaluates]
  cases eval P doc item <;> rfl

theorem evalIn_anyOf {expr : Expr} {value : Value} (evaluates : eval P doc expr = .ok value)
    (list : List Expr) :
    evalIn P doc value list =
      (anyOf (list.map fun item => truth P doc (.binary .eq expr item))).map .bool := by
  induction list with
  | nil => rfl
  | cons item rest inductionHypothesis =>
      rw [evalIn, List.map_cons, anyOf, truth_equal evaluates]
      cases eval P doc item with
      | error fault => rfl
      | ok found =>
          simp only [bind, Except.bind, Except.map]
          cases same : value.eq found with
          | true => rfl
          | false =>
              simp only [Bool.false_eq_true, if_false, disj]
              exact inductionHypothesis

theorem eval_isIn (expr first : Expr) (rest : List Expr) :
    eval P doc (.isIn expr (first :: rest)) = eval P doc (orOfEquals expr first rest) := by
  rw [eval_orOfEquals, orOfEquals, truth_orOfEquals, foldl_disj, eval]
  cases evaluates : eval P doc expr with
  | error fault =>
      rw [truth, eval_comparison rfl, evaluates]
      rfl
  | ok value =>
      change evalIn P doc value (first :: rest) = _
      rw [evalIn_anyOf evaluates]
      rfl

/-! ## The laws -/

theorem between_holds (value low high : Value) :
    (value.cmp low != .lt && value.cmp high != .gt) =
      ((value.cmp low == .gt || value.cmp low == .eq) &&
        (value.cmp high == .lt || value.cmp high == .eq)) := by
  cases value.cmp low <;> cases value.cmp high <;> rfl

/-- The laws a rewriting of filters rests on.  They are equations of outcomes, so they
hold of expressions that fail or panic as well; that of BETWEEN supposes that its three
expressions have values.  -/
theorem filter_rewriting_laws (P : Platform) (doc : Document) :
    (forall a b : Expr, eval P doc (.unary .not (.binary .and a b)) =
      eval P doc (.binary .or (.unary .not a) (.unary .not b))) ∧
    (forall a b : Expr, eval P doc (.unary .not (.binary .or a b)) =
      eval P doc (.binary .and (.unary .not a) (.unary .not b))) ∧
    (forall (x first : Expr) (rest : List Expr), eval P doc (.isIn x (first :: rest)) =
      eval P doc (orOfEquals x first rest)) ∧
    (forall a b : Expr, eval P doc (.binary .notEq a b) =
      eval P doc (.unary .not (.binary .eq a b))) ∧
    (forall a b : Expr, eval P doc (.binary .gtEq a b) =
      eval P doc (.unary .not (.binary .lt a b))) ∧
    (forall a b : Expr, eval P doc (.binary .ltEq a b) =
      eval P doc (.unary .not (.binary .gt a b))) ∧
    (forall (x min max : Expr) (value low high : Value), eval P doc x = .ok value ->
      eval P doc min = .ok low -> eval P doc max = .ok high ->
      eval P doc (.between x min max) =
        eval P doc (.binary .and (.binary .gtEq x min) (.binary .ltEq x max))) := by
  refine ⟨?_, ?_, eval_isIn, ?_, ?_, ?_, ?_⟩
  · intro a b
    rw [eval_not, truth_of_eval (eval_and a b), invert_conj, eval_or, truth_not, truth_not]
  · intro a b
    rw [eval_not, truth_or, invert_disj, eval_and, truth_not, truth_not]
  · exact eval_negation rfl rfl (fun _ _ => rfl)
  · apply eval_negation rfl rfl
    intro left right
    cases left.cmp right <;> rfl
  · apply eval_negation rfl rfl
    intro left right
    cases left.cmp right <;> rfl
  · intro x min max value low high isValue isLow isHigh
    rw [eval_and, truth, truth, eval_comparison rfl, eval_comparison rfl, eval, isValue, isLow,
      isHigh]
    change Except.ok (Value.bool (value.cmp low != .lt && value.cmp high != .gt)) = _
    rw [between_holds]
    simp only [bind, Except.bind, Except.map, pure, Except.pure, isTruthy]
    cases (value.cmp low == .gt || value.cmp low == .eq) <;> rfl

/-- The law of BETWEEN at three literals. -/
theorem filter_rewriting_sample :
    eval Storage.samplePlatform Storage.sampleDocument
        (.between (.literal (.int 2)) (.literal (.int 1)) (.literal (.int 3))) =
      eval Storage.samplePlatform Storage.sampleDocument
        (.binary .and (.binary .gtEq (.literal (.int 2)) (.literal (.int 1)))
          (.binary .ltEq (.literal (.int 2)) (.literal (.int 3)))) :=
  (filter_rewriting_laws Storage.samplePlatform Storage.sampleDocument).2.2.2.2.2.2 _ _ _ (.int 2)
    (.int 1) (.int 3) rfl rfl rfl

end Evaluator

end Query
end NovaDb
