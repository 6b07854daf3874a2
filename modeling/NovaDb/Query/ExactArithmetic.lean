import NovaDb.Query.Evaluator
import NovaDb.Storage.ReferencePlatform

namespace NovaDb
namespace Query

open Core

/-!
# Integer arithmetic and its exact results

Over expressions there is a second meaning, `exactEval`, in which integers have
no bound: it stops where the evaluator reports an error, and it stops outside
where an operation has no exact `i64` result.  The evaluator itself is judged by
the operations it reaches, at any depth: on integer operands each has to give its
exact result or an error value.  The two are connected by `evaluatesExactly_iff`:
the evaluator meets that condition exactly where the exact meaning never gets
outside.
-/

def BinaryOp.isArithmetic : BinaryOp -> Bool
  | .plus | .minus | .multiply | .divide | .modulo => true
  | _ => false

/-- The exact result of an integer operation.  Quotients are truncated, and a
zero divisor has none. -/
def BinaryOp.exact (op : BinaryOp) (left right : Int) : Option Int :=
  match op with
  | .plus => some (left + right)
  | .minus => some (left - right)
  | .multiply => some (left * right)
  | .divide => if right = 0 then none else some (left.tdiv right)
  | .modulo => if right = 0 then none else some (left.tmod right)
  | _ => none

/-! ## What the evaluator is to do -/

/-- The sub-expressions that are evaluated when the expression is. -/
inductive Reached (P : Platform) (doc : Document) : Expr -> Expr -> Prop where
  | self (expr : Expr) : Reached P doc expr expr
  | operand {op : UnaryOp} {expr sub : Expr} (inner : Reached P doc expr sub) :
      Reached P doc (.unary op expr) sub
  | left {op : BinaryOp} {left right sub : Expr} (inner : Reached P doc left sub) :
      Reached P doc (.binary op left right) sub
  | right {op : BinaryOp} {left right sub : Expr} {value : Value}
      (first : Evaluator.eval P doc left = .ok value)
      (noShortCircuit : (op = .and -> Evaluator.isTruthy value = true) ∧
        (op = .or -> Evaluator.isTruthy value = false))
      (inner : Reached P doc right sub) : Reached P doc (.binary op left right) sub
  | between {expr min max sub : Expr} (inner : Reached P doc expr sub) :
      Reached P doc (.between expr min max) sub
  | min {expr min max sub : Expr} {value : Value}
      (first : Evaluator.eval P doc expr = .ok value) (inner : Reached P doc min sub) :
      Reached P doc (.between expr min max) sub
  | max {expr min max sub : Expr} {value minValue : Value}
      (first : Evaluator.eval P doc expr = .ok value)
      (second : Evaluator.eval P doc min = .ok minValue) (inner : Reached P doc max sub) :
      Reached P doc (.between expr min max) sub
  | isIn {expr sub : Expr} {list : List Expr} (inner : Reached P doc expr sub) :
      Reached P doc (.isIn expr list) sub
  | item {expr item sub : Expr} {before after : List Expr} {value : Value}
      (first : Evaluator.eval P doc expr = .ok value)
      (unequal : forall earlier, earlier ∈ before -> Exists fun itemValue =>
        Evaluator.eval P doc earlier = .ok itemValue ∧ value.eq itemValue = false)
      (inner : Reached P doc item sub) :
      Reached P doc (.isIn expr (before ++ item :: after)) sub

/-- The exact result, or an error value. -/
def ExactOrError (exact : Option Int) (outcome : Outcome Value) : Prop :=
  (Exists fun number : Int64 => outcome = .ok (.int number) ∧ exact = some number.toInt) ∨
    Exists fun failure => outcome = .error (.error failure)

/-- The operation at the root of an expression, where its operands are integers. -/
def RootExact (P : Platform) (doc : Document) : Expr -> Prop
  | .binary op left right => op.isArithmetic = true -> forall first second : Int64,
      Evaluator.eval P doc left = .ok (.int first) ->
      Evaluator.eval P doc right = .ok (.int second) ->
      ExactOrError (op.exact first.toInt second.toInt) (Evaluator.eval P doc (.binary op left right))
  | .unary .negate expr => forall number : Int64, Evaluator.eval P doc expr = .ok (.int number) ->
      ExactOrError (some (-number.toInt)) (Evaluator.eval P doc (.unary .negate expr))
  | _ => True

def OperationsExact (P : Platform) (doc : Document) (expr : Expr) : Prop :=
  forall sub, Reached P doc expr sub -> RootExact P doc sub

/-- Every integer operation reached gives its exact result or an error value, and
the evaluation does not panic. -/
structure EvaluatesExactly (P : Platform) (doc : Document) (expr : Expr) : Prop where
  operations : OperationsExact P doc expr
  noPanic : forall message, Evaluator.eval P doc expr ≠ .error (.panic message)

/-! ## The exact meaning -/

/-- How an exact evaluation ends without a value. -/
inductive Stop where
  | refused (failure : NovaError)
  | outside

abbrev Exact (α : Type) := Except Stop α

/-- The numbers of an `i64`. -/
def Fits (number : Int) : Prop :=
  -2 ^ 63 ≤ number ∧ number < 2 ^ 63

instance (number : Int) : Decidable (Fits number) :=
  inferInstanceAs (Decidable (_ ∧ _))

def represent (number : Int) : Exact Value :=
  if Fits number then .ok (.int (Int64.ofInt number)) else .error .outside

/-- An outcome that does not depend on integer arithmetic. -/
def settle : Outcome Value -> Exact Value
  | .ok value => .ok value
  | .error (.error failure) => .error (.refused failure)
  | .error (.panic _) => .error .outside

/-- An integer operation, exactly.  A remainder is computed with its quotient, so
it needs that the quotient fits. -/
def exactInt (op : BinaryOp) (left right : Int) : Exact Value :=
  match op with
  | .plus => represent (left + right)
  | .minus => represent (left - right)
  | .multiply => represent (left * right)
  | .divide =>
      if right = 0 then .error (.refused (NovaError.invalidQuery "Division by zero"))
      else represent (left.tdiv right)
  | .modulo =>
      if right = 0 then .error (.refused (NovaError.invalidQuery "Modulo by zero"))
      else if Fits (left.tdiv right) then represent (left.tmod right)
      else .error .outside
  | _ => .error .outside

def exactBinary (P : Platform) (op : BinaryOp) : Value -> Value -> Exact Value
  | .int left, .int right =>
      if op.isArithmetic then exactInt op left.toInt right.toInt
      else settle (Evaluator.applyBinary P op (.int left) (.int right))
  | left, right => settle (Evaluator.applyBinary P op left right)

def exactNegate (P : Platform) : Value -> Exact Value
  | .int number => represent (-number.toInt)
  | other => settle (Evaluator.negate P other)

mutual

/-- The value of an expression over unbounded integers. -/
def exactEval (P : Platform) (doc : Document) : Expr -> Exact Value
  | .literal value => .ok value
  | .field path => .ok (Evaluator.fieldRef path doc)
  | .unary .not expr => do
      let inner <- exactEval P doc expr
      return .bool (!Evaluator.isTruthy inner)
  | .unary .negate expr => do
      let inner <- exactEval P doc expr
      exactNegate P inner
  | .binary .and left right => do
      let leftValue <- exactEval P doc left
      if !Evaluator.isTruthy leftValue then return .bool false
      let rightValue <- exactEval P doc right
      return .bool (Evaluator.isTruthy rightValue)
  | .binary .or left right => do
      let leftValue <- exactEval P doc left
      if Evaluator.isTruthy leftValue then return .bool true
      let rightValue <- exactEval P doc right
      return .bool (Evaluator.isTruthy rightValue)
  | .binary op left right => do
      let leftValue <- exactEval P doc left
      let rightValue <- exactEval P doc right
      exactBinary P op leftValue rightValue
  | .between expr min max => do
      let value <- exactEval P doc expr
      let minValue <- exactEval P doc min
      let maxValue <- exactEval P doc max
      return .bool (value.cmp minValue != .lt && value.cmp maxValue != .gt)
  | .isIn expr list => do
      let value <- exactEval P doc expr
      exactIn P doc value list

def exactIn (P : Platform) (doc : Document) (value : Value) : List Expr -> Exact Value
  | [] => .ok (.bool false)
  | item :: rest => do
      let itemValue <- exactEval P doc item
      if value.eq itemValue then return .bool true
      exactIn P doc value rest

end

/-! ## Agreement -/

/-- An exact result against an outcome: where the exact one exists it is the
outcome and the operations are exact, and outside they are not. -/
def Agrees {α : Type} (exact : Exact α) (outcome : Outcome α) (sound : Prop) : Prop :=
  match exact with
  | .ok value => outcome = .ok value ∧ sound
  | .error (.refused failure) => outcome = .error (.error failure) ∧ sound
  | .error .outside => ¬sound

namespace Agrees

variable {α β : Type}

theorem congr {exact : Exact α} {outcome : Outcome α} {sound other : Prop}
    (agrees : Agrees exact outcome sound) (same : sound <-> other) :
    Agrees exact outcome other := by
  rwa [← propext same]

theorem pure (value : α) {sound : Prop} (holds : sound) :
    Agrees (.ok value) (.ok value) sound :=
  ⟨rfl, holds⟩

/-- Two steps in sequence: the second counts where the first has a value. -/
theorem bind {exact : Exact α} {outcome : Outcome α} {next : α -> Exact β}
    {after : α -> Outcome β} {first whole : Prop} {rest : α -> Prop}
    (head : Agrees exact outcome first)
    (tail : forall value, outcome = .ok value -> Agrees (next value) (after value) (rest value))
    (parts : whole <-> first ∧ forall value, outcome = .ok value -> rest value) :
    Agrees (exact >>= next) (outcome >>= after) whole := by
  match exact, head with
  | .ok value, ⟨evaluated, sound⟩ =>
      subst evaluated
      refine (tail value rfl).congr ?_
      rw [parts, and_iff_right sound]
      constructor
      · intro holds other same
        rwa [← Except.ok.inj same]
      · intro holds
        exact holds value rfl
  | .error (.refused failure), ⟨evaluated, sound⟩ =>
      subst evaluated
      exact ⟨rfl, parts.mpr ⟨sound, fun _ impossible => nomatch impossible⟩⟩
  | .error .outside, unsound =>
      exact fun holds => unsound (parts.mp holds).1

/-- An outcome that is no panic agrees with itself. -/
theorem settle {outcome : Outcome Value} {sound : Prop}
    (noPanic : forall message, outcome ≠ .error (.panic message)) (holds : sound) :
    Agrees (Query.settle outcome) outcome sound := by
  match outcome with
  | .ok _ | .error (.error _) => exact ⟨rfl, holds⟩
  | .error (.panic message) => exact absurd rfl (noPanic message)

end Agrees

/-! ## One operation -/

theorem fits_toInt (number : Int64) : Fits number.toInt :=
  ⟨number.le_toInt, number.toInt_lt⟩

theorem toInt_ofInt_of_fits {number : Int} (fits : Fits number) :
    (Int64.ofInt number).toInt = number :=
  Int64.toInt_ofInt_of_le fits.1 fits.2

/-- The wrapped result of a number is that number only where it fits. -/
theorem toInt_ofInt_eq_iff (number : Int) : (Int64.ofInt number).toInt = number <-> Fits number := by
  constructor
  · intro same
    rw [← same]
    exact fits_toInt _
  · exact toInt_ofInt_of_fits

theorem represent_of_fits {number : Int} (fits : Fits number) :
    represent number = .ok (.int (Int64.ofInt number)) :=
  if_pos fits

theorem represent_of_not_fits {number : Int} (outside : ¬Fits number) :
    represent number = .error .outside :=
  if_neg outside

/-- A checked or wrapping operation is exact where its result fits. -/
theorem agrees_intOp (P : Platform) (name : String) (number : Int) :
    Agrees (represent number) (Evaluator.intOp P name number)
      (ExactOrError (some number) (Evaluator.intOp P name number)) := by
  by_cases fits : Fits number
  · have exact := toInt_ofInt_of_fits fits
    have evaluated : Evaluator.intOp P name number = .ok (.int (Int64.ofInt number)) := by
      rw [Evaluator.intOp, if_neg (fun overflow => overflow.1 exact)]
    rw [represent_of_fits fits, evaluated]
    exact .pure _ (.inl ⟨_, rfl, by rw [exact]⟩)
  · rw [represent_of_not_fits fits]
    have inexact := fun same => fits ((toInt_ofInt_eq_iff number).mp same)
    rintro (⟨result, evaluated, same⟩ | ⟨failure, evaluated⟩)
    · rw [Evaluator.intOp] at evaluated
      split at evaluated
      · cases evaluated
      · cases evaluated
        exact inexact (Option.some.inj same).symm
    · rw [Evaluator.intOp] at evaluated
      split at evaluated <;> cases evaluated

/-- The one quotient of two `i64` that is not an `i64`. -/
theorem fits_tdiv_iff {left right : Int64} (nonzero : right ≠ 0) :
    Fits (left.toInt.tdiv right.toInt) <-> ¬(left = Int64.minValue ∧ right = -1) := by
  constructor
  · rintro fits ⟨rfl, rfl⟩
    revert fits
    decide
  · intro other
    have quotient : (left / right).toInt = left.toInt.tdiv right.toInt := by
      by_cases least : left = Int64.minValue
      · exact Int64.toInt_div_of_ne_right left right (fun minusOne => other ⟨least, minusOne⟩)
      · exact Int64.toInt_div_of_ne_left left right least
    rw [← quotient]
    exact fits_toInt _

theorem toInt_ne_zero {number : Int64} (nonzero : number ≠ 0) : number.toInt ≠ 0 := by
  intro zero
  exact nonzero (Int64.toInt.inj zero)

/-- Division of integers, against its exact result. -/
theorem agrees_divide (left right : Int64) :
    Agrees (exactInt .divide left.toInt right.toInt) (Evaluator.divide (.int left) (.int right))
      (ExactOrError (BinaryOp.divide.exact left.toInt right.toInt)
        (Evaluator.divide (.int left) (.int right))) := by
  by_cases zero : right = 0
  · subst zero
    exact ⟨rfl, .inr ⟨_, rfl⟩⟩
  · have divisor := toInt_ne_zero zero
    rw [exactInt, if_neg divisor, BinaryOp.exact, if_neg divisor, Evaluator.divide, if_neg zero]
    by_cases overflow : left = Int64.minValue ∧ right = -1
    · rw [represent_of_not_fits (fun fits => (fits_tdiv_iff zero).mp fits overflow), if_pos overflow]
      rintro (⟨_, evaluated, _⟩ | ⟨_, evaluated⟩) <;> cases evaluated
    · have fits := (fits_tdiv_iff zero).mpr overflow
      have quotient : Int64.ofInt (left.toInt.tdiv right.toInt) = left / right := by
        apply Int64.toInt.inj
        rw [toInt_ofInt_of_fits fits, Int64.toInt_div, ← toInt_ofInt_of_fits fits, Int64.toInt_ofInt,
          Int.bmod_bmod]
      rw [represent_of_fits fits, if_neg overflow, quotient]
      refine .pure _ (.inl ⟨_, rfl, ?_⟩)
      rw [← quotient, toInt_ofInt_of_fits fits]

/-- Remainders of integers, against their exact results. -/
theorem agrees_modulo (left right : Int64) :
    Agrees (exactInt .modulo left.toInt right.toInt) (Evaluator.modulo (.int left) (.int right))
      (ExactOrError (BinaryOp.modulo.exact left.toInt right.toInt)
        (Evaluator.modulo (.int left) (.int right))) := by
  by_cases zero : right = 0
  · subst zero
    exact ⟨rfl, .inr ⟨_, rfl⟩⟩
  · have divisor := toInt_ne_zero zero
    rw [exactInt, if_neg divisor, BinaryOp.exact, if_neg divisor, Evaluator.modulo, if_neg zero]
    by_cases overflow : left = Int64.minValue ∧ right = -1
    · rw [if_neg (fun fits => (fits_tdiv_iff zero).mp fits overflow), if_pos overflow]
      rintro (⟨_, evaluated, _⟩ | ⟨_, evaluated⟩) <;> cases evaluated
    · have remainder : left.toInt.tmod right.toInt = (left % right).toInt :=
        (Int64.toInt_mod left right).symm
      rw [if_pos ((fits_tdiv_iff zero).mpr overflow), if_neg overflow, remainder,
        represent_of_fits (fits_toInt _), Int64.ofInt_toInt]
      exact .pure _ (.inl ⟨_, rfl, rfl⟩)

/-- The condition on one binary operation, by its evaluated operands. -/
def BinaryExact (P : Platform) (op : BinaryOp) (left right : Value) : Prop :=
  op.isArithmetic = true -> forall first second : Int64, left = .int first -> right = .int second ->
    ExactOrError (op.exact first.toInt second.toInt) (Evaluator.applyBinary P op left right)

theorem binaryExact_int {P : Platform} {op : BinaryOp} {left right : Int64}
    (arithmetic : op.isArithmetic = true) :
    BinaryExact P op (.int left) (.int right) <->
      ExactOrError (op.exact left.toInt right.toInt)
        (Evaluator.applyBinary P op (.int left) (.int right)) := by
  constructor
  · intro exact
    exact exact arithmetic left right rfl rfl
  · rintro exact _ _ _ ⟨⟩ ⟨⟩
    exact exact

theorem agrees_int {P : Platform} {op : BinaryOp} (arithmetic : op.isArithmetic = true)
    (left right : Int64) :
    Agrees (exactInt op left.toInt right.toInt)
      (Evaluator.applyBinary P op (.int left) (.int right))
      (BinaryExact P op (.int left) (.int right)) := by
  rw [binaryExact_int arithmetic]
  cases op with
  | plus => exact agrees_intOp P "add" _
  | minus => exact agrees_intOp P "subtract" _
  | multiply => exact agrees_intOp P "multiply" _
  | divide => exact agrees_divide left right
  | modulo => exact agrees_modulo left right
  | eq | notEq | gt | gtEq | lt | ltEq | and | or => cases arithmetic

/-- Comparisons do not panic, and arithmetic only on two integers. -/
theorem applyBinary_noPanic (P : Platform) {op : BinaryOp} (notAnd : op ≠ .and) (notOr : op ≠ .or)
    {left right : Value} (others : op.isArithmetic = true -> forall first second : Int64,
      left = .int first -> right ≠ .int second) (message : String) :
    Evaluator.applyBinary P op left right ≠ .error (.panic message) := by
  intro panicked
  cases op with
  | and => exact notAnd rfl
  | or => exact notOr rfl
  | eq | notEq | gt | gtEq | lt | ltEq => cases panicked
  | plus | minus | multiply | divide | modulo =>
      cases left <;> cases right <;>
        first | cases panicked | exact others rfl _ _ rfl rfl

theorem agrees_binary (P : Platform) {op : BinaryOp} (notAnd : op ≠ .and) (notOr : op ≠ .or)
    (left right : Value) :
    Agrees (exactBinary P op left right) (Evaluator.applyBinary P op left right)
      (BinaryExact P op left right) := by
  by_cases integers : op.isArithmetic = true ∧
      Exists fun first : Int64 => Exists fun second : Int64 => left = .int first ∧ right = .int second
  · rcases integers with ⟨arithmetic, first, second, rfl, rfl⟩
    rw [exactBinary, if_pos arithmetic]
    exact agrees_int arithmetic first second
  · have others : op.isArithmetic = true -> forall first second : Int64,
        left = .int first -> right ≠ .int second :=
      fun arithmetic first second isFirst isSecond =>
        integers ⟨arithmetic, first, second, isFirst, isSecond⟩
    have settled : exactBinary P op left right = settle (Evaluator.applyBinary P op left right) := by
      unfold exactBinary
      split
      · rename_i first second
        exact if_neg (fun arithmetic => others arithmetic first second rfl rfl)
      · rfl
    rw [settled]
    refine .settle (applyBinary_noPanic P notAnd notOr others) ?_
    intro arithmetic first second isFirst isSecond
    exact absurd isSecond (others arithmetic first second isFirst)

def NegateExact (P : Platform) (value : Value) : Prop :=
  forall number : Int64, value = .int number ->
    ExactOrError (some (-number.toInt)) (Evaluator.negate P value)

theorem agrees_negate (P : Platform) (value : Value) :
    Agrees (exactNegate P value) (Evaluator.negate P value) (NegateExact P value) := by
  cases value with
  | int number =>
      refine (agrees_intOp P "negate" (-number.toInt)).congr ?_
      constructor
      · rintro exact _ ⟨⟩
        exact exact
      · intro exact
        exact exact number rfl
  | null | bool | float | string | bytes | array | object | timestamp | uuid =>
      exact ⟨rfl, fun _ impossible => nomatch impossible⟩

/-! ## Whole expressions -/

theorem eval_binary (P : Platform) (doc : Document) {op : BinaryOp} (notAnd : op ≠ .and)
    (notOr : op ≠ .or) (left right : Expr) :
    Evaluator.eval P doc (.binary op left right) =
      Evaluator.eval P doc left >>= fun leftValue =>
        Evaluator.eval P doc right >>= fun rightValue =>
          Evaluator.applyBinary P op leftValue rightValue := by
  cases op <;> first | exact absurd rfl notAnd | exact absurd rfl notOr | rw [Evaluator.eval] <;> nofun

theorem exactEval_binary (P : Platform) (doc : Document) {op : BinaryOp} (notAnd : op ≠ .and)
    (notOr : op ≠ .or) (left right : Expr) :
    exactEval P doc (.binary op left right) =
      exactEval P doc left >>= fun leftValue =>
        exactEval P doc right >>= fun rightValue => exactBinary P op leftValue rightValue := by
  cases op <;> first | exact absurd rfl notAnd | exact absurd rfl notOr | rw [exactEval] <;> nofun

/-- Evaluated to an integer, the operation at the root is the one on the operands. -/
theorem rootExact_binary {P : Platform} {doc : Document} {op : BinaryOp} {left right : Expr} :
    RootExact P doc (.binary op left right) <->
      forall leftValue, Evaluator.eval P doc left = .ok leftValue ->
        forall rightValue, Evaluator.eval P doc right = .ok rightValue ->
          BinaryExact P op leftValue rightValue := by
  have evaluated : op.isArithmetic = true -> forall leftValue rightValue,
      Evaluator.eval P doc left = .ok leftValue -> Evaluator.eval P doc right = .ok rightValue ->
      Evaluator.eval P doc (.binary op left right) =
        Evaluator.applyBinary P op leftValue rightValue := by
    intro arithmetic leftValue rightValue isLeft isRight
    rw [eval_binary P doc (by rintro rfl; cases arithmetic) (by rintro rfl; cases arithmetic),
      isLeft, isRight]
    rfl
  constructor
  · rintro exact _ isLeft _ isRight arithmetic first second rfl rfl
    rw [← evaluated arithmetic _ _ isLeft isRight]
    exact exact arithmetic first second isLeft isRight
  · intro exact arithmetic first second isLeft isRight
    rw [evaluated arithmetic _ _ isLeft isRight]
    exact exact _ isLeft _ isRight arithmetic first second rfl rfl

theorem rootExact_negate {P : Platform} {doc : Document} {expr : Expr} :
    RootExact P doc (.unary .negate expr) <->
      forall value, Evaluator.eval P doc expr = .ok value -> NegateExact P value := by
  have evaluated : forall value, Evaluator.eval P doc expr = .ok value ->
      Evaluator.eval P doc (.unary .negate expr) = Evaluator.negate P value := by
    intro value isValue
    rw [Evaluator.eval, isValue]
    rfl
  constructor
  · rintro exact _ isValue number rfl
    rw [← evaluated _ isValue]
    exact exact number isValue
  · intro exact number isValue
    rw [evaluated _ isValue]
    exact exact _ isValue number rfl

/-- The operations of a leaf are the one at its root, which is none. -/
theorem operationsExact_leaf {P : Platform} {doc : Document} {expr : Expr}
    (leaf : forall sub, Reached P doc expr sub -> sub = expr) (root : RootExact P doc expr) :
    OperationsExact P doc expr := by
  intro sub reached
  rw [leaf sub reached]
  exact root

theorem operationsExact_unary {P : Platform} {doc : Document} {op : UnaryOp} {expr : Expr} :
    OperationsExact P doc (.unary op expr) <->
      OperationsExact P doc expr ∧ RootExact P doc (.unary op expr) := by
  constructor
  · intro exact
    exact ⟨fun sub reached => exact sub (.operand reached), exact _ (.self _)⟩
  · rintro ⟨inner, root⟩ sub reached
    cases reached with
    | self => exact root
    | operand reached => exact inner sub reached

/-- The right operand counts where it is evaluated. -/
theorem operationsExact_binary {P : Platform} {doc : Document} {op : BinaryOp}
    {left right : Expr} :
    OperationsExact P doc (.binary op left right) <->
      OperationsExact P doc left ∧ forall value, Evaluator.eval P doc left = .ok value ->
        (((op = .and -> Evaluator.isTruthy value = true) ∧
            (op = .or -> Evaluator.isTruthy value = false)) -> OperationsExact P doc right) ∧
          forall rightValue, Evaluator.eval P doc right = .ok rightValue ->
            BinaryExact P op value rightValue := by
  constructor
  · intro exact
    refine ⟨fun sub reached => exact sub (.left reached), fun value isValue => ⟨?_, ?_⟩⟩
    · intro evaluated sub reached
      exact exact sub (.right isValue evaluated reached)
    · exact rootExact_binary.mp (exact _ (.self _)) value isValue
  · rintro ⟨first, rest⟩ sub reached
    cases reached with
    | self => exact rootExact_binary.mpr (fun value isValue => (rest value isValue).2)
    | left reached => exact first sub reached
    | right isValue evaluated reached => exact (rest _ isValue).1 evaluated sub reached

theorem operationsExact_between {P : Platform} {doc : Document} {expr min max : Expr} :
    OperationsExact P doc (.between expr min max) <->
      OperationsExact P doc expr ∧ forall value, Evaluator.eval P doc expr = .ok value ->
        OperationsExact P doc min ∧ forall minValue, Evaluator.eval P doc min = .ok minValue ->
          OperationsExact P doc max := by
  constructor
  · intro exact
    refine ⟨fun sub reached => exact sub (.between reached), fun value isValue => ⟨?_, ?_⟩⟩
    · intro sub reached
      exact exact sub (.min isValue reached)
    · intro minValue isMin sub reached
      exact exact sub (.max isValue isMin reached)
  · rintro ⟨first, rest⟩ sub reached
    cases reached with
    | self => exact trivial
    | between reached => exact first sub reached
    | min isValue reached => exact (rest _ isValue).1 sub reached
    | max isValue isMin reached => exact (rest _ isValue).2 _ isMin sub reached

/-- The items evaluated for a value that is looked for. -/
def ItemsExact (P : Platform) (doc : Document) (value : Value) (list : List Expr) : Prop :=
  forall before item after, list = before ++ item :: after ->
    (forall earlier, earlier ∈ before -> Exists fun itemValue =>
      Evaluator.eval P doc earlier = .ok itemValue ∧ value.eq itemValue = false) ->
    OperationsExact P doc item

theorem operationsExact_isIn {P : Platform} {doc : Document} {expr : Expr} {list : List Expr} :
    OperationsExact P doc (.isIn expr list) <->
      OperationsExact P doc expr ∧ forall value, Evaluator.eval P doc expr = .ok value ->
        ItemsExact P doc value list := by
  constructor
  · intro exact
    refine ⟨fun sub reached => exact sub (.isIn reached), ?_⟩
    rintro value isValue before item after rfl unequal sub reached
    exact exact sub (.item isValue unequal reached)
  · rintro ⟨first, items⟩ sub reached
    generalize isWhole : Expr.isIn expr list = whole at reached
    cases reached with
    | self => subst isWhole; exact trivial
    | isIn reached => cases isWhole; exact first sub reached
    | item isValue unequal reached =>
        cases isWhole
        exact items _ isValue _ _ _ rfl unequal sub reached
    | operand | left | right | between | min | max => cases isWhole

theorem itemsExact_cons {P : Platform} {doc : Document} {value : Value} {item : Expr}
    {rest : List Expr} :
    ItemsExact P doc value (item :: rest) <->
      OperationsExact P doc item ∧ forall itemValue, Evaluator.eval P doc item = .ok itemValue ->
        value.eq itemValue = false -> ItemsExact P doc value rest := by
  constructor
  · intro exact
    refine ⟨exact [] item rest rfl (by nofun), ?_⟩
    rintro itemValue isItem unequal before later after rfl earlierUnequal
    refine exact (item :: before) later after rfl ?_
    intro earlier member
    rcases List.mem_cons.mp member with rfl | inBefore
    · exact ⟨itemValue, isItem, unequal⟩
    · exact earlierUnequal earlier inBefore
  · rintro ⟨first, later⟩ before other after isWhole earlierUnequal
    cases before with
    | nil =>
        cases isWhole
        exact first
    | cons head before =>
        cases isWhole
        rcases earlierUnequal item List.mem_cons_self with ⟨itemValue, isItem, unequal⟩
        exact later itemValue isItem unequal before other after rfl
          (fun earlier member => earlierUnequal earlier (List.mem_cons_of_mem _ member))

theorem agrees_operator {P : Platform} {doc : Document} {op : BinaryOp} {left right : Expr}
    (notAnd : op ≠ .and) (notOr : op ≠ .or)
    (first : Agrees (exactEval P doc left) (Evaluator.eval P doc left) (OperationsExact P doc left))
    (second : Agrees (exactEval P doc right) (Evaluator.eval P doc right)
      (OperationsExact P doc right)) :
    Agrees (exactEval P doc (.binary op left right)) (Evaluator.eval P doc (.binary op left right))
      (OperationsExact P doc (.binary op left right)) := by
  rw [exactEval_binary P doc notAnd notOr, eval_binary P doc notAnd notOr]
  refine first.bind (fun value _ => second.bind (fun other _ =>
    agrees_binary P notAnd notOr value other) Iff.rfl) ?_
  rw [operationsExact_binary]
  refine and_congr_right' (forall₂_congr fun value _ => and_congr_left' ?_)
  exact ⟨fun exact => exact ⟨fun isAnd => absurd isAnd notAnd, fun isOr => absurd isOr notOr⟩,
    fun exact _ => exact⟩

/-- A logical operator evaluates its right operand unless the left one decides. -/
theorem agrees_logical {P : Platform} {doc : Document} {op : BinaryOp} {right : Expr}
    {decides : Bool} (logical : op = .and ∧ decides = false ∨ op = .or ∧ decides = true)
    (second : Agrees (exactEval P doc right) (Evaluator.eval P doc right)
      (OperationsExact P doc right)) (value : Value) :
    Agrees
      (if Evaluator.isTruthy value = decides then .ok (Value.bool decides)
        else exactEval P doc right >>= fun other => .ok (Value.bool (Evaluator.isTruthy other)))
      (if Evaluator.isTruthy value = decides then .ok (Value.bool decides)
        else Evaluator.eval P doc right >>= fun other => .ok (Value.bool (Evaluator.isTruthy other)))
      ((((op = .and -> Evaluator.isTruthy value = true) ∧
          (op = .or -> Evaluator.isTruthy value = false)) -> OperationsExact P doc right) ∧
        forall rightValue, Evaluator.eval P doc right = .ok rightValue ->
          BinaryExact P op value rightValue) := by
  have noArithmetic : forall rightValue, BinaryExact P op value rightValue := by
    rcases logical with ⟨rfl, _⟩ | ⟨rfl, _⟩ <;> exact fun _ arithmetic => nomatch arithmetic
  have evaluated : ((op = .and -> Evaluator.isTruthy value = true) ∧
      (op = .or -> Evaluator.isTruthy value = false)) <-> Evaluator.isTruthy value ≠ decides := by
    rcases logical with ⟨rfl, rfl⟩ | ⟨rfl, rfl⟩ <;> simp
  rw [and_iff_left (fun other _ => noArithmetic other), evaluated]
  by_cases decided : Evaluator.isTruthy value = decides
  · rw [if_pos decided, if_pos decided]
    exact .pure _ (fun undecided => absurd decided undecided)
  · rw [if_neg decided, if_neg decided]
    exact second.bind (fun _ _ => .pure _ trivial)
      ⟨fun exact => ⟨exact decided, fun _ _ => trivial⟩, fun exact _ => exact.1⟩

mutual

/-- Over every expression, by the structure of the expression, the evaluator
agrees with the exact meaning. -/
theorem agrees_eval (P : Platform) (doc : Document) (expr : Expr) :
    Agrees (exactEval P doc expr) (Evaluator.eval P doc expr) (OperationsExact P doc expr) := by
  match expr with
  | .literal value =>
      rw [exactEval, Evaluator.eval]
      exact .pure _ (operationsExact_leaf (by rintro _ ⟨⟩; rfl) trivial)
  | .field path =>
      rw [exactEval, Evaluator.eval]
      exact .pure _ (operationsExact_leaf (by rintro _ ⟨⟩; rfl) trivial)
  | .unary .not inner =>
      rw [exactEval, Evaluator.eval]
      refine (agrees_eval P doc inner).bind (fun _ _ => .pure _ trivial) ?_
      rw [operationsExact_unary]
      exact and_congr_right' ⟨fun _ _ _ => trivial, fun _ => trivial⟩
  | .unary .negate inner =>
      rw [exactEval, Evaluator.eval]
      refine (agrees_eval P doc inner).bind (fun value _ => agrees_negate P value) ?_
      rw [operationsExact_unary, rootExact_negate]
  | .binary .and left right =>
      rw [exactEval, Evaluator.eval]
      refine (agrees_eval P doc left).bind (fun value _ => ?_) operationsExact_binary
      have logical := @agrees_logical P doc .and right false (.inl ⟨rfl, rfl⟩)
        (agrees_eval P doc right) value
      cases truthy : Evaluator.isTruthy value <;> rw [truthy] at logical <;> exact logical
  | .binary .or left right =>
      rw [exactEval, Evaluator.eval]
      refine (agrees_eval P doc left).bind (fun value _ => ?_) operationsExact_binary
      have logical := @agrees_logical P doc .or right true (.inr ⟨rfl, rfl⟩)
        (agrees_eval P doc right) value
      cases truthy : Evaluator.isTruthy value <;> rw [truthy] at logical <;> exact logical
  | .binary .eq left right | .binary .notEq left right | .binary .gt left right
  | .binary .gtEq left right | .binary .lt left right | .binary .ltEq left right
  | .binary .plus left right | .binary .minus left right | .binary .multiply left right
  | .binary .divide left right | .binary .modulo left right =>
      exact agrees_operator nofun nofun (agrees_eval P doc left) (agrees_eval P doc right)
  | .between inner min max =>
      rw [exactEval, Evaluator.eval]
      refine (agrees_eval P doc inner).bind (fun _ _ => (agrees_eval P doc min).bind
        (fun _ _ => (agrees_eval P doc max).bind (fun _ _ => .pure _ trivial) ?_) Iff.rfl)
        operationsExact_between
      exact ⟨fun exact => ⟨exact, fun _ _ => trivial⟩, And.left⟩
  | .isIn inner list =>
      rw [exactEval, Evaluator.eval]
      exact (agrees_eval P doc inner).bind (fun value _ => agrees_evalIn P doc value list)
        operationsExact_isIn

theorem agrees_evalIn (P : Platform) (doc : Document) (value : Value) (list : List Expr) :
    Agrees (exactIn P doc value list) (Evaluator.evalIn P doc value list)
      (ItemsExact P doc value list) := by
  match list with
  | [] =>
      rw [exactIn, Evaluator.evalIn]
      exact .pure _ (fun before _ _ impossible => by cases before <;> cases impossible)
  | item :: rest =>
      rw [exactIn, Evaluator.evalIn]
      refine (agrees_eval P doc item).bind (fun itemValue _ => ?_) itemsExact_cons
      cases found : value.eq itemValue with
      | true => exact .pure _ (fun unequal => nomatch unequal)
      | false =>
          exact (agrees_evalIn P doc value rest).congr
            ⟨fun exact _ => exact, fun exact => exact rfl⟩

end

/-- On every platform and document the evaluator computes exactly, or reports an error,
precisely where no operation of the exact evaluation leaves the integers of 64 bits;
outside of them it panics or wraps around.  -/
theorem evaluatesExactly_iff (P : Platform) (doc : Document) (expr : Expr) :
    EvaluatesExactly P doc expr <-> exactEval P doc expr ≠ .error .outside := by
  have agrees := agrees_eval P doc expr
  constructor
  · intro exactly outside
    rw [outside] at agrees
    exact agrees exactly.operations
  · intro inside
    match exact : exactEval P doc expr with
    | .ok value =>
        rw [exact] at agrees
        refine ⟨agrees.2, fun message panicked => ?_⟩
        rw [agrees.1] at panicked
        cases panicked
    | .error (.refused failure) =>
        rw [exact] at agrees
        refine ⟨agrees.2, fun message panicked => ?_⟩
        rw [agrees.1] at panicked
        cases panicked
    | .error .outside => exact absurd exact inside

/-- The successor of the largest integer: it wraps where overflow is not checked,
and panics where it is. -/
theorem successor_not_exact :
    let doc : Document := ⟨⟨"a"⟩, 1, 0, 0, []⟩
    let successor := Expr.binary .plus (.literal (.int 9223372036854775807)) (.literal (.int 1))
    ¬EvaluatesExactly (Storage.referencePlatform false []) doc successor ∧
      ¬EvaluatesExactly (Storage.referencePlatform true []) doc successor := by
  constructor
  · intro exactly
    have sum := exactly.operations _ (.self _) rfl 9223372036854775807 1 rfl rfl
    rcases sum with ⟨number, evaluated, exact⟩ | ⟨failure, evaluated⟩
    · cases evaluated
      revert exact
      decide
    · cases evaluated
  · intro exactly
    exact exactly.noPanic _ rfl

end Query
end NovaDb
