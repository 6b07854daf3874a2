import NovaDb.Core.Document

namespace NovaDb
namespace Query

open Core

/-!
# Expressions and their evaluation

The abstract syntax of NQL expressions and the evaluator of filters and
assignments.  Evaluation fails with an error value, or panics where the source's
integer arithmetic does: overflow when the build checks it, and the one quotient
that has no result, in every build.

`applyAssignments` works in place: an error leaves the assignments before the
failing one applied, so it returns the document next to the outcome.
-/

inductive BinaryOp where
  | eq
  | notEq
  | gt
  | gtEq
  | lt
  | ltEq
  | and
  | or
  | plus
  | minus
  | multiply
  | divide
  | modulo
  deriving DecidableEq, Repr

inductive UnaryOp where
  | not
  | negate
  deriving DecidableEq, Repr

inductive Expr where
  | literal (value : Value)
  | field (path : String)
  | binary (op : BinaryOp) (left right : Expr)
  | unary (op : UnaryOp) (expr : Expr)
  | isIn (expr : Expr) (list : List Expr)
  | between (expr min max : Expr)

mutual

/-- No literal of the expression contains a float. -/
def Expr.floatFree : Expr -> Bool
  | .literal value => value.floatFree
  | .field _ => true
  | .binary _ left right => left.floatFree && right.floatFree
  | .unary _ expr => expr.floatFree
  | .isIn expr list => expr.floatFree && floatFreeList list
  | .between expr min max => expr.floatFree && min.floatFree && max.floatFree

def floatFreeList : List Expr -> Bool
  | [] => true
  | expr :: rest => expr.floatFree && floatFreeList rest

end

/-- One assignment of an UPDATE. -/
structure Assignment where
  field : String
  expr : Expr

namespace Evaluator

def isTruthy : Value -> Bool
  | .null => false
  | .bool flag => flag
  | .int number => number != 0
  | .float number => !number.eq ⟨0⟩ && !number.isNan
  | .string text => text != ""
  | .bytes data => !data.isEmpty
  | .array items => !items.isEmpty
  | .object members => !members.isEmpty
  | .timestamp micros => micros != 0
  | .uuid _ => true

/-- An `i64` operation: its result when the exact one is in range, and else a
panic or the wrapped result, as the build has it. -/
def intOp (P : Platform) (name : String) (exact : Int) : Outcome Value :=
  if Int64.toInt (Int64.ofInt exact) ≠ exact ∧ P.overflowChecks = true then
    .error (.panic ("attempt to " ++ name ++ " with overflow"))
  else .ok (.int (Int64.ofInt exact))

def invalid (message : String) : Outcome Value :=
  .error (.error (NovaError.invalidQuery message))

/-- The arithmetic operators that also take floats. -/
def arithmetic (P : Platform) (sign name : String) (exact : Int -> Int -> Int)
    (floats : Float64 -> Float64 -> Float64) : Value -> Value -> Outcome Value
  | .int left, .int right => intOp P name (exact left.toInt right.toInt)
  | .float left, .float right => .ok (.float (floats left right))
  | .int left, .float right => .ok (.float (floats (Float64.ofInt left.toInt) right))
  | .float left, .int right => .ok (.float (floats left (Float64.ofInt right.toInt)))
  | _, _ => invalid ("Cannot perform '" ++ sign ++ "' on given types")

/-- Addition also concatenates strings. -/
def plus (P : Platform) : Value -> Value -> Outcome Value
  | .string left, .string right => .ok (.string (left ++ right))
  | left, right => arithmetic P "+" "add" (· + ·) Float64.add left right

/-- Truncating division.  The quotient of the least number by minus one is out
of range and panics in every build. -/
def divide : Value -> Value -> Outcome Value
  | .int left, .int right =>
      if right = 0 then invalid "Division by zero"
      else if left = Int64.minValue ∧ right = -1 then
        .error (.panic "attempt to divide with overflow")
      else .ok (.int (left / right))
  | .float left, .float right => .ok (.float (left.div right))
  | .int left, .float right => .ok (.float ((Float64.ofInt left.toInt).div right))
  | .float left, .int right => .ok (.float (left.div (Float64.ofInt right.toInt)))
  | _, _ => invalid "Cannot perform '/' on given types"

def modulo : Value -> Value -> Outcome Value
  | .int left, .int right =>
      if right = 0 then invalid "Modulo by zero"
      else if left = Int64.minValue ∧ right = -1 then
        .error (.panic "attempt to calculate the remainder with overflow")
      else .ok (.int (left % right))
  | _, _ => invalid "Modulo '%' only supported for integers"

def negate (P : Platform) : Value -> Outcome Value
  | .int number => intOp P "negate" (-number.toInt)
  | .float number => .ok (.float number.neg)
  | other => .error (.error (NovaError.typeError "numeric" other.typeName))

/-- The binary operators on evaluated operands.  The logical ones are evaluated
by short circuit and do not get here. -/
def applyBinary (P : Platform) (op : BinaryOp) (left right : Value) : Outcome Value :=
  match op with
  | .eq => .ok (.bool (left.eq right))
  | .notEq => .ok (.bool (!left.eq right))
  | .gt => .ok (.bool (left.cmp right == .gt))
  | .gtEq => .ok (.bool (left.cmp right == .gt || left.cmp right == .eq))
  | .lt => .ok (.bool (left.cmp right == .lt))
  | .ltEq => .ok (.bool (left.cmp right == .lt || left.cmp right == .eq))
  | .plus => plus P left right
  | .minus => arithmetic P "-" "subtract" (· - ·) Float64.sub left right
  | .multiply => arithmetic P "*" "multiply" (· * ·) Float64.mul left right
  | .divide => divide left right
  | .modulo => modulo left right
  | .and | .or => .error (.panic "internal error: entered unreachable code")

/-- The value of a field reference; a missing field is null. -/
def fieldRef (path : String) (doc : Document) : Value :=
  if path = "id" ∨ path = "_id" then .string doc.id.asStr
  else (doc.fieldValue path).getD .null

mutual

/-- Evaluate expression into a typed Value. -/
def eval (P : Platform) (doc : Document) : Expr -> Outcome Value
  | .literal value => .ok value
  | .field path => .ok (fieldRef path doc)
  | .unary .not expr => do
      let inner <- eval P doc expr
      return .bool (!isTruthy inner)
  | .unary .negate expr => do
      let inner <- eval P doc expr
      negate P inner
  | .binary .and left right => do
      let leftValue <- eval P doc left
      if !isTruthy leftValue then return .bool false
      let rightValue <- eval P doc right
      return .bool (isTruthy rightValue)
  | .binary .or left right => do
      let leftValue <- eval P doc left
      if isTruthy leftValue then return .bool true
      let rightValue <- eval P doc right
      return .bool (isTruthy rightValue)
  | .binary op left right => do
      let leftValue <- eval P doc left
      let rightValue <- eval P doc right
      applyBinary P op leftValue rightValue
  | .between expr min max => do
      let value <- eval P doc expr
      let minValue <- eval P doc min
      let maxValue <- eval P doc max
      return .bool (value.cmp minValue != .lt && value.cmp maxValue != .gt)
  | .isIn expr list => do
      let value <- eval P doc expr
      evalIn P doc value list

/-- Whether the value equals one of the items, evaluated until the first match. -/
def evalIn (P : Platform) (doc : Document) (value : Value) : List Expr -> Outcome Value
  | [] => .ok (.bool false)
  | item :: rest => do
      let itemValue <- eval P doc item
      if value.eq itemValue then return .bool true
      evalIn P doc value rest

end

/-- Check if expression evaluates to boolean true for filtering. -/
def matchesFilter (P : Platform) (filter : Option Expr) (doc : Document) : Outcome Bool :=
  match filter with
  | some expr => do
      let value <- eval P doc expr
      return isTruthy value
  | none => .ok true

/-- Apply UPDATE assignments to a document. -/
def applyAssignments (P : Platform) (now : Int64) (doc : Document) :
    List Assignment -> Document × Outcome Unit
  | [] =>
      match doc.advanceVersion P.overflowChecks now with
      | .ok advanced => (advanced, .ok ())
      | .error fault => (doc, .error fault)
  | assign :: rest =>
      match eval P doc assign.expr with
      | .error fault => (doc, .error fault)
      | .ok value =>
          if assign.field = "id" ∨ assign.field = "_id" then
            (doc, .error (.error (NovaError.invalidQuery "Cannot modify primary key 'id'")))
          else applyAssignments P now (doc.insert assign.field value) rest

/-- Assignments keep the id, also where they fail. -/
theorem applyAssignments_id (P : Platform) (now : Int64) (doc : Document)
    (assignments : List Assignment) :
    (applyAssignments P now doc assignments).1.id = doc.id := by
  induction assignments generalizing doc with
  | nil =>
      rw [applyAssignments, Document.advanceVersion]
      by_cases full : (P.overflowChecks && doc.version == 0xFFFFFFFFFFFFFFFF) = true
      · rw [if_pos full]
      · rw [if_neg full]
  | cons assign rest inductionHypothesis =>
      rw [applyAssignments]
      split
      · rfl
      · split
        · rfl
        · exact inductionHypothesis _

end Evaluator
end Query
end NovaDb
