import NovaDb.Index.SecondaryIndex
import NovaDb.Query.Evaluator

namespace NovaDb
namespace Query

open Core Index

/-!
# The query planner

The planner looks at the shape of the filter only: a comparison of one field with
a literal, or a BETWEEN with two literals, and an index on that field.  The plan
names the index and what to ask it; the caller checks the filter again on every
document the index proposes.
-/

/-- Execution plan chosen by the query optimizer. -/
inductive QueryPlan where
  | indexLookup (indexName : String) (key : Value)
  | indexRangeScan (indexName : String) (range : IndexRange)
  | seqScan

/-- The range of a comparison `field op literal`, if the operator is one of order. -/
def comparisonRange (op : BinaryOp) (literal : Value) : Option IndexRange :=
  match op with
  | .gt => some ⟨.excluded literal, .unbounded⟩
  | .gtEq => some (IndexRange.fromInclusive literal)
  | .lt => some ⟨.unbounded, .excluded literal⟩
  | .ltEq => some (IndexRange.toInclusive literal)
  | _ => none

namespace QueryPlanner

/-- A range scan, when the index of the field is ordered. -/
def planRange (manager : IndexManager) (field : String) (range : IndexRange) : QueryPlan :=
  match manager.findIndexForField field with
  | some index =>
      if index.kind.indexType = .ordered then .indexRangeScan index.name range else .seqScan
  | none => .seqScan

/-- An exact match, when the field has an index. -/
def planLookup (manager : IndexManager) (field : String) (key : Value) : QueryPlan :=
  match manager.findIndexForField field with
  | some index => .indexLookup index.name key
  | none => .seqScan

/-- Plan a FIND query using available indices. -/
def plan (filter : Option Expr) (manager : IndexManager) : QueryPlan :=
  match filter with
  | some (.binary .eq (.field field) (.literal key)) => planLookup manager field key
  | some (.binary .eq (.literal key) (.field field)) => planLookup manager field key
  | some (.binary op (.field field) (.literal literal)) =>
      match comparisonRange op literal with
      | some range => planRange manager field range
      | none => .seqScan
  | some (.between (.field field) (.literal min) (.literal max)) =>
      planRange manager field (IndexRange.betweenInclusive min max)
  | _ => .seqScan

end QueryPlanner
end Query
end NovaDb
