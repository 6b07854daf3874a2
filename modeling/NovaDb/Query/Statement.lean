import NovaDb.Index.SecondaryIndex
import NovaDb.Query.Evaluator

namespace NovaDb
namespace Query

open Core Index

/-!
# Statements

The complete abstract syntax of NQL: what the parser builds and the engine
executes.
-/

inductive SortDirection where
  | asc
  | desc
  deriving DecidableEq, Repr

structure SortClause where
  field : String
  direction : SortDirection

/-- The statements of NQL.  Limits and offsets are machine words. -/
inductive Statement where
  | find (collection : String) (filter : Option Expr) (sort : Option SortClause)
      (limit offset : Option UInt64)
  | insert (collection : String) (document : Document)
  | update (collection : String) (assignments : List Assignment) (filter : Option Expr)
  | remove (collection : String) (filter : Option Expr)
  | watch (collection : String) (filter : Option Expr)
  | count (collection : String) (filter : Option Expr)
  | exists (collection : String) (filter : Option Expr)
  | createIndex (collection field : String) (indexType : IndexType)
  | dropIndex (collection field : String)
  | begin
  | commit
  | rollback

end Query
end NovaDb
