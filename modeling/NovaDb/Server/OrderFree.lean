import NovaDb.Server.OrderedBatches

namespace NovaDb
namespace Server

open Core Foundation Index Query Storage DatabaseEngine AnyOrder

/-!
# Statements that do not depend on the order of hash maps

The condition is about the documents of one collection, as a set: on which of them
the filter fails and how, what an UPDATE or REMOVE makes of each, and which documents
of a page the sort does not tell apart.
-/

section Changes

variable {P : Platform} {now : Int64} {ns coll : String} {filter : Option Expr}
  {engine : DatabaseEngine}

end Changes

/-! ## Statements about one document or index -/

section Others

variable {P : Platform} {now : Int64} {ns coll : String} {engine : DatabaseEngine}

end Others

/-! ## All statements -/

def mixedPlatform : Platform := referencePlatform true [agedDocument, agelessDocument]

/-- The engine on an empty directory after an INSERT of each. -/
def mixedEngine : DatabaseEngine :=
  (execute mixedPlatform quietMoments (.insert "users" agedDocument) "default"
    (execute mixedPlatform quietMoments (.insert "users" agelessDocument) "default"
      (emptyEngine 4096)).1).1

theorem mixedEngine_run : SequentialRun mixedPlatform mixedEngine
    [("default", .insert "users" agelessDocument), ("default", .insert "users" agedDocument)] := by
  have returns : forall result : DatabaseEngine × Outcome ResponsePayload,
      result.2.toOption.isSome = true -> Exists fun payload => result.2 = .ok payload := by
    rintro ⟨engine, outcome⟩ isOk
    cases outcome with
    | error fault => cases isOk
    | ok payload => exact ⟨payload, rfl⟩
  rcases returns (execute mixedPlatform quietMoments (.insert "users" agelessDocument) "default"
    (emptyEngine 4096)) (by decide +kernel) with ⟨first, returnsFirst⟩
  rcases returns (execute mixedPlatform quietMoments (.insert "users" agedDocument) "default"
    (execute mixedPlatform quietMoments (.insert "users" agelessDocument) "default"
      (emptyEngine 4096)).1) (by decide +kernel) with ⟨second, returnsSecond⟩
  exact .statement (.statement (.opened (openEngine_empty mixedPlatform 4096)) returnsFirst)
    returnsSecond

end Server
end NovaDb
