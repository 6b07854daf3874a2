import NovaDb.Server.HashOrder
import NovaDb.Server.Updates

namespace NovaDb
namespace Server

open Core Foundation Index Query Storage DatabaseEngine AnyOrder

/-!
# UPDATE and REMOVE and the order of hash maps

Both change one document after another and end at the first failure, so what they
leave is a batch in the order of the store.  A document passes, ends the batch by
itself, or is changed and logged, which takes one of the numbers that the log has
left.
-/

/-- The documents of a store by their ids. -/
def docsOf (store : DocumentStore) (id : DocumentId) : Option Document :=
  store.lookup id

/-- How many numbers the log has left, when the build checks the counter. -/
def roomOf (P : Platform) (sequence : UInt64) : Option Nat :=
  if P.overflowChecks then some (2 ^ 64 - 1 - sequence.toNat) else none

/-- The log refuses records that do not fit, and all records once its lock is
poisoned. -/
def refusal (P : Platform) (poisoned : Bool) (mutation : Mutation) : Option Bool :=
  match (mutation.record 0 0).encode P with
  | .error _ => some false
  | .ok _ => if poisoned then some false else none

section Append

variable {P : Platform} {env : Environment}

end Append

/-! ## The loops as batches -/

section Loops

variable {P : Platform} {now : Int64} {ns coll : String} {assignments : List Assignment}
  {filter : Option Expr} {moments : Nat -> Moment} {turn : Nat} {state final : Section}
  {verdict : DocumentId -> Verdict Bool (Option Document)}

end Loops

/-! ## Statements as batches -/

/-- The statement leaves in its collection what the batch leaves, ends as the batch
does, and reports the number of its attempts. -/
structure StatementIsBatch (verdict : DocumentId -> Verdict Bool (Option Document)) (P : Platform)
    (message : Nat -> ResponsePayload) (key : CollectionKey) (docs : DocumentId -> Option Document)
    (ids : List DocumentId) (engine : DatabaseEngine)
    (result : DatabaseEngine × Outcome ResponsePayload) : Prop where
  leaves : Exists fun store => result.1.collections = engine.collections.insert key store ∧
    docsOf store = (batch true verdict (roomOf P engine.wal.currentSequence) ids docs).2
  fails : forall kind,
    (batch true verdict (roomOf P engine.wal.currentSequence) ids docs).1 = some kind ->
    Exists fun fault => result.2 = .error fault ∧ panics fault = kind
  returns : (batch true verdict (roomOf P engine.wal.currentSequence) ids docs).1 = none ->
    result.2 = .ok (message (attempts verdict ids).length)

section Statements

variable {P : Platform} {now : Int64} {ns coll : String} {assignments : List Assignment}
  {filter : Option Expr} {moments : Nat -> Moment} {engine other : DatabaseEngine}
  {verdict : DocumentId -> Verdict Bool (Option Document)}

def updated (count : Nat) : ResponsePayload :=
  .success ("Updated " ++ toString count ++ " document(s)") count

def removed (count : Nat) : ResponsePayload :=
  .success ("Removed " ++ toString count ++ " document(s)") count

/-- Ids that are passed over may be added. -/
theorem StatementIsBatch.unfiltered {message : Nat -> ResponsePayload} {key : CollectionKey}
    {docs : DocumentId -> Option Document} {ids : List DocumentId} {p : DocumentId -> Bool}
    {result : DatabaseEngine × Outcome ResponsePayload}
    (isBatch : StatementIsBatch verdict P message key docs (ids.filter p) engine result)
    (passes : forall id, id ∈ ids -> p id = false -> verdict id = .pass) :
    StatementIsBatch verdict P message key docs ids engine result := by
  have sameAttempts : attempts verdict (ids.filter p) = attempts verdict ids := by
    rw [attempts, List.filter_filter]
    apply List.filter_congr
    intro id member
    cases chosen : p id with
    | true => exact Bool.and_true _
    | false =>
        rw [passes id member chosen]
        rfl
  have sameBatch := @batch_filter _ _ _ _ true verdict (roomOf P engine.wal.currentSequence) ids
    docs p passes
  have leaves := isBatch.leaves
  have fails := isBatch.fails
  have returns := isBatch.returns
  rw [sameBatch] at leaves fails returns
  rw [sameAttempts] at returns
  exact ⟨leaves, fails, returns⟩

end Statements

end Server
end NovaDb
