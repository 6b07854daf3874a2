import NovaDb.Foundation.Ranks
import NovaDb.Server.FilterAnswers
import NovaDb.Server.Reordering

namespace NovaDb
namespace Server

open Core Foundation Index Query Storage DatabaseEngine

/-!
# Reads and the order of hash maps

What a COUNT, an EXISTS and a FIND answer on the reorderings of an engine.  A filter
that fails on a document ends all three, so the first document that ends them decides;
a page of a FIND also shows which of several ties came first.
-/

/-! ## Comparing two executions -/

/-- A statement ends by an error or by a panic. -/
def panics : Fault -> Bool
  | .panic _ => true
  | .error _ => false

/-- A FIND without LIMIT and OFFSET, whose answer has no order. -/
def Unpaged : Statement -> Prop
  | .find _ _ _ none none => True
  | _ => False

inductive SamePayload (statement : Statement) : ResponsePayload -> ResponsePayload -> Prop where
  | equal (payload : ResponsePayload) : SamePayload statement payload payload
  | shuffled (unpaged : Unpaged statement) {docs others : List Document}
      (permuted : docs.Perm others) (count : Nat) :
      SamePayload statement (.records docs count) (.records others count)

/-- Both return with the same payload, both with an error, or both panic. -/
inductive SameOutcome (statement : Statement) :
    Outcome ResponsePayload -> Outcome ResponsePayload -> Prop where
  | returned {first second : ResponsePayload} (same : SamePayload statement first second) :
      SameOutcome statement (.ok first) (.ok second)
  | failed {first second : Fault} (same : panics first = panics second) :
      SameOutcome statement (.error first) (.error second)

/-- The clock stands still, and nothing fails outside the program. -/
structure CalmAt (now : Int64) (moments : Nat -> Moment) : Prop where
  clock : forall turn, (moments turn).clock = now
  quiet : forall turn, (moments turn).append.Quiet

section Comparing

variable {statement : Statement} {first second : Outcome ResponsePayload}

theorem sameOutcome_refl (statement : Statement) (outcome : Outcome ResponsePayload) :
    SameOutcome statement outcome outcome := by
  cases outcome with
  | error fault => exact .failed rfl
  | ok payload => exact .returned (.equal payload)

/-- Payloads with an order are equal. -/
theorem SamePayload.eq {payload other : ResponsePayload}
    (same : SamePayload statement payload other) (paged : ¬ Unpaged statement) : payload = other := by
  cases same with
  | equal => rfl
  | shuffled unpaged => exact absurd unpaged paged

end Comparing

/-! ## Where a filter fails -/

/-- How the filter fails on the document. -/
def faultOf (P : Platform) (filter : Option Expr) (doc : Document) : Option Fault :=
  match Evaluator.matchesFilter P filter doc with
  | .error fault => some fault
  | .ok _ => none

/-- Whether it panics there, if it fails. -/
def failure (P : Platform) (filter : Option Expr) (doc : Document) : Option Bool :=
  (faultOf P filter doc).map panics

/-- How an EXISTS ends at the document. -/
def existsEnd (P : Platform) (filter : Option Expr) (doc : Document) : Option (Outcome Bool) :=
  match Evaluator.matchesFilter P filter doc with
  | .error fault => some (.error fault)
  | .ok true => some (.ok true)
  | .ok false => none

section Failures

variable {P : Platform} {filter : Option Expr} {docs left right : List Document}

theorem countMatches_eq (docs : List Document) :
    countMatches P filter docs =
      match docs.findSome? (faultOf P filter) with
      | some fault => .error fault
      | none => .ok (docs.countP (accepts P filter)) := by
  induction docs with
  | nil => rfl
  | cons doc rest ih =>
      rw [countMatches, ih, List.findSome?_cons, List.countP_cons, faultOf, accepts]
      cases Evaluator.matchesFilter P filter doc with
      | error fault => rfl
      | ok matched =>
          simp only
          cases rest.findSome? (faultOf P filter) with
          | some fault => rfl
          | none => cases matched <;> rfl

theorem existsMatch_eq (docs : List Document) :
    existsMatch P filter docs = (docs.findSome? (existsEnd P filter)).getD (.ok false) := by
  induction docs with
  | nil => rfl
  | cons doc rest ih =>
      rw [existsMatch, ih, List.findSome?_cons, existsEnd]
      cases Evaluator.matchesFilter P filter doc with
      | error fault => rfl
      | ok matched => cases matched <;> rfl

theorem filterCandidates_eq (store : DocumentStore) (ids : List DocumentId) :
    filterCandidates P filter store ids =
      match (ids.filterMap store.lookup).findSome? (faultOf P filter) with
      | some fault => .error fault
      | none => .ok ((ids.filterMap store.lookup).filter (accepts P filter)) := by
  induction ids with
  | nil => rfl
  | cons id rest ih =>
      rw [filterCandidates, ih, List.filterMap_cons]
      cases store.lookup id with
      | none => rfl
      | some doc =>
          rw [List.findSome?_cons, List.filter_cons]
          cases answer : Evaluator.matchesFilter P filter doc with
          | error fault =>
              have fails : faultOf P filter doc = some fault := by rw [faultOf, answer]
              simp only [fails, answer]
              rfl
          | ok matched =>
              have passes : faultOf P filter doc = none := by rw [faultOf, answer]
              simp only [passes, answer, accepts_of_ok answer]
              cases (rest.filterMap store.lookup).findSome? (faultOf P filter) with
              | some fault => rfl
              | none => cases matched <;> rfl

theorem findSome_failure (docs : List Document) :
    docs.findSome? (failure P filter) = (docs.findSome? (faultOf P filter)).map panics :=
  (List.map_findSome? ..).symm

end Failures

/-! ## COUNT and EXISTS -/

section Answers

variable {P : Platform} {statement : Statement} {filter : Option Expr} {left right : List Document}

variable {now : Int64} {ns coll : String} {engine : DatabaseEngine}

end Answers

/-! ## Pages -/

/-- The comparison of a sort clause; without one, any order is as good. -/
def comesBefore (sort : Option SortClause) (left right : Document) : Bool :=
  match sort with
  | none => true
  | some clause => sortCmp clause left right != .gt

/-- Where the page ends, unless the sum or the slice panics. -/
def pageEnd (P : Platform) (limit : Option UInt64) (start length : Nat) : Option Nat :=
  if length ≤ start then some start
  else
    match limit with
    | none => some length
    | some count =>
        if P.overflowChecks ∧ 2 ^ 64 ≤ start + count.toNat then none
        else
          let stop := min ((start + count.toNat) % 2 ^ 64) length
          if stop < start then none else some stop

/-- The page has no place that is open to two different documents. -/
def PageSettled (P : Platform) (sort : Option SortClause) (limit offset : Option UInt64)
    (selected : List Document) : Prop :=
  forall stop, pageEnd P limit (offset.getD 0).toNat selected.length = some stop ->
    (offset.getD 0).toNat < stop ->
    Ranks.Consistent (comesBefore sort) selected ∧
      Ranks.Untied (comesBefore sort) selected (offset.getD 0).toNat stop

section Pages

variable {P : Platform} {sort : Option SortClause} {limit offset : Option UInt64}
  {docs left right selected : List Document}

theorem comesBefore_total (sort : Option SortClause) (left right : Document) :
    (comesBefore sort left right || comesBefore sort right left) = true := by
  cases sort with
  | none => rfl
  | some clause =>
      have swapped : sortCmp clause left right = (sortCmp clause right left).swap := by
        unfold sortCmp
        rw [Value.cmp_swap]
        cases clause.direction <;> rfl
      rw [comesBefore, comesBefore, swapped]
      cases sortCmp clause right left <;> rfl

theorem sortDocuments_eq (sort : Option SortClause) (docs : List Document) :
    sortDocuments sort docs = docs.mergeSort (comesBefore sort) := by
  cases sort with
  | none =>
      symm
      apply List.mergeSort_of_pairwise
      exact List.pairwise_of_forall fun _ _ => rfl
  | some clause => rfl

theorem page_slice {stop : Nat}
    (ends : pageEnd P limit (offset.getD 0).toNat docs.length = some stop) :
    page P limit offset docs = .ok (Ranks.slice (offset.getD 0).toNat stop docs) := by
  unfold pageEnd at ends
  unfold page
  split at ends
  · rename_i behind
    cases ends
    rw [if_pos behind, Ranks.slice, List.drop_eq_nil_of_le (List.length_take_le _ _)]
  · rename_i inside
    rw [if_neg inside]
    cases limit with
    | none =>
        cases ends
        rw [Ranks.slice, List.take_length]
    | some count =>
        simp only at ends ⊢
        split at ends
        · cases ends
        · rename_i fits
          rw [if_neg fits]
          split at ends
          · cases ends
          · rename_i inOrder
            cases ends
            rw [if_neg inOrder]
            rfl

theorem page_panics (ends : pageEnd P limit (offset.getD 0).toNat docs.length = none) :
    Exists fun message => page P limit offset docs = .error (.panic message) := by
  unfold pageEnd at ends
  unfold page
  split at ends
  · cases ends
  · rename_i inside
    rw [if_neg inside]
    cases limit with
    | none => cases ends
    | some count =>
        simp only at ends ⊢
        split at ends
        · rename_i overflows
          rw [if_pos overflows]
          exact ⟨_, rfl⟩
        · rename_i fits
          rw [if_neg fits]
          split at ends
          · rename_i outOfOrder
            rw [if_pos outOfOrder]
            exact ⟨_, rfl⟩
          · cases ends

/-- The part of a FIND behind the selection. -/
def pageAnswer (P : Platform) (sort : Option SortClause) (limit offset : Option UInt64)
    (selected : List Document) : Outcome ResponsePayload := do
  let docs <- page P limit offset (sortDocuments sort selected)
  return .records docs docs.length

variable {coll : String} {filter : Option Expr}

/-- Without LIMIT and OFFSET a FIND returns what it selects, sorted. -/
theorem pageAnswer_unpaged (isLeft : left.Perm selected) (isRight : right.Perm selected) :
    SameOutcome (.find coll filter sort none none) (pageAnswer P sort none none left)
      (pageAnswer P sort none none right) := by
  have unpaged : Unpaged (.find coll filter sort none none) := trivial
  rw [pageAnswer, pageAnswer, page_none, page_none]
  have permuted : (sortDocuments sort left).Perm (sortDocuments sort right) :=
    ((sortDocuments_perm sort left).trans (isLeft.trans isRight.symm)).trans
      (sortDocuments_perm sort right).symm
  have shuffled := SamePayload.shuffled unpaged permuted (sortDocuments sort left).length
  have lengths := permuted.length_eq
  change SameOutcome _ (.ok (.records _ (sortDocuments sort left).length)) (.ok (.records _ _))
  rw [← lengths]
  exact .returned shuffled

/-- The pages are the same in any order, if there is no place open to two. -/
theorem PageSettled.same {statement : Statement}
    (settled : PageSettled P sort limit offset selected) (isLeft : left.Perm selected)
    (isRight : right.Perm selected) :
    SameOutcome statement (pageAnswer P sort limit offset left)
      (pageAnswer P sort limit offset right) := by
  have lengths : forall docs : List Document, docs.Perm selected ->
      (sortDocuments sort docs).length = selected.length :=
    fun docs isDocs => ((sortDocuments_perm sort docs).trans isDocs).length_eq
  rw [pageAnswer, pageAnswer]
  cases ends : pageEnd P limit (offset.getD 0).toNat selected.length with
  | none =>
      rcases @page_panics P limit offset (sortDocuments sort left)
        (by rw [lengths left isLeft]; exact ends) with ⟨message, panicsLeft⟩
      rcases @page_panics P limit offset (sortDocuments sort right)
        (by rw [lengths right isRight]; exact ends) with ⟨other, panicsRight⟩
      rw [panicsLeft, panicsRight]
      exact .failed rfl
  | some stop =>
      rw [page_slice (by rw [lengths left isLeft]; exact ends),
        page_slice (by rw [lengths right isRight]; exact ends)]
      have slices : Ranks.slice (offset.getD 0).toNat stop (sortDocuments sort left) =
          Ranks.slice (offset.getD 0).toNat stop (sortDocuments sort right) := by
        by_cases nonempty : (offset.getD 0).toNat < stop
        · rcases settled stop ends nonempty with ⟨consistent, untied⟩
          rw [sortDocuments_eq, sortDocuments_eq]
          exact untied.slices (comesBefore_total sort) consistent isLeft isRight
        · have empty : forall docs : List Document,
              Ranks.slice (offset.getD 0).toNat stop docs = [] := by
            intro docs
            apply List.drop_eq_nil_of_le
            exact (List.length_take_le _ _).trans (Nat.le_of_not_lt nonempty)
          rw [empty, empty]
      rw [slices]
      exact sameOutcome_refl _ _

end Pages

/-! ## FIND -/

/-- What a FIND answers from the documents that its plan proposes. -/
def findAnswer (P : Platform) (filter : Option Expr) (sort : Option SortClause)
    (limit offset : Option UInt64) (proposed : List Document) : Outcome ResponsePayload :=
  match proposed.findSome? (faultOf P filter) with
  | some fault => .error fault
  | none => pageAnswer P sort limit offset (proposed.filter (accepts P filter))

/-- All failures of the filter are of one kind, and the page is everything, or not
reached, or without a place open to two different documents. -/
structure FindSettled (P : Platform) (filter : Option Expr) (sort : Option SortClause)
    (limit offset : Option UInt64) (proposed : List Document) : Prop where
  failures : AnyOrder.OneAnswer (failure P filter) proposed
  page : (limit = none ∧ offset = none) ∨
    (Exists fun doc => doc ∈ proposed ∧ failure P filter doc ≠ none) ∨
    PageSettled P sort limit offset (proposed.filter (accepts P filter))

section Finds

variable {P : Platform} {filter : Option Expr} {sort : Option SortClause}
  {limit offset : Option UInt64} {proposed left right : List Document} {coll ns : String}
  {engine : DatabaseEngine}

theorem FindSettled.same (settled : FindSettled P filter sort limit offset proposed)
    (isLeft : left.Perm proposed) (isRight : right.Perm proposed) :
    SameOutcome (.find coll filter sort limit offset) (findAnswer P filter sort limit offset left)
      (findAnswer P filter sort limit offset right) := by
  have kinds := AnyOrder.findSome_perm settled.failures isLeft isRight
  rw [findSome_failure, findSome_failure] at kinds
  rw [findAnswer, findAnswer]
  cases atLeft : left.findSome? (faultOf P filter) with
  | some fault =>
      rw [atLeft] at kinds
      rcases Option.map_eq_some_iff.mp kinds.symm with ⟨other, atRight, same⟩
      rw [atRight]
      exact .failed same.symm
  | none =>
      rw [atLeft] at kinds
      rw [Option.map_eq_none_iff.mp kinds.symm]
      have selectedLeft := isLeft.filter (accepts P filter)
      have selectedRight := isRight.filter (accepts P filter)
      rcases settled.page with ⟨rfl, rfl⟩ | ⟨doc, member, fails⟩ | page
      · exact pageAnswer_unpaged selectedLeft selectedRight
      · have silent := List.findSome?_eq_none_iff.mp atLeft doc (isLeft.symm.subset member)
        rw [failure, silent] at fails
        exact absurd rfl fails
      · exact page.same selectedLeft selectedRight

end Finds

end Server
end NovaDb
