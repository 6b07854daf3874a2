import NovaDb.Query.FieldDependence
import NovaDb.Server.Histories

namespace NovaDb
namespace Server

open Core Foundation Index Query Storage DatabaseEngine

/-!
# Histories without times

A statement stamps the documents that it writes, and reads no stamp: no filter, no
assignment and no sort looks at the times of a document.  So without the stamps, the
answer and the effect of a statement do not depend on when it is executed.
-/

/-! ## Leaving out times -/

def untimed (doc : Document) : Document :=
  { doc with createdAt := 0, updatedAt := 0 }

def untimedContents (contents : Contents) : Contents :=
  fun place => (contents place).map untimed

def untimedStatement : Statement -> Statement
  | .insert coll doc => .insert coll (untimed doc)
  | other => other

def untimedPayload : ResponsePayload -> ResponsePayload
  | .records docs count => .records (docs.map untimed) count
  | other => other

def Act.untimed (act : Act) : Act :=
  ⟨act.ns, untimedStatement act.statement, 0⟩

section Documents

variable {P : Platform} {filter : Option Expr} {contents next : Contents} {key : CollectionKey}
  {docs paged : List Document} {sort : Option SortClause} {limit offset : Option UInt64}

@[simp] theorem accepts_untimed (doc : Document) :
    accepts P filter (untimed doc) = accepts P filter doc := by
  have agree : AgreeOn (filterKeys filter) (untimed doc) doc := ⟨rfl, fun _ _ => rfl⟩
  rw [accepts, accepts, Evaluator.matchesFilter_agree agree]

theorem Selects.untimed (selects : Selects P filter contents key docs) :
    Selects P filter (untimedContents contents) key (docs.map Server.untimed) := by
  rcases selects with ⟨ids, distinct, exactly, documents⟩
  refine ⟨ids, distinct, ?_, ?_⟩
  · intro id
    rw [exactly id]
    constructor
    · rintro ⟨doc, stored, accepted⟩
      exact ⟨Server.untimed doc, congrArg (Option.map Server.untimed) stored,
        (accepts_untimed doc).trans accepted⟩
    · rintro ⟨other, stored, accepted⟩
      rcases Option.map_eq_some_iff.mp stored with ⟨doc, found, rfl⟩
      exact ⟨doc, found, (accepts_untimed doc).symm.trans accepted⟩
  · have mapped := documents.map (Option.map Server.untimed)
    rw [List.map_map, List.map_map] at mapped
    rw [List.map_map]
    exact mapped

theorem RewritesAll.untimed {becomes becomesToo : Document -> Option Document -> Prop}
    (carries : forall doc after, becomes doc after ->
      becomesToo (Server.untimed doc) (after.map Server.untimed))
    (rewrites : RewritesAll P filter key becomes contents next) :
    RewritesAll P filter key becomesToo (untimedContents contents) (untimedContents next) := by
  constructor
  · intro place
    rcases rewrites.1 place with kept | ⟨inCollection, doc, stored, accepted, becomesAfter⟩
    · exact Or.inl (congrArg (Option.map Server.untimed) kept)
    · exact Or.inr ⟨inCollection, Server.untimed doc, congrArg (Option.map Server.untimed) stored,
        (accepts_untimed doc).trans accepted, carries doc _ becomesAfter⟩
  · intro id other stored accepted
    rcases Option.map_eq_some_iff.mp stored with ⟨doc, found, rfl⟩
    exact carries doc _ (rewrites.2 id doc found ((accepts_untimed doc).symm.trans accepted))

/-- An UPDATE makes the same of a document at every time. -/
theorem AssignedAt.untimed {now : Int64} {assignments : List Assignment} {doc : Document}
    {after : Option Document} (assigned : AssignedAt P now assignments doc after) :
    AssignedAt P 0 assignments (Server.untimed doc) (after.map Server.untimed) := by
  rcases assigned with ⟨revised, rfl, assigns⟩
  rcases Evaluator.applyAssignments_ok_iff.mp assigns with ⟨written, writes, advances⟩
  rcases Evaluator.advanceVersion_ok advances with ⟨rfl, room⟩
  have sameVersion : written.version = doc.version := by rw [writes.fields_only]
  have sameId : written.id = doc.id := by rw [writes.fields_only]
  have again := @Evaluator.Writes.carried _ _ _ _ writes (Server.untimed doc) rfl rfl
  rw [sameVersion] at room
  have advanced := @Evaluator.advanceVersion_eq P.overflowChecks
    { Server.untimed doc with fields := written.fields } room 0
  refine ⟨_, rfl, Evaluator.applyAssignments_ok_iff.mpr ⟨_, again, ?_⟩⟩
  rw [advanced]
  simp only [Server.untimed, sameVersion, sameId]

theorem Gone.untimed {doc : Document} {after : Option Document} (gone : Gone doc after) :
    Gone (Server.untimed doc) (after.map Server.untimed) :=
  congrArg (Option.map Server.untimed) gone

/-! ## Pages -/

theorem comesBefore_untimed (left right : Document) :
    comesBefore sort left right =
      comesBefore sort (Server.untimed left) (Server.untimed right) := by
  cases sort <;> rfl

theorem sortDocuments_untimed :
    sortDocuments sort (docs.map untimed) = (sortDocuments sort docs).map untimed := by
  rw [sortDocuments_eq, sortDocuments_eq]
  exact (List.map_mergeSort fun left _ right _ => comesBefore_untimed left right).symm

theorem page_untimed (isPage : page P limit offset docs = .ok paged) :
    page P limit offset (docs.map untimed) = .ok (paged.map untimed) := by
  cases ends : pageEnd P limit (offset.getD 0).toNat docs.length with
  | none =>
      rcases page_panics ends with ⟨message, panics⟩
      rw [isPage] at panics
      cases panics
  | some stop =>
      rw [page_slice ends] at isPage
      cases isPage
      rw [page_slice (by rw [List.length_map]; exact ends), Ranks.slice, Ranks.slice,
        List.map_drop, List.map_take]

theorem PageFixed.untimed (fixed : PageFixed P sort limit offset docs) :
    PageFixed P sort limit offset (docs.map Server.untimed) := by
  rcases fixed with unpaged | settled
  · exact Or.inl unpaged
  · refine Or.inr ?_
    intro stop ends nonempty
    rw [List.length_map] at ends
    rcases settled stop ends nonempty with ⟨consistent, untied⟩
    exact ⟨consistent.map comesBefore_untimed, untied.map comesBefore_untimed⟩

end Documents

/-! ## Statements -/

section Acts

variable {P : Platform} {start contents next : Contents} {act : Act} {payload : ResponsePayload}

theorem untimedContents_update (place : Place) (doc : Document) :
    untimedContents (Function.update contents place (some doc)) =
      Function.update (untimedContents contents) place (some (untimed doc)) := by
  funext other
  by_cases same : other = place
  · subst same
    rw [untimedContents, Function.update_self, Function.update_self]
    rfl
  · rw [untimedContents, Function.update_of_ne same, Function.update_of_ne same]
    rfl

/-- A statement answers and does the same without times. -/
theorem Gives.untimed (gives : Gives P contents act payload next) :
    Gives P (untimedContents contents) act.untimed (untimedPayload payload)
      (untimedContents next) := by
  cases gives with
  | inserted absent =>
      rw [untimedContents_update]
      exact .inserted (congrArg (Option.map Server.untimed) absent)
  | updated selects rewrites =>
      have updated := Gives.updated selects.untimed
        (rewrites.untimed fun _ _ assigned => assigned.untimed)
      rw [List.length_map] at updated
      exact updated
  | removed selects rewrites =>
      have removed := @Gives.removed _ _ _ _ _ 0 _ _ selects.untimed
        (rewrites.untimed fun _ _ gone => gone.untimed)
      rw [List.length_map] at removed
      exact removed
  | counted selects =>
      have counted := @Gives.counted _ _ _ _ _ 0 _ selects.untimed
      rw [List.length_map] at counted
      exact counted
  | existing selects =>
      have existing := @Gives.existing _ _ _ _ _ 0 _ selects.untimed
      rw [List.length_map] at existing
      exact existing
  | found selects fixed isPage =>
      have found := @Gives.found _ _ _ _ _ _ _ _ 0 _ _ selects.untimed fixed.untimed
        ((congrArg (page P _ _) sortDocuments_untimed).trans (page_untimed isPage))
      rw [List.length_map] at found
      exact found

theorem Recounts.untimed {history : List Act} {answers : List ResponsePayload}
    (recounts : Recounts P start history answers contents) :
    Recounts P (untimedContents start) (history.map Act.untimed) (answers.map untimedPayload)
      (untimedContents contents) := by
  induction recounts with
  | nothing => exact .nothing
  | act earlier gives hypothesis =>
      rw [List.map_append, List.map_append]
      exact hypothesis.act gives.untimed

end Acts

end Server
end NovaDb
