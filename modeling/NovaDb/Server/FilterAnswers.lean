import NovaDb.Server.IndexScan
import NovaDb.Server.Sections

namespace NovaDb
namespace Server

open Core Foundation Index Query Storage DatabaseEngine

/-!
# What a filter answers over a store

COUNT, EXISTS and REMOVE each walk the documents of a store with their own way of
ending early.  Where the filter fails on no document they all see the same
documents.
-/

/-- The filter holds of the document. -/
def accepts (P : Platform) (filter : Option Expr) (doc : Document) : Bool :=
  match Evaluator.matchesFilter P filter doc with
  | .ok matched => matched
  | .error _ => false

/-- The filter fails on none of the documents. -/
def Resolves (P : Platform) (filter : Option Expr) (docs : List Document) : Prop :=
  forall doc, doc ∈ docs -> Evaluator.matchesFilter P filter doc = .ok (accepts P filter doc)

section Answers

variable {P : Platform} {filter : Option Expr} {docs : List Document}

@[simp] theorem accepts_iff {doc : Document} :
    accepts P filter doc = true <-> Evaluator.matchesFilter P filter doc = .ok true := by
  unfold accepts
  cases Evaluator.matchesFilter P filter doc with
  | error fault => simp
  | ok matched => simp

theorem accepts_of_ok {doc : Document} {matched : Bool}
    (answers : Evaluator.matchesFilter P filter doc = .ok matched) :
    accepts P filter doc = matched := by
  rw [accepts, answers]

theorem resolves_cons {doc : Document} : Resolves P filter (doc :: docs) <->
    Evaluator.matchesFilter P filter doc = .ok (accepts P filter doc) ∧ Resolves P filter docs := by
  simp only [Resolves, List.mem_cons, forall_eq_or_imp]

theorem resolves_none (P : Platform) (docs : List Document) : Resolves P none docs :=
  fun _ _ => rfl

theorem countMatches_resolved (resolves : Resolves P filter docs) :
    countMatches P filter docs = .ok (docs.countP (accepts P filter)) := by
  induction docs with
  | nil => rfl
  | cons doc rest ih =>
      rcases resolves_cons.mp resolves with ⟨first, others⟩
      rw [countMatches, first, ih others, List.countP_cons]
      cases accepts P filter doc <;> rfl

/-- A COUNT that returns has asked every document. -/
theorem countMatches_ok {number : Nat} (counted : countMatches P filter docs = .ok number) :
    Resolves P filter docs := by
  induction docs generalizing number with
  | nil => exact nofun
  | cons doc rest ih =>
      rw [countMatches] at counted
      cases first : Evaluator.matchesFilter P filter doc with
      | error fault =>
          rw [first] at counted
          cases counted
      | ok matched =>
          rw [first] at counted
          cases others : countMatches P filter rest with
          | error fault =>
              rw [others] at counted
              cases counted
          | ok remaining =>
              refine resolves_cons.mpr ⟨?_, ih others⟩
              rw [first, accepts_of_ok first]

theorem existsMatch_resolved (resolves : Resolves P filter docs) :
    existsMatch P filter docs = .ok (docs.any (accepts P filter)) := by
  induction docs with
  | nil => rfl
  | cons doc rest ih =>
      rcases resolves_cons.mp resolves with ⟨first, others⟩
      rw [existsMatch, first, List.any_cons]
      cases accepts P filter doc with
      | true => rfl
      | false => exact ih others

theorem removeTargets_resolved {entries : List (Sigma fun _ : DocumentId => Document)}
    (resolves : Resolves P filter (entries.map Sigma.snd)) :
    removeTargets P filter entries =
      .ok ((entries.filter fun entry => accepts P filter entry.2).map Sigma.fst) := by
  induction entries with
  | nil => rfl
  | cons entry rest ih =>
      rw [List.map_cons] at resolves
      rcases resolves_cons.mp resolves with ⟨first, others⟩
      rw [removeTargets, first, ih others, List.filter_cons]
      cases accepts P filter entry.2 <;> rfl

/-- More than none: the sign of a count. -/
theorem any_accepts (P : Platform) (filter : Option Expr) (docs : List Document) :
    docs.any (accepts P filter) = decide (0 < docs.countP (accepts P filter)) := by
  rw [Bool.eq_iff_iff, List.any_eq_true, decide_eq_true_iff, List.countP_pos_iff]

end Answers

/-! ## Documents and ids -/

section Stored

theorem length_documents (store : DocumentStore) :
    (documents store).length = store.entries.length :=
  List.length_map _

/-- An id is that of an accepted entry when the document stored under it is accepted. -/
theorem mem_accepted_ids (P : Platform) (filter : Option Expr) (store : DocumentStore)
    (id : DocumentId) :
    id ∈ (store.entries.filter fun entry => accepts P filter entry.2).map Sigma.fst <->
      Exists fun doc => store.lookup id = some doc ∧ accepts P filter doc = true := by
  constructor
  · intro member
    rcases List.mem_map.mp member with ⟨⟨found, doc⟩, inFiltered, rfl⟩
    rcases List.mem_filter.mp inFiltered with ⟨inStore, accepted⟩
    exact ⟨doc, AList.mem_lookup_iff.mpr inStore, accepted⟩
  · rintro ⟨doc, stored, accepted⟩
    exact List.mem_map.mpr ⟨⟨id, doc⟩,
      List.mem_filter.mpr ⟨AList.mem_lookup_iff.mp stored, accepted⟩, rfl⟩

theorem accepted_ids_nodup (P : Platform) (filter : Option Expr) (store : DocumentStore) :
    ((store.entries.filter fun entry => accepts P filter entry.2).map Sigma.fst).Nodup := by
  have distinct : (store.entries.map Sigma.fst).Nodup := store.nodupKeys
  exact distinct.sublist (List.filter_sublist.map Sigma.fst)

theorem accepted_ids_length (P : Platform) (filter : Option Expr) (store : DocumentStore) :
    ((store.entries.filter fun entry => accepts P filter entry.2).map Sigma.fst).length =
      (documents store).countP (accepts P filter) := by
  rw [List.length_map, documents, List.countP_map, List.countP_eq_length_filter]
  rfl

end Stored

end Server
end NovaDb
