import Mathlib
import NovaDb.Index.IndexContents

namespace NovaDb
namespace Index

open Core Foundation

/-!
# Indexes as multimaps

Abstractly, an index is a finite set of live pairs of a key and a document id:
insertion adds a pair, removal takes one away and clearing takes all.  Both kinds
of index represent that set through every sequence of calls, and each read
answers from it.
-/

/-- One call that changes an index. -/
inductive Edit where
  | insert (key : Value) (docId : DocumentId)
  | remove (key : Value) (docId : DocumentId)
  | clear

namespace Edit

/-- The key of the call holds no float. -/
def KeyFree : Edit -> Prop
  | .insert key _ => FloatFree key
  | .remove key _ => FloatFree key
  | .clear => True

open Classical in
/-- The live pairs after a call. -/
noncomputable def apply (pairs : Finset (Value × DocumentId)) : Edit -> Finset (Value × DocumentId)
  | .insert key docId => pairs ∪ {(key, docId)}
  | .remove key docId => pairs.erase (key, docId)
  | .clear => ∅

section Membership

variable {pairs : Finset (Value × DocumentId)} {key value : Value} {docId id : DocumentId}

open Classical in
theorem mem_apply_insert : (value, id) ∈ apply pairs (.insert key docId) <->
    (value, id) ∈ pairs ∨ (value = key ∧ id = docId) := by
  rw [apply, Finset.mem_union, Finset.mem_singleton, Prod.mk.injEq]

open Classical in
theorem mem_apply_remove : (value, id) ∈ apply pairs (.remove key docId) <->
    (value, id) ∈ pairs ∧ ¬ (value = key ∧ id = docId) := by
  rw [apply, Finset.mem_erase, ne_eq, Prod.mk.injEq, and_comm]

end Membership

end Edit

/-- The pairs inserted and not removed since. -/
noncomputable def live (edits : List Edit) : Finset (Value × DocumentId) :=
  edits.foldl Edit.apply ∅

namespace SecondaryIndex

/-- The call made on an index. -/
def edit (index : SecondaryIndex) : Edit -> SecondaryIndex
  | .insert key docId => index.insert key docId
  | .remove key docId => index.remove key docId
  | .clear => index.clear

def editAll (index : SecondaryIndex) (edits : List Edit) : SecondaryIndex :=
  edits.foldl edit index

/-- The index is in order and has exactly the pairs of the set. -/
structure Represents (index : SecondaryIndex) (live : Finset (Value × DocumentId)) : Prop where
  wellFormed : index.WellFormed
  has_iff : forall {value id}, index.Has value id <-> (value, id) ∈ live

theorem represents_new (kind : IndexKind) (name field : String) (state : RandomState) :
    Represents (new kind name field state) ∅ := by
  refine ⟨wellFormed_new kind name field state, ?_⟩
  intro value id
  exact iff_of_false (not_has_new kind name field state value id) (Finset.notMem_empty _)

/-- Every call keeps the index and the set in step. -/
theorem Represents.edit {index : SecondaryIndex} {live : Finset (Value × DocumentId)}
    (represents : Represents index live) {call : Edit} (free : call.KeyFree) :
    Represents (index.edit call) (call.apply live) := by
  cases call with
  | insert key docId =>
      refine ⟨insert_wellFormed represents.wellFormed free, ?_⟩
      intro value id
      rw [SecondaryIndex.edit, has_insert represents.wellFormed free, represents.has_iff,
        Edit.mem_apply_insert]
  | remove key docId =>
      refine ⟨remove_wellFormed represents.wellFormed free, ?_⟩
      intro value id
      rw [SecondaryIndex.edit, has_remove represents.wellFormed free, represents.has_iff,
        Edit.mem_apply_remove]
  | clear => exact represents_new index.kind index.name index.field index.hashState

theorem Represents.editAll {edits : List Edit} (free : forall call, call ∈ edits -> call.KeyFree)
    {index : SecondaryIndex} {live : Finset (Value × DocumentId)}
    (represents : Represents index live) :
    Represents (index.editAll edits) (edits.foldl Edit.apply live) := by
  induction edits generalizing index live with
  | nil => exact represents
  | cons call rest ih =>
      exact ih (fun other member => free other (List.mem_cons_of_mem call member))
        (represents.edit (free call List.mem_cons_self))

theorem editAll_kind (index : SecondaryIndex) (edits : List Edit) :
    (index.editAll edits).kind = index.kind := by
  induction edits generalizing index with
  | nil => rfl
  | cons call rest ih =>
      change ((index.edit call).editAll rest).kind = index.kind
      rw [ih]
      cases call <;> rfl

/-! ## Reads of a represented set -/

section Reads

variable {index : SecondaryIndex} {live : Finset (Value × DocumentId)}

theorem Represents.mem_lookup (represents : Represents index live) {key : Value}
    (free : FloatFree key) {id : DocumentId} :
    id ∈ index.lookup key <->
      Exists fun other => other.eq key = true ∧ (other, id) ∈ live := by
  rw [SecondaryIndex.mem_lookup represents.wellFormed free, represents.has_iff]
  constructor
  · intro stored
    exact ⟨key, (Value.eq_iff free free).mpr rfl, stored⟩
  · rintro ⟨other, equal, stored⟩
    rcases represents.has_iff.mpr stored with ⟨ids, isEntry, _⟩
    have otherFree : FloatFree other := represents.wellFormed.within _ isEntry
    rw [← (Value.eq_iff otherFree free).mp equal]
    exact stored

theorem Represents.len_eq (represents : Represents index live) : index.len = live.card := by
  classical
  have same : index.pairs.toFinset = live := by
    ext ⟨value, id⟩
    rw [List.mem_toFinset, mem_pairs, represents.has_iff]
  rw [← length_pairs, ← same, List.toFinset_card_of_nodup (pairs_nodup represents.wellFormed)]

/-- Ascending keys, and ascending ids within a key. -/
def Ascending (left right : Value × DocumentId) : Prop :=
  left.1.cmp right.1 = .lt ∨ (left.1 = right.1 ∧ compare left.2.asStr right.2.asStr = .lt)

/-- The pairs of an ordered index ascend. -/
theorem pairs_ascending (wellFormed : WellFormed index) (isOrdered : index.kind = .ordered) :
    index.pairs.Pairwise Ascending := by
  rw [pairs, List.pairwise_flatMap]
  constructor
  · rintro ⟨value, ids⟩ isEntry
    rw [List.pairwise_map]
    apply (wellFormed.sets isEntry).1.imp
    intro earlier later passes
    rw [isOrdered] at passes
    exact Or.inr ⟨rfl, Std.OrientedCmp.lt_of_gt passes⟩
  · apply wellFormed.arranged.imp
    rintro ⟨value, ids⟩ ⟨other, others⟩ passes pair member otherPair otherMember
    rcases List.mem_map.mp member with ⟨_, _, rfl⟩
    rcases List.mem_map.mp otherMember with ⟨_, _, rfl⟩
    rw [keyCmp, isOrdered] at passes
    left
    change Value.cmp other value = .gt at passes
    change Value.cmp value other = .lt
    rw [Value.cmp_swap, passes]
    rfl

/-- An accepted range answers the pairs in it, each once and ascending. -/
theorem Represents.scan (represents : Represents index live) (isOrdered : index.kind = .ordered)
    {range : IndexRange} (accepted : range.rangePanic = none) :
    Exists fun answer : List (Value × DocumentId) =>
      index.scan range = .ok (.ok (answer.map Prod.snd)) ∧ answer.Nodup ∧
        answer.Pairwise Ascending ∧
        forall pair, pair ∈ answer <-> pair ∈ live ∧ range.contains pair.1 = true := by
  refine ⟨index.pairs.filter (fun pair => range.contains pair.1), ?_,
    (pairs_nodup represents.wellFormed).filter _,
    (pairs_ascending represents.wellFormed isOrdered).filter _, ?_⟩
  · rw [scan_ordered isOrdered (Or.inl accepted), inRange_eq_pairs]
  · rintro ⟨value, id⟩
    rw [List.mem_filter, mem_pairs, represents.has_iff]

end Reads

/-- Both kinds of index refine one multimap: after every sequence of calls with
keys without floats, lookups, scans and the length answer from the live pairs,
whatever the random state of the hash table.  The keys are lawful for the maps that
hold them. -/
theorem editAll_refines_live (kind : IndexKind) (name field : String) (state : RandomState)
    (edits : List Edit) (free : forall call, call ∈ edits -> call.KeyFree) :
    let index := (new kind name field state).editAll edits
    (forall first second third : Value, FloatFree first -> FloatFree second -> FloatFree third ->
      Value.LawfulAt first second third) ∧
    (forall key, FloatFree key -> (index.lookup key).Nodup ∧
      forall id, id ∈ index.lookup key <->
        Exists fun other => other.eq key = true ∧ (other, id) ∈ live edits) ∧
    (kind = .ordered -> forall range : IndexRange, range.rangePanic = none ->
      Exists fun answer : List (Value × DocumentId) =>
        index.scan range = .ok (.ok (answer.map Prod.snd)) ∧ answer.Nodup ∧
          answer.Pairwise Ascending ∧
          forall pair, pair ∈ answer <-> pair ∈ live edits ∧ range.contains pair.1 = true) ∧
    index.len = (live edits).card := by
  intro index
  have represents : Represents index (live edits) := (represents_new kind name field state).editAll free
  refine ⟨fun _ _ _ => Value.lawfulAt_of_floatFree, ?_, ?_, represents.len_eq⟩
  · intro key keyFree
    exact ⟨lookup_nodup represents.wellFormed keyFree, fun id => represents.mem_lookup keyFree⟩
  · intro isOrdered range accepted
    have ordered : index.kind = .ordered := (editAll_kind _ edits).trans isOrdered
    exact represents.scan ordered accepted

/-- A duplicate insertion, a spurious removal and a removal that empties a key. -/
theorem editAll_refines_live_sample :
    let edits : List Edit :=
      [.insert (.int 1) ⟨"a"⟩, .insert (.int 1) ⟨"a"⟩, .insert (.array [.null]) ⟨"b"⟩,
        .remove (.int 2) ⟨"a"⟩, .remove (.int 1) ⟨"a"⟩]
    ((new .ordered "idx" "f" .collisionFree).editAll edits).len = (live edits).card ∧
      ((new .ordered "idx" "f" .collisionFree).editAll edits).lookup (.int 1) = [] ∧
      ((new .ordered "idx" "f" .collisionFree).editAll edits).lookup (.array [.null]) = [⟨"b"⟩] := by
  intro edits
  have free : forall call, call ∈ edits -> call.KeyFree := by
    intro call member
    simp only [edits, List.mem_cons, List.not_mem_nil, or_false] at member
    rcases member with rfl | rfl | rfl | rfl | rfl <;> rfl
  exact ⟨(editAll_refines_live .ordered "idx" "f" .collisionFree edits free).2.2.2, by rfl, by rfl⟩

end SecondaryIndex
end Index
end NovaDb
