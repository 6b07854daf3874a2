import NovaDb.Core.KeyLaws
import NovaDb.Index.SecondaryIndex

namespace NovaDb
namespace Index

open Core Foundation

/-!
# What an index contains

An index stands for a set of pairs of a field value and a document id.  For
values without floats both kinds of index keep that set exactly: the comparison
of either kind decides equality, and the walks of the keyed lists find every key.
-/

/-- Values the comparisons of both kinds handle exactly. -/
def FloatFree (value : Value) : Prop :=
  value.floatFree = true

/-- Without floats, equal keys are the same and have one hash, so that a probe meets
them in every random state. -/
theorem IndexKind.keyCmp_lawful (kind : IndexKind) (state : RandomState) :
    KeyedList.Lawful (kind.keyCmp state) FloatFree := by
  cases kind with
  | hash =>
      constructor
      · intro left right leftFree rightFree
        rw [← Value.eq_iff leftFree rightFree, IndexKind.keyCmp]
        split
        · rename_i found
          exact iff_of_true rfl (Bool.and_eq_true_iff.mp found).2
        · rename_i missed
          refine iff_of_false (nofun) ?_
          intro equal
          rw [← (Value.eq_iff leftFree rightFree).mp equal] at missed equal
          exact missed (Bool.and_eq_true_iff.mpr ⟨state.meets_self _, equal⟩)
      · intro left right _ _ less
        rw [IndexKind.keyCmp] at less
        split at less <;> cases less
      · intro key stop later _ _ _ less
        rw [IndexKind.keyCmp] at less
        split at less <;> cases less
  | ordered =>
      constructor
      · intro left right leftFree rightFree
        exact Value.cmp_eq_iff leftFree rightFree
      · intro left right _ _ less
        change Value.cmp right left = .gt
        change Value.cmp left right = .lt at less
        rw [Value.cmp_swap, less]
        rfl
      · intro key stop later keyFree stopFree laterFree less greater
        change Value.cmp later key = .gt
        have above : Value.cmp stop later = .lt := by
          rw [Value.cmp_swap]
          change (Value.cmp later stop) = .gt at greater
          rw [greater]
          rfl
        have lawful := Value.lawfulAt_of_floatFree keyFree stopFree laterFree
        rw [Value.cmp_swap, lawful.cmp_same_trans .lt less above]
        rfl

theorem idCmp_lawful (kind : IndexKind) : KeyedList.Lawful kind.idCmp (fun _ => True) := by
  cases kind with
  | hash =>
      constructor
      · intro left right _ _
        rw [IndexKind.idCmp]
        split
        · rename_i same
          exact iff_of_true rfl same
        · rename_i different
          exact iff_of_false (nofun) different
      · intro left right _ _ less
        rw [IndexKind.idCmp] at less
        split at less <;> cases less
      · intro key stop later _ _ _ less
        rw [IndexKind.idCmp] at less
        split at less <;> cases less
  | ordered =>
      have lawful := @KeyedList.lawful_compare String _ _ _
      constructor
      · rintro ⟨left⟩ ⟨right⟩ _ _
        rw [DocumentId.mk.injEq]
        exact lawful.eq_iff trivial trivial
      · exact fun _ _ => lawful.gt_of_lt trivial trivial
      · exact fun _ _ _ => lawful.gt_trans trivial trivial trivial

namespace SecondaryIndex

theorem keyCmp_lawful (index : SecondaryIndex) : KeyedList.Lawful index.keyCmp FloatFree :=
  index.kind.keyCmp_lawful index.hashState

/-- The index has the id under the value. -/
def Has (index : SecondaryIndex) (value : Value) (id : DocumentId) : Prop :=
  Exists fun ids => (value, ids) ∈ index.entries ∧ (id, ()) ∈ ids

/-- Keys in order and without floats, each with a non-empty set of ids. -/
structure WellFormed (index : SecondaryIndex) : Prop where
  arranged : KeyedList.Arranged index.keyCmp index.entries
  within : KeyedList.Within FloatFree index.entries
  sets : forall {value ids}, (value, ids) ∈ index.entries ->
    KeyedList.Arranged index.kind.idCmp ids ∧ ids ≠ []

theorem wellFormed_new (kind : IndexKind) (name field : String) (state : RandomState) :
    WellFormed (new kind name field state) := by
  refine ⟨List.Pairwise.nil, ?_, ?_⟩
  · intro entry member
    cases member
  · intro value ids member
    cases member

theorem not_has_new (kind : IndexKind) (name field : String) (state : RandomState) (value : Value)
    (id : DocumentId) : ¬ Has (new kind name field state) value id := by
  rintro ⟨ids, member, _⟩
  cases member

section Contents

variable {index : SecondaryIndex} {key : Value} {docId : DocumentId}

theorem everyId (ids : IdSet) : KeyedList.Within (fun _ => True) ids :=
  fun _ _ => trivial

theorem find_arranged (wellFormed : WellFormed index) (free : FloatFree key) :
    KeyedList.Arranged index.kind.idCmp
      ((KeyedList.find index.keyCmp key index.entries).getD []) := by
  cases found : KeyedList.find index.keyCmp key index.entries with
  | none => exact List.Pairwise.nil
  | some ids =>
      have member := (KeyedList.find_eq_some_iff (keyCmp_lawful index) free
        wellFormed.arranged wellFormed.within).mp found
      exact (wellFormed.sets member).1

/-- The ids a key leads to. -/
theorem mem_find (wellFormed : WellFormed index) (free : FloatFree key) {id : DocumentId} :
    (id, ()) ∈ (KeyedList.find index.keyCmp key index.entries).getD [] <-> Has index key id := by
  have lawful := keyCmp_lawful index
  cases found : KeyedList.find index.keyCmp key index.entries with
  | none =>
      have absent := (KeyedList.find_eq_none_iff lawful free wellFormed.arranged
        wellFormed.within).mp found
      refine iff_of_false (List.not_mem_nil) ?_
      rintro ⟨ids, member, _⟩
      exact absent ids member
  | some ids =>
      have member := (KeyedList.find_eq_some_iff lawful free wellFormed.arranged
        wellFormed.within).mp found
      constructor
      · intro stored
        exact ⟨ids, member, stored⟩
      · rintro ⟨others, otherMember, stored⟩
        have again := (KeyedList.find_eq_some_iff lawful free wellFormed.arranged
          wellFormed.within).mpr otherMember
        cases found.symm.trans again
        exact stored

/-- Insertion keeps the index in order and adds one pair. -/
theorem insert_wellFormed (wellFormed : WellFormed index) (free : FloatFree key) :
    WellFormed (index.insert key docId) := by
  have lawful := keyCmp_lawful index
  refine ⟨?_, ?_, ?_⟩
  · exact KeyedList.alter_arranged lawful free wellFormed.arranged wellFormed.within _
  · exact KeyedList.alter_within lawful free wellFormed.arranged wellFormed.within _
  · intro value ids member
    rcases (KeyedList.mem_alter lawful free wellFormed.arranged wellFormed.within).mp member with
      ⟨_, changed⟩ | ⟨_, old⟩
    · have ids := Option.some.inj changed
      subst ids
      have oldArranged := find_arranged wellFormed free
      refine ⟨KeyedList.alter_arranged (idCmp_lawful index.kind) trivial oldArranged (everyId _) _, ?_⟩
      intro empty
      have stored : (docId, ()) ∈ KeyedList.insert index.kind.idCmp docId ()
          ((KeyedList.find index.keyCmp key index.entries).getD []) :=
        (KeyedList.mem_alter (idCmp_lawful index.kind) trivial oldArranged (everyId _)).mpr
          (Or.inl ⟨rfl, rfl⟩)
      rw [empty] at stored
      cases stored
    · exact wellFormed.sets old

theorem has_insert (wellFormed : WellFormed index) (free : FloatFree key) {value : Value}
    {id : DocumentId} :
    Has (index.insert key docId) value id <-> Has index value id ∨ (value = key ∧ id = docId) := by
  have lawful := keyCmp_lawful index
  have oldArranged := find_arranged wellFormed free
  have newSet : forall other, (other, ()) ∈ KeyedList.insert index.kind.idCmp docId ()
      ((KeyedList.find index.keyCmp key index.entries).getD []) <->
        other = docId ∨ Has index key other := by
    intro other
    rw [KeyedList.insert, KeyedList.mem_alter (idCmp_lawful index.kind) trivial oldArranged
      (everyId _), mem_find wellFormed free]
    constructor
    · rintro (⟨same, _⟩ | ⟨_, stored⟩)
      · exact Or.inl same
      · exact Or.inr stored
    · rintro (same | stored)
      · exact Or.inl ⟨same, rfl⟩
      · by_cases same : other = docId
        · exact Or.inl ⟨same, rfl⟩
        · exact Or.inr ⟨same, stored⟩
  constructor
  · rintro ⟨ids, member, stored⟩
    rcases (KeyedList.mem_alter lawful free wellFormed.arranged wellFormed.within).mp member with
      ⟨rfl, changed⟩ | ⟨_, old⟩
    · cases Option.some.inj changed
      rcases (newSet id).mp stored with same | before
      · exact Or.inr ⟨rfl, same⟩
      · exact Or.inl before
    · exact Or.inl ⟨ids, old, stored⟩
  · intro before
    by_cases sameKey : value = key
    · subst sameKey
      refine ⟨_, (KeyedList.mem_alter lawful free wellFormed.arranged wellFormed.within).mpr
        (Or.inl ⟨rfl, rfl⟩), ?_⟩
      rw [newSet]
      rcases before with stored | ⟨_, same⟩
      · exact Or.inr stored
      · exact Or.inl same
    · rcases before with ⟨ids, member, stored⟩ | ⟨same, _⟩
      · exact ⟨ids, (KeyedList.mem_alter lawful free wellFormed.arranged wellFormed.within).mpr
          (Or.inr ⟨sameKey, member⟩), stored⟩
      · exact absurd same sameKey

/-- What is left of a set of ids once one id is removed. -/
theorem mem_removed {ids : IdSet} (arranged : KeyedList.Arranged index.kind.idCmp ids)
    {id : DocumentId} :
    (id, ()) ∈ KeyedList.alter index.kind.idCmp docId (fun _ => none) ids <->
      id ≠ docId ∧ (id, ()) ∈ ids := by
  rw [KeyedList.mem_alter (idCmp_lawful index.kind) trivial arranged (everyId _)]
  simp only [reduceCtorEq, and_false, false_or]

/-- Removal takes an id out of the set of its key, and the key with its last id. -/
theorem remove_change_eq_some {ids left : IdSet} :
    (if (KeyedList.alter index.kind.idCmp docId (fun _ => none) ids).isEmpty then none
      else some (KeyedList.alter index.kind.idCmp docId (fun _ => none) ids)) = some left <->
    left ≠ [] ∧ left = KeyedList.alter index.kind.idCmp docId (fun _ => none) ids := by
  split
  · rename_i empty
    rw [List.isEmpty_iff] at empty
    refine iff_of_false (nofun) ?_
    rintro ⟨nonempty, rfl⟩
    exact nonempty empty
  · rename_i nonempty
    rw [List.isEmpty_iff] at nonempty
    rw [Option.some.injEq]
    constructor
    · rintro rfl
      exact ⟨nonempty, rfl⟩
    · rintro ⟨_, rfl⟩
      rfl

/-- Entries after a removal: the reduced set of the key, and all other entries. -/
theorem mem_remove_entries (wellFormed : WellFormed index) (free : FloatFree key) {value : Value}
    {left : IdSet} :
    (value, left) ∈ (index.remove key docId).entries <->
      (value = key ∧ Exists fun ids => (key, ids) ∈ index.entries ∧ left ≠ [] ∧
        left = KeyedList.alter index.kind.idCmp docId (fun _ => none) ids) ∨
      (value ≠ key ∧ (value, left) ∈ index.entries) := by
  have lawful := keyCmp_lawful index
  rw [remove, KeyedList.mem_alter lawful free wellFormed.arranged wellFormed.within]
  apply or_congr_left
  apply and_congr_right
  intro _
  cases found : KeyedList.find index.keyCmp key index.entries with
  | none =>
      have absent := (KeyedList.find_eq_none_iff lawful free wellFormed.arranged
        wellFormed.within).mp found
      refine iff_of_false (nofun) ?_
      rintro ⟨ids, member, _⟩
      exact absent ids member
  | some ids =>
      rw [remove_change_eq_some]
      constructor
      · rintro ⟨nonempty, same⟩
        exact ⟨ids, (KeyedList.find_eq_some_iff lawful free wellFormed.arranged
          wellFormed.within).mp found, nonempty, same⟩
      · rintro ⟨others, member, nonempty, same⟩
        have again := (KeyedList.find_eq_some_iff lawful free wellFormed.arranged
          wellFormed.within).mpr member
        cases found.symm.trans again
        exact ⟨nonempty, same⟩

/-- Removal keeps the index in order and takes away one pair. -/
theorem remove_wellFormed (wellFormed : WellFormed index) (free : FloatFree key) :
    WellFormed (index.remove key docId) := by
  have lawful := keyCmp_lawful index
  refine ⟨?_, ?_, ?_⟩
  · exact KeyedList.alter_arranged lawful free wellFormed.arranged wellFormed.within _
  · exact KeyedList.alter_within lawful free wellFormed.arranged wellFormed.within _
  · intro value left member
    rcases (mem_remove_entries wellFormed free).mp member with
      ⟨_, ids, isEntry, nonempty, rfl⟩ | ⟨_, old⟩
    · exact ⟨KeyedList.alter_arranged (idCmp_lawful index.kind) trivial
        (wellFormed.sets isEntry).1 (everyId _) _, nonempty⟩
    · exact wellFormed.sets old

theorem has_remove (wellFormed : WellFormed index) (free : FloatFree key) {value : Value}
    {id : DocumentId} :
    Has (index.remove key docId) value id <-> Has index value id ∧ ¬ (value = key ∧ id = docId) := by
  constructor
  · rintro ⟨left, member, stored⟩
    rcases (mem_remove_entries wellFormed free).mp member with
      ⟨rfl, ids, isEntry, _, rfl⟩ | ⟨different, old⟩
    · rcases (mem_removed (wellFormed.sets isEntry).1).mp stored with ⟨kept, before⟩
      exact ⟨⟨ids, isEntry, before⟩, fun same => kept same.2⟩
    · exact ⟨⟨left, old, stored⟩, fun same => different same.1⟩
  · rintro ⟨⟨ids, isEntry, before⟩, kept⟩
    by_cases sameKey : value = key
    · subst sameKey
      have stays : (id, ()) ∈ KeyedList.alter index.kind.idCmp docId (fun _ => none) ids :=
        (mem_removed (wellFormed.sets isEntry).1).mpr ⟨fun same => kept ⟨rfl, same⟩, before⟩
      exact ⟨_, (mem_remove_entries wellFormed free).mpr
        (Or.inl ⟨rfl, ids, isEntry, List.ne_nil_of_mem stays, rfl⟩), stays⟩
    · exact ⟨ids, (mem_remove_entries wellFormed free).mpr (Or.inr ⟨sameKey, isEntry⟩), before⟩

/-! ## Reads -/

theorem map_fst_mem {ids : IdSet} {id : DocumentId} :
    id ∈ ids.map Prod.fst <-> (id, ()) ∈ ids := by
  constructor
  · intro member
    rcases List.mem_map.mp member with ⟨⟨other, _⟩, stored, rfl⟩
    exact stored
  · intro stored
    exact List.mem_map_of_mem stored

/-- A lookup answers the ids under the key. -/
theorem mem_lookup (wellFormed : WellFormed index) (free : FloatFree key) {id : DocumentId} :
    id ∈ index.lookup key <-> Has index key id := by
  rw [lookup, map_fst_mem, mem_find wellFormed free]

theorem lookup_nodup (wellFormed : WellFormed index) (free : FloatFree key) :
    (index.lookup key).Nodup :=
  KeyedList.Arranged.keys_nodup (idCmp_lawful index.kind) (find_arranged wellFormed free) (everyId _)

/-- The ids of the keys in a range, key by key. -/
def inRange (index : SecondaryIndex) (range : IndexRange) : List DocumentId :=
  (index.entries.filter (fun entry => range.contains entry.1)).flatMap
    (fun entry => entry.2.map Prod.fst)

theorem mem_inRange {range : IndexRange} {id : DocumentId} :
    id ∈ index.inRange range <-> Exists fun value => range.contains value = true ∧ Has index value id := by
  rw [inRange, List.mem_flatMap]
  constructor
  · rintro ⟨⟨value, ids⟩, member, stored⟩
    rcases List.mem_filter.mp member with ⟨isEntry, inside⟩
    exact ⟨value, inside, ids, isEntry, map_fst_mem.mp stored⟩
  · rintro ⟨value, inside, ids, isEntry, stored⟩
    exact ⟨(value, ids), List.mem_filter.mpr ⟨isEntry, inside⟩, map_fst_mem.mpr stored⟩

/-- The pairs of the index, key by key. -/
def pairs (index : SecondaryIndex) : List (Value × DocumentId) :=
  index.entries.flatMap (fun entry => entry.2.map (fun stored => (entry.1, stored.1)))

theorem mem_pairs {value : Value} {id : DocumentId} :
    (value, id) ∈ index.pairs <-> Has index value id := by
  rw [pairs, List.mem_flatMap]
  constructor
  · rintro ⟨⟨key, ids⟩, isEntry, member⟩
    rcases List.mem_map.mp member with ⟨⟨stored, _⟩, isStored, same⟩
    cases same
    exact ⟨ids, isEntry, isStored⟩
  · rintro ⟨ids, isEntry, isStored⟩
    exact ⟨(value, ids), isEntry, List.mem_map_of_mem isStored⟩

theorem length_pairs (index : SecondaryIndex) : index.pairs.length = index.len := by
  simp only [pairs, len, List.length_flatMap, List.length_map]

/-- A range answers the ids of the pairs with a key in the range. -/
theorem inRange_eq_pairs (index : SecondaryIndex) (range : IndexRange) :
    index.inRange range =
      (index.pairs.filter (fun pair => range.contains pair.1)).map Prod.snd := by
  unfold inRange pairs
  induction index.entries with
  | nil => rfl
  | cons entry rest ih =>
      rw [List.flatMap_cons, List.filter_append, List.map_append, ← ih, List.filter_cons]
      cases inside : range.contains entry.1 with
      | true =>
          have all : (entry.2.map (fun stored => (entry.1, stored.1))).filter
              (fun pair => range.contains pair.1) =
                entry.2.map (fun stored => (entry.1, stored.1)) := by
            rw [List.filter_eq_self]
            intro pair member
            rcases List.mem_map.mp member with ⟨_, _, rfl⟩
            exact inside
          rw [if_pos rfl, List.flatMap_cons, all, List.map_map]
          rfl
      | false =>
          have none : (entry.2.map (fun stored => (entry.1, stored.1))).filter
              (fun pair => range.contains pair.1) = [] := by
            rw [List.filter_eq_nil_iff]
            intro pair member
            rcases List.mem_map.mp member with ⟨_, _, rfl⟩
            exact ne_true_of_eq_false inside
          rw [if_neg Bool.false_ne_true, none]
          rfl

theorem pairs_nodup (wellFormed : WellFormed index) : index.pairs.Nodup := by
  have distinct := KeyedList.Arranged.keys_nodup (keyCmp_lawful index) wellFormed.arranged
    wellFormed.within
  rw [pairs, List.nodup_flatMap]
  constructor
  · rintro ⟨value, ids⟩ member
    have idsDistinct := KeyedList.Arranged.keys_nodup (idCmp_lawful index.kind)
      (wellFormed.sets member).1 (everyId _)
    rw [List.Nodup, List.pairwise_map] at idsDistinct ⊢
    apply idsDistinct.imp
    intro stored other different same
    exact different (Prod.mk.inj same).2
  · rw [List.Nodup, List.pairwise_map] at distinct
    apply distinct.imp
    intro entry other different
    rw [Function.onFun, List.disjoint_left]
    intro pair member otherMember
    rcases List.mem_map.mp member with ⟨_, _, rfl⟩
    rcases List.mem_map.mp otherMember with ⟨_, _, same⟩
    exact different (Prod.mk.inj same).1.symm

/-- No id is under two values, so a range answers each id once. -/
theorem inRange_nodup (wellFormed : WellFormed index) (range : IndexRange)
    (single : forall {value other id}, Has index value id -> Has index other id -> value = other) :
    (index.inRange range).Nodup := by
  have distinct := KeyedList.Arranged.keys_nodup (keyCmp_lawful index) wellFormed.arranged
    wellFormed.within
  rw [inRange, List.nodup_flatMap]
  constructor
  · rintro ⟨value, ids⟩ member
    exact KeyedList.Arranged.keys_nodup (idCmp_lawful index.kind)
      (wellFormed.sets (List.mem_of_mem_filter member)).1 (everyId _)
  · rw [List.Nodup, List.pairwise_map] at distinct
    apply (distinct.filter _).imp_of_mem
    rintro ⟨value, ids⟩ ⟨other, others⟩ member otherMember different
    rw [Function.onFun, List.disjoint_left]
    intro id stored otherStored
    exact different (single ⟨ids, List.mem_of_mem_filter member, map_fst_mem.mp stored⟩
      ⟨others, List.mem_of_mem_filter otherMember, map_fst_mem.mp otherStored⟩)

/-- An ordered index answers a range the B-tree accepts, and any range when it is
empty. -/
theorem scan_ordered (isOrdered : index.kind = .ordered) {range : IndexRange}
    (fine : range.rangePanic = none ∨ index.entries = []) :
    index.scan range = .ok (.ok (index.inRange range)) := by
  simp only [scan, isOrdered]
  rcases fine with accepted | empty
  · rw [accepted]
    split
    · rename_i empty
      rw [inRange, List.isEmpty_iff.mp empty]
      rfl
    · rfl
  · rw [inRange, empty]
    rfl

theorem scan_panics (isOrdered : index.kind = .ordered) {range : IndexRange}
    (refused : ¬ (range.rangePanic = none ∨ index.entries = [])) :
    Exists fun message => index.scan range = .error (.panic message) := by
  rw [not_or] at refused
  cases panics : range.rangePanic with
  | none => exact absurd panics refused.1
  | some message =>
      refine ⟨message, ?_⟩
      have nonempty : index.entries.isEmpty = false := List.isEmpty_eq_false_iff.mpr refused.2
      simp only [scan, isOrdered, nonempty, panics]
      rfl

/-! ## Populating an index -/

@[simp] theorem addDocument_field (index : SecondaryIndex) (doc : Document) :
    (index.addDocument doc).field = index.field := by
  unfold addDocument
  split <;> rfl

@[simp] theorem addDocument_kind (index : SecondaryIndex) (doc : Document) :
    (index.addDocument doc).kind = index.kind := by
  unfold addDocument
  split <;> rfl

@[simp] theorem addDocument_name (index : SecondaryIndex) (doc : Document) :
    (index.addDocument doc).name = index.name := by
  unfold addDocument
  split <;> rfl

@[simp] theorem addDocument_hashState (index : SecondaryIndex) (doc : Document) :
    (index.addDocument doc).hashState = index.hashState := by
  unfold addDocument
  split <;> rfl

/-- The fields of the document hold no floats where the index looks. -/
def IndexesFloatFree (field : String) (doc : Document) : Prop :=
  forall value, doc.fieldValue field = some value -> FloatFree value

theorem addDocument_spec (wellFormed : WellFormed index) {doc : Document}
    (free : IndexesFloatFree index.field doc) :
    WellFormed (index.addDocument doc) ∧
      forall {value id}, Has (index.addDocument doc) value id <->
        Has index value id ∨ (doc.fieldValue index.field = some value ∧ doc.id = id) := by
  unfold addDocument
  cases found : doc.fieldValue index.field with
  | none =>
      refine ⟨wellFormed, ?_⟩
      intro value id
      simp only [reduceCtorEq, false_and, or_false]
  | some stored =>
      refine ⟨insert_wellFormed wellFormed (free stored found), ?_⟩
      intro value id
      rw [has_insert wellFormed (free stored found), Option.some.injEq, eq_comm,
        @eq_comm _ id doc.id]

/-- A populated index has exactly the values of the documents. -/
theorem populate_spec (docs : List Document) (wellFormed : WellFormed index)
    (free : forall doc, doc ∈ docs -> IndexesFloatFree index.field doc) :
    WellFormed (index.populate docs) ∧
      forall {value id}, Has (index.populate docs) value id <->
        Has index value id ∨
          Exists fun doc => doc ∈ docs ∧ doc.fieldValue index.field = some value ∧ doc.id = id := by
  induction docs generalizing index with
  | nil =>
      refine ⟨wellFormed, ?_⟩
      intro value id
      simp only [populate, List.foldl_nil, List.not_mem_nil, false_and, exists_false, or_false]
  | cons doc rest ih =>
      rcases addDocument_spec wellFormed (free doc List.mem_cons_self) with ⟨added, hasAdded⟩
      have restFree : forall other, other ∈ rest ->
          IndexesFloatFree (index.addDocument doc).field other := by
        intro other member
        rw [addDocument_field]
        exact free other (List.mem_cons_of_mem _ member)
      rcases ih added restFree with ⟨final, hasFinal⟩
      refine ⟨final, ?_⟩
      intro value id
      change Has ((index.addDocument doc).populate rest) value id <-> _
      rw [hasFinal, hasAdded, addDocument_field, or_assoc]
      simp only [List.mem_cons, exists_eq_or_imp]

/-! ## Following a changed document -/

/-- The index has the document under its value and nowhere else. -/
def Follows (index : SecondaryIndex) (doc : Document) : Prop :=
  forall value, index.Has value doc.id <-> doc.fieldValue index.field = some value

/-- What a removed document means for one index. -/
def dropDocument (index : SecondaryIndex) (doc : Document) : SecondaryIndex :=
  match doc.fieldValue index.field with
  | some value => index.remove value doc.id
  | none => index

/-- What an updated document means for one index. -/
def replaceDocument (index : SecondaryIndex) (before after : Document) : SecondaryIndex :=
  if sameValue (before.fieldValue index.field) (after.fieldValue index.field) then index
  else (index.dropDocument before).addDocument after

theorem dropDocument_spec (wellFormed : WellFormed index) {doc : Document}
    (free : IndexesFloatFree index.field doc) (follows : index.Follows doc) :
    WellFormed (index.dropDocument doc) ∧
      forall {value id}, Has (index.dropDocument doc) value id <-> id ≠ doc.id ∧ Has index value id := by
  unfold dropDocument
  cases found : doc.fieldValue index.field with
  | none =>
      refine ⟨wellFormed, ?_⟩
      intro value id
      refine ⟨fun has => ⟨?_, has⟩, fun has => has.2⟩
      rintro rfl
      have stored := (follows value).mp has
      rw [found] at stored
      cases stored
  | some current =>
      refine ⟨remove_wellFormed wellFormed (free current found), ?_⟩
      intro value id
      rw [has_remove wellFormed (free current found), and_comm]
      apply and_congr_left
      intro has
      constructor
      · rintro kept rfl
        have stored := (follows value).mp has
        rw [found] at stored
        exact kept ⟨(Option.some.inj stored).symm, rfl⟩
      · rintro different ⟨_, same⟩
        exact different same

@[simp] theorem dropDocument_field (index : SecondaryIndex) (doc : Document) :
    (index.dropDocument doc).field = index.field := by
  unfold dropDocument
  split <;> rfl

@[simp] theorem dropDocument_kind (index : SecondaryIndex) (doc : Document) :
    (index.dropDocument doc).kind = index.kind := by
  unfold dropDocument
  split <;> rfl

@[simp] theorem replaceDocument_field (index : SecondaryIndex) (before after : Document) :
    (index.replaceDocument before after).field = index.field := by
  unfold replaceDocument
  split
  · rfl
  · rw [addDocument_field, dropDocument_field]

@[simp] theorem replaceDocument_kind (index : SecondaryIndex) (before after : Document) :
    (index.replaceDocument before after).kind = index.kind := by
  unfold replaceDocument
  split
  · rfl
  · rw [addDocument_kind, dropDocument_kind]

theorem sameValue_iff {left right : Option Value}
    (leftFree : forall value, left = some value -> FloatFree value)
    (rightFree : forall value, right = some value -> FloatFree value) :
    sameValue left right = true <-> left = right := by
  cases left with
  | none =>
      cases right with
      | none => exact iff_of_true rfl rfl
      | some _ => exact iff_of_false (nofun) (nofun)
  | some left =>
      cases right with
      | none => exact iff_of_false (nofun) (nofun)
      | some right =>
          rw [sameValue, Value.eq_iff (leftFree left rfl) (rightFree right rfl), Option.some.injEq]

/-- Whatever the update does to the value, the index follows it. -/
theorem replaceDocument_spec (wellFormed : WellFormed index) {before after : Document}
    (sameId : after.id = before.id) (freeBefore : IndexesFloatFree index.field before)
    (freeAfter : IndexesFloatFree index.field after) (follows : index.Follows before) :
    WellFormed (index.replaceDocument before after) ∧
      forall {value id}, Has (index.replaceDocument before after) value id <->
        (id ≠ before.id ∧ Has index value id) ∨
          (after.fieldValue index.field = some value ∧ after.id = id) := by
  unfold replaceDocument
  split
  · rename_i same
    have same := (sameValue_iff freeBefore freeAfter).mp same
    refine ⟨wellFormed, ?_⟩
    intro value id
    rw [sameId, ← same, ← follows value]
    constructor
    · intro has
      by_cases itself : id = before.id
      · exact Or.inr ⟨itself ▸ has, itself.symm⟩
      · exact Or.inl ⟨itself, has⟩
    · rintro (⟨_, has⟩ | ⟨has, itself⟩)
      · exact has
      · exact itself ▸ has
  · rcases dropDocument_spec wellFormed freeBefore follows with ⟨dropped, hasDropped⟩
    have free : IndexesFloatFree (index.dropDocument before).field after := by
      rw [dropDocument_field]
      exact freeAfter
    rcases addDocument_spec dropped free with ⟨added, hasAdded⟩
    refine ⟨added, ?_⟩
    intro value id
    rw [hasAdded, hasDropped, dropDocument_field]

end Contents

/-- Populating an index keeps what it was made as. -/
theorem populate_identity (index : SecondaryIndex) (docs : List Document) :
    (index.populate docs).kind = index.kind ∧ (index.populate docs).name = index.name ∧
      (index.populate docs).field = index.field ∧
      (index.populate docs).hashState = index.hashState := by
  induction docs generalizing index with
  | nil => exact ⟨rfl, rfl, rfl, rfl⟩
  | cons doc rest ih =>
      rcases ih (index.addDocument doc) with ⟨kind, name, field, hashState⟩
      rw [addDocument_kind] at kind
      rw [addDocument_name] at name
      rw [addDocument_field] at field
      rw [addDocument_hashState] at hashState
      exact ⟨kind, name, field, hashState⟩

end SecondaryIndex

namespace IndexManager

variable (manager : IndexManager) (name : String)

theorem get_onInsert (doc : Document) :
    (manager.onInsert doc).get name = (manager.get name).map (fun index => index.addDocument doc) :=
  ValueMap.lookup_mapValues _ _ _

theorem get_onUpdate (before after : Document) :
    (manager.onUpdate before after).get name =
      (manager.get name).map (fun index => index.replaceDocument before after) := by
  rw [get, onUpdate, ValueMap.lookup_mapValues]
  congr 1
  funext index
  rw [SecondaryIndex.replaceDocument, SecondaryIndex.addDocument,
    SecondaryIndex.dropDocument_field]
  rfl

theorem get_onRemove (doc : Document) :
    (manager.onRemove doc).get name = (manager.get name).map (fun index => index.dropDocument doc) :=
  ValueMap.lookup_mapValues _ _ _

/-- Rebuilding populates every index anew. -/
theorem get_rebuild (docs : List Document) :
    (manager.rebuild docs).get name =
      (manager.get name).map (fun index => index.clear.populate docs) := by
  have loop : forall (docs : List Document) (manager : IndexManager),
      (docs.foldl IndexManager.onInsert manager).get name =
        (manager.get name).map (fun index => index.populate docs) := by
    intro docs
    induction docs with
    | nil =>
        intro manager
        exact (Option.map_id_apply).symm
    | cons doc rest ih =>
        intro manager
        rw [List.foldl_cons, ih, get_onInsert, Option.map_map]
        rfl
  rw [rebuild, loop, get, ValueMap.lookup_mapValues, Option.map_map]
  rfl

end IndexManager

end Index
end NovaDb
