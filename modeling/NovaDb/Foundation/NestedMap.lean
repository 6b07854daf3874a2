import Mathlib

namespace NovaDb
namespace Foundation

/-!
# Maps of maps under other keys

A map is copied entry by entry into a map with keys of another kind; entries
without a new key are dropped.  When the new keys are distinct nothing is lost, and
the same holds for maps of maps, whose contents are lists of items with two keys.
Maps are compared up to the order of their entries.
-/

section Entries

variable {K L V W : Type}

/-- The new entry, for an entry with a new key. -/
def newEntry (change : K -> V -> Option (L × W)) (entry : Sigma fun _ : K => V) :
    Option (Sigma fun _ : L => W) :=
  (change entry.1 entry.2).map fun pair => ⟨pair.1, pair.2⟩

/-- Entries whose new keys come from their keys. -/
theorem newEntry_keys (change : K -> Option L) (value : V -> W)
    (entries : List (Sigma fun _ : K => V)) :
    (entries.filterMap (newEntry fun key found =>
      (change key).map fun changed => (changed, value found))).map Sigma.fst =
        (entries.map Sigma.fst).filterMap change := by
  induction entries with
  | nil => rfl
  | cons entry rest ih =>
      cases isNew : change entry.1 with
      | none =>
          rw [List.map_cons, List.filterMap_cons_none isNew, List.filterMap_cons_none, ih]
          rw [newEntry, isNew]
          rfl
      | some changed =>
          have added : newEntry (fun key found =>
              (change key).map fun changed => (changed, value found)) entry =
                some ⟨changed, value entry.2⟩ := by
            rw [newEntry, isNew]
            rfl
          rw [List.map_cons, List.filterMap_cons_some isNew, List.filterMap_cons_some added,
            List.map_cons, ih]

end Entries

section Copies

variable {K L V W : Type} [DecidableEq L]

/-- Entries copied one after another. -/
def copyEntries (change : K -> V -> Option (L × W)) (entries : List (Sigma fun _ : K => V))
    (copy : AList (fun _ : L => W)) : AList (fun _ : L => W) :=
  entries.foldl (fun copy entry =>
    match newEntry change entry with
    | none => copy
    | some added => copy.insert added.1 added.2) copy

variable {change : K -> V -> Option (L × W)} {entries : List (Sigma fun _ : K => V)}

theorem copyEntries_perm {copy : AList (fun _ : L => W)}
    (distinct : (copy.keys ++ (entries.filterMap (newEntry change)).map Sigma.fst).Nodup) :
    (copyEntries change entries copy).entries.Perm
      (copy.entries ++ entries.filterMap (newEntry change)) := by
  induction entries generalizing copy with
  | nil =>
      rw [List.filterMap_nil, List.append_nil]
      exact List.Perm.refl _
  | cons entry rest ih =>
      cases isNew : newEntry change entry with
      | none =>
          have step : copyEntries change (entry :: rest) copy = copyEntries change rest copy := by
            simp only [copyEntries, List.foldl_cons, isNew]
          rw [List.filterMap_cons_none isNew] at distinct ⊢
          rw [step]
          exact ih distinct
      | some added =>
          have step : copyEntries change (entry :: rest) copy =
              copyEntries change rest (copy.insert added.1 added.2) := by
            simp only [copyEntries, List.foldl_cons, isNew]
          rw [List.filterMap_cons_some isNew, List.map_cons] at distinct
          have moved := (List.perm_middle).nodup_iff.mp distinct
          have absent : added.1 ∉ copy.keys := fun member =>
            (List.nodup_cons.mp moved).1 (List.mem_append_left _ member)
          have entriesEq : (copy.insert added.1 added.2).entries = added :: copy.entries := by
            exact AList.entries_insert_of_notMem absent
          have keysEq : (copy.insert added.1 added.2).keys = added.1 :: copy.keys := by
            rw [AList.keys_insert, List.erase_of_not_mem absent]
          have restDistinct : ((copy.insert added.1 added.2).keys ++
              (rest.filterMap (newEntry change)).map Sigma.fst).Nodup := by
            rw [keysEq]
            exact moved
          rw [step, List.filterMap_cons_some isNew]
          have copied := ih restDistinct
          rw [entriesEq] at copied
          exact copied.trans List.perm_middle.symm

/-- A key of the copy is the new key of an entry. -/
theorem mem_copyEntries {copy : AList (fun _ : L => W)} {key : L}
    (member : key ∈ copyEntries change entries copy) :
    key ∈ copy ∨ Exists fun entry => Exists fun added =>
      entry ∈ entries ∧ newEntry change entry = some added ∧ added.1 = key := by
  induction entries generalizing copy with
  | nil => exact Or.inl member
  | cons entry rest ih =>
      have step : copyEntries change (entry :: rest) copy = copyEntries change rest
          (match newEntry change entry with
            | none => copy
            | some added => copy.insert added.1 added.2) := rfl
      rw [step] at member
      cases isNew : newEntry change entry with
      | none =>
          rw [isNew] at member
          rcases ih member with older | ⟨other, added, inRest, isAdded, same⟩
          · exact Or.inl older
          · exact Or.inr ⟨other, added, List.mem_cons_of_mem _ inRest, isAdded, same⟩
      | some added =>
          rw [isNew] at member
          rcases ih member with older | ⟨other, otherAdded, inRest, isAdded, same⟩
          · rcases (AList.mem_insert copy).mp older with isKey | inCopy
            · exact Or.inr ⟨entry, added, List.mem_cons_self, isNew, isKey.symm⟩
            · exact Or.inl inCopy
          · exact Or.inr ⟨other, otherAdded, List.mem_cons_of_mem _ inRest, isAdded, same⟩

end Copies

/-! ## Maps of maps -/

abbrev Nested (K L V : Type) := AList (fun _ : K => AList (fun _ : L => V))

section Items

variable {K L V : Type}

/-- The contents of some entries. -/
def itemsOf (entries : List (Sigma fun _ : K => AList (fun _ : L => V))) : List (K × L × V) :=
  entries.flatMap fun outer => outer.2.entries.map fun inner => (outer.1, inner.1, inner.2)

def items (map : Nested K L V) : List (K × L × V) :=
  itemsOf map.entries

/-- Equal up to the order of entries. -/
structure Alike (left right : Nested K L V) : Prop where
  keys : left.keys.Perm right.keys
  contents : (items left).Perm (items right)

variable [DecidableEq K] [DecidableEq L]

theorem mem_items {map : Nested K L V} {key : K} {inner : L} {value : V} :
    (key, inner, value) ∈ items map <->
      Exists fun store => map.lookup key = some store ∧ store.lookup inner = some value := by
  rw [items, itemsOf, List.mem_flatMap]
  constructor
  · rintro ⟨⟨outer, store⟩, member, isItem⟩
    rcases List.mem_map.mp isItem with ⟨⟨found, isValue⟩, inStore, same⟩
    cases same
    exact ⟨store, AList.mem_lookup_iff.mpr member, AList.mem_lookup_iff.mpr inStore⟩
  · rintro ⟨store, isStore, isValue⟩
    exact ⟨⟨key, store⟩, AList.mem_lookup_iff.mp isStore,
      List.mem_map.mpr ⟨⟨inner, value⟩, AList.mem_lookup_iff.mp isValue, rfl⟩⟩

/-- Maps that are alike have the same value under the same two keys. -/
theorem Alike.lookup {left right : Nested K L V} (alike : Alike left right) (key : K) (inner : L) :
    ((left.lookup key).getD ∅).lookup inner = ((right.lookup key).getD ∅).lookup inner := by
  have found : forall {map : Nested K L V} {value : V},
      ((map.lookup key).getD ∅).lookup inner = some value <-> (key, inner, value) ∈ items map := by
    intro map value
    rw [mem_items]
    cases map.lookup key with
    | none =>
        constructor
        · intro isValue
          cases isValue
        · rintro ⟨store, isStore, _⟩
          cases isStore
    | some store =>
        constructor
        · exact fun isValue => ⟨store, rfl, isValue⟩
        · rintro ⟨other, same, isValue⟩
          cases same
          exact isValue
  ext value
  rw [found, found, alike.contents.mem_iff]

end Items

/-! ## Other keys -/

section Rekeyed

variable {K L V K' L' : Type} [DecidableEq L']

/-- A map under other keys. -/
def rekey (inner : L -> Option L') (store : AList (fun _ : L => V)) : AList (fun _ : L' => V) :=
  copyEntries (fun key value => (inner key).map fun changed => (changed, value)) store.entries ∅

/-- An item under other keys. -/
def newItem (outer : K -> Option K') (inner : L -> Option L') (item : K × L × V) :
    Option (K' × L' × V) :=
  match outer item.1, inner item.2.1 with
  | some key, some changed => some (key, changed, item.2.2)
  | _, _ => none

theorem rekey_perm {inner : L -> Option L'} {store : AList (fun _ : L => V)}
    (distinct : (store.keys.filterMap inner).Nodup) :
    (rekey inner store).entries.Perm (store.entries.filterMap (newEntry fun key value =>
      (inner key).map fun changed => (changed, value))) := by
  have copied := @copyEntries_perm L L' V V _
    (fun key value => (inner key).map fun changed => (changed, value)) store.entries ∅
  rw [newEntry_keys inner (fun value => value) store.entries] at copied
  exact copied distinct

/-- The items of one entry under other keys. -/
theorem rekey_items {outer : K -> Option K'} {inner : L -> Option L'} {key : K} {changed : K'}
    (isNew : outer key = some changed) {store : AList (fun _ : L => V)}
    (distinct : (store.keys.filterMap inner).Nodup) :
    ((rekey inner store).entries.map fun found => (changed, found.1, found.2)).Perm
      ((store.entries.map fun found => (key, found.1, found.2)).filterMap
        (newItem outer inner)) := by
  refine ((rekey_perm distinct).map _).trans ?_
  rw [List.map_filterMap, List.filterMap_map]
  apply List.Perm.of_eq
  apply List.filterMap_congr
  intro found _
  simp only [newEntry, newItem, Function.comp_apply, isNew]
  cases inner found.1 <;> rfl

theorem itemsOf_newEntry {outer : K -> Option K'} {inner : L -> Option L'}
    {entries : List (Sigma fun _ : K => AList (fun _ : L => V))}
    (distinct : forall entry, entry ∈ entries -> (entry.2.keys.filterMap inner).Nodup) :
    (itemsOf (entries.filterMap (newEntry fun key store =>
      (outer key).map fun changed => (changed, rekey inner store)))).Perm
        ((itemsOf entries).filterMap (newItem outer inner)) := by
  induction entries with
  | nil => exact List.Perm.refl _
  | cons entry rest ih =>
      have later := ih fun other member => distinct other (List.mem_cons_of_mem entry member)
      have here := distinct entry List.mem_cons_self
      have split : itemsOf (entry :: rest) =
          entry.2.entries.map (fun found => (entry.1, found.1, found.2)) ++ itemsOf rest := rfl
      rw [split, List.filterMap_append]
      cases isNew : outer entry.1 with
      | none =>
          have dropped : newEntry (fun key store =>
              (outer key).map fun changed => (changed, rekey inner store)) entry = none := by
            rw [newEntry, isNew]
            rfl
          have nothing : (entry.2.entries.map fun found =>
              (entry.1, found.1, found.2)).filterMap (newItem outer inner) = [] := by
            rw [List.filterMap_map, List.filterMap_eq_nil_iff]
            intro found _
            simp only [newItem, Function.comp_apply, isNew]
          rw [List.filterMap_cons_none dropped, nothing, List.nil_append]
          exact later
      | some changed =>
          have added : newEntry (fun key store =>
              (outer key).map fun changed => (changed, rekey inner store)) entry =
                some ⟨changed, rekey inner entry.2⟩ := by
            rw [newEntry, isNew]
            rfl
          rw [List.filterMap_cons_some added]
          exact (rekey_items isNew here).append later

variable [DecidableEq K']

/-- A map of maps under other keys. -/
def renest (outer : K -> Option K') (inner : L -> Option L') (map : Nested K L V) :
    Nested K' L' V :=
  copyEntries (fun key store => (outer key).map fun changed => (changed, rekey inner store))
    map.entries ∅

/-- Nothing is lost when the new keys are distinct. -/
theorem renest_perm {outer : K -> Option K'} {inner : L -> Option L'} {map : Nested K L V}
    (distinct : (map.keys.filterMap outer).Nodup)
    (innerDistinct : forall entry, entry ∈ map.entries -> (entry.2.keys.filterMap inner).Nodup) :
    (renest outer inner map).keys.Perm (map.keys.filterMap outer) ∧
      (items (renest outer inner map)).Perm ((items map).filterMap (newItem outer inner)) := by
  have keys := newEntry_keys outer (rekey inner) map.entries
  have copied := @copyEntries_perm K K' _ _ _
    (fun key store => (outer key).map fun changed => (changed, rekey inner store)) map.entries ∅
  rw [keys] at copied
  have entries : (renest outer inner map).entries.Perm (map.entries.filterMap _) := copied distinct
  constructor
  · have named := entries.map Sigma.fst
    rw [keys] at named
    exact named
  · exact (entries.flatMap_right _).trans (itemsOf_newEntry innerDistinct)

/-- A key of the new map is the new key of an old one. -/
theorem mem_renest {outer : K -> Option K'} {inner : L -> Option L'} {map : Nested K L V} {key : K'}
    (member : key ∈ renest outer inner map) :
    Exists fun older => older ∈ map ∧ outer older = some key := by
  rcases mem_copyEntries member with inEmpty | ⟨entry, added, inMap, isAdded, rfl⟩
  · exact absurd inEmpty (AList.notMem_empty _)
  · cases isNew : outer entry.1 with
    | none =>
        rw [newEntry, isNew] at isAdded
        cases isAdded
    | some changed =>
        rw [newEntry, isNew] at isAdded
        cases isAdded
        exact ⟨entry.1, List.mem_map_of_mem inMap, isNew⟩

end Rekeyed

end Foundation
end NovaDb
