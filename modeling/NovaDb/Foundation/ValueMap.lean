import Mathlib

namespace NovaDb
namespace Foundation

/-!
# Changing values in place

A hash map that is iterated mutably keeps its keys and their order and changes
values.  For association lists with distinct keys that is `AList.replace` for one
key and `mapValues` for all of them; this module has their lookups.
-/

namespace ValueMap

variable {K V : Type} [DecidableEq K]

theorem kreplace_cons_eq (key : K) (value current : V) (rest : List (Sigma fun _ : K => V)) :
    List.kreplace key value (⟨key, current⟩ :: rest) = ⟨key, value⟩ :: rest :=
  List.lookmap_cons_some _ rest (if_pos rfl)

theorem kreplace_cons_ne {key other : K} (different : key ≠ other) (value current : V)
    (rest : List (Sigma fun _ : K => V)) :
    List.kreplace key value (⟨other, current⟩ :: rest) =
      ⟨other, current⟩ :: List.kreplace key value rest :=
  List.lookmap_cons_none _ rest (if_neg different)

theorem dlookup_kreplace {key : K} (value : V) {entries : List (Sigma fun _ : K => V)}
    (member : key ∈ entries.keys) : (List.kreplace key value entries).dlookup key = some value := by
  induction entries with
  | nil => cases member
  | cons entry rest ih =>
      rcases entry with ⟨other, current⟩
      by_cases same : key = other
      · subst same
        rw [kreplace_cons_eq, List.dlookup_cons_eq]
      · rw [kreplace_cons_ne same, List.dlookup_cons_ne _ _ same]
        apply ih
        rcases List.mem_cons.mp member with head | inRest
        · exact absurd head same
        · exact inRest

theorem dlookup_kreplace_ne {key other : K} (different : other ≠ key) (value : V)
    (entries : List (Sigma fun _ : K => V)) :
    (List.kreplace key value entries).dlookup other = entries.dlookup other := by
  induction entries with
  | nil => rfl
  | cons entry rest ih =>
      rcases entry with ⟨head, current⟩
      by_cases same : key = head
      · subst same
        rw [kreplace_cons_eq, List.dlookup_cons_ne _ _ different, List.dlookup_cons_ne _ _ different]
      · rw [kreplace_cons_ne same]
        by_cases isHead : other = head
        · subst isHead
          rw [List.dlookup_cons_eq, List.dlookup_cons_eq]
        · rw [List.dlookup_cons_ne _ _ isHead, List.dlookup_cons_ne _ _ isHead, ih]

theorem lookup_replace {key : K} (value : V) {map : AList (fun _ : K => V)} (member : key ∈ map) :
    (map.replace key value).lookup key = some value :=
  dlookup_kreplace value member

theorem lookup_replace_ne {key other : K} (different : other ≠ key) (value : V)
    (map : AList (fun _ : K => V)) : (map.replace key value).lookup other = map.lookup other :=
  dlookup_kreplace_ne different value map.entries

/-- Change every value, in place. -/
def mapValues {W : Type} (change : V -> W) (map : AList (fun _ : K => V)) :
    AList (fun _ : K => W) where
  entries := map.entries.map (fun entry => ⟨entry.1, change entry.2⟩)
  nodupKeys := by
    have keys : (map.entries.map
        (fun entry => (⟨entry.1, change entry.2⟩ : Sigma fun _ : K => W))).keys =
        map.entries.keys := by
      change List.map Sigma.fst (List.map _ _) = List.map Sigma.fst _
      rw [List.map_map]
      rfl
    rw [List.NodupKeys, keys]
    exact map.nodupKeys

theorem lookup_mapValues {W : Type} (change : V -> W) (map : AList (fun _ : K => V)) (key : K) :
    (mapValues change map).lookup key = (map.lookup key).map change := by
  rcases map with ⟨entries, distinct⟩
  change (entries.map (fun entry => (⟨entry.1, change entry.2⟩ : Sigma fun _ : K => W))).dlookup key =
    (entries.dlookup key).map change
  clear distinct
  induction entries with
  | nil => rfl
  | cons entry rest ih =>
      rcases entry with ⟨other, current⟩
      rw [List.map_cons]
      by_cases same : key = other
      · subst same
        rw [List.dlookup_cons_eq, List.dlookup_cons_eq]
        rfl
      · rw [List.dlookup_cons_ne _ _ same, List.dlookup_cons_ne _ _ same, ih]

end ValueMap
end Foundation
end NovaDb
