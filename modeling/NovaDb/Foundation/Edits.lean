import Mathlib

namespace NovaDb
namespace Foundation

/-!
# Edits of a partial map

A log of changes is a list of edits, each of one key, with what was there before
and what is there after.  Applied in order they lead from one map to another.  A
key ends with the `after` of the last edit of it, so two logs that agree on the
edits of a key agree on what they leave there.

Edits are numbered from a counter: the numbers ascend from what the counter showed
before the first to what it shows after the last.
-/

/-- A change at one key. -/
structure Edit (K V : Type) where
  key : K
  before : Option V
  after : Option V

namespace Edit

variable {K V : Type} [DecidableEq K]

def apply (map : K -> Option V) (edit : Edit K V) : K -> Option V :=
  Function.update map edit.key edit.after

/-- The map after the edits, whatever they say was there before. -/
def replay (map : K -> Option V) (edits : List (Edit K V)) : K -> Option V :=
  edits.foldl apply map

/-- The edits lead from a map to another, and each tells what it finds. -/
inductive Leads : (K -> Option V) -> List (Edit K V) -> (K -> Option V) -> Prop where
  | nil (map : K -> Option V) : Leads map [] map
  | cons {map final : K -> Option V} {edit : Edit K V} {rest : List (Edit K V)}
      (found : map edit.key = edit.before) (later : Leads (apply map edit) rest final) :
      Leads map (edit :: rest) final

section Replay

variable {map middle final : K -> Option V} {edits front back : List (Edit K V)} {edit : Edit K V}

theorem replay_append (map : K -> Option V) (front back : List (Edit K V)) :
    replay map (front ++ back) = replay (replay map front) back :=
  List.foldl_append

theorem Leads.append (first : Leads map front middle) (second : Leads middle back final) :
    Leads map (front ++ back) final := by
  induction first with
  | nil map => exact second
  | cons found later ih => exact Leads.cons found (ih second)

theorem Leads.snoc (leads : Leads map edits middle) (found : middle edit.key = edit.before) :
    Leads map (edits ++ [edit]) (apply middle edit) :=
  leads.append (Leads.cons found (Leads.nil _))

/-- Edits that lead somewhere lead to their replay. -/
theorem Leads.replay (leads : Leads map edits final) : Edit.replay map edits = final := by
  induction leads with
  | nil map => rfl
  | cons found later ih => exact ih

/-- Each edit finds what the edits in front of it left. -/
theorem Leads.found (leads : Leads map edits final) (split : edits = front ++ edit :: back) :
    Edit.replay map front edit.key = edit.before := by
  induction front generalizing map edits with
  | nil =>
      subst split
      cases leads with
      | cons found later => exact found
  | cons first rest ih =>
      subst split
      cases leads with
      | cons found later => exact ih later rfl

/-- Each edit leaves its `after`. -/
theorem replay_snoc_self (map : K -> Option V) (front : List (Edit K V)) (edit : Edit K V) :
    replay map (front ++ [edit]) edit.key = edit.after := by
  rw [replay_append]
  exact Function.update_self _ _ _

/-- The edits of one key. -/
def of (key : K) (edits : List (Edit K V)) : List (Edit K V) :=
  edits.filter (fun edit => decide (edit.key = key))

/-- What is left at a key depends on what was there, not on the other keys. -/
theorem replay_agree {left right : K -> Option V} {key : K} (equal : left key = right key)
    (edits : List (Edit K V)) : replay left edits key = replay right edits key := by
  induction edits generalizing left right with
  | nil => exact equal
  | cons edit rest ih =>
      apply ih
      by_cases same : key = edit.key
      · rw [apply, apply, same, Function.update_self, Function.update_self]
      · rw [apply, apply, Function.update_of_ne same, Function.update_of_ne same]
        exact equal

/-- What is left at a key depends on the edits of that key. -/
theorem replay_of (map : K -> Option V) (edits : List (Edit K V)) (key : K) :
    replay map edits key = replay map (of key edits) key := by
  induction edits generalizing map with
  | nil => rfl
  | cons edit rest ih =>
      by_cases same : edit.key = key
      · have kept : of key (edit :: rest) = edit :: of key rest :=
          List.filter_cons_of_pos (decide_eq_true same)
        rw [kept]
        exact ih (apply map edit)
      · have dropped : of key (edit :: rest) = of key rest :=
          List.filter_cons_of_neg (by simpa using same)
        rw [dropped, ← ih map]
        exact replay_agree (Function.update_of_ne (Ne.symm same) _ _) rest

theorem replay_congr {key : K} (same : of key front = of key back) :
    replay map front key = replay map back key := by
  rw [replay_of map front, replay_of map back, same]

/-- Edits of other keys leave a key alone. -/
theorem replay_of_unedited {key : K} (unedited : key ∉ edits.map Edit.key) :
    replay map edits key = map key := by
  have none : of key edits = [] := by
    refine List.filter_eq_nil_iff.mpr ?_
    intro edit member same
    exact unedited (List.mem_map.mpr ⟨edit, member, of_decide_eq_true same⟩)
  rw [replay_of, none]
  rfl

/-- In the middle of edits of distinct keys a key is as it was or as it will be. -/
theorem replay_take_either (distinct : (edits.map Edit.key).Nodup) (map : K -> Option V)
    (number : Nat) (key : K) :
    replay map (edits.take number) key = map key ∨
      replay map (edits.take number) key = replay map edits key := by
  by_cases inFront : key ∈ (edits.take number).map Edit.key
  · right
    have split := List.take_append_drop number edits
    have notBehind : key ∉ (edits.drop number).map Edit.key := by
      intro inBack
      rw [← split, List.map_append] at distinct
      exact (List.nodup_append.mp distinct).2.2 key inFront key inBack rfl
    calc replay map (edits.take number) key
        = replay (replay map (edits.take number)) (edits.drop number) key :=
          (replay_of_unedited notBehind).symm
      _ = replay map (edits.take number ++ edits.drop number) key := by rw [replay_append]
      _ = replay map edits key := by rw [split]
  · exact Or.inl (replay_of_unedited inFront)

end Replay

end Edit

/-! ## Numbers from a counter -/

/-- Ascending numbers above one reading of the counter and up to another. -/
structure Ascends (start : Nat) (numbers : List Nat) (finish : Nat) : Prop where
  forth : start ≤ finish
  pairwise : numbers.Pairwise (· < ·)
  within : forall number, number ∈ numbers -> start < number ∧ number ≤ finish

theorem ascends_nil {start finish : Nat} (forth : start ≤ finish) : Ascends start [] finish :=
  ⟨forth, List.Pairwise.nil, nofun⟩

theorem ascends_one (start : Nat) : Ascends start [start + 1] (start + 1) := by
  refine ⟨Nat.le_succ start, List.pairwise_singleton _ _, ?_⟩
  intro number member
  rw [List.mem_singleton.mp member]
  exact ⟨Nat.lt_succ_self start, Nat.le_refl _⟩

theorem Ascends.append {start middle finish : Nat} {front back : List Nat}
    (first : Ascends start front middle) (second : Ascends middle back finish) :
    Ascends start (front ++ back) finish := by
  refine ⟨Nat.le_trans first.forth second.forth, ?_, ?_⟩
  · refine List.pairwise_append.mpr ⟨first.pairwise, second.pairwise, ?_⟩
    intro left inFront right inBack
    exact Nat.lt_of_le_of_lt (first.within left inFront).2 (second.within right inBack).1
  · intro number member
    rcases List.mem_append.mp member with inFront | inBack
    · have bounds := first.within number inFront
      exact ⟨bounds.1, Nat.le_trans bounds.2 second.forth⟩
    · have bounds := second.within number inBack
      exact ⟨Nat.lt_of_le_of_lt first.forth bounds.1, bounds.2⟩

end Foundation
end NovaDb
