import NovaDb.Foundation.Edits

namespace NovaDb
namespace Foundation

/-!
# What a selective mirror knows

A mirror of the selected part of a partial map is told only of edits that concern the
selection, as seen from the value behind the edit, or from the one in front of it where
there is none behind.  So it hears of every value that enters the selection and of every
selected value that is removed, but not of a value that leaves the selection by a change.
The mirror has every selected value, and nothing but values that once were selected; it
is wrong at a key exactly when the selected value there was changed into an unselected
one, and no edit of the key that it was told of came later.
-/

namespace Edit

variable {K V : Type} (selects : K -> V -> Bool)

/-- The selected part of a map. -/
def part (map : K -> Option V) (key : K) : Option V :=
  (map key).filter (selects key)

/-- The mirror is told of the edit. -/
def told (edit : Edit K V) : Bool :=
  match edit.after.or edit.before with
  | some value => selects edit.key value
  | none => true

/-- The edit changes a selected value into one that is not selected. -/
def Strays (edit : Edit K V) : Prop :=
  Exists fun old => Exists fun new => edit.before = some old ∧ edit.after = some new ∧
    selects edit.key old = true ∧ selects edit.key new = false

/-- The value at the key has strayed, and the mirror has not been told of the key since. -/
def Stale (edits : List (Edit K V)) (key : K) : Prop :=
  Exists fun front => Exists fun edit => Exists fun back =>
    edits = front ++ edit :: back ∧ edit.key = key ∧ edit.Strays selects ∧
      forall later, later ∈ back -> later.key = key -> later.told selects = false

section Telling

variable {selects} {edits : List (Edit K V)} {edit : Edit K V} {key : K}

theorem Strays.untold (strays : edit.Strays selects) : edit.told selects = false := by
  rcases strays with ⟨old, new, isBefore, isAfter, _, unselected⟩
  rw [told, isBefore, isAfter]
  exact unselected

/-- One more edit of the key. -/
theorem stale_snoc_same (isKey : edit.key = key) : Stale selects (edits ++ [edit]) key <->
    edit.told selects = false ∧ (edit.Strays selects ∨ Stale selects edits key) := by
  constructor
  · rintro ⟨front, stray, back, split, isStray, strays, silent⟩
    rcases List.eq_nil_or_concat back with rfl | ⟨rest, last, rfl⟩
    · rcases List.append_inj' split rfl with ⟨_, isLast⟩
      cases isLast
      exact ⟨strays.untold, Or.inl strays⟩
    · rw [List.concat_eq_append, ← List.cons_append, ← List.append_assoc] at split
      rcases List.append_inj' split rfl with ⟨rfl, isLast⟩
      cases isLast
      rw [List.concat_eq_append] at silent
      refine ⟨silent edit (List.mem_append_right _ List.mem_cons_self) isKey, Or.inr ?_⟩
      exact ⟨front, stray, rest, rfl, isStray, strays,
        fun later member => silent later (List.mem_append_left _ member)⟩
  · rintro ⟨untold, strays | ⟨front, stray, back, rfl, isStray, strays, silent⟩⟩
    · exact ⟨edits, edit, [], rfl, isKey, strays, fun _ => nofun⟩
    · refine ⟨front, stray, back ++ [edit], ?_, isStray, strays, ?_⟩
      · rw [List.append_assoc, List.cons_append]
      · intro later member same
        rcases List.mem_append.mp member with older | isNew
        · exact silent later older same
        · rw [List.mem_singleton.mp isNew]
          exact untold

theorem stale_snoc_other (other : edit.key ≠ key) : Stale selects (edits ++ [edit]) key <->
    Stale selects edits key := by
  constructor
  · rintro ⟨front, stray, back, split, isStray, strays, silent⟩
    rcases List.eq_nil_or_concat back with rfl | ⟨rest, last, rfl⟩
    · rcases List.append_inj' split rfl with ⟨_, isLast⟩
      cases isLast
      exact absurd isStray other
    · rw [List.concat_eq_append, ← List.cons_append, ← List.append_assoc] at split
      rcases List.append_inj' split rfl with ⟨rfl, _⟩
      rw [List.concat_eq_append] at silent
      exact ⟨front, stray, rest, rfl, isStray, strays,
        fun later member => silent later (List.mem_append_left _ member)⟩
  · rintro ⟨front, stray, back, rfl, isStray, strays, silent⟩
    refine ⟨front, stray, back ++ [edit], ?_, isStray, strays, ?_⟩
    · rw [List.append_assoc, List.cons_append]
    · intro later member same
      rcases List.mem_append.mp member with older | isNew
      · exact silent later older same
      · rw [List.mem_singleton.mp isNew] at same
        exact absurd same other

end Telling

section Mirrors

variable {selects} {map final known : K -> Option V} {edits : List (Edit K V)} {edit : Edit K V}
  {key : K}

theorem not_stale_nil : ¬Stale selects [] key := by
  rintro ⟨front, edit, back, split, _⟩
  exact List.append_ne_nil_of_right_ne_nil front (List.cons_ne_nil edit back) split.symm

theorem part_eq_none_iff : part selects map key = none <->
    forall value, map key = some value -> selects key value = false := by
  rw [part, Option.filter_eq_none_iff]
  exact forall_congr' fun value => imp_congr Iff.rfl (Bool.not_eq_true _).to_iff

theorem part_of_selected {value : V} (stored : map key = some value)
    (selected : selects key value = true) : part selects map key = some value := by
  rw [part, stored, Option.filter_some_pos selected]

variable [DecidableEq K]

theorem Leads.split {front back : List (Edit K V)} (leads : Leads map (front ++ back) final) :
    Exists fun middle => Leads map front middle ∧ Leads middle back final := by
  induction front generalizing map with
  | nil => exact ⟨map, .nil map, leads⟩
  | cons first rest hypothesis =>
      cases leads with
      | cons found later =>
          rcases hypothesis later with ⟨middle, leads, leadsOn⟩
          exact ⟨middle, .cons found leads, leadsOn⟩

/-- The last of the edits that lead somewhere. -/
theorem Leads.last (leads : Leads map (edits ++ [edit]) final) :
    Exists fun middle => Leads map edits middle ∧ middle edit.key = edit.before ∧
      final = apply middle edit := by
  rcases leads.split with ⟨middle, earlier, last⟩
  cases last with
  | cons found later =>
      cases later
      exact ⟨middle, earlier, found, rfl⟩

/-- What the mirror has at a key, when it is right, and when it is not. -/
structure Mirrored (selects : K -> V -> Bool) (known final : K -> Option V)
    (edits : List (Edit K V)) (key : K) : Prop where
  present : forall value, final key = some value -> selects key value = true ->
    replay known (edits.filter (told selects)) key = some value
  selected : forall value, replay known (edits.filter (told selects)) key = some value ->
    selects key value = true
  exact_iff : replay known (edits.filter (told selects)) key = part selects final key <->
    ¬Stale selects edits key

/-- The mirror behind an edit that it is told of. -/
theorem Mirrored.heard {middle : K -> Option V} (isKey : edit.key = key)
    (isTold : edit.told selects = true) :
    Mirrored selects known (apply middle edit) (edits ++ [edit]) key := by
  have view : replay known ((edits ++ [edit]).filter (told selects)) key = edit.after := by
    rw [List.filter_append, List.filter_cons_of_pos isTold, ← isKey]
    exact replay_snoc_self known _ edit
  have isFinal : apply middle edit key = edit.after := by
    rw [apply, ← isKey, Function.update_self]
  have isSelected : forall value, edit.after = some value -> selects key value = true := by
    intro value isAfter
    rw [told, isAfter, isKey] at isTold
    exact isTold
  refine ⟨?_, ?_, ?_⟩
  · intro value stored _
    rw [view, ← isFinal, stored]
  · intro value known
    exact isSelected value (view ▸ known)
  · rw [view, stale_snoc_same isKey, isTold]
    refine iff_of_true ?_ (by simp)
    cases isAfter : edit.after with
    | none => rw [part, isFinal, isAfter]; rfl
    | some value =>
        exact (part_of_selected (isFinal.trans isAfter) (isSelected value isAfter)).symm

/-- The mirror behind an edit of the key that it is not told of. -/
theorem Mirrored.unheard {middle : K -> Option V} (mirrored : Mirrored selects known middle edits key)
    (found : middle edit.key = edit.before) (isKey : edit.key = key)
    (untold : edit.told selects = false) :
    Mirrored selects known (apply middle edit) (edits ++ [edit]) key := by
  have view : replay known ((edits ++ [edit]).filter (told selects)) key =
      replay known (edits.filter (told selects)) key := by
    rw [List.filter_append, List.filter_cons_of_neg (Bool.eq_false_iff.mp untold)]
    exact congrArg (fun list => replay known list key) (List.append_nil _)
  have isFinal : apply middle edit key = edit.after := by
    rw [apply, ← isKey, Function.update_self]
  have unselected : forall value, edit.after = some value -> selects key value = false := by
    intro value isAfter
    rw [told, isAfter, isKey] at untold
    exact untold
  have nothing : part selects (apply middle edit) key = none := by
    rw [part_eq_none_iff, isFinal]
    exact unselected
  rw [isKey] at found
  refine ⟨?_, ?_, ?_⟩
  · intro value stored selected
    rw [unselected value (isFinal.symm.trans stored)] at selected
    cases selected
  · intro value known
    exact mirrored.selected value (view ▸ known)
  · rw [view, nothing, stale_snoc_same isKey, and_iff_right untold]
    by_cases strays : edit.Strays selects
    · rcases id strays with ⟨old, new, isBefore, _, selected, _⟩
      rw [mirrored.present old (found.trans isBefore) (isKey ▸ selected)]
      exact iff_of_false (by simp) (not_not_intro (Or.inl strays))
    · -- nothing selected was there before
      have empty : part selects middle key = none := by
        rw [part_eq_none_iff, found]
        intro old isBefore
        rw [← Bool.not_eq_true]
        intro selected
        cases isAfter : edit.after with
        | none =>
            rw [told, isAfter, isBefore, isKey] at untold
            exact Bool.false_ne_true (untold.symm.trans selected)
        | some new =>
            exact strays ⟨old, new, isBefore, isAfter, isKey ▸ selected,
              isKey ▸ unselected new isAfter⟩
      rw [or_iff_right strays, ← mirrored.exact_iff, empty]

/-- What a mirror has at a key, if it began with what was selected there.  The induction
is on the edits from the last one. -/
theorem Leads.mirrored (leads : Leads map edits final) (knows : known key = part selects map key) :
    Mirrored selects known final edits key := by
  induction edits using List.reverseRecOn generalizing final with
  | nil =>
      cases leads
      refine ⟨?_, ?_, iff_of_true knows not_stale_nil⟩
      · intro value stored selected
        exact knows.trans (part_of_selected stored selected)
      · intro value isKnown
        exact (Option.filter_eq_some_iff.mp (knows.symm.trans isKnown)).2
  | append_singleton edits edit hypothesis =>
      rcases leads.last with ⟨middle, earlier, found, rfl⟩
      have mirrored := hypothesis earlier
      by_cases isKey : edit.key = key
      · cases isTold : edit.told selects with
        | true => exact Mirrored.heard isKey isTold
        | false => exact mirrored.unheard found isKey isTold
      · have isFinal : apply middle edit key = middle key :=
          Function.update_of_ne (Ne.symm isKey) _ _
        have view : Edit.replay known ((edits ++ [edit]).filter (told selects)) key =
            Edit.replay known (edits.filter (told selects)) key := by
          rw [List.filter_append, replay_append]
          refine replay_of_unedited ?_
          intro member
          rcases List.mem_map.mp member with ⟨other, isOther, same⟩
          rw [List.mem_singleton.mp (List.mem_filter.mp isOther).1] at same
          exact isKey same
        have samePart : part selects (apply middle edit) key = part selects middle key := by
          rw [part, part, isFinal]
        refine ⟨?_, ?_, ?_⟩
        · intro value stored selected
          rw [view]
          exact mirrored.present value (isFinal.symm.trans stored) selected
        · intro value isKnown
          exact mirrored.selected value (view.symm.trans isKnown)
        · rw [view, samePart, stale_snoc_other isKey]
          exact mirrored.exact_iff

end Mirrors

end Edit
end Foundation
end NovaDb
