import Mathlib
import NovaDb.Foundation.Occupancy

namespace NovaDb
namespace Foundation

/-!
# Keys put after a check

Tasks put a key in two steps: they check that it is absent, and put it later.
Other tasks take keys in one step.  A ledger says which keys are present, where
every task stands and what has been put and taken.  When no task checks a key that
another has checked and not yet put, a key is taken between any two puts of it.
-/

/-- Where a task stands. -/
inductive Standing (K : Type) where
  | outside
  | checked (key : K)
  | refused (key : K)
  | stored (key : K)
  | removed (scope : K -> Prop)

structure Ledger (K : Type) where
  present : K -> Bool
  standings : List (Standing K)
  history : List (Mark K)

namespace Ledger

variable {K : Type}

/-! ## Looking up a standing -/

section Lookups

variable {standings : List (Standing K)} {task other : Nat} {standing found : Standing K}

theorem standing_arrive (inside : found ≠ .outside) :
    (standings ++ [.outside])[other]? = some found <-> standings[other]? = some found := by
  rcases Nat.lt_or_ge other standings.length with older | newer
  · rw [List.getElem?_append_left older]
  · rw [List.getElem?_append_right newer, List.getElem?_eq_none newer]
    constructor
    · intro isFound
      exact absurd (List.mem_singleton.mp (List.mem_of_getElem? isFound)) inside
    · intro isFound
      cases isFound

/-- The standing of a task after one has moved on. -/
theorem standing_set (isFound : (standings.set task standing)[other]? = some found) :
    (task = other ∧ found = standing) ∨ (task ≠ other ∧ standings[other]? = some found) := by
  by_cases same : task = other
  · subst same
    have inside : task < standings.length := by
      have bound := (List.getElem?_eq_some_iff.mp isFound).1
      rw [List.length_set] at bound
      exact bound
    rw [List.getElem?_set_self inside] at isFound
    exact Or.inl ⟨rfl, (Option.some.inj isFound).symm⟩
  · rw [List.getElem?_set_ne same] at isFound
    exact Or.inr ⟨same, isFound⟩

/-- A standing that a task neither leaves nor enters. -/
theorem standing_set_iff {before : Standing K} (isBefore : standings[task]? = some before)
    (left : before ≠ found) (entered : standing ≠ found) :
    (standings.set task standing)[other]? = some found <-> standings[other]? = some found := by
  constructor
  · intro isFound
    rcases standing_set isFound with ⟨_, same⟩ | ⟨_, isFound⟩
    · exact absurd same.symm entered
    · exact isFound
  · intro isFound
    rw [List.getElem?_set_ne]
    · exact isFound
    · rintro rfl
      exact left (Option.some.inj (isBefore.symm.trans isFound))

/-- A task that moves on without a check leaves the others' checks. -/
theorem checked_of_set {key : K} (unclaimed : standing ≠ .checked key)
    (isChecked : (standings.set task standing)[other]? = some (.checked key)) :
    task ≠ other ∧ standings[other]? = some (.checked key) := by
  rcases standing_set isChecked with ⟨_, same⟩ | older
  · exact absurd same.symm unclaimed
  · exact older

end Lookups

/-! ## Steps -/

variable [DecidableEq K]

/-- What can happen to a ledger. -/
inductive Step : Ledger K -> Ledger K -> Prop where
  | arrive {ledger : Ledger K} :
      Step ledger { ledger with standings := ledger.standings ++ [.outside] }
  | check {ledger : Ledger K} {task : Nat} {key : K}
      (isOutside : ledger.standings[task]? = some .outside) (absent : ledger.present key = false)
      (unclaimed : forall other : Nat, ledger.standings[other]? ≠ some (.checked key)) :
      Step ledger { ledger with standings := ledger.standings.set task (.checked key) }
  | refuse {ledger : Ledger K} {task : Nat} {key : K}
      (isOutside : ledger.standings[task]? = some .outside)
      (isPresent : ledger.present key = true) :
      Step ledger { ledger with standings := ledger.standings.set task (.refused key) }
  | abandon {ledger : Ledger K} {task : Nat} {key : K}
      (isChecked : ledger.standings[task]? = some (.checked key)) :
      Step ledger { ledger with standings := ledger.standings.set task .outside }
  | store {ledger : Ledger K} {task : Nat} {key : K}
      (isChecked : ledger.standings[task]? = some (.checked key)) :
      Step ledger
        { present := Function.update ledger.present key true
          standings := ledger.standings.set task (.stored key)
          history := ledger.history ++ [.put task key] }
  | remove {ledger : Ledger K} {task : Nat} {keys : List K} {scope : K -> Prop} {present : K -> Bool}
      (isOutside : ledger.standings[task]? = some .outside)
      (inScope : forall key, key ∈ keys -> scope key)
      (removes : forall key, key ∈ keys -> present key = false)
      (keeps : forall key, key ∉ keys -> present key = ledger.present key) :
      Step ledger
        { present
          standings := ledger.standings.set task (.removed scope)
          history := ledger.history ++ keys.map (.take task) }

/-- What holds of a ledger along a run. -/
structure Kept (initially : K -> Bool) (ledger : Ledger K) : Prop where
  single : forall {left right : Nat} {key : K}, ledger.standings[left]? = some (.checked key) ->
    ledger.standings[right]? = some (.checked key) -> left = right
  absent : forall {task : Nat} {key : K}, ledger.standings[task]? = some (.checked key) ->
    ledger.present key = false
  present : forall key, ledger.present key = Mark.presentAfter (initially key) key ledger.history
  alternates : Mark.Alternates ledger.history
  put : forall {task : Nat} {key : K}, Mark.put task key ∈ ledger.history <->
    ledger.standings[task]? = some (.stored key)
  taken : forall {task : Nat} {key : K}, Mark.take task key ∈ ledger.history ->
    Exists fun scope => ledger.standings[task]? = some (.removed scope) ∧ scope key
  refused : forall {task : Nat} {key : K}, ledger.standings[task]? = some (.refused key) ->
    initially key = true ∨ Exists fun other => Mark.put other key ∈ ledger.history

theorem kept_start (present : K -> Bool) : Kept present ⟨present, [], []⟩ where
  single := by
    intro left right key found
    cases found
  absent := by
    intro task key found
    cases found
  present := fun key => rfl
  alternates := Mark.alternates_nil
  put := by
    intro task key
    constructor
    · intro member
      cases member
    · intro found
      cases found
  taken := by
    intro task key member
    cases member
  refused := by
    intro task key found
    cases found

section Steps

variable {initially : K -> Bool} {ledger : Ledger K} {task : Nat} {key : K}

theorem Kept.arrive (kept : Kept initially ledger) :
    Kept initially { ledger with standings := ledger.standings ++ [.outside] } where
  single := by
    intro left right key isLeft isRight
    exact kept.single ((standing_arrive (by nofun)).mp isLeft)
      ((standing_arrive (by nofun)).mp isRight)
  absent := fun isChecked => kept.absent ((standing_arrive (by nofun)).mp isChecked)
  present := kept.present
  alternates := kept.alternates
  put := kept.put.trans (standing_arrive (by nofun)).symm
  taken := by
    intro task key member
    rcases kept.taken member with ⟨scope, isRemoved, inScope⟩
    exact ⟨scope, (standing_arrive (by nofun)).mpr isRemoved, inScope⟩
  refused := fun isRefused => kept.refused ((standing_arrive (by nofun)).mp isRefused)

theorem Kept.check (kept : Kept initially ledger)
    (isOutside : ledger.standings[task]? = some .outside) (absent : ledger.present key = false)
    (unclaimed : forall other : Nat, ledger.standings[other]? ≠ some (.checked key)) :
    Kept initially { ledger with standings := ledger.standings.set task (.checked key) } where
  single := by
    intro left right other isLeft isRight
    rcases standing_set isLeft with ⟨rfl, same⟩ | ⟨_, isLeft⟩
    · cases same
      rcases standing_set isRight with ⟨rfl, _⟩ | ⟨_, isRight⟩
      · rfl
      · exact absurd isRight (unclaimed right)
    · rcases standing_set isRight with ⟨rfl, same⟩ | ⟨_, isRight⟩
      · cases same
        exact absurd isLeft (unclaimed left)
      · exact kept.single isLeft isRight
  absent := by
    intro other otherKey isChecked
    rcases standing_set isChecked with ⟨_, same⟩ | ⟨_, isChecked⟩
    · cases same
      exact absent
    · exact kept.absent isChecked
  present := kept.present
  alternates := kept.alternates
  put := kept.put.trans (standing_set_iff isOutside (by nofun) (by nofun)).symm
  taken := by
    intro other otherKey member
    rcases kept.taken member with ⟨scope, isRemoved, inScope⟩
    exact ⟨scope, (standing_set_iff isOutside (by nofun) (by nofun)).mpr isRemoved, inScope⟩
  refused := fun isRefused =>
    kept.refused ((standing_set_iff isOutside (by nofun) (by nofun)).mp isRefused)

theorem Kept.refuse (kept : Kept initially ledger)
    (isOutside : ledger.standings[task]? = some .outside) (isPresent : ledger.present key = true) :
    Kept initially { ledger with standings := ledger.standings.set task (.refused key) } where
  single := by
    intro left right other isLeft isRight
    exact kept.single (checked_of_set (by nofun) isLeft).2 (checked_of_set (by nofun) isRight).2
  absent := fun isChecked => kept.absent (checked_of_set (by nofun) isChecked).2
  present := kept.present
  alternates := kept.alternates
  put := kept.put.trans (standing_set_iff isOutside (by nofun) (by nofun)).symm
  taken := by
    intro other otherKey member
    rcases kept.taken member with ⟨scope, isRemoved, inScope⟩
    exact ⟨scope, (standing_set_iff isOutside (by nofun) (by nofun)).mpr isRemoved, inScope⟩
  refused := by
    intro other otherKey isRefused
    rcases standing_set isRefused with ⟨_, same⟩ | ⟨_, isRefused⟩
    · cases same
      exact Mark.put_of_presentAfter ((kept.present _).symm.trans isPresent)
    · exact kept.refused isRefused

theorem Kept.abandon (kept : Kept initially ledger)
    (isChecked : ledger.standings[task]? = some (.checked key)) :
    Kept initially { ledger with standings := ledger.standings.set task .outside } where
  single := by
    intro left right other isLeft isRight
    exact kept.single (checked_of_set (by nofun) isLeft).2 (checked_of_set (by nofun) isRight).2
  absent := fun isOther => kept.absent (checked_of_set (by nofun) isOther).2
  present := kept.present
  alternates := kept.alternates
  put := kept.put.trans (standing_set_iff isChecked (by nofun) (by nofun)).symm
  taken := by
    intro other otherKey member
    rcases kept.taken member with ⟨scope, isRemoved, inScope⟩
    exact ⟨scope, (standing_set_iff isChecked (by nofun) (by nofun)).mpr isRemoved, inScope⟩
  refused := fun isRefused =>
    kept.refused ((standing_set_iff isChecked (by nofun) (by nofun)).mp isRefused)

theorem Kept.store (kept : Kept initially ledger)
    (isChecked : ledger.standings[task]? = some (.checked key)) :
    Kept initially
      { present := Function.update ledger.present key true
        standings := ledger.standings.set task (.stored key)
        history := ledger.history ++ [.put task key] } where
  single := by
    intro left right other isLeft isRight
    exact kept.single (checked_of_set (by nofun) isLeft).2 (checked_of_set (by nofun) isRight).2
  absent := by
    intro other otherKey isOther
    rcases checked_of_set (by nofun) isOther with ⟨different, wasChecked⟩
    change Function.update ledger.present key true otherKey = false
    rw [Function.update_of_ne]
    · exact kept.absent wasChecked
    · rintro rfl
      exact different (kept.single isChecked wasChecked)
  present := by
    intro other
    change Function.update ledger.present key true other = _
    rw [Function.update_apply, Mark.presentAfter_put, kept.present]
  alternates := by
    apply kept.alternates.put
    exact (kept.present key).symm.trans (kept.absent isChecked)
  put := by
    intro other otherKey
    rw [List.mem_append, List.mem_singleton, kept.put]
    constructor
    · rintro (isStored | same)
      · rw [List.getElem?_set_ne]
        · exact isStored
        · rintro rfl
          cases isChecked.symm.trans isStored
      · cases same
        exact List.getElem?_set_self (List.getElem?_eq_some_iff.mp isChecked).1
    · intro isStored
      rcases standing_set isStored with ⟨rfl, same⟩ | ⟨_, isStored⟩
      · cases same
        exact Or.inr rfl
      · exact Or.inl isStored
  taken := by
    intro other otherKey member
    rcases List.mem_append.mp member with old | new
    · rcases kept.taken old with ⟨scope, isRemoved, inScope⟩
      exact ⟨scope, (standing_set_iff isChecked (by nofun) (by nofun)).mpr isRemoved, inScope⟩
    · cases List.mem_singleton.mp new
  refused := by
    intro other otherKey isRefused
    rcases kept.refused ((standing_set_iff isChecked (by nofun) (by nofun)).mp isRefused) with
      before | ⟨earlier, member⟩
    · exact Or.inl before
    · exact Or.inr ⟨earlier, List.mem_append_left _ member⟩

theorem Kept.remove (kept : Kept initially ledger) {keys : List K} {scope : K -> Prop}
    {present : K -> Bool} (isOutside : ledger.standings[task]? = some .outside)
    (inScope : forall key, key ∈ keys -> scope key)
    (removes : forall key, key ∈ keys -> present key = false)
    (keeps : forall key, key ∉ keys -> present key = ledger.present key) :
    Kept initially
      { present
        standings := ledger.standings.set task (.removed scope)
        history := ledger.history ++ keys.map (.take task) } where
  single := by
    intro left right other isLeft isRight
    exact kept.single (checked_of_set (by nofun) isLeft).2 (checked_of_set (by nofun) isRight).2
  absent := by
    intro other otherKey isChecked
    by_cases member : otherKey ∈ keys
    · exact removes otherKey member
    · have wasAbsent := kept.absent (checked_of_set (by nofun) isChecked).2
      exact (keeps otherKey member).trans wasAbsent
  present := by
    intro other
    rw [Mark.presentAfter_takes, ← kept.present]
    by_cases member : other ∈ keys
    · rw [if_pos member]
      exact removes other member
    · rw [if_neg member]
      exact keeps other member
  alternates := kept.alternates.takes task keys
  put := by
    intro other otherKey
    rw [List.mem_append, standing_set_iff isOutside (by nofun) (by nofun), kept.put]
    constructor
    · rintro (isStored | impossible)
      · exact isStored
      · rcases List.mem_map.mp impossible with ⟨_, _, same⟩
        cases same
    · exact Or.inl
  taken := by
    intro other otherKey member
    rcases List.mem_append.mp member with old | new
    · rcases kept.taken old with ⟨others, isRemoved, within⟩
      refine ⟨others, ?_, within⟩
      rw [List.getElem?_set_ne]
      · exact isRemoved
      · rintro rfl
        cases isOutside.symm.trans isRemoved
    · rcases List.mem_map.mp new with ⟨taken, inKeys, same⟩
      cases same
      exact ⟨scope, List.getElem?_set_self (List.getElem?_eq_some_iff.mp isOutside).1,
        inScope otherKey inKeys⟩
  refused := by
    intro other otherKey isRefused
    rcases kept.refused ((standing_set_iff isOutside (by nofun) (by nofun)).mp isRefused) with
      before | ⟨earlier, member⟩
    · exact Or.inl before
    · exact Or.inr ⟨earlier, List.mem_append_left _ member⟩

theorem Kept.step {next : Ledger K} (kept : Kept initially ledger) (step : Step ledger next) :
    Kept initially next := by
  cases step with
  | arrive => exact kept.arrive
  | check isOutside absent unclaimed => exact kept.check isOutside absent unclaimed
  | refuse isOutside isPresent => exact kept.refuse isOutside isPresent
  | abandon isChecked => exact kept.abandon isChecked
  | store isChecked => exact kept.store isChecked
  | remove isOutside inScope removes keeps => exact kept.remove isOutside inScope removes keeps

end Steps

/-! ## Runs -/

/-- Every run from an empty ledger keeps the invariant. -/
theorem kept_of_run {present : K -> Bool} {ledger : Ledger K}
    (run : Relation.ReflTransGen Step ⟨present, [], []⟩ ledger) : Kept present ledger := by
  induction run with
  | refl => exact kept_start present
  | tail run step ih => exact ih.step step

section Results

variable {initially : K -> Bool} {ledger : Ledger K} {key : K}

/-- Two tasks that have put a key have it taken in between, within the scope of
the task that took it. -/
theorem Kept.separated (kept : Kept initially ledger) {first second : Nat}
    (different : first ≠ second) (isFirst : ledger.standings[first]? = some (.stored key))
    (isSecond : ledger.standings[second]? = some (.stored key)) :
    Exists fun remover => Exists fun scope =>
      ledger.standings[remover]? = some (.removed scope) ∧ scope key ∧
        (Mark.Between (.put first key) (.take remover key) (.put second key) ledger.history ∨
          Mark.Between (.put second key) (.take remover key) (.put first key) ledger.history) := by
  rcases kept.alternates.between different (kept.put.mpr isFirst) (kept.put.mpr isSecond) with
    ⟨remover, between⟩
  rcases kept.taken (Mark.mem_of_between between) with ⟨scope, isRemoved, inScope⟩
  exact ⟨remover, scope, isRemoved, inScope, between⟩

/-- A key that is never taken is stored by at most one task. -/
theorem Kept.stored_once (kept : Kept initially ledger)
    (untaken : forall task, Mark.take task key ∉ ledger.history) {first second : Nat}
    (isFirst : ledger.standings[first]? = some (.stored key))
    (isSecond : ledger.standings[second]? = some (.stored key)) : first = second := by
  by_contra different
  rcases kept.separated different isFirst isSecond with ⟨remover, _, _, _, between⟩
  exact untaken remover (Mark.mem_of_between between)

theorem Kept.stored_of_refused (kept : Kept initially ledger) (fresh : initially key = false)
    {task : Nat} (isRefused : ledger.standings[task]? = some (.refused key)) :
    Exists fun other : Nat => ledger.standings[other]? = some (.stored key) := by
  rcases kept.refused isRefused with before | ⟨other, member⟩
  · rw [fresh] at before
    cases before
  · exact ⟨other, kept.put.mp member⟩

end Results

end Ledger
end Foundation
end NovaDb
