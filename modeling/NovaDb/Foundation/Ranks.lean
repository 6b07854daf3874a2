import Mathlib

namespace NovaDb
namespace Foundation
namespace Ranks

/-!
# Ranks in a sorted list with ties

A comparison that is total and, on the elements of a list, transitive sorts the
list up to ties.  The rank of an element is the number of elements in front of its
ties; every sorted arrangement has the same ranks at the same positions.  A slice of
the sorted list is therefore the same for every arrangement of the list exactly when
no position of the slice is open to two different elements.
-/

section Sorting

variable {α : Type} (le : α -> α -> Bool) (list : List α)

/-- The comparison is transitive on the elements of the list. -/
def Consistent : Prop :=
  forall first second third, first ∈ list -> second ∈ list -> third ∈ list ->
    le first second = true -> le second third = true -> le first third = true

/-- How many elements come before every tie of this one. -/
def rank (element : α) : Nat :=
  list.countP fun other => le other element && !le element other

/-- How many elements come before this one or tie with it. -/
def reach (element : α) : Nat :=
  list.countP fun other => le other element

/-- A position that the element may take in a sorted arrangement. -/
def MayStand (element : α) (position : Nat) : Prop :=
  rank le list element ≤ position ∧ position < reach le list element

/-- The sort does not tell the two apart. -/
def Tied (left right : α) : Prop :=
  le left right = true ∧ le right left = true

/-- No two different elements may stand at one position of the slice. -/
def Untied (start stop : Nat) : Prop :=
  forall left right position, left ∈ list -> right ∈ list -> start ≤ position ->
    position < stop -> MayStand le list left position -> Tied le left right -> left = right

/-- The elements from one position up to another. -/
def slice (start stop : Nat) (whole : List α) : List α :=
  (whole.take stop).drop start

variable {le list}

theorem getElem?_slice {start stop : Nat} {whole : List α} (position : Nat) :
    (slice start stop whole)[position]? =
      if start + position < stop then whole[start + position]? else none := by
  rw [slice, List.getElem?_drop, List.getElem?_take]

/-! ## Ranks -/

variable (total : forall left right, (le left right || le right left) = true)
  (consistent : Consistent le list)

include total in
theorem le_of_not_le {left right : α} (not : le left right = false) : le right left = true := by
  have either := total left right
  rw [not, Bool.false_or] at either
  exact either

include consistent in
theorem rank_mono {left right : α} (inLeft : left ∈ list) (inRight : right ∈ list)
    (below : le left right = true) : rank le list left ≤ rank le list right := by
  apply List.countP_mono_left
  intro other member strictly
  rw [Bool.and_eq_true, Bool.not_eq_true'] at strictly ⊢
  refine ⟨consistent other left right member inLeft inRight strictly.1 below, ?_⟩
  by_contra back
  rw [Bool.not_eq_false] at back
  have wrong := consistent left right other inLeft inRight member below back
  rw [strictly.2] at wrong
  cases wrong

include total consistent in
theorem rank_lt {left right : α} (inLeft : left ∈ list) (inRight : right ∈ list)
    (above : le left right = false) : rank le list right < rank le list left := by
  have below := le_of_not_le total above
  rcases List.append_of_mem inRight with ⟨front, behind, splits⟩
  have rest : forall part : List α, (forall other, other ∈ part -> other ∈ list) ->
      part.countP (fun other => le other right && !le right other) ≤
        part.countP (fun other => le other left && !le left other) := by
    intro part within
    apply List.countP_mono_left
    intro other member strictly
    rw [Bool.and_eq_true, Bool.not_eq_true'] at strictly ⊢
    refine ⟨consistent other right left (within other member) inRight inLeft strictly.1 below, ?_⟩
    by_contra back
    rw [Bool.not_eq_false] at back
    have wrong := consistent right left other inRight inLeft (within other member) below back
    rw [strictly.2] at wrong
    cases wrong
  have inFront := rest front fun other member => by
    rw [splits]
    exact List.mem_append_left _ member
  have inBehind := rest behind fun other member => by
    rw [splits]
    exact List.mem_append_right _ (List.mem_cons_of_mem _ member)
  have counted : forall element, rank le list element =
      front.countP (fun other => le other element && !le element other) +
        (behind.countP (fun other => le other element && !le element other) +
          if (le right element && !le element right) = true then 1 else 0) := by
    intro element
    conv_lhs => rw [rank, splits, List.countP_append, List.countP_cons]
  have atRight : (le right right && !le right right) = false := by
    cases le right right <;> rfl
  have atLeft : (le right left && !le left right) = true := by
    rw [below, above]
    rfl
  rw [counted right, counted left, atRight, atLeft]
  simp only [Bool.false_eq_true, if_false, if_true]
  omega

include total consistent in
/-- The comparison is the comparison of ranks. -/
theorem le_iff_rank {left right : α} (inLeft : left ∈ list) (inRight : right ∈ list) :
    le left right = true <-> rank le list left ≤ rank le list right := by
  constructor
  · exact rank_mono consistent inLeft inRight
  · intro lower
    by_contra above
    rw [Bool.not_eq_true] at above
    exact absurd lower (Nat.not_le_of_lt (rank_lt total consistent inLeft inRight above))

include total consistent in
theorem tied_iff_rank {left right : α} (inLeft : left ∈ list) (inRight : right ∈ list) :
    Tied le left right <-> rank le list left = rank le list right := by
  rw [Tied, le_iff_rank total consistent inLeft inRight, le_iff_rank total consistent inRight inLeft]
  exact Nat.le_antisymm_iff.symm

/-! ## Sorted arrangements -/

include total consistent in
/-- A sorted arrangement has ascending ranks, and is one that has. -/
theorem sorted_iff_ranks {order : List α} (isOrder : order.Perm list) :
    order.Pairwise (fun left right => le left right = true) <->
      (order.map (rank le list)).Pairwise (· ≤ ·) := by
  rw [List.pairwise_map]
  apply List.Pairwise.iff_of_mem
  intro left right inLeft inRight
  exact le_iff_rank total consistent (isOrder.subset inLeft) (isOrder.subset inRight)

include total consistent in
/-- The sort leaves ascending ranks. -/
theorem mergeSort_ranks {order : List α} (isOrder : order.Perm list) :
    ((order.mergeSort le).map (rank le list)).Pairwise (· ≤ ·) := by
  have byRank : (order.mergeSort le).map (rank le list) =
      (order.map (rank le list)).mergeSort (fun left right => decide (left ≤ right)) := by
    apply List.map_mergeSort
    intro left inLeft right inRight
    rw [Bool.eq_iff_iff, decide_eq_true_iff]
    exact le_iff_rank total consistent (isOrder.subset inLeft) (isOrder.subset inRight)
  rw [byRank]
  have sorted := @List.pairwise_mergeSort Nat (fun left right => decide (left ≤ right))
    (fun _ _ _ => by simpa using Nat.le_trans) (fun left right => by simpa using Nat.le_total left right)
    (order.map (rank le list))
  exact sorted.imp of_decide_eq_true

include total consistent in
theorem mergeSort_sorted {order : List α} (isOrder : order.Perm list) :
    (order.mergeSort le).Pairwise (fun left right => le left right = true) :=
  (sorted_iff_ranks total consistent ((List.mergeSort_perm order le).trans isOrder)).mpr
    (mergeSort_ranks total consistent isOrder)

include total consistent in
/-- Two arrangements are sorted into the same ranks. -/
theorem mergeSort_same_ranks {first second : List α} (isFirst : first.Perm list)
    (isSecond : second.Perm list) :
    (first.mergeSort le).map (rank le list) = (second.mergeSort le).map (rank le list) := by
  apply @List.Perm.eq_of_pairwise Nat (· ≤ ·) _ _ (fun _ _ _ _ => Nat.le_antisymm)
    (mergeSort_ranks total consistent isFirst) (mergeSort_ranks total consistent isSecond)
  apply List.Perm.map
  exact (List.mergeSort_perm first le).trans
    ((isFirst.trans isSecond.symm).trans (List.mergeSort_perm second le).symm)

include total consistent in
theorem reach_eq {element : α} (member : element ∈ list) :
    reach le list element =
      (list.map (rank le list)).countP (fun other => decide (other ≤ rank le list element)) := by
  rw [reach, List.countP_map]
  apply List.countP_congr
  intro other inList
  rw [Function.comp_apply, decide_eq_true_iff]
  exact le_iff_rank total consistent inList member

include total consistent in
theorem rank_eq {element : α} (member : element ∈ list) :
    rank le list element =
      (list.map (rank le list)).countP (fun other => decide (other < rank le list element)) := by
  conv_lhs => rw [rank]
  rw [List.countP_map]
  apply List.countP_congr
  intro other inList
  rw [Function.comp_apply, decide_eq_true_iff, Bool.and_eq_true, Bool.not_eq_true',
    ← Bool.not_eq_true, le_iff_rank total consistent inList member,
    le_iff_rank total consistent member inList]
  omega

end Sorting

/-! ## Positions -/

/-- Where the elements that satisfy a predicate come first, they take the positions
up to their number. -/
theorem lt_countP_iff {α : Type} {p : α -> Bool} {whole : List α}
    (first : whole.Pairwise fun left right => p right = true -> p left = true)
    {position : Nat} {element : α} (stands : whole[position]? = some element) :
    position < whole.countP p <-> p element = true := by
  induction whole generalizing position with
  | nil => cases stands
  | cons head rest ih =>
      rcases List.pairwise_cons.mp first with ⟨ahead, others⟩
      cases position with
      | zero =>
          cases stands
          by_cases holds : p element = true
          · simp only [List.countP_cons_of_pos holds, Nat.zero_lt_succ, holds]
          · have never : forall other, other ∈ rest -> ¬ p other = true :=
              fun other member found => holds (ahead other member found)
            rw [List.countP_cons_of_neg holds, List.countP_eq_zero.mpr never]
            exact iff_of_false (Nat.lt_irrefl 0) holds
      | succ position =>
          rw [List.getElem?_cons_succ] at stands
          have inRest := List.mem_of_getElem? stands
          by_cases holds : p head = true
          · rw [List.countP_cons_of_pos holds, Nat.add_lt_add_iff_right]
            exact ih others stands
          · have never : forall other, other ∈ rest -> ¬ p other = true :=
              fun other member found => holds (ahead other member found)
            rw [List.countP_cons_of_neg holds, List.countP_eq_zero.mpr never]
            exact iff_of_false (Nat.not_lt_zero _) (never element inRest)

section Slices

variable {α : Type} {le : α -> α -> Bool} {list order : List α} {start stop : Nat}
  (total : forall left right, (le left right || le right left) = true)
  (consistent : Consistent le list)

include total consistent

/-- The elements that may stand at a position of a sorted arrangement are the ties of
the one that does. -/
theorem mayStand_iff (isOrder : order.Perm list)
    (sorted : (order.map (rank le list)).Pairwise (· ≤ ·)) {element other : α} {position : Nat}
    (stands : order[position]? = some other) (member : element ∈ list) :
    MayStand le list element position <-> Tied le element other := by
  have inList := isOrder.subset (List.mem_of_getElem? stands)
  have atPosition : (order.map (rank le list))[position]? = some (rank le list other) := by
    rw [List.getElem?_map, stands]
    rfl
  have sameRanks := isOrder.map (rank le list)
  have inFront : position < rank le list element <-> rank le list other < rank le list element := by
    conv_lhs => rw [rank_eq total consistent member, ← sameRanks.countP_eq]
    rw [lt_countP_iff (sorted.imp ?_) atPosition, decide_eq_true_iff]
    intro left right ascending less
    rw [decide_eq_true_iff] at less ⊢
    exact Nat.lt_of_le_of_lt ascending less
  have upTo : position < reach le list element <-> rank le list other ≤ rank le list element := by
    rw [reach_eq total consistent member, ← sameRanks.countP_eq,
      lt_countP_iff (sorted.imp ?_) atPosition, decide_eq_true_iff]
    intro left right ascending less
    rw [decide_eq_true_iff] at less ⊢
    exact Nat.le_trans ascending less
  rw [MayStand, tied_iff_rank total consistent member inList, ← Nat.not_lt, inFront, upTo]
  omega

/-- Slices without ties are the same for every arrangement. -/
theorem Untied.slices (untied : Untied le list start stop) {first second : List α}
    (isFirst : first.Perm list) (isSecond : second.Perm list) :
    slice start stop (first.mergeSort le) = slice start stop (second.mergeSort le) := by
  apply List.ext_getElem?
  intro position
  rw [getElem?_slice, getElem?_slice]
  by_cases inside : start + position < stop
  · rw [if_pos inside, if_pos inside]
    have sortedFirst := (List.mergeSort_perm first le).trans isFirst
    have sortedSecond := (List.mergeSort_perm second le).trans isSecond
    have sameRanks := congrArg (·[start + position]?)
      (mergeSort_same_ranks total consistent isFirst isSecond)
    simp only [List.getElem?_map] at sameRanks
    cases atFirst : (first.mergeSort le)[start + position]? with
    | none =>
        rw [atFirst] at sameRanks
        exact (Option.map_eq_none_iff.mp sameRanks.symm).symm
    | some left =>
        rw [atFirst] at sameRanks
        rcases Option.map_eq_some_iff.mp sameRanks.symm with ⟨right, atSecond, same⟩
        rw [atSecond]
        have inLeft := sortedFirst.subset (List.mem_of_getElem? atFirst)
        have inRight := sortedSecond.subset (List.mem_of_getElem? atSecond)
        have tied := (tied_iff_rank total consistent inLeft inRight).mpr same.symm
        have mayStand := (mayStand_iff total consistent sortedSecond
          (mergeSort_ranks total consistent isSecond) atSecond inLeft).mpr tied
        exact congrArg some (untied left right (start + position) inLeft inRight
          (Nat.le_add_right _ _) inside mayStand tied)
  · rw [if_neg inside, if_neg inside]

end Slices

/-! ## Images -/

section Images

variable {α β : Type} {le : α -> α -> Bool} {leToo : β -> β -> Bool} {image : α -> β}
  {list : List α}

theorem Consistent.map (same : forall left right, le left right = leToo (image left) (image right))
    (consistent : Consistent le list) : Consistent leToo (list.map image) := by
  intro first second third inFirst inSecond inThird below belowToo
  rcases List.mem_map.mp inFirst with ⟨one, isOne, rfl⟩
  rcases List.mem_map.mp inSecond with ⟨two, isTwo, rfl⟩
  rcases List.mem_map.mp inThird with ⟨three, isThree, rfl⟩
  rw [← same] at below belowToo ⊢
  exact consistent one two three isOne isTwo isThree below belowToo

theorem mayStand_map (same : forall left right, le left right = leToo (image left) (image right))
    {element : α} {position : Nat} : MayStand leToo (list.map image) (image element) position <->
      MayStand le list element position := by
  have sameRank : rank leToo (list.map image) (image element) = rank le list element := by
    simp only [rank, List.countP_map, Function.comp_def, same]
  have sameReach : reach leToo (list.map image) (image element) = reach le list element := by
    simp only [reach, List.countP_map, Function.comp_def, same]
  rw [MayStand, MayStand, sameRank, sameReach]

theorem Untied.map (same : forall left right, le left right = leToo (image left) (image right))
    {start stop : Nat} (untied : Untied le list start stop) :
    Untied leToo (list.map image) start stop := by
  intro left right position inLeft inRight starts stops stands tied
  rcases List.mem_map.mp inLeft with ⟨one, isOne, rfl⟩
  rcases List.mem_map.mp inRight with ⟨two, isTwo, rfl⟩
  rw [Tied, ← same, ← same] at tied
  exact congrArg image
    (untied one two position isOne isTwo starts stops ((mayStand_map same).mp stands) tied)

end Images

end Ranks
end Foundation
end NovaDb
