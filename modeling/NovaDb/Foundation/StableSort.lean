import Mathlib
import NovaDb.Foundation.Ranks

namespace NovaDb
namespace Foundation
namespace StableSort

/-!
# What a stable sort by one comparison says about another order

A stable sort leaves two elements in the order they had unless the comparison wants
them swapped.  So whether the sorted list is ordered by some other relation can be
read off the list before it is sorted, pair by pair.
-/

variable {α : Type} {le : α -> α -> Bool} {list : List α}

/-- The order in which the sort leaves two elements that come in this order. -/
def Leaves (le : α -> α -> Bool) (relation : α -> α -> Prop) (earlier later : α) : Prop :=
  if le earlier later then relation earlier later else relation later earlier

/-- Only the comparisons of elements of the list count. -/
theorem mergeSort_congr {other : α -> α -> Bool}
    (agree : forall left, left ∈ list -> forall right, right ∈ list ->
      le left right = other left right) : list.mergeSort le = list.mergeSort other := by
  have mapped := @List.map_mergeSort α α le other id list agree
  rw [List.map_id, List.map_id] at mapped
  exact mapped

/-- Two elements that come in this order come in one order or the other in any
arrangement of the list. -/
theorem pair_sublist_of_perm {arranged : List α} {earlier later : α}
    (pair : [earlier, later].Sublist list) (permuted : list.Perm arranged) :
    [earlier, later].Sublist arranged ∨ [later, earlier].Sublist arranged := by
  rcases List.exists_perm_sublist pair permuted with ⟨moved, isMoved, within⟩
  rcases List.perm_pair.mp isMoved with same | swapped
  · rw [same] at within
    exact Or.inl within
  · rw [swapped] at within
    exact Or.inr within

section Stability

variable (total : forall left right, (le left right || le right left) = true)
  (consistent : Ranks.Consistent le list)

include total consistent

/-- A part of the list that is in order already is a part of the sorted list. -/
theorem sublist_mergeSort {part : List α} (within : part.Sublist list)
    (ordered : part.Pairwise fun left right => le left right = true) :
    part.Sublist (list.mergeSort le) := by
  -- the comparison of ranks is transitive everywhere
  let ranked : α -> α -> Bool :=
    fun left right => decide (Ranks.rank le list left ≤ Ranks.rank le list right)
  have agree : forall left, left ∈ list -> forall right, right ∈ list ->
      le left right = ranked left right := by
    intro left inLeft right inRight
    rw [Bool.eq_iff_iff, decide_eq_true_iff]
    exact Ranks.le_iff_rank total consistent inLeft inRight
  rw [mergeSort_congr agree]
  apply List.sublist_mergeSort _ _ _ within
  · intro first second third lower upper
    rw [decide_eq_true_iff] at lower upper ⊢
    exact Nat.le_trans lower upper
  · intro left right
    rw [Bool.or_eq_true, decide_eq_true_iff, decide_eq_true_iff]
    exact Nat.le_total _ _
  · apply List.Pairwise.imp_of_mem _ ordered
    intro left right inLeft inRight below
    rw [← agree left (within.subset inLeft) right (within.subset inRight)]
    exact below

/-- The ties of an element keep their order. -/
theorem filter_tied_mergeSort {element : α} (member : element ∈ list) :
    (list.mergeSort le).filter (fun other => le element other && le other element) =
      list.filter (fun other => le element other && le other element) := by
  let tied : α -> Bool := fun other => le element other && le other element
  have ordered : (list.filter tied).Pairwise fun left right => le left right = true := by
    rw [List.pairwise_iff_forall_sublist]
    intro left right pair
    have inLeft := List.mem_filter.mp (pair.subset List.mem_cons_self)
    have inRight := List.mem_filter.mp (pair.subset (List.mem_cons_of_mem _ List.mem_cons_self))
    exact consistent left element right inLeft.1 member inRight.1
      (Bool.and_eq_true_iff.mp inLeft.2).2 (Bool.and_eq_true_iff.mp inRight.2).1
  have kept := (sublist_mergeSort total consistent List.filter_sublist ordered).filter tied
  rw [List.filter_filter, funext fun other => Bool.and_self (tied other)] at kept
  have sameLength := ((List.mergeSort_perm list le).filter tied).length_eq
  exact (kept.eq_of_length sameLength.symm).symm

/-- The sorted list is ordered by the relation exactly when every pair of the list is
left in its order. -/
theorem pairwise_mergeSort_iff (relation : α -> α -> Prop) :
    (list.mergeSort le).Pairwise relation <-> list.Pairwise (Leaves le relation) := by
  have permuted := List.mergeSort_perm list le
  have sorted := Ranks.mergeSort_sorted total consistent (List.Perm.refl list)
  rw [List.pairwise_iff_forall_sublist, List.pairwise_iff_forall_sublist]
  constructor
  · intro related left right pair
    unfold Leaves
    by_cases below : le left right = true
    · rw [if_pos below]
      exact related (sublist_mergeSort total consistent pair (List.pairwise_pair.mpr below))
    · rw [if_neg below]
      apply related
      rcases pair_sublist_of_perm pair permuted.symm with same | swapped
      · exact absurd (List.pairwise_iff_forall_sublist.mp sorted same) below
      · exact swapped
  · intro leaves left right pair
    have below := List.pairwise_iff_forall_sublist.mp sorted pair
    by_cases back : le right left = true
    · -- ties come in the order they had
      have inLeft := permuted.subset (pair.subset List.mem_cons_self)
      have itself : le left left = true := by
        rw [← Bool.or_self (le left left)]
        exact total left left
      have kept := pair.filter fun other => le left other && le other left
      rw [filter_tied_mergeSort total consistent inLeft, List.filter_cons_of_pos (by rw [itself]; rfl),
        List.filter_cons_of_pos (by rw [below, back]; rfl), List.filter_nil] at kept
      have before := leaves (kept.trans List.filter_sublist)
      rw [Leaves, if_pos below] at before
      exact before
    · rcases pair_sublist_of_perm pair permuted with same | swapped
      · have before := leaves same
        rw [Leaves, if_pos below] at before
        exact before
      · have before := leaves swapped
        rw [Leaves, if_neg back] at before
        exact before

end Stability

end StableSort
end Foundation
end NovaDb
