import Mathlib

namespace NovaDb
namespace Foundation

/-!
# Pairs of texts joined by a doubled mark

Two texts with a doubled mark between them are split again at every doubled mark,
from the left and without overlap.  When the second has no mark, joining is
injective; splitting gives the two back exactly when the first neither contains a
doubled mark nor ends with a mark.
-/

namespace Separator

variable {α : Type} [DecidableEq α]

def join (mark : α) (first second : List α) : List α :=
  first ++ mark :: mark :: second

/-- An element in front of the first part. -/
def extend (item : α) : List (List α) -> List (List α)
  | [] => [[item]]
  | part :: parts => (item :: part) :: parts

/-- The parts between doubled marks. -/
def split (mark : α) : List α -> List (List α)
  | [] => [[]]
  | [item] => [[item]]
  | item :: next :: rest =>
      if item = mark ∧ next = mark then [] :: split mark rest
      else extend item (split mark (next :: rest))

/-- No doubled mark inside, and no mark at the end. -/
structure Clear (mark : α) (text : List α) : Prop where
  inside : ¬ [mark, mark] <:+: text
  last : text.getLast? ≠ some mark

section Clearing

omit [DecidableEq α]

variable {mark item next : α} {rest : List α}

theorem clear_nil (mark : α) : Clear mark [] := by
  refine ⟨?_, nofun⟩
  intro inside
  exact absurd inside.length_le (by simp)

theorem clear_singleton (different : item ≠ mark) : Clear mark [item] := by
  refine ⟨?_, ?_⟩
  · intro inside
    exact absurd inside.length_le (by simp)
  · intro last
    exact different (Option.some.inj last)

theorem clear_cons_cons : Clear mark (item :: next :: rest) <->
    ¬ (item = mark ∧ next = mark) ∧ Clear mark (next :: rest) := by
  constructor
  · intro clear
    refine ⟨?_, ?_, ?_⟩
    · rintro ⟨rfl, rfl⟩
      exact clear.inside ⟨[], rest, rfl⟩
    · intro inside
      exact clear.inside (inside.trans (List.suffix_cons item _).isInfix)
    · have last := clear.last
      rw [List.getLast?_cons_cons] at last
      exact last
  · rintro ⟨apart, clear⟩
    refine ⟨?_, ?_⟩
    · intro inside
      rcases List.infix_cons_iff.mp inside with isFront | later
      · rw [List.cons_prefix_cons, List.cons_prefix_cons] at isFront
        exact apart ⟨isFront.1.symm, isFront.2.1.symm⟩
      · exact clear.inside later
    · rw [List.getLast?_cons_cons]
      exact clear.last

end Clearing

section Splitting

variable {mark : α} {first second text : List α}

omit [DecidableEq α] in
theorem extend_of_ne_nil {item : α} {parts : List (List α)} (nonempty : parts ≠ []) :
    Exists fun part => Exists fun others =>
      parts = part :: others ∧ extend item parts = (item :: part) :: others := by
  cases parts with
  | nil => exact absurd rfl nonempty
  | cons part others => exact ⟨part, others, rfl, rfl⟩

theorem split_ne_nil (mark : α) (text : List α) : split mark text ≠ [] := by
  induction text using split.induct mark with
  | case1 => exact List.cons_ne_nil _ _
  | case2 item => exact List.cons_ne_nil _ _
  | case3 item next rest both ih =>
      rw [split, if_pos both]
      exact List.cons_ne_nil _ _
  | case4 item next rest apart ih =>
      rcases @extend_of_ne_nil α item _ ih with ⟨part, others, _, extended⟩
      rw [split, if_neg apart, extended]
      exact List.cons_ne_nil _ _

/-- An element that does not start a doubled mark belongs to the first part. -/
theorem split_cons {item next : α} {rest : List α} (apart : ¬ (item = mark ∧ next = mark)) :
    Exists fun part => Exists fun others => split mark (next :: rest) = part :: others ∧
      split mark (item :: next :: rest) = (item :: part) :: others := by
  rw [split, if_neg apart]
  exact extend_of_ne_nil (split_ne_nil mark _)

/-- A text without a mark is one part. -/
theorem split_unmarked (unmarked : mark ∉ text) : split mark text = [text] := by
  induction text using split.induct mark with
  | case1 => rfl
  | case2 item => rfl
  | case3 item next rest both ih => exact absurd (both.1 ▸ List.mem_cons_self) unmarked
  | case4 item next rest apart ih =>
      rw [split, if_neg apart, ih (fun member => unmarked (List.mem_cons_of_mem item member))]
      rfl

theorem split_join (clear : Clear mark first) (unmarked : mark ∉ second) :
    split mark (join mark first second) = [first, second] := by
  induction first using split.induct mark with
  | case1 => rw [join, List.nil_append, split, if_pos ⟨rfl, rfl⟩, split_unmarked unmarked]
  | case2 item =>
      have different : item ≠ mark := by
        rintro rfl
        exact clear.last rfl
      rw [join, List.singleton_append, split, if_neg (fun both => different both.1), split,
        if_pos ⟨rfl, rfl⟩, split_unmarked unmarked]
      rfl
  | case3 item next rest both ih => exact absurd both (clear_cons_cons.mp clear).1
  | case4 item next rest apart ih =>
      have behind := ih (clear_cons_cons.mp clear).2
      rw [join, List.cons_append] at behind
      rw [join, List.cons_append, List.cons_append, split, if_neg apart, behind]
      rfl

/-- The first of several parts is clear. -/
theorem clear_of_split {part other : List α} {parts : List (List α)}
    (parted : split mark text = part :: other :: parts) : Clear mark part := by
  induction text using split.induct mark generalizing part with
  | case1 => cases parted
  | case2 item => cases parted
  | case3 item next rest both ih =>
      rw [split, if_pos both] at parted
      rw [← (List.cons.inj parted).1]
      exact clear_nil mark
  | case4 item next rest apart ih =>
      rcases @split_cons α _ mark item next rest apart with ⟨behind, others, parts, extended⟩
      rw [parted] at extended
      cases extended
      have behindClear := ih parts
      cases rest with
      | nil => cases parts
      | cons third rest =>
          -- the part behind is empty only in front of a separator
          by_cases both : next = mark ∧ third = mark
          · rw [split, if_pos both] at parts
            rw [← (List.cons.inj parts).1]
            exact clear_singleton fun same => apart ⟨same, both.1⟩
          · rcases @split_cons α _ mark next third rest both with ⟨later, more, _, laterExtended⟩
            rw [parts] at laterExtended
            cases laterExtended
            exact clear_cons_cons.mpr ⟨apart, behindClear⟩

theorem takeWhile_unmarked (unmarked : mark ∉ second) :
    (join mark first second).reverse.takeWhile (fun item => decide (item ≠ mark)) =
      second.reverse := by
  have inside : forall item, item ∈ second.reverse -> decide (item ≠ mark) = true := by
    intro item member
    apply decide_eq_true
    rintro rfl
    exact unmarked (List.mem_reverse.mp member)
  have shape : (join mark first second).reverse = second.reverse ++ mark :: mark :: first.reverse := by
    simp [join]
  rw [shape, List.takeWhile_append_of_pos inside, List.takeWhile_cons_of_neg (by simp),
    List.append_nil]

theorem join_injective {otherFirst otherSecond : List α} (unmarked : mark ∉ second)
    (otherUnmarked : mark ∉ otherSecond)
    (same : join mark first second = join mark otherFirst otherSecond) :
    first = otherFirst ∧ second = otherSecond := by
  have seconds : second.reverse = otherSecond.reverse := by
    rw [← @takeWhile_unmarked α _ mark first second unmarked, same,
      takeWhile_unmarked otherUnmarked]
  have sameSecond := List.reverse_injective seconds
  subst sameSecond
  exact ⟨List.append_cancel_right same, rfl⟩

end Splitting

end Separator
end Foundation
end NovaDb
