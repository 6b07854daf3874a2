import Mathlib.Data.List.Basic

namespace NovaDb
namespace Foundation

/-!
# Reading a growing log

Entries are put behind a log while readers go through it.  A reader takes the entry at
its position and moves on by one; where it may skip, it moves on and takes nothing.
What it has taken is in the order of the log, without repetition, and all that stood
between its positions if it never skipped.
-/

/-- What a reader has taken between two positions of a log. -/
inductive Taken {α : Type} (log : List α) (skips : Prop) (start : Nat) : Nat -> List α -> Prop where
  | nothing : Taken log skips start start []
  | take {position : Nat} {taken : List α} {entry : α} (earlier : Taken log skips start position taken)
      (isEntry : log[position]? = some entry) : Taken log skips start (position + 1) (taken ++ [entry])
  | skip {position later : Nat} {taken : List α} (allowed : skips)
      (earlier : Taken log skips start position taken) (forward : position ≤ later) :
      Taken log skips start later taken

/-- The entries between two positions. -/
def between {α : Type} (log : List α) (start stop : Nat) : List α :=
  (log.take stop).drop start

namespace Taken

variable {α : Type} {log taken : List α} {skips : Prop} {start position : Nat}

theorem start_le (taking : Taken log skips start position taken) : start ≤ position := by
  induction taking with
  | nothing => exact Nat.le_refl start
  | take earlier isEntry hypothesis => exact Nat.le_succ_of_le hypothesis
  | skip allowed earlier forward hypothesis => exact Nat.le_trans hypothesis forward

/-- The log has grown behind the reader. -/
theorem grow (taking : Taken log skips start position taken) (more : List α) :
    Taken (log ++ more) skips start position taken := by
  induction taking with
  | nothing => exact .nothing
  | take earlier isEntry hypothesis =>
      have inside := (List.getElem?_eq_some_iff.mp isEntry).1
      exact hypothesis.take ((List.getElem?_append_left inside).trans isEntry)
  | skip allowed earlier forward hypothesis => exact .skip allowed hypothesis forward

theorem between_succ {entry : α} (inOrder : start ≤ position) (isEntry : log[position]? = some entry) :
    between log start (position + 1) = between log start position ++ [entry] := by
  have inside := (List.getElem?_eq_some_iff.mp isEntry).1
  have long : start ≤ (log.take position).length := by
    rw [List.length_take]
    omega
  rw [between, between, List.take_add_one, isEntry, Option.toList_some,
    List.drop_append_of_le_length long]

theorem between_mono {later : Nat} (forward : position ≤ later) :
    (between log start position).Sublist (between log start later) := by
  rw [between, between]
  refine List.Sublist.drop ?_ start
  have shorter := List.take_sublist position (log.take later)
  rw [List.take_take, Nat.min_eq_left forward] at shorter
  exact shorter

/-- In order, and nothing twice. -/
theorem sublist (taking : Taken log skips start position taken) :
    taken.Sublist (between log start position) := by
  induction taking with
  | nothing => exact List.nil_sublist _
  | take earlier isEntry hypothesis =>
      rw [between_succ earlier.start_le isEntry]
      exact hypothesis.append (List.Sublist.refl _)
  | skip allowed earlier forward hypothesis => exact hypothesis.trans (between_mono forward)

/-- A reader that never skips takes everything. -/
theorem all (taking : Taken log skips start position taken) (never : ¬skips) :
    taken = between log start position := by
  induction taking with
  | nothing =>
      rw [between, List.drop_eq_nil_of_le]
      exact List.length_take_le _ _
  | take earlier isEntry hypothesis =>
      rw [between_succ earlier.start_le isEntry, ← hypothesis]
  | skip allowed earlier forward hypothesis => exact absurd allowed never

end Taken

end Foundation
end NovaDb
