import Mathlib
import NovaDb.Foundation.Edits

namespace NovaDb
namespace Foundation

/-!
# Numbered notices sent later

Tasks record numbered edits in a common log and send a notice of each later, one
at a time, while other tasks record and send.  What a task has yet to send is its
box.  If no edit of a key is recorded while a box holds a notice about it, the
notices about each key are sent in ascending order, however the tasks take turns;
once all boxes are empty, they are the edits of that key in the log.
-/

structure Notice (K V : Type) where
  number : Nat
  edit : Edit K V

namespace Notice

variable {K V : Type}

/-- Smaller number first. -/
def Precedes (left right : Notice K V) : Prop :=
  left.number < right.number

/-- The notices about one key. -/
def about [DecidableEq K] (key : K) (notices : List (Notice K V)) : List (Notice K V) :=
  notices.filter (fun notice => decide (notice.edit.key = key))

theorem about_edits [DecidableEq K] (key : K) (notices : List (Notice K V)) :
    (about key notices).map Notice.edit = Edit.of key (notices.map Notice.edit) := by
  rw [about, Edit.of, List.filter_map]
  rfl

theorem mem_about [DecidableEq K] {key : K} {notices : List (Notice K V)} {notice : Notice K V} :
    notice ∈ about key notices <-> notice ∈ notices ∧ notice.edit.key = key := by
  rw [about, List.mem_filter, decide_eq_true_iff]

/-- Notices that all precede one another are listed in one way only. -/
theorem eq_of_perm {left right : List (Notice K V)} (permuted : left.Perm right)
    (first : left.Pairwise Precedes) (second : right.Pairwise Precedes) : left = right := by
  apply permuted.eq_of_pairwise _ first second
  intro one other _ _ before after
  exact absurd before (Nat.lt_asymm after)

end Notice

/-- No two boxes hold notices about one key. -/
def Apart {K V : Type} (boxes : List (List (Notice K V))) : Prop :=
  forall (one other : Nat) (left right : List (Notice K V)), boxes[one]? = some left ->
    boxes[other]? = some right -> forall first, first ∈ left -> forall second, second ∈ right ->
      first.edit.key = second.edit.key -> one = other

/-- The log, the notices sent, and the boxes of the tasks.  Every logged notice is sent
or in one box; those about one key are sent in their order, in front of the ones still
boxed; and no two boxes have notices about one key. -/
structure InTurn {K V : Type} [DecidableEq K] (log sent : List (Notice K V))
    (boxes : List (List (Notice K V))) (counter : Nat) : Prop where
  numbered : log.Pairwise Notice.Precedes
  bounded : forall notice, notice ∈ log -> notice.number ≤ counter
  accounted : log.Perm (sent ++ boxes.flatten)
  boxed : forall box, box ∈ boxes -> box.Pairwise Notice.Precedes
  ordered : forall key, (Notice.about key sent).Pairwise Notice.Precedes
  behind : forall earlier, earlier ∈ sent -> forall later, later ∈ boxes.flatten ->
    earlier.edit.key = later.edit.key -> earlier.Precedes later
  apart : Apart boxes

section Boxes

variable {α : Type} {boxes : List (List α)} {index : Nat} {box : List α}

theorem flatten_perm (isBox : boxes[index]? = some box) :
    boxes.flatten.Perm (box ++ (boxes.eraseIdx index).flatten) := by
  rcases List.getElem?_eq_some_iff.mp isBox with ⟨inside, rfl⟩
  exact (List.getElem_cons_eraseIdx_perm inside).symm.flatten

/-- A box after one of them has changed. -/
theorem box_of_set {place : Nat} {changed : List α}
    (isBox : (boxes.set index changed)[place]? = some box) :
    place = index ∧ box = changed ∨ boxes[place]? = some box := by
  rcases Decidable.eq_or_ne index place with rfl | other
  · rw [List.getElem?_set_self'] at isBox
    rcases Option.map_eq_some_iff.mp isBox with ⟨_, _, rfl⟩
    exact .inl ⟨rfl, rfl⟩
  · rw [List.getElem?_set_ne other] at isBox
    exact .inr isBox

theorem flatten_set_perm (isBox : boxes[index]? = some box) (changed : List α) :
    (boxes.set index changed).flatten.Perm (changed ++ (boxes.eraseIdx index).flatten) :=
  (List.set_perm_cons_eraseIdx (List.getElem?_eq_some_iff.mp isBox).1 changed).flatten

end Boxes

namespace Apart

variable {K V : Type} {boxes : List (List (Notice K V))}

/-- A new task has nothing to send. -/
theorem arrive (apart : Apart boxes) : Apart (boxes ++ [[]]) := by
  have older : forall {place : Nat} {box : List (Notice K V)} {notice : Notice K V},
      (boxes ++ [[]])[place]? = some box -> notice ∈ box -> boxes[place]? = some box := by
    intro place box notice isBox member
    rcases Nat.lt_or_ge place boxes.length with inside | past
    · rwa [List.getElem?_append_left inside] at isBox
    · rw [List.getElem?_append_right past] at isBox
      rw [List.mem_singleton.mp (List.mem_of_getElem? isBox)] at member
      cases member
  intro one other left right isLeft isRight first inLeft second inRight sameKey
  exact apart one other left right (older isLeft inLeft) (older isRight inRight) first inLeft
    second inRight sameKey

/-- A box changes to one whose keys it held before, or that no other box holds. -/
theorem set (apart : Apart boxes) {index : Nat} {changed : List (Notice K V)}
    (alone : forall notice, notice ∈ changed -> forall other box, boxes[other]? = some box ->
      forall held, held ∈ box -> held.edit.key = notice.edit.key -> other = index) : Apart (boxes.set index changed) := by
  intro one other left right isLeft isRight first inLeft second inRight sameKey
  rcases box_of_set isLeft with ⟨rfl, rfl⟩ | wasLeft
  · rcases box_of_set isRight with ⟨rfl, _⟩ | wasRight
    · rfl
    · exact (alone first inLeft other right wasRight second inRight sameKey.symm).symm
  · rcases box_of_set isRight with ⟨rfl, rfl⟩ | wasRight
    · exact alone second inRight one left wasLeft first inLeft sameKey
    · exact apart one other left right wasLeft wasRight first inLeft second inRight sameKey

end Apart

namespace InTurn

variable {K V : Type} [DecidableEq K] {log sent : List (Notice K V)}
  {boxes : List (List (Notice K V))} {counter : Nat}

theorem start (counter : Nat) : InTurn ([] : List (Notice K V)) [] [] counter :=
  ⟨List.Pairwise.nil, nofun, List.Perm.nil, nofun, fun _ => List.Pairwise.nil, nofun, nofun⟩

/-- A new task has nothing to send. -/
theorem arrive (inTurn : InTurn log sent boxes counter) : InTurn log sent (boxes ++ [[]]) counter := by
  have same : (boxes ++ [[]]).flatten = boxes.flatten := by simp
  refine ⟨inTurn.numbered, inTurn.bounded, ?_, ?_, inTurn.ordered, ?_, inTurn.apart.arrive⟩
  · rw [same]
    exact inTurn.accounted
  · intro box member
    rcases List.mem_append.mp member with older | isNew
    · exact inTurn.boxed box older
    · rw [List.mem_singleton.mp isNew]
      exact List.Pairwise.nil
  · rw [same]
    exact inTurn.behind

/-- The counter may run ahead. -/
theorem counted (inTurn : InTurn log sent boxes counter) {further : Nat} (ahead : counter ≤ further) :
    InTurn log sent boxes further :=
  ⟨inTurn.numbered, fun notice member => Nat.le_trans (inTurn.bounded notice member) ahead,
    inTurn.accounted, inTurn.boxed, inTurn.ordered, inTurn.behind, inTurn.apart⟩

/-- A task keeps its box. -/
theorem keep (inTurn : InTurn log sent boxes counter) {index : Nat} {box : List (Notice K V)}
    (isBox : boxes[index]? = some box) : InTurn log sent (boxes.set index box) counter := by
  have same : boxes.set index box = boxes := by
    rcases List.getElem?_eq_some_iff.mp isBox with ⟨inside, rfl⟩
    exact List.set_getElem_self inside
  rw [same]
  exact inTurn

/-- A task with an empty box records edits with fresh numbers, of keys that no box
holds a notice about. -/
theorem record (inTurn : InTurn log sent boxes counter) {index further : Nat}
    (isBox : boxes[index]? = some []) {notices : List (Notice K V)}
    (fresh : Ascends counter (notices.map Notice.number) further)
    (free : forall notice, notice ∈ notices -> forall held, held ∈ boxes.flatten ->
      held.edit.key ≠ notice.edit.key) :
    InTurn (log ++ notices) sent (boxes.set index notices) further := by
  have pairwise := fresh.pairwise
  rw [List.pairwise_map] at pairwise
  have ascending : notices.Pairwise Notice.Precedes := pairwise
  have above : forall notice, notice ∈ notices -> counter < notice.number ∧ notice.number ≤ further :=
    fun notice member => fresh.within _ (List.mem_map_of_mem member)
  have others := flatten_perm isBox
  have changed := flatten_set_perm isBox notices
  rw [List.nil_append] at others
  have sentBelow : forall earlier, earlier ∈ sent -> earlier.number ≤ counter := by
    intro earlier member
    exact inTurn.bounded earlier (inTurn.accounted.mem_iff.mpr (List.mem_append_left _ member))
  refine ⟨?_, ?_, ?_, ?_, inTurn.ordered, ?_, ?_⟩
  · refine List.pairwise_append.mpr ⟨inTurn.numbered, ascending, ?_⟩
    intro old inLog new inNotices
    exact Nat.lt_of_le_of_lt (inTurn.bounded old inLog) (above new inNotices).1
  · intro notice member
    rcases List.mem_append.mp member with old | new
    · exact Nat.le_trans (inTurn.bounded notice old) fresh.forth
    · exact (above notice new).2
  · calc log ++ notices
      List.Perm _ ((sent ++ boxes.flatten) ++ notices) := inTurn.accounted.append_right notices
      List.Perm _ ((sent ++ (boxes.eraseIdx index).flatten) ++ notices) :=
        (others.append_left sent).append_right notices
      _ = sent ++ ((boxes.eraseIdx index).flatten ++ notices) := List.append_assoc _ _ _
      List.Perm _ (sent ++ (boxes.set index notices).flatten) :=
        (List.perm_append_comm.trans changed.symm).append_left sent
  · intro box member
    rcases List.mem_or_eq_of_mem_set member with old | rfl
    · exact inTurn.boxed box old
    · exact ascending
  · intro earlier inSent later inBoxes sameKey
    rcases List.mem_append.mp (changed.mem_iff.mp inBoxes) with new | old
    · exact Nat.lt_of_le_of_lt (sentBelow earlier inSent) (above later new).1
    · exact inTurn.behind earlier inSent later (others.mem_iff.mpr old) sameKey
  · apply inTurn.apart.set
    intro notice isNew other box isOther held inBox sameKey
    have inBoxes := List.mem_flatten_of_mem (List.mem_of_getElem? isOther) inBox
    exact absurd sameKey (free notice isNew held inBoxes)

/-- No box holds an earlier notice about a key than the first of its box. -/
theorem first (inTurn : InTurn log sent boxes counter) {index : Nat} {notice : Notice K V}
    {rest : List (Notice K V)} (isBox : boxes[index]? = some (notice :: rest))
    {other : Notice K V} (held : other ∈ boxes.flatten)
    (sameKey : other.edit.key = notice.edit.key) : notice.number ≤ other.number := by
  rcases List.mem_flatten.mp held with ⟨box, isHeld, inBox⟩
  rcases List.mem_iff_getElem?.mp isHeld with ⟨place, isPlace⟩
  have same := inTurn.apart _ _ _ _ isPlace isBox other inBox notice List.mem_cons_self sameKey
  rw [same, isBox] at isPlace
  cases isPlace
  rcases List.mem_cons.mp inBox with rfl | later
  · exact Nat.le_refl _
  · have ascending := inTurn.boxed _ (List.mem_of_getElem? isBox)
    exact Nat.le_of_lt ((List.pairwise_cons.mp ascending).1 other later)

/-- What is left in the boxes without a first notice has other numbers. -/
theorem others (inTurn : InTurn log sent boxes counter) {index : Nat} {notice other : Notice K V}
    {rest : List (Notice K V)} (isBox : boxes[index]? = some (notice :: rest))
    (member : other ∈ (boxes.set index rest).flatten) : notice.number ≠ other.number := by
  have before := flatten_perm isBox
  have after := flatten_set_perm isBox rest
  have pairwise := inTurn.numbered.imp (fun precedes => Nat.ne_of_lt precedes)
  have shuffled := (inTurn.accounted.pairwise_iff (fun different => Ne.symm different)).mp pairwise
  have inBoxes := (List.pairwise_append.mp shuffled).2.1
  have split := (before.pairwise_iff (fun different => Ne.symm different)).mp inBoxes
  exact (List.pairwise_cons.mp split).1 other (after.mem_iff.mp member)

/-- A task sends its first notice. -/
theorem send (inTurn : InTurn log sent boxes counter) {index : Nat} {notice : Notice K V}
    {rest : List (Notice K V)} (isBox : boxes[index]? = some (notice :: rest)) :
    InTurn log (sent ++ [notice]) (boxes.set index rest) counter := by
  have before := flatten_perm isBox
  have after := flatten_set_perm isBox rest
  have held : notice ∈ boxes.flatten := before.mem_iff.mpr List.mem_cons_self
  have stays : forall other, other ∈ (boxes.set index rest).flatten -> other ∈ boxes.flatten := by
    intro other member
    exact before.mem_iff.mpr (List.mem_cons_of_mem notice (after.mem_iff.mp member))
  refine ⟨inTurn.numbered, inTurn.bounded, ?_, ?_, ?_, ?_, ?_⟩
  · calc log
      List.Perm _ (sent ++ boxes.flatten) := inTurn.accounted
      List.Perm _ (sent ++ (notice :: (rest ++ (boxes.eraseIdx index).flatten))) :=
        before.append_left sent
      List.Perm _ (sent ++ (notice :: (boxes.set index rest).flatten)) :=
        (after.symm.cons notice).append_left sent
      _ = (sent ++ [notice]) ++ (boxes.set index rest).flatten := by
        rw [List.append_assoc, List.singleton_append]
  · intro box member
    rcases List.mem_or_eq_of_mem_set member with old | rfl
    · exact inTurn.boxed box old
    · exact (List.pairwise_cons.mp (inTurn.boxed _ (List.mem_of_getElem? isBox))).2
  · intro key
    rw [Notice.about, List.filter_append]
    refine List.pairwise_append.mpr ⟨inTurn.ordered key, List.Pairwise.filter _
      (List.pairwise_singleton _ _), ?_⟩
    intro earlier inSent last isLast
    rcases List.mem_filter.mp isLast with ⟨isNotice, atKey⟩
    rcases Notice.mem_about.mp inSent with ⟨wasSent, earlierKey⟩
    rw [List.mem_singleton.mp isNotice] at atKey ⊢
    exact inTurn.behind earlier wasSent notice held (earlierKey.trans (of_decide_eq_true atKey).symm)
  · intro earlier inSent later inBoxes sameKey
    rcases List.mem_append.mp inSent with old | new
    · exact inTurn.behind earlier old later (stays later inBoxes) sameKey
    · rw [List.mem_singleton.mp new] at sameKey ⊢
      exact Nat.lt_of_le_of_ne (inTurn.first isBox (stays later inBoxes) sameKey.symm)
        (inTurn.others isBox inBoxes)
  · apply inTurn.apart.set
    intro remaining isRest other box isOther held inBox sameKey
    exact inTurn.apart _ _ _ _ isOther isBox held inBox remaining
      (List.mem_cons_of_mem notice isRest) sameKey

/-- With all boxes empty the notices about a key are those of the log. -/
theorem drained (inTurn : InTurn log sent boxes counter) (empty : forall box, box ∈ boxes -> box = [])
    (key : K) : Notice.about key sent = Notice.about key log := by
  have nothing : boxes.flatten = [] := List.flatten_eq_nil_iff.mpr empty
  have permuted := inTurn.accounted
  rw [nothing, List.append_nil] at permuted
  exact Notice.eq_of_perm (permuted.symm.filter _) (inTurn.ordered key)
    (List.Pairwise.filter _ inTurn.numbered)

/-- ... and the notices, applied in the order they were sent, lead where the log does. -/
theorem drained_replay (inTurn : InTurn log sent boxes counter)
    (empty : forall box, box ∈ boxes -> box = []) (map : K -> Option V) :
    Edit.replay map (sent.map Notice.edit) = Edit.replay map (log.map Notice.edit) := by
  funext key
  apply Edit.replay_congr
  rw [← Notice.about_edits, ← Notice.about_edits, inTurn.drained empty]

end InTurn
end Foundation
end NovaDb
