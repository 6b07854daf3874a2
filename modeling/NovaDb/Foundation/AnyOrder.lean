import Mathlib

namespace NovaDb
namespace Foundation
namespace AnyOrder

/-!
# Walks in any order

A walk over the elements of a hash table visits them in an order that means
nothing.  This module says for three kinds of walks when their result does not
depend on it: a search for the first answer, a batch of changes that ends at the
first failure, and a page of a sorted list.
-/

/-! ## Orders -/

section Orders

variable {α β : Type}

theorem exists_perm_cons {element : α} {list : List α} (member : element ∈ list) :
    Exists fun rest : List α => (element :: rest).Perm list := by
  rcases List.append_of_mem member with ⟨front, behind, rfl⟩
  exact ⟨front ++ behind, List.perm_middle.symm⟩

end Orders

/-! ## The first answer -/

section Search

variable {α κ : Type} {f : α -> Option κ} {list : List α}

/-- All elements that answer give one answer. -/
def OneAnswer (f : α -> Option κ) (list : List α) : Prop :=
  forall first second answer other, first ∈ list -> second ∈ list -> f first = some answer ->
    f second = some other -> answer = other

theorem OneAnswer.perm (one : OneAnswer f list) {other : List α} (permuted : other.Perm list) :
    OneAnswer f other :=
  fun first second answer found inFirst inSecond =>
    one first second answer found (permuted.subset inFirst) (permuted.subset inSecond)

theorem findSome_perm (one : OneAnswer f list) {left right : List α} (isLeft : left.Perm list)
    (isRight : right.Perm list) : left.findSome? f = right.findSome? f := by
  cases atLeft : left.findSome? f with
  | none =>
      have silent := List.findSome?_eq_none_iff.mp atLeft
      symm
      rw [List.findSome?_eq_none_iff]
      intro element member
      exact silent element ((isRight.trans isLeft.symm).subset member)
  | some answer =>
      rcases List.exists_of_findSome?_eq_some atLeft with ⟨element, member, answers⟩
      cases atRight : right.findSome? f with
      | none =>
          have silent := List.findSome?_eq_none_iff.mp atRight element
            ((isLeft.trans isRight.symm).subset member)
          rw [answers] at silent
          cases silent
      | some other =>
          rcases List.exists_of_findSome?_eq_some atRight with ⟨second, inRight, answersToo⟩
          exact congrArg some (one element second answer other (isLeft.subset member)
            (isRight.subset inRight) answers answersToo)

end Search

/-! ## A batch that ends at the first failure -/

/-- What a batch makes of one element: it passes it over, or it ends there, leaving a
value, or it leaves a value and attempts to note that, which may fail. -/
inductive Verdict (κ β : Type) where
  | pass
  | stop (kind : κ) (left : β)
  | attempt (left : β) (failure : Option κ)

namespace Verdict

variable {κ β : Type}

/-- How the batch ends at the element.  `room` is how many more attempts there are. -/
def ending (exhausted : κ) (room : Option Nat) : Verdict κ β -> Option (κ × β)
  | .pass => none
  | .stop kind left => some (kind, left)
  | .attempt left failure =>
      if room = some 0 then some (exhausted, left) else failure.map fun kind => (kind, left)

/-- What the batch leaves at the element when it goes on. -/
def going (room : Option Nat) : Verdict κ β -> Option β
  | .attempt left none => if room = some 0 then none else some left
  | _ => none

/-- The value of an attempt. -/
def attempted : Verdict κ β -> Option β
  | .attempt left _ => some left
  | _ => none

/-- Nothing fails here by itself. -/
def Smooth : Verdict κ β -> Prop
  | .pass => True
  | .stop _ _ => False
  | .attempt _ failure => failure = none

/-- Where a batch goes on with a value, there was an attempt and room for it. -/
theorem attempt_of_going {verdict : Verdict κ β} {room : Option Nat} {left : β}
    (goes : verdict.going room = some left) : verdict = .attempt left none ∧ room ≠ some 0 := by
  unfold going at goes
  split at goes
  · split at goes
    · cases goes
    · rename_i value enough
      cases goes
      exact ⟨rfl, enough⟩
  · cases goes

theorem ending_of_going {verdict : Verdict κ β} {room : Option Nat} {left : β} {exhausted : κ}
    (goes : verdict.going room = some left) : verdict.ending exhausted room = none := by
  rcases attempt_of_going goes with ⟨rfl, enough⟩
  exact if_neg enough

theorem attempted_of_going {verdict : Verdict κ β} {room : Option Nat} {left : β}
    (goes : verdict.going room = some left) : verdict.attempted = some left := by
  rw [(attempt_of_going goes).1]
  rfl

end Verdict

section Batch

variable {ι κ β : Type} [DecidableEq ι] (exhausted : κ) (verdict : ι -> Verdict κ β)

/-- The kind of failure the batch ended with, and the values it left. -/
def batch : Option Nat -> List ι -> (ι -> β) -> Option κ × (ι -> β)
  | _, [], values => (none, values)
  | room, element :: rest, values =>
      match (verdict element).ending exhausted room with
      | some (kind, left) => (some kind, Function.update values element left)
      | none =>
          match (verdict element).going room with
          | some left =>
              batch (room.map fun count => count - 1) rest (Function.update values element left)
          | none => batch room rest values

/-- The elements at which an attempt is made. -/
def attempts (list : List ι) : List ι :=
  list.filter fun element => (verdict element).attempted.isSome

/-- Nothing fails by itself and the attempts suffice, the last of them perhaps not
noted; or no element lets the batch go on, and all that end it do so with one kind of
failure, there being only one of them or no trace of any. -/
def Uniform (room : Option Nat) (list : List ι) (values : ι -> β) : Prop :=
  ((forall element, element ∈ list -> (verdict element).Smooth) ∧
      forall count, room = some count -> (attempts verdict list).length ≤ count + 1) ∨
    (forall element, element ∈ list -> (verdict element).going room = none) ∧
      forall first second kind other left right, first ∈ list -> second ∈ list ->
        (verdict first).ending exhausted room = some (kind, left) ->
        (verdict second).ending exhausted room = some (other, right) ->
        kind = other ∧ (first = second ∨ left = values first ∧ right = values second)

variable {exhausted verdict} {room : Option Nat} {list rest : List ι} {values : ι -> β}
  {element : ι}

theorem batch_ending {kind : κ} {left : β}
    (ends : (verdict element).ending exhausted room = some (kind, left)) :
    batch exhausted verdict room (element :: rest) values =
      (some kind, Function.update values element left) := by
  rw [batch, ends]

theorem batch_going {left : β} (goes : (verdict element).going room = some left) :
    batch exhausted verdict room (element :: rest) values =
      batch exhausted verdict (room.map fun count => count - 1) rest
        (Function.update values element left) := by
  rw [batch, Verdict.ending_of_going goes]
  simp only [goes]

theorem batch_pass (ends : (verdict element).ending exhausted room = none)
    (goes : (verdict element).going room = none) :
    batch exhausted verdict room (element :: rest) values =
      batch exhausted verdict room rest values := by
  rw [batch, ends]
  simp only [goes]

/-- Elements that are passed over may be left out. -/
theorem batch_filter {p : ι -> Bool}
    (passes : forall element, element ∈ list -> p element = false -> verdict element = .pass) :
    batch exhausted verdict room (list.filter p) values = batch exhausted verdict room list values := by
  induction list generalizing room values with
  | nil => rfl
  | cons element rest ih =>
      have behind := fun room values => @ih room values fun other member =>
        passes other (List.mem_cons_of_mem element member)
      by_cases chosen : p element = true
      · rw [List.filter_cons_of_pos chosen, batch, batch]
        simp only [behind]
      · have isPass := passes element List.mem_cons_self (eq_false_of_ne_true chosen)
        rw [List.filter_cons_of_neg chosen, behind,
          batch_pass (by rw [isPass]; rfl) (by rw [isPass]; rfl)]

/-- A batch leaves other values alone. -/
theorem batch_untouched {other : ι} (absent : other ∉ list) :
    (batch exhausted verdict room list values).2 other = values other := by
  induction list generalizing room values with
  | nil => rfl
  | cons element rest ih =>
      rw [List.mem_cons, not_or] at absent
      cases ends : (verdict element).ending exhausted room with
      | some ended =>
          rw [batch_ending ends]
          exact Function.update_of_ne absent.1 _ _
      | none =>
          cases goes : (verdict element).going room with
          | some left =>
              rw [batch_going goes, ih absent.2]
              exact Function.update_of_ne absent.1 _ _
          | none =>
              rw [batch_pass ends goes]
              exact ih absent.2

/-- Without an element that lets it go on, the batch ends at the first that ends it. -/
theorem batch_stuck (stuck : forall element, element ∈ list -> (verdict element).going room = none) :
    batch exhausted verdict room list values =
      match list.findSome? (fun element =>
          ((verdict element).ending exhausted room).map fun ended => (element, ended)) with
      | some (element, kind, left) => (some kind, Function.update values element left)
      | none => (none, values) := by
  induction list with
  | nil => rfl
  | cons element rest ih =>
      rw [List.findSome?_cons]
      cases ends : (verdict element).ending exhausted room with
      | some ended => exact batch_ending ends
      | none =>
          rw [batch_pass ends (stuck element List.mem_cons_self)]
          exact ih fun other member => stuck other (List.mem_cons_of_mem element member)

/-- Where nothing fails by itself, the batch leaves the values of its attempts until
there are no more. -/
theorem batch_smooth (smooth : forall element, element ∈ list -> (verdict element).Smooth)
    (distinct : list.Nodup) :
    batch exhausted verdict room list values =
      (match room with
        | some count => if count < (attempts verdict list).length then some exhausted else none
        | none => none,
      fun element =>
        if element ∈ (match room with
          | some count => (attempts verdict list).take (count + 1)
          | none => attempts verdict list)
        then ((verdict element).attempted).getD (values element) else values element) := by
  induction list generalizing room values with
  | nil => cases room <;> simp [batch, attempts]
  | cons element rest ih =>
      rcases List.nodup_cons.mp distinct with ⟨fresh, restDistinct⟩
      have restSmooth : forall other, other ∈ rest -> (verdict other).Smooth :=
        fun other member => smooth other (List.mem_cons_of_mem element member)
      have isSmooth := smooth element List.mem_cons_self
      cases isVerdict : verdict element with
      | stop kind left =>
          rw [isVerdict] at isSmooth
          exact isSmooth.elim
      | pass =>
          have noAttempt : attempts verdict (element :: rest) = attempts verdict rest := by
            simp [attempts, isVerdict, Verdict.attempted]
          rw [batch_pass (by rw [isVerdict]; rfl) (by rw [isVerdict]; rfl), noAttempt]
          exact ih restSmooth restDistinct
      | attempt left failure =>
          rw [isVerdict] at isSmooth
          cases isSmooth
          have oneMore : attempts verdict (element :: rest) = element :: attempts verdict rest := by
            simp [attempts, isVerdict, Verdict.attempted]
          have notLater : element ∉ attempts verdict rest :=
            fun member => fresh (List.mem_of_mem_filter member)
          rw [oneMore]
          -- the values of the rest, put behind the value of this element
          have assembled : forall taken : List ι, element ∉ taken ->
              (fun other => if other ∈ taken
                then ((verdict other).attempted).getD (Function.update values element left other)
                else Function.update values element left other) =
              fun other => if other ∈ element :: taken
                then ((verdict other).attempted).getD (values other) else values other := by
            intro taken absent
            funext other
            by_cases same : other = element
            · subst same
              rw [if_neg absent, if_pos List.mem_cons_self, Function.update_self, isVerdict]
              rfl
            · simp only [List.mem_cons, same, false_or, Function.update_of_ne same]
          cases room with
          | none =>
              have goes : (verdict element).going none = some left := by rw [isVerdict]; rfl
              rw [batch_going goes, Option.map_none, ih restSmooth restDistinct]
              exact Prod.ext rfl (assembled _ notLater)
          | some count =>
              cases count with
              | zero =>
                  have ends : (verdict element).ending exhausted (some 0) = some (exhausted, left) := by
                    rw [isVerdict]; rfl
                  rw [batch_ending ends]
                  apply Prod.ext
                  · simp
                  · have alone := assembled [] List.not_mem_nil
                    simp only [List.not_mem_nil, if_false] at alone
                    simpa using alone
              | succ count =>
                  have goes : (verdict element).going (some (count + 1)) = some left := by
                    rw [isVerdict]; rfl
                  rw [batch_going goes, Option.map_some, ih restSmooth restDistinct]
                  have fewer : element ∉ (attempts verdict rest).take (count + 1) :=
                    fun member => notLater (List.mem_of_mem_take member)
                  apply Prod.ext
                  · simp
                  · simpa using assembled _ fewer

/-! ### Any order -/

/-- What an attempt leaves can be told from what was there. -/
def Visible (verdict : ι -> Verdict κ β) (list : List ι) (values : ι -> β) : Prop :=
  forall element left, element ∈ list -> (verdict element).attempted = some left ->
    left ≠ values element

/-- Whatever the order, the batch is the same. -/
def SameInAnyOrder (exhausted : κ) (verdict : ι -> Verdict κ β) (room : Option Nat)
    (list : List ι) (values : ι -> β) : Prop :=
  forall left right : List ι, left.Perm list -> right.Perm list ->
    batch exhausted verdict room left values = batch exhausted verdict room right values

theorem Uniform.same (uniform : Uniform exhausted verdict room list values)
    (distinct : list.Nodup) : SameInAnyOrder exhausted verdict room list values := by
  intro left right isLeft isRight
  rcases uniform with ⟨smooth, enough⟩ | ⟨stuck, agree⟩
  · have closed : forall order : List ι, order.Perm list ->
        batch exhausted verdict room order values =
          (match room with
            | some count => if count < (attempts verdict list).length then some exhausted else none
            | none => none,
          fun element =>
            if element ∈ attempts verdict list
            then ((verdict element).attempted).getD (values element) else values element) := by
      intro order isOrder
      have permuted : (attempts verdict order).Perm (attempts verdict list) := isOrder.filter _
      rw [batch_smooth (fun element member => smooth element (isOrder.subset member))
        (isOrder.nodup_iff.mpr distinct)]
      cases room with
      | none => simp only [permuted.mem_iff]
      | some count =>
          have whole : (attempts verdict order).take (count + 1) = attempts verdict order :=
            List.take_of_length_le (by rw [permuted.length_eq]; exact enough count rfl)
          simp only [whole, permuted.mem_iff, permuted.length_eq]
    rw [closed left isLeft, closed right isRight]
  · have first : forall order : List ι, order.Perm list ->
        batch exhausted verdict room order values =
          match order.findSome? (fun element =>
              ((verdict element).ending exhausted room).map fun ended => (element, ended)) with
          | some (element, kind, left) => (some kind, Function.update values element left)
          | none => (none, values) :=
      fun order isOrder => batch_stuck fun element member => stuck element (isOrder.subset member)
    rw [first left isLeft, first right isRight]
    cases atLeft : left.findSome? _ with
    | none =>
        have silent := List.findSome?_eq_none_iff.mp atLeft
        have silentToo := List.findSome?_eq_none_iff.mpr fun element member =>
          silent element ((isRight.trans isLeft.symm).subset member)
        rw [silentToo]
    | some answer =>
        rcases answer with ⟨found, kind, value⟩
        rcases List.exists_of_findSome?_eq_some atLeft with ⟨element, member, answers⟩
        rcases Option.map_eq_some_iff.mp answers with ⟨ended, ends, same⟩
        cases same
        cases atRight : right.findSome? _ with
        | none =>
            have silent := List.findSome?_eq_none_iff.mp atRight found
              ((isLeft.trans isRight.symm).subset member)
            rw [answers] at silent
            cases silent
        | some other =>
            rcases other with ⟨foundToo, kindToo, valueToo⟩
            rcases List.exists_of_findSome?_eq_some atRight with ⟨second, inRight, answersToo⟩
            rcases Option.map_eq_some_iff.mp answersToo with ⟨endedToo, endsToo, same⟩
            cases same
            rcases agree found foundToo kind kindToo value valueToo (isLeft.subset member)
              (isRight.subset inRight) ends endsToo with ⟨rfl, same | ⟨noTrace, noTraceToo⟩⟩
            · subst same
              rw [ends] at endsToo
              cases endsToo
              rfl
            · simp only [noTrace, noTraceToo, Function.update_eq_self]

/-- The order with an element in front. -/
theorem SameInAnyOrder.heads (same : SameInAnyOrder exhausted verdict room list values)
    {first second : ι} (inFirst : first ∈ list) (inSecond : second ∈ list) :
    Exists fun left : List ι => Exists fun right : List ι =>
      (first :: left).Perm list ∧ (second :: right).Perm list ∧
        batch exhausted verdict room (first :: left) values =
          batch exhausted verdict room (second :: right) values := by
  rcases exists_perm_cons inFirst with ⟨left, isLeft⟩
  rcases exists_perm_cons inSecond with ⟨right, isRight⟩
  exact ⟨left, right, isLeft, isRight, same _ _ isLeft isRight⟩

/-- An element that lets the batch go on shows, so nothing else may end it. -/
theorem SameInAnyOrder.smooth (same : SameInAnyOrder exhausted verdict room list values)
    (distinct : list.Nodup) (visible : Visible verdict list values) {goer : ι} {left : β}
    (member : goer ∈ list) (goes : (verdict goer).going room = some left) :
    forall element, element ∈ list -> (verdict element).Smooth := by
  have isAttempt := Verdict.attempt_of_going goes
  have seen : left ≠ values goer := visible goer left member (Verdict.attempted_of_going goes)
  intro element inList
  by_contra rough
  have ended : Exists fun kind => Exists fun value =>
      (verdict element).ending exhausted room = some (kind, value) := by
    cases isVerdict : verdict element with
    | pass =>
        rw [isVerdict] at rough
        exact absurd trivial rough
    | stop kind value => exact ⟨kind, value, rfl⟩
    | attempt value failure =>
        cases failure with
        | none =>
            rw [isVerdict] at rough
            exact absurd rfl rough
        | some kind => exact ⟨kind, value, if_neg isAttempt.2⟩
  rcases ended with ⟨kind, value, ends⟩
  have different : goer ≠ element := by
    rintro rfl
    rw [isAttempt.1, Verdict.ending, if_neg isAttempt.2] at ends
    cases ends
  rcases same.heads member inList with ⟨behindGoer, behindElement, isGoers, _, equal⟩
  have fresh : goer ∉ behindGoer := (List.nodup_cons.mp (isGoers.nodup_iff.mpr distinct)).1
  have atGoer := congrFun (congrArg Prod.snd equal) goer
  rw [batch_going goes, batch_untouched fresh, Function.update_self, batch_ending ends] at atGoer
  dsimp only at atGoer
  rw [Function.update_of_ne different] at atGoer
  exact seen atGoer

/-- When there is no room for the last but one attempt, the last shows which it was. -/
theorem SameInAnyOrder.enough {count : Nat}
    (same : SameInAnyOrder exhausted verdict (some count) list values) (distinct : list.Nodup)
    (visible : Visible verdict list values)
    (smooth : forall element, element ∈ list -> (verdict element).Smooth) :
    (attempts verdict list).length ≤ count + 1 := by
  by_contra many
  cases isAttempts : attempts verdict list with
  | nil =>
      rw [isAttempts] at many
      exact many (Nat.zero_le _)
  | cons first others =>
      rw [isAttempts, List.length_cons] at many
      have chosen : forall element, element ∈ first :: others ->
          element ∈ list ∧ (verdict element).attempted.isSome = true := by
        intro element member
        rw [← isAttempts] at member
        exact List.mem_filter.mp member
      -- the attempts in either order, and the elements passed over behind them
      have arranged : forall order : List ι, order.Perm (first :: others) ->
          Exists fun whole : List ι => whole.Perm list ∧ attempts verdict whole = order := by
        intro order isOrder
        refine ⟨order ++ list.filter fun element => !(verdict element).attempted.isSome, ?_, ?_⟩
        · have split := List.filter_append_perm
            (fun element => (verdict element).attempted.isSome) list
          rw [← isAttempts] at isOrder
          exact (isOrder.append_right _).trans split
        · have all : order.filter (fun element => (verdict element).attempted.isSome) = order :=
            List.filter_eq_self.mpr fun element member =>
              (chosen element (isOrder.subset member)).2
          have noMore : (list.filter fun element => !(verdict element).attempted.isSome).filter
              (fun element => (verdict element).attempted.isSome) = [] := by
            rw [List.filter_eq_nil_iff]
            intro element member attempted
            have not := (List.mem_filter.mp member).2
            rw [attempted] at not
            cases not
          rw [attempts, List.filter_append, all, noMore, List.append_nil]
      rcases arranged _ (List.Perm.refl _) with ⟨left, isLeft, attemptsLeft⟩
      rcases arranged _ (List.perm_append_singleton first others) with
        ⟨right, isRight, attemptsRight⟩
      have closed : forall order : List ι, order.Perm list ->
          batch exhausted verdict (some count) order values =
            (if count < (attempts verdict order).length then some exhausted else none,
            fun element => if element ∈ (attempts verdict order).take (count + 1)
              then ((verdict element).attempted).getD (values element) else values element) :=
        fun order isOrder => batch_smooth
          (fun element member => smooth element (isOrder.subset member))
          (isOrder.nodup_iff.mpr distinct)
      have equal := same left right isLeft isRight
      rw [closed left isLeft, closed right isRight, attemptsLeft, attemptsRight] at equal
      have atFirst := congrFun (Prod.mk.inj equal).2 first
      have fresh : first ∉ others := by
        have nodup : (first :: others).Nodup := by
          rw [← isAttempts]
          exact distinct.filter _
        exact (List.nodup_cons.mp nodup).1
      have notTaken : first ∉ (others ++ [first]).take (count + 1) := by
        rw [List.take_append_of_le_length (by omega)]
        exact fun member => fresh (List.mem_of_mem_take member)
      rcases chosen first List.mem_cons_self with ⟨inList, attempted⟩
      rcases Option.isSome_iff_exists.mp attempted with ⟨value, isValue⟩
      simp only [List.take_succ_cons, List.mem_cons_self, if_true, if_neg notTaken, isValue,
        Option.getD_some] at atFirst
      exact visible first value inList isValue atFirst

theorem SameInAnyOrder.uniform (same : SameInAnyOrder exhausted verdict room list values)
    (distinct : list.Nodup) (visible : Visible verdict list values) :
    Uniform exhausted verdict room list values := by
  by_cases stuck : forall element, element ∈ list -> (verdict element).going room = none
  · refine Or.inr ⟨stuck, ?_⟩
    intro first second kind other left right inFirst inSecond ends endsToo
    rcases same.heads inFirst inSecond with ⟨_, _, _, _, equal⟩
    rw [batch_ending ends, batch_ending endsToo] at equal
    refine ⟨Option.some.inj (congrArg Prod.fst equal), ?_⟩
    by_cases isSame : first = second
    · exact Or.inl isSame
    · have atFirst := congrFun (Prod.mk.inj equal).2 first
      have atSecond := congrFun (Prod.mk.inj equal).2 second
      rw [Function.update_self, Function.update_of_ne isSame] at atFirst
      rw [Function.update_self, Function.update_of_ne (Ne.symm isSame)] at atSecond
      exact Or.inr ⟨atFirst, atSecond.symm⟩
  · push Not at stuck
    rcases stuck with ⟨goer, member, goes⟩
    rcases Option.ne_none_iff_exists'.mp goes with ⟨left, isLeft⟩
    have smooth := same.smooth distinct visible member isLeft
    refine Or.inl ⟨smooth, ?_⟩
    rintro count rfl
    exact same.enough distinct visible smooth

end Batch

end AnyOrder
end Foundation
end NovaDb
