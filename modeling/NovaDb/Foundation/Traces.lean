import Mathlib.Data.List.Perm.Basic

namespace NovaDb
namespace Foundation

/-!
# Traces

Some pairs of steps are independent: taken one after the other, they may be taken in
the other order, and lead to the same state.  A trace is a word of steps up to the
exchange of independent neighbours.  All words of a trace that can be walked lead to
one state.

The states of a store are functions from places, and its steps do something at every
place.  Steps that may be exchanged at each place may be exchanged.
-/

/-! ## Words -/

/-- Words that differ by exchanges of independent neighbours. -/
inductive Swapped {α : Type} (independent : α -> α -> Prop) : List α -> List α -> Prop where
  | refl (word : List α) : Swapped independent word word
  | exchange {front back : List α} {first second : α} (apart : independent first second) :
      Swapped independent (front ++ first :: second :: back) (front ++ second :: first :: back)
  | trans {word middle other : List α} (left : Swapped independent word middle)
      (right : Swapped independent middle other) : Swapped independent word other

/-- Walks along words of steps. -/
inductive Walk {σ α : Type} (step : σ -> α -> σ -> Prop) : σ -> List α -> σ -> Prop where
  | stay (state : σ) : Walk step state [] state
  | move {start middle state : σ} {letter : α} {rest : List α}
      (moves : step start letter middle) (later : Walk step middle rest state) :
      Walk step start (letter :: rest) state

/-- Independent steps may be taken in the other order. -/
def Exchanges {σ α : Type} (step : σ -> α -> σ -> Prop) (independent : α -> α -> Prop) : Prop :=
  forall (start middle state : σ) (first second : α), independent first second ->
    step start first middle -> step middle second state ->
      Exists fun other => step start second other ∧ step other first state

section Words

variable {α β σ : Type} {independent : α -> α -> Prop} {word other : List α}

theorem Swapped.perm (swapped : Swapped independent word other) : word.Perm other := by
  induction swapped with
  | refl word => exact List.Perm.refl word
  | exchange apart => exact (List.Perm.swap _ _ _).append_left _
  | trans left right isLeft isRight => exact isLeft.trans isRight

theorem Swapped.symm (symmetric : forall first second, independent first second ->
    independent second first) (swapped : Swapped independent word other) :
    Swapped independent other word := by
  induction swapped with
  | refl word => exact .refl word
  | exchange apart => exact .exchange (symmetric _ _ apart)
  | trans left right isLeft isRight => exact isRight.trans isLeft

/-- Letters with something attached are exchanged along with their letters. -/
theorem Swapped.attach {label : β -> α} {labelled : List β}
    (swapped : Swapped independent word other) (isWord : labelled.map label = word) :
    Exists fun carried : List β => carried.map label = other ∧
      Swapped (fun first second => independent (label first) (label second)) labelled carried := by
  induction swapped generalizing labelled with
  | refl word => exact ⟨labelled, isWord, .refl labelled⟩
  | exchange apart =>
      rcases List.map_eq_append_iff.mp isWord with ⟨front, rest, rfl, rfl, isRest⟩
      rcases List.map_eq_cons_iff.mp isRest with ⟨first, others, rfl, rfl, isOthers⟩
      rcases List.map_eq_cons_iff.mp isOthers with ⟨second, back, rfl, rfl, rfl⟩
      exact ⟨front ++ second :: first :: back, by simp, .exchange apart⟩
  | trans left right isLeft isRight =>
      rcases isLeft isWord with ⟨middle, isMiddle, toMiddle⟩
      rcases isRight isMiddle with ⟨carried, isCarried, toCarried⟩
      exact ⟨carried, isCarried, toMiddle.trans toCarried⟩

variable {step : σ -> α -> σ -> Prop} {start middle state : σ}

theorem Walk.append {later : List α} (walk : Walk step start word middle)
    (walkOn : Walk step middle later state) : Walk step start (word ++ later) state := by
  induction walk with
  | stay state => exact walkOn
  | move moves later hypothesis => exact .move moves (hypothesis walkOn)

theorem Walk.split {later : List α} (walk : Walk step start (word ++ later) state) :
    Exists fun middle => Walk step start word middle ∧ Walk step middle later state := by
  induction word generalizing start with
  | nil => exact ⟨start, .stay start, walk⟩
  | cons letter rest hypothesis =>
      cases walk with
      | move moves walkOn =>
          rcases hypothesis walkOn with ⟨middle, walkRest, walkLater⟩
          exact ⟨middle, .move moves walkRest, walkLater⟩

/-- A walk leads to the same state in every order of the trace. -/
theorem Swapped.walk (exchanges : Exchanges step independent)
    (swapped : Swapped independent word other) (walk : Walk step start word state) :
    Walk step start other state := by
  induction swapped with
  | refl word => exact walk
  | @exchange front back first second apart =>
      rcases walk.split with ⟨before, walkFront, walkOn⟩
      cases walkOn with
      | move movesFirst walkOn =>
          cases walkOn with
          | move movesSecond walkBack =>
              rcases exchanges _ _ _ first second apart movesFirst movesSecond with
                ⟨between, secondMoves, firstMoves⟩
              exact walkFront.append (.move secondMoves (.move firstMoves walkBack))
  | trans left right isLeft isRight => exact isRight (isLeft walk)

end Words

/-! ## Places -/

/-- Something is done at every place. -/
def Everywhere {ι Cell : Type} (acts : ι -> Cell -> Cell -> Prop) (state next : ι -> Cell) :
    Prop :=
  forall place, acts place (state place) (next place)

/-- What may be exchanged at every place may be exchanged. -/
theorem Everywhere.exchange {ι Cell : Type} {first second : ι -> Cell -> Cell -> Prop}
    {state middle next : ι -> Cell} (isFirst : Everywhere first state middle)
    (isSecond : Everywhere second middle next)
    (exchanges : forall place before between after, first place before between ->
      second place between after -> Exists fun other =>
        second place before other ∧ first place other after) :
    Exists fun other => Everywhere second state other ∧ Everywhere first other next := by
  have some := fun place => exchanges place _ _ _ (isFirst place) (isSecond place)
  choose other secondActs firstActs using some
  exact ⟨other, secondActs, firstActs⟩

end Foundation
end NovaDb
