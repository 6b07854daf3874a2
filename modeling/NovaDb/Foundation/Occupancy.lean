import Mathlib

namespace NovaDb
namespace Foundation

/-!
# Keys held by tasks, and histories of keys

Two bookkeeping devices for tasks that run interleaved.  `Claims`: every task may
hold one key with a value, and when no key is held twice the claims are a partial
map, which changes at one key when a task takes or releases its claim.  `Mark`: a
history of keys put and taken, in which a key that is put only while it is absent
is taken between any two puts.
-/

theorem set_of_getElem? {α : Type} {list : List α} {index : Nat} {value : α}
    (held : list[index]? = some value) : list.set index value = list := by
  apply List.ext_getElem?
  intro other
  by_cases isIndex : index = other
  · subst isIndex
    rw [List.getElem?_set_self (List.getElem?_eq_some_iff.mp held).1, held]
  · rw [List.getElem?_set_ne isIndex]

/-! ## Claims -/

namespace Claims

variable {K V : Type} {claims : List (Option (K × V))} {map : K -> Option V}

/-- The claims, by task, are the map: no key is held twice. -/
structure Describes (claims : List (Option (K × V))) (map : K -> Option V) : Prop where
  claimed : forall {index : Nat} {key value}, claims[index]? = some (some (key, value)) ->
    map key = some value
  only : forall {key value}, map key = some value ->
    Exists fun index : Nat => claims[index]? = some (some (key, value))
  single : forall {left right : Nat} {key first second}, claims[left]? = some (some (key, first)) ->
    claims[right]? = some (some (key, second)) -> left = right

theorem describes_nil : Describes ([] : List (Option (K × V))) (fun _ => none) := by
  constructor
  · intro index key value found
    cases found
  · intro key value found
    cases found
  · intro left right key first second found
    cases found

/-- A new task without a claim. -/
theorem Describes.arrive (describes : Describes claims map) :
    Describes (claims ++ [none]) map := by
  have older : forall {index : Nat} {key value}, (claims ++ [none])[index]? = some (some (key, value)) ->
      claims[index]? = some (some (key, value)) := by
    intro index key value found
    by_cases inside : index < claims.length
    · rw [List.getElem?_append_left inside] at found
      exact found
    · rw [List.getElem?_append_right (Nat.le_of_not_lt inside)] at found
      cases List.mem_singleton.mp (List.mem_of_getElem? found)
  constructor
  · intro index key value found
    exact describes.claimed (older found)
  · intro key value found
    rcases describes.only found with ⟨index, isClaim⟩
    refine ⟨index, ?_⟩
    have inside := (List.getElem?_eq_some_iff.mp isClaim).1
    rw [List.getElem?_append_left inside]
    exact isClaim
  · intro left right key first second found alsoFound
    exact describes.single (older found) (older alsoFound)

/-- When no task holds a key, the map is empty. -/
theorem Describes.empty (describes : Describes claims map)
    (idle : forall claim, claim ∈ claims -> claim = none) (key : K) : map key = none := by
  cases held : map key with
  | none => rfl
  | some value =>
      rcases describes.only held with ⟨index, isClaim⟩
      cases idle _ (List.mem_of_getElem? isClaim)

/-- A task that keeps its claim. -/
theorem Describes.keep (describes : Describes claims map) {index : Nat} {claim : Option (K × V)}
    (held : claims[index]? = some claim) : Describes (claims.set index claim) map := by
  rw [set_of_getElem? held]
  exact describes

variable [DecidableEq K]

/-- A task takes a free key. -/
theorem Describes.take (describes : Describes claims map) {index : Nat} {key : K} (value : V)
    (idle : claims[index]? = some none) (free : map key = none) :
    Describes (claims.set index (some (key, value))) (Function.update map key (some value)) := by
  have inside := (List.getElem?_eq_some_iff.mp idle).1
  have unheld : forall {other : Nat} {second}, claims[other]? ≠ some (some (key, second)) := by
    intro other second found
    rw [describes.claimed found] at free
    cases free
  constructor
  · intro other otherKey otherValue found
    by_cases isIndex : index = other
    · subst isIndex
      rw [List.getElem?_set_self inside] at found
      cases found
      exact Function.update_self _ _ _
    · rw [List.getElem?_set_ne isIndex] at found
      rw [Function.update_of_ne]
      · exact describes.claimed found
      · intro sameKey
        subst sameKey
        exact unheld found
  · intro otherKey otherValue found
    by_cases sameKey : otherKey = key
    · subst sameKey
      rw [Function.update_self] at found
      cases found
      exact ⟨index, List.getElem?_set_self inside⟩
    · rw [Function.update_of_ne sameKey] at found
      rcases describes.only found with ⟨other, isClaim⟩
      refine ⟨other, ?_⟩
      rw [List.getElem?_set_ne]
      · exact isClaim
      · intro isIndex
        subst isIndex
        rw [idle] at isClaim
        cases isClaim
  · intro left right otherKey first second found alsoFound
    by_cases isLeft : index = left
    · by_cases isRight : index = right
      · exact isLeft.symm.trans isRight
      · subst isLeft
        rw [List.getElem?_set_self inside] at found
        cases found
        rw [List.getElem?_set_ne isRight] at alsoFound
        exact absurd alsoFound unheld
    · rw [List.getElem?_set_ne isLeft] at found
      by_cases isRight : index = right
      · subst isRight
        rw [List.getElem?_set_self inside] at alsoFound
        cases alsoFound
        exact absurd found unheld
      · rw [List.getElem?_set_ne isRight] at alsoFound
        exact describes.single found alsoFound

/-- A task releases its key. -/
theorem Describes.release (describes : Describes claims map) {index : Nat} {key : K} {value : V}
    (held : claims[index]? = some (some (key, value))) :
    Describes (claims.set index none) (Function.update map key none) := by
  have inside := (List.getElem?_eq_some_iff.mp held).1
  have elsewhere : forall {other : Nat} {otherKey otherValue},
      (claims.set index none)[other]? = some (some (otherKey, otherValue)) ->
        index ≠ other ∧ claims[other]? = some (some (otherKey, otherValue)) := by
    intro other otherKey otherValue found
    by_cases isIndex : index = other
    · subst isIndex
      rw [List.getElem?_set_self inside] at found
      cases found
    · rw [List.getElem?_set_ne isIndex] at found
      exact ⟨isIndex, found⟩
  constructor
  · intro other otherKey otherValue found
    rcases elsewhere found with ⟨different, isClaim⟩
    rw [Function.update_of_ne]
    · exact describes.claimed isClaim
    · intro sameKey
      subst sameKey
      exact different (describes.single held isClaim)
  · intro otherKey otherValue found
    by_cases sameKey : otherKey = key
    · subst sameKey
      rw [Function.update_self] at found
      cases found
    · rw [Function.update_of_ne sameKey] at found
      rcases describes.only found with ⟨other, isClaim⟩
      refine ⟨other, ?_⟩
      rw [List.getElem?_set_ne]
      · exact isClaim
      · intro isIndex
        subst isIndex
        cases held.symm.trans isClaim
        exact sameKey rfl
  · intro left right otherKey first second found alsoFound
    exact describes.single (elsewhere found).2 (elsewhere alsoFound).2

end Claims

/-! ## Histories -/

/-- A key put or taken by a task. -/
inductive Mark (K : Type) where
  | put (task : Nat) (key : K)
  | take (task : Nat) (key : K)

namespace Mark

variable {K : Type}

/-- Between two puts of a key it is taken. -/
def Alternates (history : List (Mark K)) : Prop :=
  forall earlier between later first second key,
    history = earlier ++ put first key :: (between ++ put second key :: later) ->
      Exists fun task => take task key ∈ between

theorem alternates_nil : Alternates ([] : List (Mark K)) := by
  intro earlier between later first second key isHistory
  have lengths := congrArg List.length isHistory
  simp at lengths

/-- A history grows by a mark that, if it puts a key, comes behind a taking of it. -/
theorem Alternates.snoc {history : List (Mark K)} (alternates : Alternates history) (mark : Mark K)
    (behind : forall earlier between first second key, mark = put second key ->
      history = earlier ++ put first key :: between -> Exists fun task => take task key ∈ between) :
    Alternates (history ++ [mark]) := by
  intro earlier between later first second key isHistory
  rcases List.eq_nil_or_concat' later with rfl | ⟨later, last, rfl⟩
  · have split : history ++ [mark] = (earlier ++ put first key :: between) ++ [put second key] := by
      rw [isHistory, List.append_assoc]
      rfl
    rcases List.append_inj' split rfl with ⟨front, back⟩
    exact behind earlier between first second key (List.singleton_inj.mp back) front
  · have split : history ++ [mark] =
        (earlier ++ put first key :: (between ++ put second key :: later)) ++ [last] := by
      rw [isHistory]
      simp only [List.append_assoc, List.cons_append]
    exact alternates earlier between later first second key (List.append_inj' split rfl).1

theorem Alternates.takes {history : List (Mark K)} (alternates : Alternates history) (task : Nat)
    (keys : List K) : Alternates (history ++ keys.map (take task)) := by
  induction keys generalizing history with
  | nil =>
      rw [List.map_nil, List.append_nil]
      exact alternates
  | cons key rest ih =>
      have grown : Alternates (history ++ [take task key]) := by
        apply alternates.snoc
        intro earlier between first second other isPut
        cases isPut
      rw [List.map_cons, ← List.singleton_append, ← List.append_assoc]
      exact ih grown

/-- The second mark is between the first and the last. -/
def Between (first second last : Mark K) (history : List (Mark K)) : Prop :=
  Exists fun earlier => Exists fun before => Exists fun after => Exists fun later =>
    history = earlier ++ first :: (before ++ second :: (after ++ last :: later))

/-- Two tasks that have both put a key have it taken in between. -/
theorem Alternates.between {history : List (Mark K)} (alternates : Alternates history)
    {first second : Nat} {key : K} (different : first ≠ second) (firstPut : put first key ∈ history)
    (secondPut : put second key ∈ history) :
    Exists fun task => Between (put first key) (take task key) (put second key) history ∨
      Between (put second key) (take task key) (put first key) history := by
  have ordered : forall {earlier between later left right},
      history = earlier ++ put left key :: (between ++ put right key :: later) ->
        Exists fun task => Between (put left key) (take task key) (put right key) history := by
    intro earlier between later left right isHistory
    rcases alternates earlier between later left right key isHistory with ⟨task, member⟩
    rcases List.append_of_mem member with ⟨before, after, rfl⟩
    refine ⟨task, earlier, before, after, later, ?_⟩
    rw [isHistory, List.append_assoc, List.cons_append]
  rcases List.append_of_mem firstPut with ⟨earlier, later, isHistory⟩
  rw [isHistory] at secondPut
  rcases List.mem_append.mp secondPut with inEarlier | inLater
  · rcases List.append_of_mem inEarlier with ⟨start, between, rfl⟩
    rw [List.append_assoc, List.cons_append] at isHistory
    rcases ordered isHistory with ⟨task, isBetween⟩
    exact ⟨task, Or.inr isBetween⟩
  · rcases List.mem_cons.mp inLater with same | inRest
    · cases same
      exact absurd rfl different
    · rcases List.append_of_mem inRest with ⟨between, last, rfl⟩
      rcases ordered isHistory with ⟨task, isBetween⟩
      exact ⟨task, Or.inl isBetween⟩

theorem mem_of_between {first second last : Mark K} {history : List (Mark K)}
    (between : Between first second last history ∨ Between last second first history) :
    second ∈ history := by
  rcases between with ⟨earlier, before, after, later, rfl⟩ | ⟨earlier, before, after, later, rfl⟩
  · simp
  · simp

variable [DecidableEq K]

/-- Whether the key is there after the mark. -/
def after (present : Bool) (key : K) : Mark K -> Bool
  | put _ other => if other = key then true else present
  | take _ other => if other = key then false else present

/-- Whether the key is there after the history. -/
def presentAfter (initially : Bool) (key : K) (history : List (Mark K)) : Bool :=
  history.foldl (fun present mark => mark.after present key) initially

theorem presentAfter_put (initially : Bool) (other : K) (history : List (Mark K)) (task : Nat)
    (key : K) :
    presentAfter initially other (history ++ [put task key]) =
      if other = key then true else presentAfter initially other history := by
  rw [presentAfter, List.foldl_append]
  change (if key = other then true else presentAfter initially other history) = _
  by_cases same : other = key
  · rw [if_pos same, if_pos same.symm]
  · rw [if_neg same, if_neg (Ne.symm same)]

theorem presentAfter_takes (initially : Bool) (key : K) (history : List (Mark K)) (task : Nat)
    (keys : List K) :
    presentAfter initially key (history ++ keys.map (take task)) =
      if key ∈ keys then false else presentAfter initially key history := by
  induction keys generalizing history with
  | nil =>
      rw [List.map_nil, List.append_nil, if_neg List.not_mem_nil]
  | cons other rest ih =>
      rw [List.map_cons, ← List.singleton_append, ← List.append_assoc, ih]
      have last : presentAfter initially key (history ++ [take task other]) =
          if other = key then false else presentAfter initially key history := by
        rw [presentAfter, List.foldl_append]
        rfl
      rw [last]
      by_cases same : other = key
      · subst same
        simp
      · simp [same, Ne.symm same]

/-- A key that is there stays until it is taken. -/
theorem presentAfter_of_not_taken {key : K} {history : List (Mark K)}
    (untaken : forall task, Mark.take task key ∉ history) : presentAfter true key history = true := by
  induction history with
  | nil => rfl
  | cons mark rest ih =>
      have restUntaken := fun task member => untaken task (List.mem_cons_of_mem mark member)
      have stays : mark.after true key = true := by
        cases mark with
        | put task other =>
            rw [after]
            split
            · rfl
            · rfl
        | take task other =>
            rw [after, if_neg]
            intro same
            subst same
            exact untaken task List.mem_cons_self
      change presentAfter (mark.after true key) key rest = true
      rw [stays]
      exact ih restUntaken

/-- A key is there only if it was at first or has been put. -/
theorem put_of_presentAfter {initially : Bool} {key : K} {history : List (Mark K)}
    (present : presentAfter initially key history = true) :
    initially = true ∨ Exists fun task => put task key ∈ history := by
  induction history generalizing initially with
  | nil => exact Or.inl present
  | cons mark rest ih =>
      rcases @ih (mark.after initially key) present with first | ⟨task, member⟩
      · cases mark with
        | put task other =>
            by_cases same : other = key
            · subst same
              exact Or.inr ⟨task, List.mem_cons_self⟩
            · rw [after, if_neg same] at first
              exact Or.inl first
        | take task other =>
            by_cases same : other = key
            · rw [after, if_pos same] at first
              cases first
            · rw [after, if_neg same] at first
              exact Or.inl first
      · exact Or.inr ⟨task, List.mem_cons_of_mem mark member⟩

/-- A key may be put while it is absent. -/
theorem Alternates.put {history : List (Mark K)} (alternates : Alternates history)
    {initially : Bool} {key : K} (absent : presentAfter initially key history = false) (task : Nat) :
    Alternates (history ++ [Mark.put task key]) := by
  apply alternates.snoc
  intro earlier between first second other isPut isHistory
  cases isPut
  by_contra untaken
  rw [not_exists] at untaken
  have present : presentAfter initially key history = true := by
    rw [isHistory, presentAfter, List.foldl_append, List.foldl_cons]
    change presentAfter (if key = key then true else _) key between = true
    rw [if_pos rfl]
    exact presentAfter_of_not_taken untaken
  rw [absent] at present
  cases present

end Mark
end Foundation
end NovaDb
