import Mathlib

namespace NovaDb
namespace Foundation

/-!
# Association lists walked by a comparison

A B-tree map and a hash map differ, for their users, only in the order in which
they keep entries.  Both are walks over a list of entries that stop at the entry
of the key: the ordered map also stops at the first greater key, a hash map never
does.  A comparison that never answers `lt` therefore gives the hash map, and one
`alter` serves both.

What the two need of the comparison is `Lawful`, on the keys of a domain: the
comparison decides equality there, and a key put in front of another is behind
every key that the walk to it passes.
-/

namespace KeyedList

variable {K V : Type}

/-- The value stored under the key. -/
def find (cmp : K -> K -> Ordering) (key : K) : List (K × V) -> Option V
  | [] => none
  | (other, value) :: rest =>
      match cmp key other with
      | .eq => some value
      | _ => find cmp key rest

/-- Replace what is stored under the key: `change` receives the current value
and returns the new one, `none` standing for an absent entry. -/
def alter (cmp : K -> K -> Ordering) (key : K) (change : Option V -> Option V) :
    List (K × V) -> List (K × V)
  | [] =>
      match change none with
      | some value => [(key, value)]
      | none => []
  | (other, current) :: rest =>
      match cmp key other with
      | .lt =>
          match change none with
          | some value => (key, value) :: (other, current) :: rest
          | none => (other, current) :: rest
      | .eq =>
          match change (some current) with
          | some value => (other, value) :: rest
          | none => rest
      | .gt => (other, current) :: alter cmp key change rest

/-- Store a value under the key. -/
def insert (cmp : K -> K -> Ordering) (key : K) (value : V) : List (K × V) -> List (K × V) :=
  alter cmp key (fun _ => some value)

/-- What a walk needs of the comparison, for the keys of a domain. -/
structure Lawful (cmp : K -> K -> Ordering) (Domain : K -> Prop) : Prop where
  eq_iff : forall {left right}, Domain left -> Domain right ->
    (cmp left right = .eq <-> left = right)
  gt_of_lt : forall {left right}, Domain left -> Domain right ->
    cmp left right = .lt -> cmp right left = .gt
  gt_trans : forall {key stop later}, Domain key -> Domain stop -> Domain later ->
    cmp key stop = .lt -> cmp later stop = .gt -> cmp later key = .gt

/-- The walk to a key passes every entry in front of it. -/
def Arranged (cmp : K -> K -> Ordering) (list : List (K × V)) : Prop :=
  list.Pairwise (fun earlier later => cmp later.1 earlier.1 = .gt)

/-- Every key lies in the domain. -/
def Within (Domain : K -> Prop) (list : List (K × V)) : Prop :=
  forall entry, entry ∈ list -> Domain entry.1

section Laws

variable {cmp : K -> K -> Ordering} {Domain : K -> Prop} {key : K} {list : List (K × V)}

theorem Within.tail {entry : K × V} (within : Within Domain (entry :: list)) :
    Within Domain list :=
  fun other member => within other (List.mem_cons_of_mem entry member)

/-- The keys of an arranged list are distinct. -/
theorem Arranged.keys_nodup (lawful : Lawful cmp Domain) (arranged : Arranged cmp list)
    (within : Within Domain list) : (list.map Prod.fst).Nodup := by
  rw [List.Nodup, List.pairwise_map]
  apply arranged.imp_of_mem
  intro earlier later earlierIn laterIn passes same
  have equal := (lawful.eq_iff (within later laterIn) (within earlier earlierIn)).mpr same.symm
  rw [equal] at passes
  cases passes

/-- A walk finds exactly the value stored under the key. -/
theorem find_eq_some_iff (lawful : Lawful cmp Domain) (inDomain : Domain key)
    (arranged : Arranged cmp list) (within : Within Domain list) {value : V} :
    find cmp key list = some value <-> (key, value) ∈ list := by
  induction list with
  | nil => simp only [find, reduceCtorEq, List.not_mem_nil]
  | cons entry rest ih =>
      rcases entry with ⟨other, current⟩
      have otherIn : Domain other := within (other, current) List.mem_cons_self
      have rearranged := List.pairwise_cons.mp arranged
      have tailCase := ih rearranged.2 within.tail
      rw [find]
      by_cases same : key = other
      · subst same
        rw [(lawful.eq_iff inDomain inDomain).mpr rfl]
        simp only [Option.some.injEq, List.mem_cons, Prod.mk.injEq, true_and]
        constructor
        · intro equal
          exact Or.inl equal.symm
        · rintro (equal | later)
          · exact equal.symm
          · have passes := rearranged.1 _ later
            rw [(lawful.eq_iff inDomain inDomain).mpr rfl] at passes
            cases passes
      · have notEqual : cmp key other ≠ .eq :=
          fun equal => same ((lawful.eq_iff inDomain otherIn).mp equal)
        have skip : (match cmp key other with
            | .eq => some current
            | _ => find cmp key rest) = find cmp key rest := by
          cases order : cmp key other with
          | lt => rfl
          | eq => exact absurd order notEqual
          | gt => rfl
        rw [skip, tailCase]
        simp only [List.mem_cons, Prod.mk.injEq, same, false_and, false_or]

theorem find_eq_none_iff (lawful : Lawful cmp Domain) (inDomain : Domain key)
    (arranged : Arranged cmp list) (within : Within Domain list) :
    find cmp key list = none <-> forall value, (key, value) ∉ list := by
  constructor
  · intro absent value member
    rw [(find_eq_some_iff lawful inDomain arranged within).mpr member] at absent
    cases absent
  · intro absent
    cases found : find cmp key list with
    | none => rfl
    | some value =>
        exact absurd ((find_eq_some_iff lawful inDomain arranged within).mp found) (absent value)

/-- The entry of a key, if it has a value. -/
def slot (key : K) (value : Option V) : List (K × V) :=
  (value.map (fun value => (key, value))).toList

theorem mem_slot {other : K} {value : V} {stored : Option V} :
    (other, value) ∈ slot key stored <-> other = key ∧ stored = some value := by
  cases stored with
  | none => simp [slot]
  | some current =>
      simp only [slot, Option.map_some, Option.toList_some, List.mem_singleton, Prod.mk.injEq,
        Option.some.injEq]
      constructor
      · rintro ⟨rfl, rfl⟩
        exact ⟨rfl, rfl⟩
      · rintro ⟨rfl, rfl⟩
        exact ⟨rfl, rfl⟩

/-- A walk splits the list at the place of the key, and an alteration changes
that place only. -/
theorem alter_decompose (lawful : Lawful cmp Domain) (inDomain : Domain key)
    (arranged : Arranged cmp list) (within : Within Domain list) :
    Exists fun front => Exists fun rest =>
      list = front ++ (slot key (find cmp key list) ++ rest) ∧
        (forall change, alter cmp key change list =
          front ++ (slot key (change (find cmp key list)) ++ rest)) ∧
        (forall entry, entry ∈ front -> cmp key entry.1 = .gt) ∧
        (forall entry, entry ∈ rest -> cmp entry.1 key = .gt) := by
  induction list with
  | nil =>
      refine ⟨[], [], rfl, ?_, ?_, ?_⟩
      · intro change
        rw [alter, find]
        cases change none <;> rfl
      · intro entry member
        cases member
      · intro entry member
        cases member
  | cons entry tail ih =>
      rcases entry with ⟨other, current⟩
      have otherIn : Domain other := within (other, current) List.mem_cons_self
      have parts := List.pairwise_cons.mp arranged
      cases order : cmp key other with
      | gt =>
          rcases ih parts.2 within.tail with ⟨front, rest, splits, alters, passed, behind⟩
          have found : find cmp key ((other, current) :: tail) = find cmp key tail := by
            rw [find, order]
          refine ⟨(other, current) :: front, rest, ?_, ?_, ?_, behind⟩
          · rw [found, List.cons_append, ← splits]
          · intro change
            rw [found, alter, order, List.cons_append, ← alters]
          · intro entry member
            rcases List.mem_cons.mp member with rfl | inFront
            · exact order
            · exact passed entry inFront
      | eq =>
          have same : key = other := (lawful.eq_iff inDomain otherIn).mp order
          subst same
          have found : find cmp key ((key, current) :: tail) = some current := by
            rw [find, order]
          refine ⟨[], tail, ?_, ?_, ?_, parts.1⟩
          · rw [found]
            rfl
          · intro change
            rw [found, alter, order]
            cases change (some current) <;> rfl
          · intro entry member
            cases member
      | lt =>
          have behind : forall entry, entry ∈ (other, current) :: tail -> cmp entry.1 key = .gt := by
            intro entry member
            rcases List.mem_cons.mp member with rfl | later
            · exact lawful.gt_of_lt inDomain otherIn order
            · exact lawful.gt_trans inDomain otherIn (within.tail entry later) order
                (parts.1 entry later)
          have found : find cmp key ((other, current) :: tail) = none := by
            rw [find_eq_none_iff lawful inDomain arranged within]
            intro value member
            have passes := behind (key, value) member
            rw [(lawful.eq_iff inDomain inDomain).mpr rfl] at passes
            cases passes
          refine ⟨[], (other, current) :: tail, ?_, ?_, ?_, behind⟩
          · rw [found]
            rfl
          · intro change
            rw [found, alter, order]
            cases change none <;> rfl
          · intro entry member
            cases member

/-- The entries after an alteration. -/
theorem mem_alter (lawful : Lawful cmp Domain) (inDomain : Domain key)
    (arranged : Arranged cmp list) (within : Within Domain list) {change : Option V -> Option V}
    {other : K} {value : V} :
    (other, value) ∈ alter cmp key change list <->
      (other = key ∧ change (find cmp key list) = some value) ∨
        (other ≠ key ∧ (other, value) ∈ list) := by
  rcases alter_decompose lawful inDomain arranged within with
    ⟨front, rest, splits, alters, passed, behind⟩
  have itself : cmp key key = .eq := (lawful.eq_iff inDomain inDomain).mpr rfl
  have outside : (other, value) ∈ front ∨ (other, value) ∈ rest -> other ≠ key := by
    rintro (inFront | inRest) rfl
    · have passes := passed _ inFront
      rw [itself] at passes
      cases passes
    · have passes := behind _ inRest
      rw [itself] at passes
      cases passes
  have membership : (other, value) ∈ list <-> (other, value) ∈ front ∨
      (other = key ∧ find cmp key list = some value) ∨ (other, value) ∈ rest := by
    rw [← mem_slot, ← List.mem_append, ← List.mem_append, ← splits]
  rw [alters, List.mem_append, List.mem_append, mem_slot]
  constructor
  · rintro (inFront | changed | inRest)
    · exact Or.inr ⟨outside (Or.inl inFront), membership.mpr (Or.inl inFront)⟩
    · exact Or.inl changed
    · exact Or.inr ⟨outside (Or.inr inRest), membership.mpr (Or.inr (Or.inr inRest))⟩
  · rintro (changed | ⟨different, member⟩)
    · exact Or.inr (Or.inl changed)
    · rcases membership.mp member with inFront | stored | inRest
      · exact Or.inl inFront
      · exact absurd stored.1 different
      · exact Or.inr (Or.inr inRest)

theorem alter_within (lawful : Lawful cmp Domain) (inDomain : Domain key)
    (arranged : Arranged cmp list) (within : Within Domain list)
    (change : Option V -> Option V) : Within Domain (alter cmp key change list) := by
  intro entry member
  rcases (mem_alter lawful inDomain arranged within).mp member with ⟨same, _⟩ | ⟨_, old⟩
  · rw [same]
    exact inDomain
  · exact within entry old

/-- An alteration keeps the list arranged. -/
theorem alter_arranged (lawful : Lawful cmp Domain) (inDomain : Domain key)
    (arranged : Arranged cmp list) (within : Within Domain list)
    (change : Option V -> Option V) : Arranged cmp (alter cmp key change list) := by
  rcases alter_decompose lawful inDomain arranged within with
    ⟨front, rest, splits, alters, passed, behind⟩
  have pieces : Arranged cmp (front ++ (slot key (find cmp key list) ++ rest)) := by
    rw [← splits]
    exact arranged
  rcases List.pairwise_append.mp pieces with ⟨frontArranged, backArranged, across⟩
  have restArranged := (List.pairwise_append.mp backArranged).2.1
  rw [alters]
  cases change (find cmp key list) with
  | none =>
      refine List.pairwise_append.mpr ⟨frontArranged, restArranged, ?_⟩
      intro earlier inFront later inRest
      exact across earlier inFront later (List.mem_append_right _ inRest)
  | some value =>
      refine List.pairwise_append.mpr
        ⟨frontArranged, List.pairwise_cons.mpr ⟨behind, restArranged⟩, ?_⟩
      intro earlier inFront later inBack
      rcases List.mem_cons.mp inBack with rfl | inRest
      · exact passed earlier inFront
      · exact across earlier inFront later (List.mem_append_right _ inRest)

end Laws

/-- Entries stored one after another into an empty map. -/
def collect (cmp : K -> K -> Ordering) (entries : List (K × V)) : List (K × V) :=
  entries.foldl (fun map entry => insert cmp entry.1 entry.2 map) []

/-- The order of entries is the order of their keys. -/
theorem Arranged.of_keys {W : Type} {cmp : K -> K -> Ordering} {list : List (K × V)}
    {other : List (K × W)} (arranged : Arranged cmp list)
    (keys : other.map Prod.fst = list.map Prod.fst) : Arranged cmp other := by
  have ordered : (list.map Prod.fst).Pairwise (fun earlier later => cmp later earlier = .gt) :=
    List.pairwise_map.mpr arranged
  rw [← keys] at ordered
  exact List.pairwise_map.mp ordered

theorem insert_last {cmp : K -> K -> Ordering} {key : K} {value : V} {list : List (K × V)}
    (behind : forall entry, entry ∈ list -> cmp key entry.1 = .gt) :
    insert cmp key value list = list ++ [(key, value)] := by
  induction list with
  | nil => rfl
  | cons entry rest ih =>
      rw [insert, alter, behind entry List.mem_cons_self]
      have tail := ih (fun other member => behind other (List.mem_cons_of_mem entry member))
      rw [insert] at tail
      rw [tail]
      rfl

/-- Arranged entries are stored in the order they have. -/
theorem collect_arranged {cmp : K -> K -> Ordering} {entries : List (K × V)}
    (arranged : Arranged cmp entries) : collect cmp entries = entries := by
  have loop : forall (rest stored : List (K × V)), Arranged cmp (stored ++ rest) ->
      rest.foldl (fun map entry => insert cmp entry.1 entry.2 map) stored = stored ++ rest := by
    intro rest
    induction rest with
    | nil =>
        intro stored _
        rw [List.append_nil]
        rfl
    | cons entry rest ih =>
        intro stored arranged
        have across := (List.pairwise_append.mp arranged).2.2
        rw [List.foldl_cons, insert_last (fun other member =>
          across other member entry List.mem_cons_self)]
        rw [List.append_cons stored entry rest] at arranged ⊢
        exact ih (stored ++ [entry]) arranged
  exact loop entries [] arranged

/-! ## Changing the values -/

theorem insert_mapValues {W : Type} (cmp : K -> K -> Ordering) (change : V -> W) (key : K)
    (value : V) (list : List (K × V)) :
    (insert cmp key value list).map (fun entry => (entry.1, change entry.2)) =
      insert cmp key (change value) (list.map fun entry => (entry.1, change entry.2)) := by
  induction list with
  | nil => rfl
  | cons entry rest ih =>
      rw [insert] at ih ⊢
      rw [List.map_cons, insert, alter, alter]
      cases cmp key entry.1 with
      | lt => rfl
      | eq => rfl
      | gt => rw [List.map_cons, ih, insert]

/-- Values may be changed before or after the entries are stored. -/
theorem collect_mapValues {W : Type} (cmp : K -> K -> Ordering) (change : V -> W)
    (entries : List (K × V)) :
    (collect cmp entries).map (fun entry => (entry.1, change entry.2)) =
      collect cmp (entries.map fun entry => (entry.1, change entry.2)) := by
  have loop : forall stored : List (K × V),
      (entries.foldl (fun map entry => insert cmp entry.1 entry.2 map) stored).map
          (fun entry => (entry.1, change entry.2)) =
        (entries.map fun entry => (entry.1, change entry.2)).foldl
          (fun map entry => insert cmp entry.1 entry.2 map)
          (stored.map fun entry => (entry.1, change entry.2)) := by
    induction entries with
    | nil => exact fun _ => rfl
    | cons entry rest ih =>
        intro stored
        rw [List.foldl_cons, ih, insert_mapValues]
        rfl
  exact loop []

/-! ## Keys in their own order -/

/-- A total order compares lawfully. -/
theorem lawful_compare [Ord K] [Std.TransOrd K] [Std.LawfulEqOrd K] :
    Lawful (compare : K -> K -> Ordering) (fun _ => True) where
  eq_iff _ _ := Std.compare_eq_iff_eq
  gt_of_lt _ _ less := Std.OrientedCmp.gt_of_lt less
  gt_trans _ _ _ less greater :=
    Std.OrientedCmp.gt_of_lt (Std.TransCmp.lt_trans less (Std.OrientedCmp.lt_of_gt greater))

section Stored

variable {cmp : K -> K -> Ordering} {sofar entries list : List (K × V)} {key : K} {value : V}
  {entry : K × V}

/-- Entries stored one after another. -/
def stored (cmp : K -> K -> Ordering) (sofar entries : List (K × V)) : List (K × V) :=
  entries.foldl (fun map entry => insert cmp entry.1 entry.2 map) sofar

variable (lawful : Lawful cmp (fun _ => True))

include lawful

theorem insert_arranged (arranged : Arranged cmp list) :
    Arranged cmp (insert cmp key value list) :=
  alter_arranged lawful trivial arranged (fun _ _ => trivial) _

theorem mem_insert (arranged : Arranged cmp list) :
    entry ∈ insert cmp key value list <->
      entry = (key, value) ∨ (entry.1 ≠ key ∧ entry ∈ list) := by
  rcases entry with ⟨other, content⟩
  rw [insert, mem_alter lawful trivial arranged (fun _ _ => trivial), Option.some.injEq,
    Prod.mk.injEq, eq_comm (a := value)]

theorem stored_arranged (arranged : Arranged cmp sofar) : Arranged cmp (stored cmp sofar entries) := by
  induction entries generalizing sofar with
  | nil => exact arranged
  | cons entry rest ih => exact ih (insert_arranged lawful arranged)

theorem mem_of_mem_stored (arranged : Arranged cmp sofar) (member : entry ∈ stored cmp sofar entries) :
    entry ∈ sofar ∨ entry ∈ entries := by
  induction entries generalizing sofar with
  | nil => exact Or.inl member
  | cons first rest ih =>
      rcases ih (insert_arranged lawful arranged) member with inMap | inRest
      · rcases (mem_insert lawful arranged).mp inMap with rfl | ⟨_, older⟩
        · exact Or.inr List.mem_cons_self
        · exact Or.inl older
      · exact Or.inr (List.mem_cons_of_mem first inRest)

/-- Entries of new and distinct keys are all kept. -/
theorem mem_stored (arranged : Arranged cmp sofar) (distinct : (entries.map Prod.fst).Nodup)
    (fresh : forall older, older ∈ sofar -> forall newer, newer ∈ entries -> older.1 ≠ newer.1) :
    entry ∈ stored cmp sofar entries <-> entry ∈ sofar ∨ entry ∈ entries := by
  induction entries generalizing sofar with
  | nil => simp [stored]
  | cons first rest ih =>
      rw [List.map_cons, List.nodup_cons] at distinct
      have freshRest : forall older, older ∈ insert cmp first.1 first.2 sofar ->
          forall newer, newer ∈ rest -> older.1 ≠ newer.1 := by
        intro older member newer later
        rcases (mem_insert lawful arranged).mp member with rfl | ⟨_, before⟩
        · intro same
          exact distinct.1 (List.mem_map.mpr ⟨newer, later, same.symm⟩)
        · exact fresh older before newer (List.mem_cons_of_mem first later)
      have step := ih (insert_arranged lawful arranged) distinct.2 freshRest
      have inserted := @mem_insert K V cmp sofar first.1 first.2 entry lawful arranged
      rw [stored, List.foldl_cons, ← stored, step, inserted, List.mem_cons]
      constructor
      · rintro ((same | ⟨_, before⟩) | later)
        · exact Or.inr (Or.inl same)
        · exact Or.inl before
        · exact Or.inr (Or.inr later)
      · rintro (before | same | later)
        · exact Or.inl (Or.inr ⟨fresh entry before first List.mem_cons_self, before⟩)
        · exact Or.inl (Or.inl same)
        · exact Or.inr later

end Stored

theorem arranged_collect [Ord K] [Std.TransOrd K] [Std.LawfulEqOrd K] (entries : List (K × V)) :
    Arranged compare (collect compare entries) :=
  stored_arranged lawful_compare List.Pairwise.nil

end KeyedList
end Foundation
end NovaDb
