import Mathlib

namespace NovaDb
namespace Foundation
namespace LastWriter

/-!
# Logs in which the last write wins

A log of records each of which writes one key of a memory, or none, is read by
applying them in order.  What the memory holds at a key is what the last record wrote
there.  So records of different keys may change places, and a record that a later one
overwrites may go.
-/

variable {ρ K V : Type} [DecidableEq K] (write : ρ -> Option (K × V))

def step (memory : K -> V) (record : ρ) : K -> V :=
  match write record with
  | none => memory
  | some (key, value) => Function.update memory key value

def run (memory : K -> V) (records : List ρ) : K -> V :=
  records.foldl (step write) memory

/-- What a record writes at one key. -/
def writesTo (key : K) (record : ρ) : Option V :=
  match write record with
  | none => none
  | some (written, value) => if written = key then some value else none

/-- What the last record that writes at the key writes there. -/
def last (key : K) (records : List ρ) : Option V :=
  records.reverse.findSome? (writesTo write key)

variable {write} {memory : K -> V} {key : K}

theorem step_apply (memory : K -> V) (record : ρ) (key : K) :
    step write memory record key = (writesTo write key record).getD (memory key) := by
  unfold step writesTo
  cases write record with
  | none => rfl
  | some written =>
      rcases written with ⟨place, value⟩
      by_cases same : place = key
      · subst same
        simp only [Function.update_self, if_true, Option.getD_some]
      · simp only [Function.update_of_ne (Ne.symm same), same, if_false, Option.getD_none]

theorem last_append (front behind : List ρ) :
    last write key (front ++ behind) = (last write key behind).or (last write key front) := by
  rw [last, List.reverse_append, List.findSome?_append]
  rfl

theorem last_singleton (record : ρ) : last write key [record] = writesTo write key record := by
  rw [last, List.reverse_singleton, List.findSome?_cons]
  cases writesTo write key record <;> rfl

/-- The memory holds the last write. -/
theorem run_apply (memory : K -> V) (records : List ρ) (key : K) :
    run write memory records key = (last write key records).getD (memory key) := by
  induction records using List.reverseRecOn with
  | nil => rfl
  | append_singleton records record ih =>
      rw [run, List.foldl_append, List.foldl_cons, List.foldl_nil, step_apply, last_append,
        last_singleton]
      cases writesTo write key record with
      | none => exact ih
      | some value => rfl

/-- The last write stands in the log, and none comes behind it. -/
theorem last_eq_some_iff {records : List ρ} {value : V} :
    last write key records = some value <->
      Exists fun front => Exists fun record => Exists fun behind =>
        records = front ++ record :: behind ∧ writesTo write key record = some value ∧
          forall later, later ∈ behind -> writesTo write key later = none := by
  rw [last, List.findSome?_eq_some_iff]
  constructor
  · rintro ⟨behind, record, front, splits, writes, silent⟩
    refine ⟨front.reverse, record, behind.reverse, ?_, writes, ?_⟩
    · rw [← List.reverse_reverse records, splits]
      simp
    · intro later member
      exact silent later (List.mem_reverse.mp member)
  · rintro ⟨front, record, behind, rfl, writes, silent⟩
    refine ⟨behind.reverse, record, front.reverse, by simp, writes, ?_⟩
    intro later member
    exact silent later (List.mem_reverse.mp member)

/-- Only the writes at each key count, in their order. -/
theorem run_congr {records others : List ρ}
    (same : forall key, records.filterMap (writesTo write key) =
      others.filterMap (writesTo write key)) :
    run write memory records = run write memory others := by
  funext key
  have lastOf : forall list : List ρ,
      last write key list = (list.filterMap (writesTo write key)).getLast? := by
    intro list
    rw [last, ← List.head?_filterMap, List.filterMap_reverse, List.head?_reverse]
  rw [run_apply, run_apply, lastOf, lastOf, same key]

/-- A record may go if each of its writes is overwritten. -/
theorem run_drop {front behind : List ρ} {record : ρ}
    (superseded : forall key value, writesTo write key record = some value ->
      Exists fun later => later ∈ behind ∧ (writesTo write key later).isSome = true) :
    run write memory (front ++ record :: behind) = run write memory (front ++ behind) := by
  funext key
  rw [run_apply, run_apply]
  apply congrArg (fun found => Option.getD found (memory key))
  rw [last_append, last_append, ← List.singleton_append, last_append, last_singleton]
  cases writes : writesTo write key record with
  | none => rw [Option.or_none]
  | some value =>
      rcases superseded key value writes with ⟨later, member, writesToo⟩
      have found : (last write key behind).isSome = true := by
        rw [last, List.findSome?_isSome_iff]
        exact ⟨later, List.mem_reverse.mpr member, writesToo⟩
      rcases Option.isSome_iff_exists.mp found with ⟨latest, isLatest⟩
      rw [isLatest]
      rfl

end LastWriter
end Foundation
end NovaDb
