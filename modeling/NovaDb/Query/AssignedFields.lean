import NovaDb.Query.Evaluator
import NovaDb.Storage.ReferencePlatform

namespace NovaDb
namespace Query

open Core Foundation

/-!
# Reading an assigned field

A field is read by following its dotted path through nested objects and, where
that leads nowhere, under the whole path as a key.  An assignment writes under
the whole path only.  So what an assigned path leads to through nested objects
hides the value assigned to it; `readsBack_iff` says that nothing else does.
-/

/-! ## Paths -/

/-- A path is one part, or its first part is a shorter path of one part. -/
theorem splitDots_cases (path : String) :
    splitDots path = [path] ∨
      Exists fun first => Exists fun next => Exists fun rest =>
        splitDots path = first :: next :: rest ∧ splitDots first = [first] := by
  rcases splitChars_cases '.' path.toList with ⟨_, whole⟩ | ⟨word, rest, free, _, whole⟩
  · left
    rw [splitDots, whole, List.map_singleton, String.ofList_toList]
  · right
    rcases List.exists_cons_of_ne_nil (splitChars_ne_nil '.' rest) with ⟨next, later, following⟩
    refine ⟨String.ofList word, String.ofList next, later.map String.ofList, ?_, ?_⟩
    · rw [splitDots, whole, following, List.map_cons, List.map_cons]
    · rw [splitDots, String.toList_ofList, splitChars_of_free free, List.map_singleton]

/-- The parts of one path begin the other: it is the other, or a prefix of it. -/
def Leads (path other : String) : Prop :=
  splitDots path <+: splitDots other

theorem Leads.first {path first : String} {rest : List String}
    (parts : splitDots path = first :: rest) (single : splitDots first = [first]) :
    Leads first path := by
  rw [Leads, single, parts]
  exact ⟨rest, rfl⟩

/-! ## Writing and reading -/

section Lookup

variable {V : Type} (key : String) (value : V) (entries : List (String × V))

theorem lookup_insert : (KeyedList.insert compare key value entries).lookup key = some value := by
  induction entries with
  | nil => exact List.lookup_cons_self
  | cons entry rest inductionHypothesis =>
      rcases entry with ⟨other, current⟩
      rw [KeyedList.insert, KeyedList.alter]
      split
      · exact List.lookup_cons_self
      · rename_i same
        rw [Std.compare_eq_iff_eq.mp same]
        exact List.lookup_cons_self
      · rename_i greater
        have different : (key == other) = false := by
          rw [beq_eq_false_iff_ne]
          rintro rfl
          rw [Std.compare_self] at greater
          cases greater
        rw [List.lookup_cons, different]
        exact inductionHypothesis

theorem lookup_insert_ne {other : String} (different : other ≠ key) :
    (KeyedList.insert compare key value entries).lookup other = entries.lookup other := by
  have notKey : (other == key) = false := beq_eq_false_iff_ne.mpr different
  induction entries with
  | nil => rw [KeyedList.insert, KeyedList.alter, List.lookup_cons, notKey]
  | cons entry rest inductionHypothesis =>
      rcases entry with ⟨head, current⟩
      rw [KeyedList.insert, KeyedList.alter]
      split
      · rw [List.lookup_cons, notKey]
      · rename_i same
        rw [← Std.compare_eq_iff_eq.mp same, List.lookup_cons, List.lookup_cons, notKey]
      · rw [List.lookup_cons, List.lookup_cons, ← inductionHypothesis]
        rfl

end Lookup

namespace Evaluator

/-- The value computed by the last assignment to a field. -/
def assignedValue (P : Platform) (doc : Document) (path : String) : List Assignment -> Option Value
  | [] => none
  | assign :: rest =>
      match eval P doc assign.expr with
      | .error _ => none
      | .ok value =>
          (assignedValue P (doc.insert assign.field value) path rest).or
            (if assign.field = path then some value else none)

/-- What a path of several parts leads to through nested objects. -/
def nestedValue (doc : Document) (path : String) : Option Value :=
  match splitDots path with
  | first :: next :: rest =>
      match doc.fields.lookup first with
      | some current => current.followPath (next :: rest)
      | none => none
  | _ => none

/-- No other assigned path is a prefix or an extension of this one. -/
def Isolated (assignments : List Assignment) (path : String) : Prop :=
  forall assign, assign ∈ assignments -> assign.field ≠ path ->
    ¬Leads assign.field path ∧ ¬Leads path assign.field

/-- The path is neither assigned nor a prefix or an extension of an assigned one. -/
def Apart (assignments : List Assignment) (path : String) : Prop :=
  forall assign, assign ∈ assignments -> ¬Leads assign.field path ∧ ¬Leads path assign.field

/-- Assigned fields read back, and the others read as before. -/
structure ReadsBack (P : Platform) (now : Int64) (doc : Document)
    (assignments : List Assignment) : Prop where
  assigned : forall path value, Isolated assignments path ->
    assignedValue P doc path assignments = some value ->
    eval P (applyAssignments P now doc assignments).1 (.field path) = .ok value
  others : forall path, Apart assignments path ->
    eval P (applyAssignments P now doc assignments).1 (.field path) = eval P doc (.field path)

/-- No isolated assigned path leads, through nested objects of the document, to a
value other than the one assigned. -/
def NothingHides (P : Platform) (doc : Document) (assignments : List Assignment) : Prop :=
  forall path value, Isolated assignments path -> assignedValue P doc path assignments = some value ->
    nestedValue doc path = none ∨ nestedValue doc path = some value

section Accepted

variable {P : Platform} {now : Int64} {doc : Document} {assignments : List Assignment}

/-- The first of several accepted assignments, and the acceptance of the others. -/
theorem accepted_cons {assign : Assignment} {rest : List Assignment}
    (accepted : (applyAssignments P now doc (assign :: rest)).2 = .ok ()) :
    Exists fun value => eval P doc assign.expr = .ok value ∧
      assign.field ≠ "id" ∧ assign.field ≠ "_id" ∧
      applyAssignments P now doc (assign :: rest) =
        applyAssignments P now (doc.insert assign.field value) rest := by
  rw [applyAssignments] at accepted ⊢
  split at accepted
  · cases accepted
  · rename_i value evaluated
    split at accepted
    · cases accepted
    · rename_i assignable
      rw [not_or] at assignable
      exact ⟨value, evaluated, assignable.1, assignable.2, if_neg (not_or.mpr assignable)⟩

/-- A key that is not assigned keeps its value. -/
theorem lookup_unassigned {key : String}
    (accepted : (applyAssignments P now doc assignments).2 = .ok ())
    (unassigned : forall assign, assign ∈ assignments -> assign.field ≠ key) :
    (applyAssignments P now doc assignments).1.fields.lookup key = doc.fields.lookup key := by
  induction assignments generalizing doc with
  | nil =>
      rw [applyAssignments] at accepted ⊢
      split at accepted
      · rename_i advanced moved
        rw [Document.advanceVersion] at moved
        split at moved <;> cases moved
        rfl
      · cases accepted
  | cons assign rest inductionHypothesis =>
      rcases accepted_cons accepted with ⟨value, _, _, _, later⟩
      rw [later] at accepted ⊢
      rw [inductionHypothesis accepted
        (fun other member => unassigned other (List.mem_cons_of_mem _ member))]
      exact lookup_insert_ne _ _ _ (unassigned assign List.mem_cons_self).symm

theorem assignedValue_cons {assign : Assignment} {rest : List Assignment} {value : Value}
    (evaluated : eval P doc assign.expr = .ok value) (path : String) :
    assignedValue P doc path (assign :: rest) =
      (assignedValue P (doc.insert assign.field value) path rest).or
        (if assign.field = path then some value else none) := by
  rw [assignedValue, evaluated]

theorem assignedValue_eq_none
    (accepted : (applyAssignments P now doc assignments).2 = .ok ()) {path : String} :
    assignedValue P doc path assignments = none <->
      forall assign, assign ∈ assignments -> assign.field ≠ path := by
  induction assignments generalizing doc with
  | nil => exact ⟨fun _ => nofun, fun _ => rfl⟩
  | cons assign rest inductionHypothesis =>
      rcases accepted_cons accepted with ⟨value, evaluated, _, _, later⟩
      rw [later] at accepted
      rw [assignedValue_cons evaluated, List.forall_mem_cons, ← inductionHypothesis accepted,
        Option.or_eq_none_iff, and_comm, ite_eq_right_iff]
      simp only [reduceCtorEq, imp_false, ne_eq]

/-- The value of the last assignment to a field is stored under its whole path. -/
theorem lookup_assigned {path : String} {value : Value}
    (accepted : (applyAssignments P now doc assignments).2 = .ok ())
    (assigned : assignedValue P doc path assignments = some value) :
    (applyAssignments P now doc assignments).1.fields.lookup path = some value ∧
      path ≠ "id" ∧ path ≠ "_id" := by
  induction assignments generalizing doc with
  | nil => cases assigned
  | cons assign rest inductionHypothesis =>
      rcases accepted_cons accepted with ⟨first, evaluated, notId, notUnderscore, later⟩
      rw [later] at accepted ⊢
      rw [assignedValue_cons evaluated] at assigned
      cases again : assignedValue P (doc.insert assign.field first) path rest with
      | some last =>
          rw [again, Option.some_or] at assigned
          exact inductionHypothesis accepted (again.trans assigned)
      | none =>
          rw [again, Option.none_or, Option.ite_none_right_eq_some] at assigned
          rcases assigned with ⟨rfl, same⟩
          refine ⟨?_, notId, notUnderscore⟩
          rw [lookup_unassigned accepted ((assignedValue_eq_none accepted).mp again), ← same]
          exact lookup_insert _ _ _

end Accepted

/-- A path of one part reads the field of that name. -/
theorem fieldValue_of_single {doc : Document} {path : String} (notId : path ≠ "id")
    (notUnderscore : path ≠ "_id") (single : splitDots path = [path]) :
    doc.fieldValue path = doc.fields.lookup path ∧ nestedValue doc path = none := by
  constructor
  · have followed : doc.getPath path = doc.fields.lookup path := by
      rw [Document.getPath, if_neg (not_or.mpr ⟨notUnderscore, notId⟩), single]
      cases field : doc.fields.lookup path <;> simp only [field, Value.followPath]
    rw [Document.fieldValue, followed, Option.or_self]
  · rw [nestedValue, single]

theorem nestedValue_of_parts {doc : Document} {path first next : String} {rest : List String}
    (parts : splitDots path = first :: next :: rest) :
    nestedValue doc path =
      match doc.fields.lookup first with
      | some current => current.followPath (next :: rest)
      | none => none := by
  rw [nestedValue, parts]

/-- A path of several parts reads what it leads to, before the field of its name. -/
theorem fieldValue_of_parts {doc : Document} {path first next : String} {rest : List String}
    (notId : path ≠ "id") (notUnderscore : path ≠ "_id")
    (parts : splitDots path = first :: next :: rest) :
    doc.fieldValue path = (nestedValue doc path).or (doc.fields.lookup path) := by
  rw [Document.fieldValue, Document.getPath, if_neg (not_or.mpr ⟨notUnderscore, notId⟩),
    nestedValue_of_parts parts]
  cases found : doc.fields.lookup first with
  | none => simp [parts, found]
  | some current => simp [parts, found]

theorem eval_field {P : Platform} {doc : Document} {path : String} (notId : path ≠ "id")
    (notUnderscore : path ≠ "_id") :
    eval P doc (.field path) = .ok ((doc.fieldValue path).getD .null) := by
  rw [eval, fieldRef, if_neg (not_or.mpr ⟨notId, notUnderscore⟩)]

section Accepted

variable {P : Platform} {now : Int64} {doc : Document} {assignments : List Assignment}

/-- What a path leads to depends on its first part only. -/
theorem nestedValue_congr {doc after : Document} {path : String}
    (first : forall key, splitDots key = [key] -> key ≠ path -> Leads key path ->
      after.fields.lookup key = doc.fields.lookup key) :
    nestedValue after path = nestedValue doc path := by
  rcases splitDots_cases path with single | ⟨head, next, rest, parts, headSingle⟩
  · rw [nestedValue, nestedValue, single]
  · have notPath : head ≠ path := by
      rintro rfl
      rw [parts] at headSingle
      cases headSingle
    rw [nestedValue_of_parts parts, nestedValue_of_parts parts,
      first head headSingle notPath (.first parts headSingle)]

/-- An isolated assigned path reads back exactly if nothing nested hides it. -/
theorem eval_assigned_iff (accepted : (applyAssignments P now doc assignments).2 = .ok ())
    {path : String} {value : Value} (isolated : Isolated assignments path)
    (assigned : assignedValue P doc path assignments = some value) :
    eval P (applyAssignments P now doc assignments).1 (.field path) = .ok value <->
      nestedValue doc path = none ∨ nestedValue doc path = some value := by
  rcases lookup_assigned accepted assigned with ⟨stored, notId, notUnderscore⟩
  rw [eval_field notId notUnderscore, Except.ok.injEq]
  rcases splitDots_cases path with single | ⟨first, next, rest, parts, _⟩
  · rw [(fieldValue_of_single notId notUnderscore single).1, stored,
      (fieldValue_of_single notId notUnderscore single).2]
    exact ⟨fun _ => .inl rfl, fun _ => rfl⟩
  · have nested : nestedValue (applyAssignments P now doc assignments).1 path =
        nestedValue doc path := by
      refine nestedValue_congr (fun key _ notPath leads => ?_)
      apply lookup_unassigned accepted
      rintro assign member rfl
      exact (isolated assign member notPath).1 leads
    rw [fieldValue_of_parts notId notUnderscore parts, nested, stored]
    cases nestedValue doc path with
    | none => exact ⟨fun _ => .inl rfl, fun _ => rfl⟩
    | some hidden => simp

/-- A path apart from the assigned ones reads as before. -/
theorem eval_apart (accepted : (applyAssignments P now doc assignments).2 = .ok ())
    {path : String} (apart : Apart assignments path) :
    eval P (applyAssignments P now doc assignments).1 (.field path) = eval P doc (.field path) := by
  have own : (applyAssignments P now doc assignments).1.fields.lookup path =
      doc.fields.lookup path := by
    apply lookup_unassigned accepted
    rintro assign member rfl
    exact (apart assign member).1 (List.prefix_refl _)
  have nested : nestedValue (applyAssignments P now doc assignments).1 path =
      nestedValue doc path := by
    refine nestedValue_congr (fun key _ _ leads => ?_)
    apply lookup_unassigned accepted
    rintro assign member rfl
    exact (apart assign member).1 leads
  by_cases isId : path = "id" ∨ path = "_id"
  · rw [eval, eval, fieldRef, fieldRef, if_pos isId, if_pos isId, applyAssignments_id]
  · rcases not_or.mp isId with ⟨notId, notUnderscore⟩
    rw [eval_field notId notUnderscore, eval_field notId notUnderscore]
    rcases splitDots_cases path with single | ⟨first, next, rest, parts, _⟩
    · rw [(fieldValue_of_single notId notUnderscore single).1,
        (fieldValue_of_single notId notUnderscore single).1, own]
    · rw [fieldValue_of_parts notId notUnderscore parts,
        fieldValue_of_parts notId notUnderscore parts, nested, own]

/-- Accepted assignments read back, and leave the other fields alone, exactly if no
isolated assigned path is hidden by what it leads to through the nested objects of the
document, which the evaluator looks into before the stored field.  -/
theorem readsBack_iff (accepted : (applyAssignments P now doc assignments).2 = .ok ()) :
    ReadsBack P now doc assignments <-> NothingHides P doc assignments := by
  constructor
  · intro readsBack path value isolated assigned
    exact (eval_assigned_iff accepted isolated assigned).mp
      (readsBack.assigned path value isolated assigned)
  · intro nothingHides
    refine ⟨?_, fun path apart => eval_apart accepted apart⟩
    intro path value isolated assigned
    exact (eval_assigned_iff accepted isolated assigned).mpr
      (nothingHides path value isolated assigned)

end Accepted

/-- A document with a profile that has an e-mail address. -/
def withProfile : Document :=
  ⟨⟨"a"⟩, 1, 0, 0, [("profile", .object [("email", .string "old")])]⟩

theorem readsBack_iff_sample :
    let assignments : List Assignment := [⟨"profile.phone", .literal (.int 5)⟩]
    (applyAssignments (Storage.referencePlatform false []) 0 withProfile assignments).2 = .ok () ∧
      (ReadsBack (Storage.referencePlatform false []) 0 withProfile assignments <->
        NothingHides (Storage.referencePlatform false []) withProfile assignments) :=
  ⟨rfl, readsBack_iff rfl⟩

/-- Assigned to, the e-mail address of the profile still reads as before. -/
theorem nested_not_readsBack :
    let assignments : List Assignment := [⟨"profile.email", .literal (.string "new")⟩]
    (applyAssignments (Storage.referencePlatform false []) 0 withProfile assignments).2 = .ok () ∧
      ¬ReadsBack (Storage.referencePlatform false []) 0 withProfile assignments := by
  refine ⟨rfl, fun readsBack => ?_⟩
  have isolated : Isolated [⟨"profile.email", .literal (.string "new")⟩] "profile.email" := by
    intro assign member different
    rw [List.mem_singleton.mp member] at different
    exact absurd rfl different
  have read := readsBack.assigned "profile.email" (.string "new") isolated rfl
  have old : eval (Storage.referencePlatform false [])
      (applyAssignments (Storage.referencePlatform false []) 0 withProfile
        [⟨"profile.email", .literal (.string "new")⟩]).1 (.field "profile.email") =
      .ok (.string "old") := by rfl
  rw [old] at read
  exact absurd (Value.string.inj (Except.ok.inj read)) (by decide)

end Evaluator

end Query
end NovaDb
