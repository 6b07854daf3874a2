import NovaDb.Query.AssignedFields

namespace NovaDb
namespace Query

open Core Foundation

/-!
# What an expression reads

An expression reads a document under the keys of its paths: the first part of a path,
and the whole path.  Documents of one id that have the same under these keys give it
the same value, or the same fault.  So assignments to other keys do not show in it,
and two lists of assignments neither of which writes what the other reads or writes
may be made in either order.
-/

/-! ## Keys -/

/-- The keys under which a field reference is looked up. -/
def keysOfPath (path : String) : List String :=
  if path = "id" ∨ path = "_id" then [] else path :: (splitDots path).head?.toList

mutual

/-- The keys an expression reads. -/
def Expr.keys : Expr -> List String
  | .literal _ => []
  | .field path => keysOfPath path
  | .binary _ left right => left.keys ++ right.keys
  | .unary _ expr => expr.keys
  | .isIn expr list => expr.keys ++ keysOfList list
  | .between expr min max => expr.keys ++ (min.keys ++ max.keys)

def Expr.keysOfList : List Expr -> List String
  | [] => []
  | item :: rest => item.keys ++ keysOfList rest

end

/-- The keys a filter reads. -/
def filterKeys : Option Expr -> List String
  | none => []
  | some expr => expr.keys

/-- Documents of one id that have the same under some keys. -/
structure AgreeOn (keys : List String) (left right : Document) : Prop where
  id : left.id = right.id
  fields : forall key, key ∈ keys -> left.fields.lookup key = right.fields.lookup key

theorem AgreeOn.fewer {keys more : List String} {left right : Document}
    (agree : AgreeOn more left right) (fewer : keys ⊆ more) : AgreeOn keys left right :=
  ⟨agree.id, fun key member => agree.fields key (fewer member)⟩

namespace Evaluator

section Agreement

variable {P : Platform} {left right : Document}

theorem fieldRef_agree {path : String} (agree : AgreeOn (keysOfPath path) left right) :
    fieldRef path left = fieldRef path right := by
  unfold fieldRef
  by_cases isId : path = "id" ∨ path = "_id"
  · rw [if_pos isId, if_pos isId, agree.id]
  · have isUnderscore : ¬(path = "_id" ∨ path = "id") := fun other => isId other.symm
    have read := agree.fields
    rw [keysOfPath, if_neg isId] at read
    have whole := read path List.mem_cons_self
    rw [if_neg isId, if_neg isId, Document.fieldValue, Document.fieldValue, whole,
      Document.getPath, Document.getPath, if_neg isUnderscore, if_neg isUnderscore]
    cases parts : splitDots path with
    | nil => rfl
    | cons first rest =>
        rw [parts] at read
        simp only
        rw [read first (List.mem_cons_of_mem _ (List.mem_singleton_self _))]

mutual

/-- An expression has one value on documents that agree on its keys.  The induction is
on the expression. -/
theorem eval_agree : (expr : Expr) -> AgreeOn expr.keys left right ->
    eval P left expr = eval P right expr
  | .literal _, _ => rfl
  | .field _, agree => congrArg Except.ok (fieldRef_agree agree)
  | .unary op expr, agree => by
      have same := eval_agree expr agree
      cases op with
      | not => rw [eval, eval, same]
      | negate => rw [eval, eval, same]
  | .binary op first second, agree => by
      have sameFirst := eval_agree first (agree.fewer (List.subset_append_left _ _))
      have sameSecond := eval_agree second (agree.fewer (List.subset_append_right _ _))
      cases op with
      | and | or | eq | notEq | gt | gtEq | lt | ltEq | plus | minus | multiply | divide
      | modulo => simp only [eval, sameFirst, sameSecond]
  | .between expr min max, agree => by
      have same := eval_agree expr (agree.fewer (List.subset_append_left _ _))
      have bounds := agree.fewer (List.subset_append_right expr.keys _)
      have sameMin := eval_agree min (bounds.fewer (List.subset_append_left _ _))
      have sameMax := eval_agree max (bounds.fewer (List.subset_append_right _ _))
      simp only [eval, same, sameMin, sameMax]
  | .isIn expr list, agree => by
      have same := eval_agree expr (agree.fewer (List.subset_append_left _ _))
      have sameIn := evalIn_agree list (agree.fewer (List.subset_append_right _ _))
      simp only [eval, same, sameIn]

theorem evalIn_agree : (list : List Expr) -> AgreeOn (Expr.keysOfList list) left right ->
    forall value, evalIn P left value list = evalIn P right value list
  | [], _, _ => rfl
  | item :: rest, agree, value => by
      have same := eval_agree item (agree.fewer (List.subset_append_left _ _))
      have others := evalIn_agree rest (agree.fewer (List.subset_append_right _ _)) value
      simp only [evalIn, same, others]

end

theorem matchesFilter_agree {filter : Option Expr} (agree : AgreeOn (filterKeys filter) left right) :
    matchesFilter P filter left = matchesFilter P filter right := by
  cases filter with
  | none => rfl
  | some expr => rw [matchesFilter, matchesFilter, eval_agree expr agree]

end Agreement

/-! ## Writing fields -/

section Keys

variable {V : Type} {left right : String} {first second : V}

/-- The step of the walk to a key. -/
theorem insert_cons (key : String) (value : V) (entry : String × V)
    (rest : List (String × V)) :
    KeyedList.insert compare key value (entry :: rest) =
      match compare key entry.1 with
      | .lt => (key, value) :: entry :: rest
      | .eq => (entry.1, value) :: rest
      | .gt => entry :: KeyedList.insert compare key value rest := by
  rfl

theorem insert_comm_of_lt (less : compare left right = .lt) (entries : List (String × V)) :
    KeyedList.insert compare left first (KeyedList.insert compare right second entries) =
      KeyedList.insert compare right second (KeyedList.insert compare left first entries) := by
  have greater : compare right left = .gt := Std.OrientedCmp.gt_of_lt less
  induction entries with
  | nil =>
      change KeyedList.insert compare left first [(right, second)] =
        KeyedList.insert compare right second [(left, first)]
      rw [insert_cons, insert_cons, less, greater]
      rfl
  | cons entry rest hypothesis =>
      -- the smaller key stands where the larger one does, or in front of it
      cases isRight : compare right entry.1 with
      | lt =>
          have isLeft : compare left entry.1 = .lt := Std.TransCmp.lt_trans less isRight
          simp only [insert_cons, isLeft, isRight, less, greater]
      | eq =>
          have isLeft : compare left entry.1 = .lt := Std.compare_eq_iff_eq.mp isRight ▸ less
          simp only [insert_cons, isLeft, isRight, greater]
      | gt =>
          cases isLeft : compare left entry.1 with
          | lt => simp only [insert_cons, isLeft, isRight, greater]
          | eq => simp only [insert_cons, isLeft, isRight]
          | gt => simp only [insert_cons, isLeft, isRight, hypothesis]

/-- Fields under different keys may be set in either order. -/
theorem insert_comm (different : left ≠ right) (entries : List (String × V)) :
    KeyedList.insert compare left first (KeyedList.insert compare right second entries) =
      KeyedList.insert compare right second (KeyedList.insert compare left first entries) := by
  cases order : compare left right with
  | lt => exact insert_comm_of_lt order entries
  | eq => exact absurd (Std.compare_eq_iff_eq.mp order) different
  | gt => exact (insert_comm_of_lt (Std.OrientedCmp.lt_of_gt order) entries).symm

end Keys

section Writing

variable {P : Platform} {now : Int64} {doc middle after : Document}
  {assignments others : List Assignment}

/-- Assignments that succeed, before the version advances. -/
inductive Writes (P : Platform) : List Assignment -> Document -> Document -> Prop where
  | nil (doc : Document) : Writes P [] doc doc
  | cons {assign : Assignment} {rest : List Assignment} {doc after : Document} {value : Value}
      (evaluated : eval P doc assign.expr = .ok value)
      (notId : ¬(assign.field = "id" ∨ assign.field = "_id"))
      (later : Writes P rest (doc.insert assign.field value) after) :
      Writes P (assign :: rest) doc after

/-- What an UPDATE does that applies all its assignments. -/
theorem applyAssignments_ok_iff :
    applyAssignments P now doc assignments = (after, .ok ()) <->
      Exists fun written => Writes P assignments doc written ∧
        written.advanceVersion P.overflowChecks now = .ok after := by
  induction assignments generalizing doc with
  | nil =>
      rw [applyAssignments]
      constructor
      · intro assigns
        split at assigns
        · rename_i advanced isAdvanced
          cases assigns
          exact ⟨doc, .nil doc, isAdvanced⟩
        · cases assigns
      · rintro ⟨written, writes, advances⟩
        cases writes
        rw [advances]
  | cons assign rest hypothesis =>
      rw [applyAssignments]
      constructor
      · intro assigns
        split at assigns
        · cases assigns
        · rename_i value evaluated
          split at assigns
          · cases assigns
          · rename_i notId
            rcases hypothesis.mp assigns with ⟨written, writes, advances⟩
            exact ⟨written, .cons evaluated notId writes, advances⟩
      · rintro ⟨written, writes, advances⟩
        cases writes with
        | cons evaluated notId later =>
            rw [evaluated]
            simp only
            rw [if_neg notId]
            exact hypothesis.mpr ⟨written, later, advances⟩

/-- Assigned keys are none of these. -/
def Spares (assignments : List Assignment) (keys : List String) : Prop :=
  forall assign, assign ∈ assignments -> assign.field ∉ keys

/-- No key of the assignments is read or written by the others. -/
structure Unseen (assignments others : List Assignment) : Prop where
  read : forall other, other ∈ others -> Spares assignments other.expr.keys
  written : Spares assignments (others.map Assignment.field)

theorem Unseen.tail {assign : Assignment} (unseen : Unseen (assign :: assignments) others) :
    Unseen assignments others :=
  ⟨fun other member one isOne => unseen.read other member one (List.mem_cons_of_mem _ isOne),
    fun one isOne => unseen.written one (List.mem_cons_of_mem _ isOne)⟩

/-- Other keys keep their values. -/
theorem Writes.agreeOn {keys : List String} (writes : Writes P assignments doc after)
    (spares : Spares assignments keys) : AgreeOn keys after doc := by
  induction writes with
  | nil doc => exact ⟨rfl, fun _ _ => rfl⟩
  | @cons assign rest doc after value evaluated notId later hypothesis =>
      have agree := hypothesis fun other member => spares other (List.mem_cons_of_mem _ member)
      refine ⟨agree.id, ?_⟩
      intro key member
      rw [agree.fields key member]
      refine lookup_insert_ne _ _ _ ?_
      rintro rfl
      exact spares assign List.mem_cons_self member

theorem advanceVersion_ok {checks : Bool}
    (advances : doc.advanceVersion checks now = .ok after) :
    after = { doc with version := doc.version + 1, updatedAt := now } ∧
      ¬(checks && doc.version == 0xFFFFFFFFFFFFFFFF) = true := by
  unfold Document.advanceVersion at advances
  split at advances
  · cases advances
  · rename_i room
    exact ⟨(Except.ok.inj advances).symm, room⟩

theorem agreeOn_assigned {keys : List String}
    (assigns : applyAssignments P now doc assignments = (after, .ok ()))
    (spares : Spares assignments keys) : AgreeOn keys after doc := by
  rcases applyAssignments_ok_iff.mp assigns with ⟨written, writes, advances⟩
  rcases advanceVersion_ok advances with ⟨rfl, _⟩
  have agree := writes.agreeOn spares
  exact ⟨agree.id, agree.fields⟩

/-- A field written in front of assignments that do not see it. -/
theorem Writes.ahead {key : String} {value : Value}
    (writes : Writes P others (doc.insert key value) after)
    (unread : forall other, other ∈ others -> key ∉ other.expr.keys)
    (unwritten : forall other, other ∈ others -> other.field ≠ key) :
    Exists fun first => Writes P others doc first ∧ after = first.insert key value := by
  induction others generalizing doc with
  | nil =>
      cases writes
      exact ⟨doc, .nil doc, rfl⟩
  | cons other rest hypothesis =>
      cases writes with
      | @cons _ _ _ _ found evaluated notId later =>
          have agree : AgreeOn other.expr.keys (doc.insert key value) doc := by
            refine ⟨rfl, ?_⟩
            intro read member
            refine lookup_insert_ne _ _ _ ?_
            rintro rfl
            exact unread other List.mem_cons_self member
          rw [eval_agree other.expr agree] at evaluated
          have swapped : (doc.insert key value).insert other.field found =
              (doc.insert other.field found).insert key value := by
            simp only [Document.insert]
            rw [insert_comm (unwritten other List.mem_cons_self)]
          rw [swapped] at later
          rcases hypothesis later (fun one member => unread one (List.mem_cons_of_mem _ member))
            (fun one member => unwritten one (List.mem_cons_of_mem _ member)) with
            ⟨first, writesRest, rfl⟩
          exact ⟨first, .cons evaluated notId writesRest, rfl⟩

/-- Writes that see nothing of each other, in the other order. -/
theorem Writes.swap (first : Writes P assignments doc middle)
    (second : Writes P others middle after) (unseen : Unseen assignments others)
    (unseenToo : Unseen others assignments) :
    Exists fun other => Writes P others doc other ∧ Writes P assignments other after := by
  induction first with
  | nil doc => exact ⟨after, second, .nil after⟩
  | @cons assign rest doc middle value evaluated notId later hypothesis =>
      rcases hypothesis second unseen.tail
        ⟨fun other member => unseenToo.read other (List.mem_cons_of_mem _ member),
          fun other member isField => unseenToo.written other member
            (List.mem_cons_of_mem _ isField)⟩ with ⟨between, writesOthers, writesRest⟩
      rcases writesOthers.ahead
        (fun other member => unseen.read other member assign List.mem_cons_self)
        (fun other member same => unseen.written assign List.mem_cons_self
          (List.mem_map.mpr ⟨other, member, same⟩)) with ⟨start, writesStart, rfl⟩
      have agree := writesStart.agreeOn (unseenToo.read assign List.mem_cons_self)
      rw [← eval_agree assign.expr agree] at evaluated
      exact ⟨start, writesStart, .cons evaluated notId writesRest⟩

/-- Assignments write fields, and nothing else. -/
theorem Writes.fields_only (writes : Writes P assignments doc after) :
    after = { doc with fields := after.fields } := by
  induction writes with
  | nil doc => rfl
  | cons evaluated notId later hypothesis =>
      rw [hypothesis]
      rfl

/-- They read the id and the fields, and nothing else. -/
theorem Writes.carried (writes : Writes P assignments doc after) {other : Document}
    (sameId : other.id = doc.id) (sameFields : other.fields = doc.fields) :
    Writes P assignments other { other with fields := after.fields } := by
  induction writes generalizing other with
  | nil doc =>
      rw [← sameFields]
      exact .nil other
  | @cons assign rest doc after value evaluated notId later hypothesis =>
      have agree : AgreeOn assign.expr.keys other doc :=
        ⟨sameId, fun key _ => by rw [sameFields]⟩
      rw [← eval_agree assign.expr agree] at evaluated
      refine .cons evaluated notId ?_
      exact @hypothesis (other.insert assign.field value) sameId
        (congrArg (KeyedList.insert compare assign.field value) sameFields)

theorem advanceVersion_eq {checks : Bool} (doc : Document)
    (room : ¬(checks && doc.version == 0xFFFFFFFFFFFFFFFF) = true) (now : Int64) :
    doc.advanceVersion checks now =
      .ok { doc with version := doc.version + 1, updatedAt := now } :=
  if_neg room

/-- Two UPDATEs of one document at one time that see nothing of each other, in the
other order. -/
theorem applyAssignments_swap
    (first : applyAssignments P now doc assignments = (middle, .ok ()))
    (second : applyAssignments P now middle others = (after, .ok ()))
    (unseen : Unseen assignments others) (unseenToo : Unseen others assignments) :
    Exists fun other => applyAssignments P now doc others = (other, .ok ()) ∧
      applyAssignments P now other assignments = (after, .ok ()) := by
  rcases applyAssignments_ok_iff.mp first with ⟨written, writes, advances⟩
  rcases applyAssignments_ok_iff.mp second with ⟨last, writesLast, advancesLast⟩
  rcases advanceVersion_ok advances with ⟨rfl, room⟩
  rcases advanceVersion_ok advancesLast with ⟨rfl, roomLast⟩
  have isWritten := writes.fields_only
  have isLast := writesLast.fields_only
  rcases writes.swap (writesLast.carried rfl rfl) unseen unseenToo with
    ⟨other, writesOther, writesBack⟩
  have isOther := writesOther.fields_only
  have back := @Writes.carried _ _ _ _ writesBack
    { other with version := other.version + 1, updatedAt := now } rfl rfl
  have sameVersion : other.version = written.version := by rw [isOther, isWritten]
  have nextVersion : last.version = written.version + 1 := by rw [isLast]
  have isAfter : ({ last with version := last.version + 1, updatedAt := now } : Document) =
      { other with
        version := other.version + 1 + 1, updatedAt := now, fields := last.fields } := by
    rw [isLast, isWritten, isOther]
  rw [← sameVersion] at room nextVersion
  rw [nextVersion] at roomLast
  rw [isAfter]
  exact ⟨_, applyAssignments_ok_iff.mpr ⟨other, writesOther, advanceVersion_eq other room now⟩,
    applyAssignments_ok_iff.mpr ⟨_, back, advanceVersion_eq _ roomLast now⟩⟩

end Writing

end Evaluator
end Query
end NovaDb
