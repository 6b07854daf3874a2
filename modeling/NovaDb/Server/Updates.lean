import NovaDb.Server.FailedStatements
import NovaDb.Server.Removals

namespace NovaDb
namespace Server

open Core Foundation Index Query Storage DatabaseEngine

/-!
# A successful UPDATE

The loop changes the documents in place while it evaluates the filter on the next
ones.  It visits each document once and as it was before the statement, so an
UPDATE that returns has replaced the documents that matched before, each by the
assignments applied to its own contents, and logged each new state.  The version
is a machine word: the step behind the largest one depends on the build.
-/

/-- The version one later.  Without overflow checks the largest one is followed by
zero; with them such a step fails. -/
def Advances (P : Platform) (before after : UInt64) : Prop :=
  after.toNat = before.toNat + 1 ∨
    P.overflowChecks = false ∧ before.toNat = 2 ^ 64 - 1 ∧ after = 0

/-- A document and what the assignments make of it. -/
structure Revises (P : Platform) (assignments : List Assignment)
    (stepsVersion : UInt64 -> UInt64 -> Prop) (clock : Int64) (before after : Document) :
    Prop where
  applied : Evaluator.applyAssignments P clock before assignments = (after, .ok ())
  id : after.id = before.id
  createdAt : after.createdAt = before.createdAt
  version : stepsVersion before.version after.version

/-- What an UPDATE of `number` documents does, all of it, up to the step of the
versions. -/
structure UpdatesExactly (P : Platform) (stepsVersion : UInt64 -> UInt64 -> Prop)
    (moments : Nat -> Moment) (ns coll : String) (assignments : List Assignment)
    (filter : Option Expr) (number : Nat) (engine next : DatabaseEngine) : Prop where
  affected : number =
    (documents (storeOf engine.collections (ns, coll))).countP (accepts P filter)
  changed : forall id doc, (storeOf engine.collections (ns, coll)).lookup id = some doc ->
    accepts P filter doc = true -> Exists fun turn => Exists fun after =>
      Revises P assignments stepsVersion (moments turn).clock doc after ∧
        (storeOf next.collections (ns, coll)).lookup id = some after
  kept : forall id,
    (forall doc, (storeOf engine.collections (ns, coll)).lookup id = some doc ->
      accepts P filter doc = false) ->
    (storeOf next.collections (ns, coll)).lookup id =
      (storeOf engine.collections (ns, coll)).lookup id
  elsewhere : forall key, key ≠ (ns, coll) ->
    next.collections.lookup key = engine.collections.lookup key
  logged : Exists fun added => WriteAheadLog.Grows P engine.wal next.wal added ∧
    added.length = number ∧ (added.map NbfRecord.documentId).Nodup ∧
    forall record, record ∈ added -> record.recordType = .update ∧ record.namespaceName = ns ∧
      record.collection = coll ∧ Exists fun doc => Exists fun after =>
        (storeOf engine.collections (ns, coll)).lookup record.documentId = some doc ∧
          accepts P filter doc = true ∧
          (storeOf next.collections (ns, coll)).lookup record.documentId = some after ∧
          NbfRecord.payloadFromDocument P after = .ok record.payload

/-! ## Assignments -/

section Assignments

variable {P : Platform} {now : Int64} {doc after : Document} {assignments : List Assignment}

theorem applyAssignments_createdAt (P : Platform) (now : Int64) (doc : Document)
    (assignments : List Assignment) :
    (Evaluator.applyAssignments P now doc assignments).1.createdAt = doc.createdAt := by
  induction assignments generalizing doc with
  | nil =>
      rw [Evaluator.applyAssignments, Document.advanceVersion]
      by_cases full : (P.overflowChecks && doc.version == 0xFFFFFFFFFFFFFFFF) = true
      · rw [if_pos full]
      · rw [if_neg full]
  | cons assign rest ih =>
      rw [Evaluator.applyAssignments]
      split
      · rfl
      · split
        · rfl
        · exact ih _

/-- Assignments that succeed under overflow checks have not met the largest version. -/
theorem applyAssignments_checked
    (assigns : Evaluator.applyAssignments P now doc assignments = (after, .ok ()))
    (checks : P.overflowChecks = true) : doc.version ≠ 0xFFFFFFFFFFFFFFFF := by
  induction assignments generalizing doc with
  | nil =>
      intro largest
      rw [Evaluator.applyAssignments, Document.advanceVersion, checks, largest] at assigns
      cases assigns
  | cons assign rest ih =>
      rw [Evaluator.applyAssignments] at assigns
      split at assigns
      · cases assigns
      · rename_i value isValue
        split at assigns
        · cases assigns
        · exact @ih (doc.insert assign.field value) assigns

theorem applyAssignments_advances
    (assigns : Evaluator.applyAssignments P now doc assignments = (after, .ok ())) :
    Advances P doc.version after.version := by
  have word := applyAssignments_version assigns
  have bound := doc.version.toNat_lt
  by_cases largest : doc.version.toNat = 2 ^ 64 - 1
  · have isLargest : doc.version = 0xFFFFFFFFFFFFFFFF := UInt64.toNat_inj.mp largest
    refine Or.inr ⟨?_, largest, ?_⟩
    · cases checks : P.overflowChecks with
      | false => rfl
      | true => exact absurd isLargest (applyAssignments_checked assigns checks)
    · rw [word, isLargest]
      rfl
  · refine Or.inl ?_
    rw [word]
    exact toNat_next (by omega)

theorem applyAssignments_revises
    (assigns : Evaluator.applyAssignments P now doc assignments = (after, .ok ())) :
    Revises P assignments (Advances P) now doc after := by
  have sameId := Evaluator.applyAssignments_id P now doc assignments
  have sameCreation := applyAssignments_createdAt P now doc assignments
  rw [assigns] at sameId sameCreation
  exact ⟨assigns, sameId, sameCreation, applyAssignments_advances assigns⟩

end Assignments

/-! ## The loop -/

/-- What a loop over some documents has done to them when it ran to its end. -/
structure Updated (P : Platform) (assignments : List Assignment) (filter : Option Expr)
    (moments : Nat -> Moment) (entries : List (Sigma fun _ : DocumentId => Document))
    (state : Section) (changes : List Change) (final : Section) : Prop where
  ids : changes.map Change.id =
    (entries.filter fun entry => accepts P filter entry.2).map Sigma.fst
  replaced : forall entry, entry ∈ entries -> accepts P filter entry.2 = true ->
    Exists fun turn => Exists fun after =>
      Evaluator.applyAssignments P (moments turn).clock entry.2 assignments = (after, .ok ()) ∧
        final.store.lookup entry.1 = some after
  held : forall change, change ∈ changes -> Exists fun after => change.after = some after ∧
    final.store.lookup change.id = some after
  others : forall id, id ∉ changes.map Change.id -> final.store.lookup id = state.store.lookup id

section Loop

variable {P : Platform} {ns coll : String} {assignments : List Assignment} {filter : Option Expr}
  {moments : Nat -> Moment} {turn : Nat} {state next final : Section} {changes : List Change}
  {entry : Sigma fun _ : DocumentId => Document}
  {rest : List (Sigma fun _ : DocumentId => Document)}

theorem Updated.passedOver
    (filtered : Evaluator.matchesFilter P filter entry.2 = .ok false)
    (later : Updated P assignments filter moments rest state changes final) :
    Updated P assignments filter moments (entry :: rest) state changes final := by
  have passed : accepts P filter entry.2 = false := accepts_of_ok filtered
  refine ⟨?_, ?_, later.held, later.others⟩
  · rw [List.filter_cons_of_neg (by rw [passed]; exact Bool.false_ne_true)]
    exact later.ids
  · intro other member accepted
    rcases List.mem_cons.mp member with rfl | inRest
    · rw [passed] at accepted
      cases accepted
    · exact later.replaced other inRest accepted

theorem Updated.logged {sequence : UInt64} {after : Document}
    (matched : Evaluator.matchesFilter P filter entry.2 = .ok true)
    (assigns : Evaluator.applyAssignments P (moments turn).clock entry.2 assignments =
      (after, .ok ()))
    (stored : entry.1 ∈ state.store)
    (replaces : next.store = state.store.replace entry.1 after)
    (untouched : final.store.lookup entry.1 = next.store.lookup entry.1)
    (later : Updated P assignments filter moments rest next changes final) :
    Updated P assignments filter moments (entry :: rest) state
      (⟨sequence, entry.1, entry.2, some after⟩ :: changes) final := by
  have isAfter : final.store.lookup entry.1 = some after := by
    rw [untouched, replaces]
    exact ValueMap.lookup_replace after stored
  refine ⟨?_, ?_, ?_, ?_⟩
  · have accepted : accepts P filter entry.2 = true := accepts_iff.mpr matched
    simp only [List.filter_cons, accepted, if_true, List.map_cons, later.ids]
  · intro other member accepted
    rcases List.mem_cons.mp member with rfl | inRest
    · exact ⟨turn, after, assigns, isAfter⟩
    · exact later.replaced other inRest accepted
  · intro change member
    rcases List.mem_cons.mp member with rfl | inRest
    · exact ⟨after, rfl, isAfter⟩
    · exact later.held change inRest
  · intro id absent
    rw [List.map_cons, List.mem_cons, not_or] at absent
    rw [later.others id absent.2, replaces]
    exact ValueMap.lookup_replace_ne absent.1 after state.store

/-- The induction is on the documents still to come: each is found as it was stored,
and is not touched again. -/
theorem updateOnes_updated {entries : List (Sigma fun _ : DocumentId => Document)}
    (distinct : entries.NodupKeys)
    (stored : forall entry, entry ∈ entries -> state.store.lookup entry.1 = some entry.2)
    (ran : runSection (updateOne P ns coll assignments filter) moments turn entries state =
      (final, .ok changes)) :
    Updated P assignments filter moments entries state changes final := by
  induction entries generalizing turn state changes with
  | nil =>
      cases ran
      exact ⟨rfl, nofun, nofun, fun _ _ => rfl⟩
  | cons entry rest ih =>
      rcases List.nodupKeys_cons.mp distinct with ⟨fresh, restDistinct⟩
      rcases runSection_cons ran with ⟨stop, _, stopped⟩ | ⟨next, change, others, first, later, same⟩
      · cases stopped
      · cases others with
        | error stop => cases same
        | ok others =>
            cases same
            have stillStored : forall other, other ∈ rest ->
                next.store.lookup other.1 = some other.2 := by
              intro other member
              have different : other.1 ≠ entry.1 := by
                intro same
                exact fresh (List.mem_map.mpr ⟨other, member, same⟩)
              have framed := updateOne_frame P ns coll assignments filter (moments turn) entry
                state other.1 different
              rw [first] at framed
              exact framed.trans (stored other (List.mem_cons_of_mem entry member))
            have behind := ih restDistinct stillStored later
            have untouched : final.store.lookup entry.1 = next.store.lookup entry.1 :=
              runSection_frame (updateOne_frame P ns coll assignments filter) fresh later
            cases updateOne_exit first with
            | passedOver filtered => exact behind.passedOver filtered
            | logged matched assigns encoded logs =>
                have member : entry.1 ∈ state.store :=
                  AList.lookup_isSome.mp (by rw [stored entry List.mem_cons_self]; rfl)
                exact Updated.logged matched assigns member rfl untouched behind

end Loop

/-! ## The statement -/

section Statement

variable {P : Platform} {moments : Nat -> Moment} {ns coll : String}
  {assignments : List Assignment} {filter : Option Expr} {engine next : DatabaseEngine}

theorem executeUpdate_section {message : String} {number : Nat}
    (ran : execute P moments (.update coll assignments filter) ns engine =
      (next, .ok (.success message number))) :
    Exists fun middle => Exists fun changes => Exists fun events =>
      updateSection P moments ns coll assignments filter engine = (middle, .ok changes) ∧
        number = changes.length ∧ next = { middle with events } := by
  rw [execute, outcomeOf, executeUpdate] at ran
  cases isSection : updateSection P moments ns coll assignments filter engine with
  | mk middle outcome =>
      rw [isSection] at ran
      cases outcome with
      | error stop => cases ran
      | ok changes =>
          rcases @emitChanges_state ns coll .update moments 0 changes middle with ⟨events, same⟩
          simp only [same] at ran
          cases ran
          exact ⟨middle, changes, events, rfl, rfl, rfl⟩

/-- An UPDATE that answers with a number has updated as many documents, all that its
filter accepts and no others, each by all the assignments and with its version one
later, which wraps around behind the largest one where overflow checks are off.  -/
theorem update_exactly {message : String} {number : Nat}
    (ran : execute P moments (.update coll assignments filter) ns engine =
      (next, .ok (.success message number))) :
    UpdatesExactly P (Advances P) moments ns coll assignments filter number engine next := by
  rcases executeUpdate_section ran with ⟨middle, changes, events, isSection, rfl, rfl⟩
  rcases updateSection_loop isSection with ⟨final, loop, rfl⟩
  have stored : forall entry, entry ∈ (storeOf engine.collections (ns, coll)).entries ->
      (engine.enter (ns, coll)).store.lookup entry.1 = some entry.2 :=
    fun entry member => AList.mem_lookup_iff.mpr member
  have updated := updateOnes_updated (AList.nodupKeys _) stored loop
  have sameStore : storeOf (engine.leave (ns, coll) final).collections (ns, coll) = final.store :=
    storeOf_leave engine (ns, coll) final
  have mem_ids : forall id, id ∈ changes.map Change.id <-> Exists fun doc =>
      (storeOf engine.collections (ns, coll)).lookup id = some doc ∧
        accepts P filter doc = true := by
    intro id
    rw [updated.ids]
    exact mem_accepted_ids P filter _ id
  have counted : changes.length =
      (documents (storeOf engine.collections (ns, coll))).countP (accepts P filter) := by
    rw [← accepted_ids_length, ← updated.ids, List.length_map]
  constructor
  · exact counted
  · intro id doc stored accepted
    rcases updated.replaced ⟨id, doc⟩ (AList.mem_lookup_iff.mp stored) accepted with
      ⟨turn, after, assigns, isAfter⟩
    exact ⟨turn, after, applyAssignments_revises assigns, by rw [sameStore]; exact isAfter⟩
  · intro id passed
    have untouched : id ∉ changes.map Change.id := by
      intro member
      rcases (mem_ids id).mp member with ⟨doc, stored, accepted⟩
      rw [passed doc stored] at accepted
      cases accepted
    rw [sameStore, updated.others id untouched]
    rfl
  · exact fun key different => lookup_leave_ne engine final different
  · rcases updateOnes_record loop with ⟨added, grows, recorded⟩
    refine ⟨added, grows, recorded.length_eq.symm, ?_, ?_⟩
    · rw [recorded_ids recorded, updated.ids]
      exact accepted_ids_nodup P filter _
    · intro record member
      rcases recorded_change recorded member with ⟨change, inChanges, isRecorded⟩
      rcases updated.held change inChanges with ⟨after, isAfter, inStore⟩
      rcases (mem_ids change.id).mp (List.mem_map_of_mem inChanges) with ⟨doc, stored, accepted⟩
      have payload := isRecorded.payload
      rw [isAfter] at payload
      refine ⟨isRecorded.recordType, isRecorded.namespaceName, isRecorded.collection, doc, after,
        ?_, accepted, ?_, payload⟩
      · rw [isRecorded.documentId]
        exact stored
      · rw [isRecorded.documentId, sameStore]
        exact inStore

end Statement

/-! ## The largest version -/

/-- The number of affected documents that a statement returns. -/
def affectedBy : Outcome ResponsePayload -> Option Nat
  | .ok (.success _ number) => some number
  | _ => none

theorem affectedBy_eq_some {outcome : Outcome ResponsePayload} {number : Nat}
    (affected : affectedBy outcome = some number) :
    Exists fun message => outcome = .ok (.success message number) := by
  unfold affectedBy at affected
  split at affected
  · cases affected
    exact ⟨_, rfl⟩
  · cases affected

/-- `UPDATE users SET age = 1`. -/
def setAge : List Assignment := [⟨"age", .literal (.int 1)⟩]

def lastVersion : Document := ⟨⟨"a"⟩, 0xFFFFFFFFFFFFFFFF, 0, 0, []⟩

/-- What a release build makes of it. -/
def wrappedVersion : Document := ⟨⟨"a"⟩, 0, 0, 0, [("age", .int 1)]⟩

/-- The reference platform of a release build for runs on both. -/
def wrappingPlatform : Platform := referencePlatform false [lastVersion, wrappedVersion]

theorem version_wraps :
    affectedBy (execute wrappingPlatform quietMoments (.update "users" setAge none) "default"
        (oneUser lastVersion)).2 = some 1 ∧
      ¬ UpdatesExactly wrappingPlatform (fun before after => after.toNat = before.toNat + 1)
        quietMoments "default" "users" setAge none 1 (oneUser lastVersion)
        (execute wrappingPlatform quietMoments (.update "users" setAge none) "default"
          (oneUser lastVersion)).1 := by
  refine ⟨by decide +kernel, ?_⟩
  intro exactly
  have stored : (storeOf (oneUser lastVersion).collections ("default", "users")).lookup
      lastVersion.id = some lastVersion := by
    rw [oneUser, storeOf_insert, AList.lookup_insert]
  rcases exactly.changed lastVersion.id lastVersion stored rfl with ⟨turn, after, revises, _⟩
  have beyond : after.version.toNat = lastVersion.version.toNat + 1 := revises.version
  have largest : lastVersion.version.toNat + 1 = 2 ^ 64 := by decide +kernel
  exact Nat.ne_of_lt after.version.toNat_lt (beyond.trans largest)

/-- Of two documents the filter selects one, and the UPDATE changes it alone. -/
theorem update_exactly_sample :
    (storeOf crowdInserted.collections ("default", "users")).entries.length = 2 ∧
      Exists fun message =>
        (execute crowdPlatform quietMoments (.update "users" growAge isOne) "default"
          crowdInserted).2 = .ok (.success message 1) ∧
        UpdatesExactly crowdPlatform (Advances crowdPlatform) quietMoments "default" "users"
          growAge isOne 1 crowdInserted
          (execute crowdPlatform quietMoments (.update "users" growAge isOne) "default"
            crowdInserted).1 := by
  have affected : affectedBy (execute crowdPlatform quietMoments (.update "users" growAge isOne)
      "default" crowdInserted).2 = some 1 := by decide +kernel
  rcases affectedBy_eq_some affected with ⟨message, returns⟩
  exact ⟨by decide +kernel, message, returns, update_exactly (by rw [← returns])⟩

end Server
end NovaDb
