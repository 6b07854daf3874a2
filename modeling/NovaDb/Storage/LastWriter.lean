import NovaDb.Foundation.LastWriter
import NovaDb.Storage.Contents

namespace NovaDb
namespace Storage

open Core Foundation

/-!
# Replay as a log in which the last write wins

A log record writes at most one place: an Insert or Update its document, a Delete
nothing.  Replay from the empty state therefore leaves at each place what the last
record of that place wrote, and neither the order of records of different places nor
records that a later one supersedes matter.
-/

namespace NbfRecord

/-- What a record writes, and where. -/
def write (P : Platform) (record : NbfRecord) : Option (Place × Option Document) :=
  match record.recordType with
  | .insert | .update =>
      match record.documentFromPayload P with
      | .ok doc => some (record.place, some doc)
      | .error _ => none
  | .delete => some (record.place, none)
  | .checkpoint | .txBegin | .txCommit | .txRollback => none

/-- Inserts, updates and deletes; the other kinds are informational. -/
def Mutates (record : NbfRecord) : Bool :=
  match record.recordType with
  | .insert | .update | .delete => true
  | .checkpoint | .txBegin | .txCommit | .txRollback => false

/-- The payload of an Insert or Update is a document. -/
def Decodes (P : Platform) (record : NbfRecord) : Prop :=
  record.CarriesDocument -> Exists fun doc => record.documentFromPayload P = .ok doc

theorem effect_eq_step (P : Platform) (record : NbfRecord) (contents : Contents) :
    record.effect P contents = LastWriter.step (write P) contents record := by
  unfold effect LastWriter.step write
  cases record.recordType <;> cases record.documentFromPayload P <;> rfl

/-- A record that decodes writes at its place if it is no informational one. -/
theorem writesTo_isSome {P : Platform} {record : NbfRecord} (decodes : record.Decodes P)
    {place : Place} :
    (LastWriter.writesTo (write P) place record).isSome = true <->
      record.Mutates = true ∧ record.place = place := by
  unfold Decodes CarriesDocument at decodes
  unfold LastWriter.writesTo write Mutates
  cases kind : record.recordType
  case insert | update =>
      simp only [kind] at decodes
      rcases decodes (by simp) with ⟨doc, decoded⟩
      by_cases same : record.place = place <;> simp [decoded, same]
  case delete => by_cases same : record.place = place <;> simp [same]
  all_goals simp

theorem writesTo_document {P : Platform} {record : NbfRecord} {place : Place} {doc : Document} :
    LastWriter.writesTo (write P) place record = some (some doc) <->
      record.CarriesDocument ∧ record.place = place ∧ record.documentFromPayload P = .ok doc := by
  unfold LastWriter.writesTo write CarriesDocument
  cases record.recordType
  case insert | update =>
      cases record.documentFromPayload P with
      | error failure => simp
      | ok other => by_cases same : record.place = place <;> simp [same]
  all_goals simp

end NbfRecord

namespace RecoveryManager

variable {P : Platform} {records : List NbfRecord}

theorem applyAll_decodes (decodes : forall record, record ∈ records -> record.Decodes P)
    (state : RecoveredState) : Exists fun next => applyAll P state records = .ok next := by
  induction records generalizing state with
  | nil => exact ⟨state, rfl⟩
  | cons record rest ih =>
      have applied : Exists fun next => applyRecordToState P record state = .ok next := by
        have payload := decodes record List.mem_cons_self
        unfold NbfRecord.Decodes NbfRecord.CarriesDocument at payload
        unfold applyRecordToState
        cases kind : record.recordType
        case insert | update =>
            simp only [kind] at payload
            rcases payload (by simp) with ⟨doc, decoded⟩
            rw [decoded]
            exact ⟨_, rfl⟩
        all_goals exact ⟨_, rfl⟩
      rcases applied with ⟨next, isNext⟩
      rw [applyAll, List.foldlM_cons, isNext]
      exact ih (fun other member => decodes other (List.mem_cons_of_mem _ member)) next

theorem applyAll_contents {state next : RecoveredState} (applied : applyAll P state records = .ok next) :
    contentsOf next.collections =
      LastWriter.run (NbfRecord.write P) (contentsOf state.collections) records := by
  induction records generalizing state with
  | nil =>
      cases applied
      rfl
  | cons record rest ih =>
      rw [applyAll, List.foldlM_cons] at applied
      cases isFirst : applyRecordToState P record state with
      | error failure =>
          rw [isFirst] at applied
          cases applied
      | ok first =>
          rw [isFirst] at applied
          rw [ih applied, applyRecordToState_contents isFirst, NbfRecord.effect_eq_step]
          rfl

/-- From the empty state the log leaves what it writes last. -/
theorem applyAll_new (decodes : forall record, record ∈ records -> record.Decodes P) :
    Exists fun state => applyAll P RecoveredState.new records = .ok state ∧
      contentsOf state.collections = LastWriter.run (NbfRecord.write P) noContents records := by
  rcases applyAll_decodes decodes RecoveredState.new with ⟨state, applied⟩
  exact ⟨state, applied, applyAll_contents applied⟩

end RecoveryManager

/-- The document is the payload of an Insert or Update of this place, and no Insert,
Update or Delete of the place comes behind it. -/
def LastWritten (P : Platform) (records : List NbfRecord) (place : Place) (doc : Document) : Prop :=
  Exists fun front => Exists fun record => Exists fun behind =>
    records = front ++ record :: behind ∧ record.CarriesDocument ∧ record.place = place ∧
      record.documentFromPayload P = .ok doc ∧
      forall later, later ∈ behind -> later.Mutates = true -> later.place ≠ place

/-- The same records, with those of each document in the same order.  Informational
records may stand anywhere. -/
def SameOrders (left right : List NbfRecord) : Prop :=
  left.Perm right ∧ forall place : Place,
    left.filter (fun record => record.Mutates && decide (record.place = place)) =
      right.filter (fun record => record.Mutates && decide (record.place = place))

section Replays

variable {P : Platform} {records : List NbfRecord}
  (decodes : forall record, record ∈ records -> record.Decodes P)

include decodes

theorem run_documents {place : Place} {doc : Document} :
    LastWriter.run (NbfRecord.write P) noContents records place = some doc <->
      LastWritten P records place doc := by
  have unwritten : forall found : Option (Option Document),
      found.getD (noContents place) = some doc <-> found = some (some doc) := by
    intro found
    cases found with
    | none => simp [noContents]
    | some value => simp
  rw [LastWriter.run_apply, unwritten, LastWriter.last_eq_some_iff]
  constructor
  · rintro ⟨front, record, behind, rfl, writes, silent⟩
    rcases NbfRecord.writesTo_document.mp writes with ⟨stores, atPlace, decoded⟩
    refine ⟨front, record, behind, rfl, stores, atPlace, decoded, ?_⟩
    intro later member mutates same
    have writesToo := (NbfRecord.writesTo_isSome (decodes later (by simp [member]))).mpr ⟨mutates, same⟩
    rw [silent later member] at writesToo
    cases writesToo
  · rintro ⟨front, record, behind, rfl, stores, atPlace, decoded, silent⟩
    refine ⟨front, record, behind, rfl,
      NbfRecord.writesTo_document.mpr ⟨stores, atPlace, decoded⟩, ?_⟩
    intro later member
    rw [← Option.not_isSome_iff_eq_none, NbfRecord.writesTo_isSome (decodes later (by simp [member]))]
    rintro ⟨mutates, same⟩
    exact silent later member mutates same

/-- Records of different documents may change places. -/
theorem run_reordered {others : List NbfRecord} (same : SameOrders records others)
    (contents : Contents) :
    LastWriter.run (NbfRecord.write P) contents records =
      LastWriter.run (NbfRecord.write P) contents others := by
  apply LastWriter.run_congr
  intro place
  have ofPlace : forall list : List NbfRecord, (forall record, record ∈ list -> record.Decodes P) ->
      list.filterMap (LastWriter.writesTo (NbfRecord.write P) place) =
        (list.filter fun record => record.Mutates && decide (record.place = place)).filterMap
          (LastWriter.writesTo (NbfRecord.write P) place) := by
    intro list listDecodes
    rw [List.filterMap_filter]
    apply List.filterMap_congr
    intro record member
    have writes := @NbfRecord.writesTo_isSome P record (listDecodes record member) place
    by_cases counts : (record.Mutates && decide (record.place = place)) = true
    · rw [if_pos counts]
    · rw [if_neg counts, ← Option.not_isSome_iff_eq_none, writes]
      simpa using counts
  rw [ofPlace records decodes,
    ofPlace others fun record member => decodes record (same.1.symm.subset member), same.2 place]

/-- A superseded record may go. -/
theorem run_compacted {front behind : List NbfRecord} {record later : NbfRecord}
    (splits : records = front ++ record :: behind) (member : later ∈ behind)
    (mutates : later.Mutates = true) (same : later.place = record.place) (contents : Contents) :
    LastWriter.run (NbfRecord.write P) contents records =
      LastWriter.run (NbfRecord.write P) contents (front ++ behind) := by
  subst splits
  apply LastWriter.run_drop
  intro place value writes
  refine ⟨later, member, ?_⟩
  have atPlace := ((NbfRecord.writesTo_isSome (decodes record (by simp))).mp
    (by rw [writes]; rfl)).2
  exact (NbfRecord.writesTo_isSome (decodes later (by simp [member]))).mpr
    ⟨mutates, same.trans atPlace⟩

/-- Replay is last-writer-wins per document, for every list of records that decode: the
last mutation of a place decides what is there, other records change nothing, the order
of records about different places does not matter, and a mutation with a later one of
its place can be left out.  -/
theorem replay_last_writer_wins :
    Exists fun state => RecoveryManager.applyAll P RecoveredState.new records = .ok state ∧
      (forall place doc, contentsOf state.collections place = some doc <->
        LastWritten P records place doc) ∧
      (forall record before after, record.Mutates = false ->
        RecoveryManager.applyRecordToState P record before = .ok after ->
        contentsOf after.collections = contentsOf before.collections) ∧
      (forall others, SameOrders records others ->
        Exists fun other => RecoveryManager.applyAll P RecoveredState.new others = .ok other ∧
          contentsOf other.collections = contentsOf state.collections) ∧
      forall front record behind later, records = front ++ record :: behind -> later ∈ behind ->
        later.Mutates = true -> later.place = record.place ->
        Exists fun other =>
          RecoveryManager.applyAll P RecoveredState.new (front ++ behind) = .ok other ∧
            contentsOf other.collections = contentsOf state.collections := by
  rcases RecoveryManager.applyAll_new decodes with ⟨state, applied, isRun⟩
  refine ⟨state, applied, ?_, ?_, ?_, ?_⟩
  · intro place doc
    rw [isRun]
    exact run_documents decodes
  · intro record before after informational applied
    rw [RecoveryManager.applyRecordToState_contents applied]
    unfold NbfRecord.Mutates at informational
    unfold NbfRecord.effect
    cases kind : record.recordType
    case insert | update | delete => simp only [kind, reduceCtorEq] at informational
    all_goals rfl
  · intro others same
    rcases RecoveryManager.applyAll_new
      (fun record member => decodes record (same.1.symm.subset member)) with
      ⟨other, appliedToo, isOther⟩
    exact ⟨other, appliedToo, by rw [isOther, isRun, run_reordered decodes same]⟩
  · intro front record behind later splits member mutates same
    have within : forall other, other ∈ front ++ behind -> other ∈ records := by
      intro other inside
      rw [splits]
      exact (List.sublist_cons_self record behind).append_left front |>.subset inside
    rcases RecoveryManager.applyAll_new (fun other inside => decodes other (within other inside)) with
      ⟨other, appliedToo, isOther⟩
    exact ⟨other, appliedToo, by rw [isOther, isRun, run_compacted decodes splits member mutates same]⟩

end Replays

/-- A record about the sample document. -/
def recordOf (kind : RecordType) (sequence : UInt64) (payload : List UInt8) : NbfRecord :=
  ⟨sequence, kind, 0, none, 0, "default", "users", sampleDocument.id, payload⟩

theorem replay_last_writer_wins_sample :
    Exists fun state => RecoveryManager.applyAll samplePlatform RecoveredState.new
        [recordOf .delete 1 [], recordOf .insert 2 samplePayload, recordOf .txCommit 3 []] = .ok state ∧
      Exists fun doc => contentsOf state.collections (("default", "users"), sampleDocument.id) =
        some doc := by
  have decoded : Exists fun doc =>
      (recordOf .insert 2 samplePayload).documentFromPayload samplePlatform = .ok doc := by
    have isOk : ((recordOf .insert 2 samplePayload).documentFromPayload samplePlatform).isOk =
        true := by decide +kernel
    cases outcome : (recordOf .insert 2 samplePayload).documentFromPayload samplePlatform with
    | error failure =>
        rw [outcome] at isOk
        cases isOk
    | ok doc => exact ⟨doc, rfl⟩
  have decodes : forall record, record ∈ [recordOf .delete 1 [], recordOf .insert 2 samplePayload,
      recordOf .txCommit 3 []] -> record.Decodes samplePlatform := by
    intro record member carries
    simp only [List.mem_cons, List.not_mem_nil, or_false] at member
    rcases member with rfl | rfl | rfl
    · rcases carries with isInsert | isUpdate <;> contradiction
    · exact decoded
    · rcases carries with isInsert | isUpdate <;> contradiction
  rcases replay_last_writer_wins decodes with ⟨state, applied, holds, _⟩
  rcases decoded with ⟨doc, isDoc⟩
  refine ⟨state, applied, doc, (holds _ doc).mpr ?_⟩
  refine ⟨[recordOf .delete 1 []], recordOf .insert 2 samplePayload, [recordOf .txCommit 3 []], rfl,
    Or.inl rfl, rfl, isDoc, ?_⟩
  intro later member mutates
  rw [List.mem_singleton.mp member] at mutates
  cases mutates

end Storage
end NovaDb
