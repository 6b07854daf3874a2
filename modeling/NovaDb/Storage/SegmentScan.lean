import NovaDb.Storage.Recovery

namespace NovaDb
namespace Storage

open Core Foundation

/-!
# What the scan does to a log of valid records

A valid record is one the program can have logged: it fits the format, its
document id was built by the program, and the payload of a mutation decodes.
The scan of the encodings of valid records replays exactly these records and
changes no file.  Behind them, a tail shorter than the magic bytes ends the scan
unnoticed, and a longer front part of a further record is cut off.
-/

namespace NbfRecord

/-- Inserts and updates carry a document. -/
def CarriesDocument (record : NbfRecord) : Prop :=
  record.recordType = .insert ∨ record.recordType = .update

/-- A record the program can have logged. -/
structure Valid (P : Platform) (record : NbfRecord) : Prop where
  fits : record.Fits
  built : record.documentId.Built
  decodes : record.CarriesDocument ->
    Exists fun doc => record.documentFromPayload P = .ok doc

end NbfRecord

/-- The bytes of a list of records. -/
def frames (P : Platform) (records : List NbfRecord) : List UInt8 :=
  records.flatMap (NbfRecord.frame P)

theorem frames_append (P : Platform) (left right : List NbfRecord) :
    frames P (left ++ right) = frames P left ++ frames P right :=
  List.flatMap_append

theorem frames_singleton (P : Platform) (record : NbfRecord) :
    frames P [record] = record.frame P := by
  simp [frames]

/-- Every record of the list can have been logged by the program. -/
def AllValid (P : Platform) (records : List NbfRecord) : Prop :=
  forall record, record ∈ records -> record.Valid P

theorem AllValid.append {P : Platform} {left right : List NbfRecord} (first : AllValid P left)
    (second : AllValid P right) : AllValid P (left ++ right) := by
  intro record member
  rcases List.mem_append.mp member with inLeft | inRight
  · exact first record inLeft
  · exact second record inRight

namespace RecoveryManager

/-! ## Replay of valid records -/

theorem applyRecordToState_ok {P : Platform} {record : NbfRecord} (valid : record.Valid P)
    (state : RecoveredState) :
    Exists fun collections =>
      applyRecordToState P record state = .ok { state with collections } := by
  unfold applyRecordToState
  cases kind : record.recordType with
  | insert =>
      rcases valid.decodes (Or.inl kind) with ⟨doc, decoded⟩
      simp only [decoded]
      exact ⟨_, rfl⟩
  | update =>
      rcases valid.decodes (Or.inr kind) with ⟨doc, decoded⟩
      simp only [decoded]
      exact ⟨_, rfl⟩
  | delete => exact ⟨_, rfl⟩
  | checkpoint => exact ⟨_, rfl⟩
  | txBegin => exact ⟨_, rfl⟩
  | txCommit => exact ⟨_, rfl⟩
  | txRollback => exact ⟨_, rfl⟩

/-- A valid record is replayed: it raises the largest sequence and the count by
its own, and touches no other counter. -/
theorem replayRecord_ok {P : Platform} {record : NbfRecord} (valid : record.Valid P)
    (state : RecoveredState) :
    Exists fun next =>
      replayRecord P state record = .ok next ∧
        next.maxSequence.toNat = max state.maxSequence.toNat record.sequence.toNat ∧
        next.recordsReplayed = state.recordsReplayed + 1 ∧
        next.tornTailsTruncated = state.tornTailsTruncated := by
  by_cases larger : state.maxSequence < record.sequence
  · rcases applyRecordToState_ok valid { state with maxSequence := record.sequence } with
      ⟨collections, applied⟩
    simp only [replayRecord, if_pos larger, applied]
    refine ⟨_, rfl, ?_, rfl, rfl⟩
    exact (max_eq_right (Nat.le_of_lt (UInt64.lt_iff_toNat_lt.mp larger))).symm
  · rcases applyRecordToState_ok valid state with ⟨collections, applied⟩
    simp only [replayRecord, if_neg larger, applied]
    refine ⟨_, rfl, ?_, rfl, rfl⟩
    exact (max_eq_left (Nat.le_of_not_lt (fun less => larger (UInt64.lt_iff_toNat_lt.mpr less)))).symm

theorem replayFrom_cons {P : Platform} {state next : RecoveredState} {record : NbfRecord}
    {records : List NbfRecord} (first : replayRecord P state record = .ok next) :
    replayFrom P state (record :: records) = replayFrom P next records := by
  rw [replayFrom, List.foldlM_cons, first]
  rfl

theorem replayFrom_append {P : Platform} {state next : RecoveredState}
    {left right : List NbfRecord} (first : replayFrom P state left = .ok next) :
    replayFrom P state (left ++ right) = replayFrom P next right := by
  unfold replayFrom at first ⊢
  rw [List.foldlM_append, first]
  rfl

/-- Valid records are replayed in order: the result counts them and knows their
largest sequence. -/
theorem replayFrom_ok {P : Platform} {records : List NbfRecord} (valid : AllValid P records)
    (state : RecoveredState) :
    Exists fun next =>
      replayFrom P state records = .ok next ∧
        next.maxSequence.toNat =
          (records.map (fun record => record.sequence.toNat)).foldl max state.maxSequence.toNat ∧
        next.recordsReplayed = state.recordsReplayed + records.length ∧
        next.tornTailsTruncated = state.tornTailsTruncated := by
  induction records generalizing state with
  | nil => exact ⟨state, rfl, rfl, rfl, rfl⟩
  | cons record rest ih =>
      rcases replayRecord_ok (valid record List.mem_cons_self) state with
        ⟨middle, first, firstMax, firstCount, firstTorn⟩
      rcases ih (fun other member => valid other (List.mem_cons_of_mem record member)) middle with
        ⟨final, second, secondMax, secondCount, secondTorn⟩
      refine ⟨final, (replayFrom_cons first).trans second, ?_, ?_, ?_⟩
      · rw [secondMax, firstMax]
        rfl
      · rw [secondCount, firstCount, List.length_cons]
        omega
      · rw [secondTorn, firstTorn]

/-- A record changes the collections in the same way in every scan. -/
theorem applyRecordToState_collections (P : Platform) (record : NbfRecord)
    {state other : RecoveredState} (same : other.collections = state.collections) :
    (applyRecordToState P record other).map RecoveredState.collections =
      (applyRecordToState P record state).map RecoveredState.collections := by
  unfold applyRecordToState
  rw [same]
  cases record.recordType <;> cases record.documentFromPayload P <;> rfl

theorem replayRecord_collections (P : Platform) (record : NbfRecord) (state : RecoveredState) :
    (replayRecord P state record).map RecoveredState.collections =
      (applyRecordToState P record state).map RecoveredState.collections := by
  unfold replayRecord applyRecordToState
  by_cases larger : state.maxSequence < record.sequence
  · simp only [if_pos larger]
    cases record.recordType <;> cases record.documentFromPayload P <;> rfl
  · simp only [if_neg larger]
    cases record.recordType <;> cases record.documentFromPayload P <;> rfl

/-- The collections of a replay are the fold of the record application. -/
theorem applyAll_collections {P : Platform} {records : List NbfRecord}
    {state next other : RecoveredState} (replayed : replayFrom P state records = .ok next)
    (same : other.collections = state.collections) :
    Exists fun folded =>
      applyAll P other records = .ok folded ∧ folded.collections = next.collections := by
  induction records generalizing state other with
  | nil =>
      cases replayed
      exact ⟨other, rfl, same⟩
  | cons record rest ih =>
      have counted := replayRecord_collections P record state
      rw [← applyRecordToState_collections P record same] at counted
      cases first : replayRecord P state record with
      | error failure =>
          rw [replayFrom, List.foldlM_cons, first] at replayed
          cases replayed
      | ok middle =>
          rw [replayFrom_cons first] at replayed
          rw [first] at counted
          cases applied : applyRecordToState P record other with
          | error failure =>
              rw [applied] at counted
              cases counted
          | ok after =>
              rw [applied] at counted
              rcases ih replayed (Except.ok.inj counted).symm with ⟨folded, runs, equal⟩
              refine ⟨folded, ?_, equal⟩
              rw [applyAll, List.foldlM_cons, applied]
              exact runs

/-! ## The scan of one segment -/

/-- The scan passes over the encodings of valid records, replaying them. -/
theorem recoverLoop_frames {P : Platform} {path : String} {fileLen : Nat}
    {records : List NbfRecord} (valid : AllValid P records) {tail : List UInt8}
    {state next : RecoveredState} (replayed : replayFrom P state records = .ok next) :
    recoverLoop P path fileLen (frames P records ++ tail) state =
      recoverLoop P path fileLen tail next := by
  induction records generalizing state with
  | nil =>
      cases replayed
      rfl
  | cons record rest ih =>
      have recordValid := valid record List.mem_cons_self
      rcases replayRecord_ok recordValid state with ⟨middle, first, _⟩
      rw [replayFrom_cons first] at replayed
      have decoded : NbfRecord.decode P (frames P (record :: rest) ++ tail) =
          .ok (some (record.asRead, frames P rest ++ tail)) := by
        rw [frames, List.flatMap_cons, List.append_assoc]
        exact NbfRecord.decode_frame P recordValid.fits recordValid.built _
      have asReplayed : replayRecord P state record.asRead = .ok middle := first
      rw [recoverLoop]
      split
      · rename_i found behind same
        cases decoded.symm.trans same
        rw [asReplayed]
        exact ih (fun other member => valid other (List.mem_cons_of_mem record member)) replayed
      · rename_i same
        cases decoded.symm.trans same
      · rename_i failure same
        cases decoded.symm.trans same

/-- A tail shorter than the magic bytes is a clean end. -/
theorem recoverLoop_short {P : Platform} {path : String} {fileLen : Nat} {tail : List UInt8}
    (short : tail.length < 4) (state : RecoveredState) :
    recoverLoop P path fileLen tail state = .ok (none, state) := by
  have ended := NbfRecord.decode_short P short
  rw [recoverLoop]
  split
  · rename_i same
    cases ended.symm.trans same
  · rfl
  · rename_i same
    cases ended.symm.trans same

/-- A tail the decoder calls torn is cut off. -/
theorem recoverLoop_torn {P : Platform} {path : String} {fileLen : Nat} {tail : List UInt8}
    {failure : NovaError} (failed : NbfRecord.decode P tail = .error failure)
    (torn : NbfRecord.IsTorn failure) (state : RecoveredState) :
    recoverLoop P path fileLen tail state =
      .ok (some (fileLen - tail.length),
        { state with tornTailsTruncated := state.tornTailsTruncated + 1 }) := by
  rw [recoverLoop]
  split
  · rename_i same
    cases failed.symm.trans same
  · rename_i same
    cases failed.symm.trans same
  · rename_i same
    cases failed.symm.trans same
    exact if_pos torn

end RecoveryManager
end Storage
end NovaDb
