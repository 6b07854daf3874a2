import NovaDb.Storage.Repair

namespace NovaDb
namespace Storage

open Core Foundation WriteAheadLog

/-!
# Damaged records

A changed byte inside a record should make recovery stop with an error.  What
recovery does is decided by what the decoder reads from the damaged record on,
so the scan of a segment is first taken apart into reading, which knows nothing
of the database state, and replaying what was read.  Which bytes and which values
lead where is the subject of a later module.
-/

/-! ## Reading, then replaying -/

/-- How reading a segment ends: at the end of the log, or at an undecodable rest. -/
inductive Ending where
  | clean
  | failed (failure : NovaError) (rest : List UInt8)

/-- The records decoded in turn, and how that ends. -/
def readRecords (P : Platform) (bytes : List UInt8) : List NbfRecord × Ending :=
  match decoded : NbfRecord.decode P bytes with
  | .ok (some (record, behind)) =>
      have := NbfRecord.decode_rest_lt decoded
      let (records, ending) := readRecords P behind
      (record :: records, ending)
  | .ok none => ([], .clean)
  | .error failure => ([], .failed failure bytes)
termination_by bytes.length

theorem readRecords_some {P : Platform} {bytes behind : List UInt8} {record : NbfRecord}
    (decoded : NbfRecord.decode P bytes = .ok (some (record, behind))) :
    readRecords P bytes = (record :: (readRecords P behind).1, (readRecords P behind).2) := by
  rw [readRecords]
  split
  · rename_i same
    cases decoded.symm.trans same
    rfl
  · rename_i same
    cases decoded.symm.trans same
  · rename_i same
    cases decoded.symm.trans same

theorem readRecords_none {P : Platform} {bytes : List UInt8}
    (decoded : NbfRecord.decode P bytes = .ok none) : readRecords P bytes = ([], .clean) := by
  rw [readRecords]
  split
  · rename_i same
    cases decoded.symm.trans same
  · rfl
  · rename_i same
    cases decoded.symm.trans same

theorem readRecords_error {P : Platform} {bytes : List UInt8} {failure : NovaError}
    (decoded : NbfRecord.decode P bytes = .error failure) :
    readRecords P bytes = ([], .failed failure bytes) := by
  rw [readRecords]
  split
  · rename_i same
    cases decoded.symm.trans same
  · rename_i same
    cases decoded.symm.trans same
  · rename_i same
    cases decoded.symm.trans same
    rfl

/-! ## Reading back what was encoded -/

/-- Only a zero transaction id is read back differently. -/
theorem NbfRecord.asRead_eq_self {record : NbfRecord} (nonzero : record.txId ≠ some 0) :
    record.asRead = record := by
  rcases record with ⟨sequence, recordType, flags, txId, timestamp, namespaceName, collection,
    documentId, payload⟩
  cases txId with
  | none => rfl
  | some number =>
      have different : number ≠ 0 := fun same => nonzero (congrArg some same)
      simp only [NbfRecord.asRead, Option.getD_some, if_neg different]

/-- The record was made with an id the constructors give, and encodes to the bytes. -/
def EncodesTo (P : Platform) (record : NbfRecord) (bytes : List UInt8) : Prop :=
  record.documentId.Built ∧ record.encode P = .ok bytes

/-- Encoded records are self-delimiting: the decoder takes one and leaves the rest. -/
theorem EncodesTo.decode {P : Platform} {record : NbfRecord} {bytes : List UInt8}
    (encodes : EncodesTo P record bytes) (rest : List UInt8) :
    NbfRecord.decode P (bytes ++ rest) = .ok (some (record.asRead, rest)) := by
  rcases encodes with ⟨built, encoded⟩
  rcases NbfRecord.encode_eq_ok_iff.mp encoded with ⟨fits, rfl⟩
  exact NbfRecord.decode_frame P fits built rest

/-- Reading the concatenation of encoded records answers the records. -/
theorem readRecords_flatten {P : Platform} {records : List NbfRecord}
    {encodings : List (List UInt8)} (encode : List.Forall₂ (EncodesTo P) records encodings) :
    readRecords P encodings.flatten = (records.map NbfRecord.asRead, .clean) := by
  induction encode with
  | nil => exact readRecords_none (NbfRecord.decode_short P (by decide))
  | cons first others ih =>
      rw [List.flatten_cons, readRecords_some (first.decode _), ih]
      rfl

/-- NBF round trip and self-delimitation: the bytes of a record are read as that record,
whatever follows them, up to a transaction id of zero, which is read as none; and the
bytes of several records are read as those records, to the end.  -/
theorem nbf_round_trip (P : Platform) :
    (forall (record : NbfRecord) (bytes : List UInt8), EncodesTo P record bytes ->
      (forall rest, NbfRecord.decode P (bytes ++ rest) = .ok (some (record.asRead, rest))) ∧
        (record.txId ≠ some 0 -> record.asRead = record) ∧
        (record.txId = some 0 -> record.asRead = { record with txId := none })) ∧
    (forall (records : List NbfRecord) (encodings : List (List UInt8)),
      List.Forall₂ (EncodesTo P) records encodings ->
        readRecords P encodings.flatten = (records.map NbfRecord.asRead, .clean)) := by
  refine ⟨?_, fun records encodings encode => readRecords_flatten encode⟩
  intro record bytes encodes
  refine ⟨encodes.decode, NbfRecord.asRead_eq_self, ?_⟩
  intro zero
  rw [NbfRecord.asRead, zero]
  rfl

theorem encodesTo_sampleRecord :
    EncodesTo samplePlatform sampleRecord (sampleRecord.frame samplePlatform) :=
  ⟨valid_sampleRecord.built, NbfRecord.encode_eq_ok_iff.mpr ⟨valid_sampleRecord.fits, rfl⟩⟩

theorem nbf_round_trip_twice :
    NbfRecord.decode samplePlatform (sampleRecord.frame samplePlatform ++ [0x4E]) =
        .ok (some (sampleRecord, [0x4E])) ∧
      readRecords samplePlatform
          [sampleRecord.frame samplePlatform, sampleRecord.frame samplePlatform].flatten =
        ([sampleRecord, sampleRecord], .clean) := by
  rcases nbf_round_trip samplePlatform with ⟨single, several⟩
  exact ⟨(single _ _ encodesTo_sampleRecord).1 [0x4E],
    several _ _ (.cons encodesTo_sampleRecord (.cons encodesTo_sampleRecord .nil))⟩

namespace RecoveryManager

/-- What the scan answers once the records before the ending are replayed. -/
def finish (path : String) (fileLen : Nat) (state : RecoveredState) :
    Ending -> Except NovaError (Option Nat × RecoveredState)
  | .clean => .ok (none, state)
  | .failed failure rest =>
      if failure.code = .tornWriteDetected then
        .ok (some (fileLen - rest.length),
          { state with tornTailsTruncated := state.tornTailsTruncated + 1 })
      else
        .error (NovaError.withDetails .walCorrupted
          ("Corruption encountered in WAL segment " ++ path.quote ++ " at offset " ++
            toString (fileLen - rest.length)) failure.display)

/-- The scan of a segment is reading its records and replaying them. -/
theorem recoverLoop_eq_finish (P : Platform) (path : String) (fileLen : Nat) (bytes : List UInt8)
    (state : RecoveredState) :
    recoverLoop P path fileLen bytes state =
      match replayFrom P state (readRecords P bytes).1 with
      | .error failure => .error failure
      | .ok next => finish path fileLen next (readRecords P bytes).2 := by
  induction size : bytes.length using Nat.strongRecOn generalizing bytes state with
  | ind length ih =>
      rw [recoverLoop]
      split
      · rename_i record behind decoded
        rw [readRecords_some decoded]
        have shorter := NbfRecord.decode_rest_lt decoded
        cases first : replayRecord P state record with
        | error failure =>
            rw [replayFrom, List.foldlM_cons, first]
            rfl
        | ok middle =>
            rw [replayFrom_cons first]
            exact ih behind.length (by omega) behind middle rfl
      · rename_i decoded
        rw [readRecords_none decoded]
        rfl
      · rename_i failure decoded
        rw [readRecords_error decoded]
        rfl

end RecoveryManager

/-! ## A damaged record in the middle of the log -/

open RecoveryManager

/-- Recovery of a damaged directory reports an error or answers the state of the
undamaged one, and leaves the damaged files alone. -/
def DamageDetected (P : Platform) (undamaged damaged : WalDir) : Prop :=
  ((Exists fun failure => (recover P damaged).2 = .error failure) ∨
      (recover P damaged).2 = (recover P undamaged).2) ∧
    forall index, WalDir.read (recover P damaged).1.files index = WalDir.read damaged.files index

/-- What is read from the damaged bytes gives the damage away: it does not decode
to documents, or reading ends in an error that is not a torn write, or what was
read has the effect of the records that were there. -/
def Caught (P : Platform) (earlier : List NbfRecord) (damaged : List UInt8)
    (original later : List NbfRecord) : Prop :=
  match replay P (earlier ++ (readRecords P damaged).1) with
  | .error _ => True
  | .ok _ =>
      match (readRecords P damaged).2 with
      | .failed failure _ => ¬ NbfRecord.IsTorn failure
      | .clean =>
          replay P (earlier ++ (readRecords P damaged).1 ++ later) =
            replay P (earlier ++ original ++ later)

/-- A directory with other bytes in one segment. -/
def WalDir.overwrite (dir : WalDir) (index : Nat) (bytes : List UInt8) : WalDir :=
  { dir with files := dir.files.insert index bytes }

theorem recover_intact {P : Platform} {dir : WalDir} {layout : Layout}
    (intact : Intact P dir.files layout) {next : RecoveredState}
    (replayed : replay P layout.records = .ok next) : recover P dir = (dir, .ok next) := by
  have run := @recoverSegments_whole P dir.path layout dir.files intact.valid intact.noTail
    intact.holds.contents _ _ replayed []
  rw [List.append_nil, recoverSegments] at run
  rw [recover, intact.holds.listed, run]

section Damage

variable {P : Platform} {dir : WalDir} {before after : Layout} {segment : Segment}

/-- Recovery reaches the overwritten segment with the earlier records replayed. -/
theorem recover_overwrite (intact : Intact P dir.files (before ++ [segment] ++ after))
    (bytes : List UInt8) {reached : RecoveredState}
    (replayed : replay P before.records = .ok reached) :
    recover P (dir.overwrite segment.index bytes) =
      let run := recoverSegments P dir.path (segment.index :: after.map Segment.index)
        (dir.files.insert segment.index bytes) reached
      ({ dir with files := run.1 }, run.2) := by
  have listed := intact.holds.listed
  have ascending := WalDir.discoverSegments_ascending dir.files
  rw [listed, List.map_append, List.map_append] at ascending
  have smaller : forall other, other ∈ before -> other.index ≠ segment.index := by
    intro other member
    have parts := (List.pairwise_append.mp (List.pairwise_append.mp ascending).1).2.2
    exact Nat.ne_of_lt (parts _ (List.mem_map_of_mem member) _ (List.mem_singleton_self _))
  have isListed : segment.index ∈ dir.files := by
    rw [← WalDir.mem_discoverSegments, listed]
    simp
  have beforeIn : forall other, other ∈ before -> other ∈ before ++ [segment] ++ after :=
    fun other member => List.mem_append_left _ (List.mem_append_left _ member)
  have valid : AllValid P before.records := by
    intro record member
    apply intact.valid
    rw [Layout.records_append, Layout.records_append]
    exact List.mem_append_left _ (List.mem_append_left _ member)
  have run := @recoverSegments_whole P dir.path before (dir.files.insert segment.index bytes) valid
    (fun other member => intact.noTail other (beforeIn other member))
    (fun other member => by
      rw [WalDir.read_insert_ne (smaller other member)]
      exact intact.holds.contents other (beforeIn other member))
    _ _ replayed (segment.index :: after.map Segment.index)
  rw [recover, WalDir.overwrite]
  simp only [WalDir.discoverSegments_insert_listed isListed, listed, List.map_append,
    List.map_cons, List.append_assoc, List.singleton_append, run]

/-- The segments behind the overwritten one are replayed as they are. -/
theorem recoverSegments_after (intact : Intact P dir.files (before ++ [segment] ++ after))
    (bytes : List UInt8) {state next : RecoveredState}
    (replayed : replayFrom P state after.records = .ok next) :
    recoverSegments P dir.path (after.map Segment.index) (dir.files.insert segment.index bytes)
      state = (dir.files.insert segment.index bytes, .ok next) := by
  have ascending := WalDir.discoverSegments_ascending dir.files
  rw [intact.holds.listed, List.map_append, List.map_append] at ascending
  have larger : forall other, other ∈ after -> other.index ≠ segment.index := by
    intro other member
    have parts := (List.pairwise_append.mp ascending).2.2
    exact (Nat.ne_of_lt (parts _ (List.mem_append_right _ (List.mem_singleton_self _)) _
      (List.mem_map_of_mem member))).symm
  have afterIn : forall other, other ∈ after -> other ∈ before ++ [segment] ++ after :=
    fun other member => List.mem_append_right _ member
  have valid : AllValid P after.records := by
    intro record member
    apply intact.valid
    rw [Layout.records_append]
    exact List.mem_append_right _ member
  have run := @recoverSegments_whole P dir.path after (dir.files.insert segment.index bytes) valid
    (fun other member => intact.noTail other (afterIn other member))
    (fun other member => by
      rw [WalDir.read_insert_ne (larger other member)]
      exact intact.holds.contents other (afterIn other member))
    _ _ replayed []
  rw [List.append_nil, recoverSegments] at run
  exact run

/-- The scan of the overwritten segment: the records in front of the damage are
replayed, and the rest is read. -/
theorem recoverSegment_damaged {path : String} {front : List NbfRecord}
    (valid : AllValid P front) {damaged : List UInt8} (nonempty : damaged ≠ [])
    {state reached : RecoveredState} (replayed : replayFrom P state front = .ok reached) :
    recoverSegment P path (frames P front ++ damaged) state =
      match replayFrom P reached (readRecords P damaged).1 with
      | .error failure => .error failure
      | .ok next =>
          finish path (frames P front ++ damaged).length next (readRecords P damaged).2 := by
  have something : ¬ (frames P front ++ damaged).length = 0 := by
    rw [List.length_eq_zero_iff, List.append_eq_nil_iff]
    exact fun both => nonempty both.2
  rw [recoverSegment, if_neg something, recoverLoop_frames valid replayed, recoverLoop_eq_finish]

/-- Damage behind some records of a segment is detected exactly when what is read
from there gives it away. -/
theorem damageDetected_iff_caught (intact : Intact P dir.files (before ++ [segment] ++ after))
    {front original : List NbfRecord} (split : segment.records = front ++ original)
    {damaged : List UInt8} (nonempty : damaged ≠ []) :
    DamageDetected P dir (dir.overwrite segment.index (frames P front ++ damaged)) <->
      Caught P (before.records ++ front) damaged original after.records := by
  have allRecords : Layout.records (before ++ [segment] ++ after) =
      before.records ++ front ++ original ++ after.records := by
    rw [Layout.records_append, Layout.records_append, Layout.records_singleton, split]
    simp only [List.append_assoc]
  have valid := intact.valid
  rw [allRecords] at valid
  have laterValid : AllValid P after.records :=
    fun record member => valid record (List.mem_append_right _ member)
  have earlierValid : AllValid P (before.records ++ front) :=
    fun record member => valid record (List.mem_append_left _ (List.mem_append_left _ member))
  have frontValid : AllValid P front :=
    fun record member => earlierValid record (List.mem_append_right _ member)
  have beforeValid : AllValid P before.records :=
    fun record member => earlierValid record (List.mem_append_left _ member)
  rcases replayFrom_ok beforeValid RecoveredState.new with ⟨state, toSegment, _⟩
  rcases replayFrom_ok frontValid state with ⟨reached, toDamage, _⟩
  have earlier : replay P (before.records ++ front) = .ok reached :=
    (replayFrom_append toSegment).trans toDamage
  rcases replayFrom_ok valid RecoveredState.new with ⟨whole, replayed, _, _, wholeTorn⟩
  have undamaged : recover P dir = (dir, .ok whole) := by
    apply recover_intact intact
    rw [allRecords]
    exact replayed
  have run := recover_overwrite intact (frames P front ++ damaged) toSegment
  rw [recoverSegments, WalDir.read_insert, recoverSegment_damaged frontValid nonempty toDamage] at run
  have readOn : replay P (before.records ++ front ++ (readRecords P damaged).1) =
      replayFrom P reached (readRecords P damaged).1 := replayFrom_append earlier
  unfold DamageDetected Caught
  rw [undamaged, readOn]
  cases misread : replayFrom P reached (readRecords P damaged).1 with
  | error failure =>
      -- a record that was read carries no document
      simp only [misread] at run
      rw [run]
      exact iff_of_true ⟨Or.inl ⟨failure, rfl⟩, fun _ => rfl⟩ trivial
  | ok next =>
      simp only [misread] at run
      cases ending : (readRecords P damaged).2 with
      | clean =>
          simp only [ending, finish] at run
          rcases replayFrom_ok laterValid next with ⟨final, toEnd, _⟩
          rw [recoverSegments_after intact _ toEnd] at run
          have total : replay P (before.records ++ front ++ (readRecords P damaged).1 ++ after.records) =
              .ok final := (replayFrom_append (readOn.trans misread)).trans toEnd
          simp only [run, total]
          rw [show replay P (before.records ++ front ++ original ++ after.records) = .ok whole
            from replayed]
          constructor
          · rintro ⟨⟨failure, failed⟩ | same, _⟩
            · cases failed
            · exact same
          · intro same
            exact ⟨Or.inr same, fun _ => rfl⟩
      | failed failure rest =>
          by_cases torn : failure.code = .tornWriteDetected
          · -- the scan cuts the segment here and goes on, counting a torn tail
            simp only [ending, finish, if_pos torn] at run
            rcases replayFrom_ok laterValid
                { next with tornTailsTruncated := next.tornTailsTruncated + 1 } with
              ⟨final, toEnd, _, _, finalTorn⟩
            have insertTwice : forall bytes, (dir.files.insert segment.index
                (frames P front ++ damaged)).insert segment.index bytes =
                  dir.files.insert segment.index bytes :=
              fun bytes => AList.insert_insert dir.files
            rw [insertTwice, recoverSegments_after intact _ toEnd] at run
            refine iff_of_false ?_ (fun notTorn => notTorn torn)
            rintro ⟨⟨other, failed⟩ | same, _⟩
            · rw [run] at failed
              cases failed
            · rw [run] at same
              have counts := congrArg RecoveredState.tornTailsTruncated (Except.ok.inj same)
              rw [finalTorn, wholeTorn] at counts
              cases counts
          · simp only [ending, finish, if_neg torn] at run
            rw [run]
            exact iff_of_true ⟨Or.inl ⟨_, rfl⟩, fun _ => rfl⟩ torn

end Damage

end Storage
end NovaDb
