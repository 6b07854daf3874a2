import NovaDb.Storage.AppendRun

namespace NovaDb
namespace Storage

open Core Foundation

/-!
# Logs under any sync policy

Without a sync the last records may still be in the writer's buffer.  What an
open log carries is what its files hold once the buffer is written out; the policy
does not show in it.  When nothing fails outside the program, a rotation keeps it
and a write extends its last segment.
-/

/-- A counter that does not wrap around. -/
theorem toNat_next {sequence : UInt64} (room : sequence.toNat + 1 < 2 ^ 64) :
    (sequence + 1).toNat = sequence.toNat + 1 := by
  rw [UInt64.toNat_add]
  exact Nat.mod_eq_of_lt room

/-- The device takes every byte that the program writes.  Any other call may fail. -/
structure Environment.Takes (env : Environment) : Prop where
  room : env.room = none
  fault : env.fault ≠ .partialWrite

theorem Environment.Quiet.takes {env : Environment} (quiet : env.Quiet) : env.Takes := by
  refine ⟨quiet.room, ?_⟩
  rw [quiet.fault]
  exact nofun

namespace WriteAheadLog

/-- The log is open on the closed segments and the current one, whose last bytes
may be in the writer's buffer. -/
structure Carries (P : Platform) (wal : WriteAheadLog) (closed : Layout) (current : Segment) :
    Prop where
  healthy : wal.poisoned = false
  listed : WalDir.discoverSegments wal.dir.files = (closed ++ [current]).map Segment.index
  closedBytes : forall segment, segment ∈ closed ->
    WalDir.read wal.dir.files segment.index = segment.bytes P
  currentBytes : wal.activeFile.all = current.bytes P
  active : wal.activeSegment = current.index
  ahead : wal.activeSegment ≤ wal.currentSegmentIndex

section Carried

variable {P : Platform} {env : Environment} {wal : WriteAheadLog} {closed : Layout}
  {current : Segment}

theorem Carries.active_listed (carries : Carries P wal closed current) :
    wal.activeSegment ∈ wal.dir.files := by
  rw [← WalDir.mem_discoverSegments, carries.listed, List.map_append, carries.active]
  exact List.mem_append_right _ (List.mem_singleton_self _)

theorem Carries.closed_lt (carries : Carries P wal closed current) {segment : Segment}
    (member : segment ∈ closed) : segment.index < wal.activeSegment := by
  have ascending := WalDir.discoverSegments_ascending wal.dir.files
  rw [carries.listed, List.map_append] at ascending
  rw [carries.active]
  exact (List.pairwise_append.mp ascending).2.2 _ (List.mem_map_of_mem member) _
    (List.mem_singleton_self _)

theorem Carries.listed_le (carries : Carries P wal closed current) {index : Nat}
    (member : index ∈ wal.dir.files) : index ≤ wal.activeSegment := by
  rw [← WalDir.mem_discoverSegments, carries.listed, List.map_append] at member
  rcases List.mem_append.mp member with inClosed | isLast
  · rcases List.mem_map.mp inClosed with ⟨segment, isSegment, rfl⟩
    exact Nat.le_of_lt (carries.closed_lt isSegment)
  · rw [List.mem_singleton.mp isLast, carries.active]

theorem Carries.resequenced (carries : Carries P wal closed current) (sequence : UInt64) :
    Carries P { wal with currentSequence := sequence } closed current :=
  ⟨carries.healthy, carries.listed, carries.closedBytes, carries.currentBytes, carries.active,
    carries.ahead⟩

theorem all_storeActive (wal : WriteAheadLog) (file : BufferedFile) :
    (wal.storeActive file).activeFile.all = file.all := by
  change WalDir.read (wal.dir.files.insert wal.activeSegment file.contents) wal.activeSegment ++ _ = _
  rw [WalDir.read_insert]
  rfl

/-- Other bytes in the active segment, in its file or its buffer. -/
theorem Carries.stored (carries : Carries P wal closed current) {file : BufferedFile}
    {changed : Segment} (sameIndex : changed.index = current.index)
    (changedBytes : file.all = changed.bytes P) :
    Carries P (wal.storeActive file) closed changed where
  healthy := carries.healthy
  listed := by
    change WalDir.discoverSegments (wal.dir.files.insert _ _) = _
    rw [WalDir.discoverSegments_insert_listed carries.active_listed, carries.listed]
    simp only [List.map_append, List.map_cons, List.map_nil, sameIndex]
  closedBytes := by
    intro segment member
    change WalDir.read (wal.dir.files.insert _ _) _ = _
    rw [WalDir.read_insert_ne (Nat.ne_of_lt (carries.closed_lt member))]
    exact carries.closedBytes segment member
  currentBytes := (all_storeActive wal file).trans changedBytes
  active := carries.active.trans sameIndex.symm
  ahead := carries.ahead

/-- A write with nothing in the way: the bytes come behind those of the current
segment, and the counter counts them. -/
theorem Carries.write (carries : Carries P wal closed current) (quiet : env.Quiet)
    (sequence : UInt64) {encoded : List UInt8} {changed : Segment}
    (sameIndex : changed.index = current.index)
    (changedBytes : changed.bytes P = current.bytes P ++ encoded) :
    Exists fun file =>
      writeRecord env none wal sequence encoded =
        ({ wal.storeActive file with
            currentSegmentSize := wal.currentSegmentSize + encoded.length }, .ok sequence) ∧
      Carries P { wal.storeActive file with
        currentSegmentSize := wal.currentSegmentSize + encoded.length } closed changed := by
  rcases BufferedFile.writeAll_all bufferCapacity wal.activeFile encoded with
    ⟨written, writes, grown⟩
  have allBytes : written.all = changed.bytes P := by
    rw [grown, carries.currentBytes, changedBytes]
  have counted : forall file : BufferedFile, file.all = changed.bytes P ->
      Carries P { wal.storeActive file with
        currentSegmentSize := wal.currentSegmentSize + encoded.length } closed changed := by
    intro file isAll
    have stored := carries.stored sameIndex isAll
    exact ⟨stored.healthy, stored.listed, stored.closedBytes, stored.currentBytes, stored.active,
      stored.ahead⟩
  by_cases always : wal.syncMode = .always
  · refine ⟨⟨written.all, []⟩, ?_, counted _ ((List.append_nil _).trans allBytes)⟩
    simp [writeRecord, carries.healthy, quiet.fault, writes, always, BufferedFile.flush_all,
      quiet.syncFails]
  · refine ⟨written, ?_, counted _ allBytes⟩
    simp [writeRecord, carries.healthy, quiet.fault, writes, always]

/-- The log behind a rotation with nothing in the way. -/
def rotated (wal : WriteAheadLog) : WriteAheadLog :=
  let flushed := wal.storeActive ⟨wal.activeFile.all, []⟩
  { flushed with
    dir := { flushed.dir with
      files := WalDir.createIfAbsent flushed.dir.files (wal.currentSegmentIndex + 1) }
    currentSegmentIndex := wal.currentSegmentIndex + 1
    activeSegment := wal.currentSegmentIndex + 1
    buffer := []
    currentSegmentSize := 0 }

theorem rotateSegment_quiet (quiet : env.Quiet) (healthy : wal.poisoned = false) : rotateSegment env wal = (wal.rotated, none, .ok ()) := by
  simp [rotateSegment, healthy, quiet.room, BufferedFile.flush_all, quiet.rotateSyncFails,
    quiet.openFails, rotated, storeActive]

theorem Carries.rotates (carries : Carries P wal closed current) :
    Carries P wal.rotated (closed ++ [current]) ⟨wal.currentSegmentIndex + 1, [], []⟩ := by
  have stored : Carries P (wal.storeActive ⟨wal.activeFile.all, []⟩) closed current :=
    carries.stored rfl ((List.append_nil _).trans carries.currentBytes)
  have larger : forall other, other ∈ (wal.storeActive ⟨wal.activeFile.all, []⟩).dir.files ->
      other < wal.currentSegmentIndex + 1 := by
    intro other member
    exact Nat.lt_succ_of_le ((stored.listed_le member).trans stored.ahead)
  have absent : wal.currentSegmentIndex + 1 ∉
      (wal.storeActive ⟨wal.activeFile.all, []⟩).dir.files :=
    fun member => Nat.lt_irrefl _ (larger _ member)
  have created : wal.rotated.dir.files =
      (wal.storeActive ⟨wal.activeFile.all, []⟩).dir.files.insert (wal.currentSegmentIndex + 1)
        [] := if_neg absent
  constructor
  · exact carries.healthy
  · rw [created, WalDir.discoverSegments_insert_new larger, stored.listed]
    simp only [List.map_append, List.map_cons, List.map_nil]
  · intro segment member
    have listed : segment.index ∈ (wal.storeActive ⟨wal.activeFile.all, []⟩).dir.files := by
      rw [← WalDir.mem_discoverSegments, stored.listed]
      exact List.mem_map_of_mem member
    rw [created, WalDir.read_insert_ne (Nat.ne_of_lt (larger _ listed))]
    rcases List.mem_append.mp member with inClosed | isCurrent
    · exact stored.closedBytes segment inClosed
    · rw [List.mem_singleton.mp isCurrent, ← stored.currentBytes, ← stored.active]
      exact (List.append_nil _).symm
  · change WalDir.read wal.rotated.dir.files (wal.currentSegmentIndex + 1) ++ [] = _
    rw [created, WalDir.read_insert]
    rfl
  · rfl
  · exact Nat.le_refl _

end Carried

/-! ## Calls that fail without cutting a write short -/

section Taken

variable {env : Environment}

/-- What a rotation leaves: the log as it was, or flushed, perhaps with the index
advanced, or rotated. -/
theorem rotateSegment_takes (takes : env.Takes) (wal : WriteAheadLog) :
    Exists fun next => Exists fun outcome => rotateSegment env wal = (next, none, outcome) ∧
      (next = wal ∨ next = wal.rotated ∨
        Exists fun index => wal.currentSegmentIndex ≤ index ∧
          next = { wal.storeActive ⟨wal.activeFile.all, []⟩ with currentSegmentIndex := index }) := by
  unfold rotateSegment
  rw [takes.room, BufferedFile.flush_all]
  split
  · exact ⟨wal, _, rfl, Or.inl rfl⟩
  · simp only
    split
    · exact ⟨_, _, rfl, Or.inr (Or.inr ⟨wal.currentSegmentIndex, Nat.le_refl _, rfl⟩)⟩
    · split
      · exact ⟨_, _, rfl, Or.inr (Or.inr ⟨wal.currentSegmentIndex + 1, Nat.le_succ _, rfl⟩)⟩
      · exact ⟨_, _, rfl, Or.inr (Or.inl rfl)⟩

/-- What a write leaves: the log as it was, or all bytes behind those before. -/
theorem writeRecord_takes (takes : env.Takes) (wal : WriteAheadLog) (sequence : UInt64)
    (encoded : List UInt8) :
    Exists fun next => Exists fun outcome =>
      writeRecord env none wal sequence encoded = (next, outcome) ∧
        (next = wal ∨ Exists fun file => Exists fun size => Exists fun poisoned =>
          file.all = wal.activeFile.all ++ encoded ∧
            next = { wal.storeActive file with currentSegmentSize := size, poisoned }) := by
  rcases BufferedFile.writeAll_all bufferCapacity wal.activeFile encoded with
    ⟨written, writes, grown⟩
  have sent : Exists fun file =>
      (if wal.syncMode = .always then written.flush none else ⟨written, none, true⟩) =
          (⟨file, none, true⟩ : WriteAttempt) ∧ file.all = wal.activeFile.all ++ encoded := by
    by_cases always : wal.syncMode = .always
    · rw [if_pos always, BufferedFile.flush_all]
      exact ⟨_, rfl, (List.append_nil _).trans grown⟩
    · rw [if_neg always]
      exact ⟨written, rfl, grown⟩
  rcases sent with ⟨file, sends, isAll⟩
  unfold writeRecord
  simp only [if_neg takes.fault, writes, sends, Bool.not_true, Bool.false_eq_true, if_false]
  split
  · exact ⟨wal, _, rfl, Or.inl rfl⟩
  · split
    · exact ⟨_, _, rfl, Or.inr ⟨file, wal.currentSegmentSize, wal.poisoned, isAll, rfl⟩⟩
    · split
      · exact ⟨_, _, rfl, Or.inr ⟨file, _, true, isAll, rfl⟩⟩
      · exact ⟨_, _, rfl, Or.inr ⟨file, _, wal.poisoned, isAll, rfl⟩⟩

end Taken

/-! ## Whole records -/

/-- The log carries whole records only, and these: its segments and the pending bytes of
its writer are their encodings, in order. -/
def Logs (P : Platform) (wal : WriteAheadLog) (records : List NbfRecord) : Prop :=
  Exists fun closed => Exists fun current =>
    Carries P wal closed current ∧
      (forall segment, segment ∈ closed ++ [current] -> segment.tail = []) ∧
      Layout.records (closed ++ [current]) = records

section Records

variable {P : Platform} {env : Environment} {wal : WriteAheadLog} {records : List NbfRecord}

theorem Logs.resequenced (logs : Logs P wal records) (sequence : UInt64) :
    Logs P { wal with currentSequence := sequence } records := by
  rcases logs with ⟨closed, current, carries, clean, same⟩
  exact ⟨closed, current, carries.resequenced sequence, clean, same⟩

theorem Logs.rotate (logs : Logs P wal records) (quiet : env.Quiet) :
    rotateSegment env wal = (wal.rotated, none, .ok ()) ∧ Logs P wal.rotated records := by
  rcases logs with ⟨closed, current, carries, clean, same⟩
  refine ⟨rotateSegment_quiet quiet carries.healthy, closed ++ [current], _, carries.rotates, ?_, ?_⟩
  · intro segment member
    rcases List.mem_append.mp member with older | isFresh
    · exact clean segment older
    · rw [List.mem_singleton.mp isFresh]
  · rw [Layout.records_append, Layout.records_singleton, List.append_nil, same]

theorem Logs.write (logs : Logs P wal records) (quiet : env.Quiet) (sequence : UInt64)
    (record : NbfRecord) :
    Exists fun next =>
      writeRecord env none wal sequence (record.frame P) = (next, .ok sequence) ∧
        Logs P next (records ++ [record]) ∧ next.currentSequence = wal.currentSequence := by
  rcases logs with ⟨closed, current, carries, clean, same⟩
  have noTail := clean current (List.mem_append_right _ (List.mem_singleton_self _))
  have bytes : Segment.bytes P { current with records := current.records ++ [record] } =
      current.bytes P ++ record.frame P := by
    rw [Segment.bytes, Segment.bytes, noTail, frames_append, frames_singleton, List.append_nil,
      List.append_nil]
  rcases @Carries.write P env wal closed current carries quiet sequence (record.frame P)
    { current with records := current.records ++ [record] } rfl bytes with ⟨file, writes, written⟩
  refine ⟨_, writes, ⟨closed, _, written, ?_, ?_⟩, rfl⟩
  · intro segment member
    rcases List.mem_append.mp member with older | isChanged
    · exact clean segment (List.mem_append_left _ older)
    · rw [List.mem_singleton.mp isChanged]
      exact noTail
  · rw [← same]
    simp only [Layout.records_append, Layout.records_singleton, List.append_assoc]

/-- An append with nothing in the way takes a number; it writes the record and
returns the number, or fails and writes nothing. -/
theorem Logs.append (logs : Logs P wal records) (quiet : env.Quiet) (mutation : Mutation) :
    Exists fun next => next.currentSequence = wal.currentSequence + 1 ∧
      ((Exists fun fault =>
          append P env wal mutation = (next, .error fault) ∧ Logs P next records) ∨
        (append P env wal mutation = (next, .ok (wal.currentSequence + 1)) ∧
          Logs P next (records ++ [mutation.record (wal.currentSequence + 1) env.now]))) := by
  have counted := logs.resequenced (wal.currentSequence + 1)
  unfold WriteAheadLog.append
  by_cases overflows :
      (P.overflowChecks && wal.currentSequence == 0xFFFFFFFFFFFFFFFF) = true
  · simp only [if_pos overflows]
    exact ⟨_, rfl, Or.inl ⟨_, rfl, counted⟩⟩
  · simp only [if_neg overflows]
    cases encodes : (mutation.record (wal.currentSequence + 1) env.now).encode P with
    | error failure => exact ⟨_, rfl, Or.inl ⟨_, rfl, counted⟩⟩
    | ok encoded =>
        rcases NbfRecord.encode_eq_ok_iff.mp encodes with ⟨fits, rfl⟩
        simp only
        split
        · rcases counted.rotate quiet with ⟨rotates, fresh⟩
          rcases fresh.write quiet (wal.currentSequence + 1)
            (mutation.record (wal.currentSequence + 1) env.now) with ⟨next, writes, written, kept⟩
          simp only [rotates, writes]
          exact ⟨next, kept, Or.inr ⟨rfl, written⟩⟩
        · rcases counted.write quiet (wal.currentSequence + 1)
            (mutation.record (wal.currentSequence + 1) env.now) with ⟨next, writes, written, kept⟩
          simp only [quiet.room, writes]
          exact ⟨next, kept, Or.inr ⟨rfl, written⟩⟩

end Records

/-! ## Opening -/

section Opening

variable {P : Platform} {dir : WalDir} (mode : SyncMode) (limit : Nat)

/-- A log opened on a directory without segments starts a first one. -/
theorem carries_openDir_empty (nothing : WalDir.discoverSegments dir.files = []) :
    Carries P (openDir dir mode limit) [] ⟨0, [], []⟩ := by
  have absent : forall index, index ∉ dir.files := by
    intro index member
    rw [← WalDir.mem_discoverSegments, nothing] at member
    cases member
  have isActive : (openDir dir mode limit).activeSegment = 0 := by
    simp only [openDir, nothing, List.getLast?_nil, Option.getD_none]
  have files : (openDir dir mode limit).dir.files = (AList.insert 0 [] dir.files : Files) := by
    simp only [openDir, nothing, List.getLast?_nil, Option.getD_none]
    exact if_neg (absent 0)
  refine ⟨rfl, ?_, ?_, ?_, isActive, Nat.le_refl _⟩
  · rw [files, WalDir.discoverSegments_insert_new
      (fun other member => absurd member (absent other)), nothing]
    rfl
  · intro segment member
    cases member
  · change WalDir.read _ _ ++ [] = []
    rw [files, isActive, WalDir.read_insert]
    rfl

/-- A log opened on a directory with segments goes on in the last one, whatever
is behind its records. -/
theorem carries_openDir_last {closed : Layout} {current : Segment}
    (holds : Holds P dir.files (closed ++ [current])) :
    Carries P (openDir dir mode limit) closed current := by
  have isLast : current ∈ closed ++ [current] :=
    List.mem_append_right _ (List.mem_singleton_self _)
  have lastListed : (WalDir.discoverSegments dir.files).getLast?.getD 0 = current.index := by
    rw [holds.listed, List.map_append]
    simp
  have listed : current.index ∈ dir.files := by
    rw [← WalDir.mem_discoverSegments, holds.listed]
    exact List.mem_map_of_mem isLast
  have isActive : (openDir dir mode limit).activeSegment = current.index := lastListed
  have files : (openDir dir mode limit).dir.files = dir.files := by
    simp only [openDir, lastListed]
    exact if_pos listed
  refine ⟨rfl, ?_, ?_, ?_, isActive, Nat.le_refl _⟩
  · rw [files, holds.listed]
  · intro segment member
    rw [files]
    exact holds.contents segment (List.mem_append_left _ member)
  · change WalDir.read _ _ ++ [] = _
    rw [files, isActive, List.append_nil]
    exact holds.contents current isLast

/-- The log opened on an empty directory carries no record. -/
theorem logs_openDir_empty (path : String) (sequence : UInt64) :
    Logs P ((openDir ⟨path, ∅⟩ mode limit).setSequence sequence) [] := by
  have nothing : WalDir.discoverSegments ∅ = [] := by decide +kernel
  refine ⟨[], ⟨0, [], []⟩, (carries_openDir_empty mode limit nothing).resequenced sequence, ?_, rfl⟩
  intro segment member
  rw [List.mem_singleton.mp member]

end Opening

/-! ## Numbers -/

section Numbers

variable {P : Platform} {env : Environment} {wal next : WriteAheadLog}

theorem rotateSegment_sequence (env : Environment) (wal : WriteAheadLog) :
    (rotateSegment env wal).1.currentSequence = wal.currentSequence := by
  unfold rotateSegment
  split
  · rfl
  · simp only
    split
    · rfl
    · split
      · rfl
      · rfl

/-- A write leaves the counter alone, and returns the number it was given if any. -/
theorem writeRecord_sequence {room : Option Nat} {sequence : UInt64} {encoded : List UInt8}
    {outcome : Outcome UInt64} (writes : writeRecord env room wal sequence encoded = (next, outcome)) :
    next.currentSequence = wal.currentSequence ∧
      forall number, outcome = .ok number -> number = sequence := by
  unfold writeRecord at writes
  split at writes
  · cases writes
    exact ⟨rfl, nofun⟩
  · split at writes
    · simp only at writes
      split at writes
      · cases writes
        exact ⟨rfl, nofun⟩
      · split at writes
        · cases writes
          exact ⟨rfl, nofun⟩
        · cases writes
          exact ⟨rfl, nofun⟩
    · simp only at writes
      split at writes
      · cases writes
        exact ⟨rfl, nofun⟩
      · generalize (if wal.syncMode = .always then _ else _) = flushed at writes
        split at writes
        · cases writes
          exact ⟨rfl, nofun⟩
        · split at writes
          · cases writes
            exact ⟨rfl, nofun⟩
          · split at writes
            · cases writes
              exact ⟨rfl, nofun⟩
            · cases writes
              refine ⟨rfl, ?_⟩
              intro number same
              cases same
              rfl

/-- Every append takes one number, and returns no other. -/
theorem append_sequence {mutation : Mutation} {outcome : Outcome UInt64}
    (appends : append P env wal mutation = (next, outcome)) :
    next.currentSequence = wal.currentSequence + 1 ∧
      forall number, outcome = .ok number -> number = wal.currentSequence + 1 := by
  unfold append at appends
  simp only at appends
  split at appends
  · cases appends
    exact ⟨rfl, nofun⟩
  · split at appends
    · cases appends
      exact ⟨rfl, nofun⟩
    · split at appends
      · have kept := rotateSegment_sequence env { wal with currentSequence := wal.currentSequence + 1 }
        split at appends
        · rename_i rotates
          rw [rotates] at kept
          cases appends
          exact ⟨kept, nofun⟩
        · rename_i rotates
          rw [rotates] at kept
          rcases writeRecord_sequence appends with ⟨unchanged, number⟩
          exact ⟨unchanged.trans kept, number⟩
      · exact writeRecord_sequence appends

end Numbers

end WriteAheadLog
end Storage
end NovaDb
