import NovaDb.Storage.LogDirectory

namespace NovaDb
namespace Storage

open Core Foundation

/-!
# Appending to an open log

`Opened` ties an open log to the segments of its directory.  An append from an
empty buffer either ends before the write with the segments as they were, or it
reaches the write with the active segment chosen: the current one, or a fresh one
after a rotation.  The write then leaves the whole record or a front part of it.
-/

namespace WriteAheadLog

/-! ## The write -/

theorem activeFile_empty {wal : WriteAheadLog} (pending : wal.buffer = []) :
    wal.activeFile = ⟨WalDir.read wal.dir.files wal.activeSegment, []⟩ := by
  rw [activeFile, pending]

/-- The log with the bytes behind the active segment and the given buffer. -/
def extended (wal : WriteAheadLog) (bytes buffer : List UInt8) : WriteAheadLog :=
  wal.storeActive ⟨WalDir.read wal.dir.files wal.activeSegment ++ bytes, buffer⟩

section Write

variable {env : Environment} {room : Option Nat} {wal : WriteAheadLog} {sequence : UInt64}
  {encoded : List UInt8}

/-- A write the device accepts is acknowledged and counted. -/
theorem writeRecord_accepted (always : wal.syncMode = .always) (healthy : wal.poisoned = false)
    (pending : wal.buffer = []) (fault : env.fault = .unset) (synced : env.syncFails = false)
    (enough : forall left, room = some left -> encoded.length ≤ left) :
    writeRecord env room wal sequence encoded =
      ({ wal.extended encoded [] with
          currentSegmentSize := wal.currentSegmentSize + encoded.length }, .ok sequence) := by
  rcases BufferedFile.writeAll_flush_accepted bufferCapacity
      (WalDir.read wal.dir.files wal.activeSegment) enough with
    ⟨written, left, writes, succeeded, flushes⟩
  simp [writeRecord, healthy, fault, activeFile_empty pending, writes, succeeded, always, flushes,
    synced, extended]

/-- A write that meets the end of the room leaves that many bytes. -/
theorem writeRecord_refused {left : Nat} (always : wal.syncMode = .always)
    (healthy : wal.poisoned = false) (pending : wal.buffer = []) (fault : env.fault ≠ .partialWrite)
    (less : left < encoded.length) :
    Exists fun buffer => Exists fun failure =>
      writeRecord env (some left) wal sequence encoded =
        (wal.extended (encoded.take left) buffer, .error (.error failure)) := by
  rcases BufferedFile.writeAll_flush_refused bufferCapacity
      (WalDir.read wal.dir.files wal.activeSegment) less with
    ⟨written, writes, ⟨failed, file⟩ | ⟨succeeded, flushes⟩⟩
  · refine ⟨[], NovaError.storage ("Failed to write WAL record: " ++ env.ioError), ?_⟩
    simp [writeRecord, healthy, fault, activeFile_empty pending, writes, failed, file, extended]
  · refine ⟨encoded.drop left, NovaError.storage ("Failed to flush WAL buffer: " ++ env.ioError), ?_⟩
    simp [writeRecord, healthy, fault, activeFile_empty pending, writes, succeeded, always, flushes,
      extended]

/-- The injected partial write leaves a proper front part and reports an error. -/
theorem writeRecord_injected (healthy : wal.poisoned = false) (pending : wal.buffer = [])
    (fault : env.fault = .partialWrite) (nonempty : 0 < encoded.length) :
    Exists fun count => Exists fun buffer => Exists fun failure =>
      count < encoded.length ∧
        writeRecord env room wal sequence encoded =
          (wal.extended (encoded.take count) buffer, .error (.error failure)) := by
  have shorter : (encoded.take (encoded.length - 16)).length = encoded.length - 16 := by
    rw [List.length_take]
    omega
  by_cases enough : forall left, room = some left ->
      (encoded.take (encoded.length - 16)).length ≤ left
  · rcases BufferedFile.writeAll_flush_accepted bufferCapacity
        (WalDir.read wal.dir.files wal.activeSegment) enough with
      ⟨written, left, writes, succeeded, flushes⟩
    refine ⟨encoded.length - 16, [],
      NovaError.storage "Simulated partial write fault injected", by omega, ?_⟩
    simp [writeRecord, healthy, fault, activeFile_empty pending, writes, succeeded, flushes,
      extended]
  · rw [not_forall] at enough
    rcases enough with ⟨left, limited⟩
    rw [Classical.not_imp] at limited
    rcases limited with ⟨rfl, less⟩
    have inside : left < encoded.length - 16 := by omega
    have front : (encoded.take (encoded.length - 16)).take left = encoded.take left := by
      rw [List.take_take, Nat.min_eq_left (Nat.le_of_lt inside)]
    rcases BufferedFile.writeAll_flush_refused bufferCapacity
        (WalDir.read wal.dir.files wal.activeSegment) (Nat.lt_of_not_le less) with
      ⟨written, writes, ⟨failed, file⟩ | ⟨succeeded, flushes⟩⟩
    · refine ⟨left, [], NovaError.storage ("WAL partial write: " ++ env.ioError), by omega, ?_⟩
      simp [writeRecord, healthy, fault, activeFile_empty pending, writes, failed, file, extended,
        front]
    · refine ⟨left, (encoded.take (encoded.length - 16)).drop left,
        NovaError.storage ("" ++ env.ioError), by omega, ?_⟩
      simp [writeRecord, healthy, fault, activeFile_empty pending, writes, succeeded, flushes,
        extended, front]

/-- A write the device accepts but that is not acknowledged leaves the whole
record. -/
theorem writeRecord_unacknowledged (always : wal.syncMode = .always)
    (healthy : wal.poisoned = false) (pending : wal.buffer = [])
    (fault : env.fault ≠ .partialWrite)
    (refused : env.syncFails = true ∨ env.fault = .crashAfterWal)
    (enough : forall left, room = some left -> encoded.length ≤ left) :
    Exists fun next => Exists fun problem =>
      writeRecord env room wal sequence encoded = (next, .error problem) ∧
        next.dir = (wal.extended encoded []).dir := by
  rcases BufferedFile.writeAll_flush_accepted bufferCapacity
      (WalDir.read wal.dir.files wal.activeSegment) enough with
    ⟨written, left, writes, succeeded, flushes⟩
  by_cases synced : env.syncFails = true
  · refine ⟨wal.extended encoded [],
      .error (NovaError.storage ("Failed to fsync WAL file: " ++ env.ioError)), ?_, rfl⟩
    simp [writeRecord, healthy, fault, activeFile_empty pending, writes, succeeded, always, flushes,
      synced, extended]
  · have crashes := refused.resolve_left synced
    refine ⟨{ wal.extended encoded [] with
        currentSegmentSize := wal.currentSegmentSize + encoded.length
        poisoned := true }, .panic
      "NOVA_FAULT=crash_after_wal triggered: process simulating crash right after WAL append",
      ?_, rfl⟩
    simp [writeRecord, healthy, crashes, activeFile_empty pending, writes, succeeded, always,
      flushes, synced, extended]

/-- In any environment a write is acknowledged with the whole record on disk, or
it fails with some front part of it there. -/
theorem writeRecord_cases (always : wal.syncMode = .always) (healthy : wal.poisoned = false)
    (pending : wal.buffer = []) (nonempty : 0 < encoded.length) :
    writeRecord env room wal sequence encoded =
        ({ wal.extended encoded [] with
            currentSegmentSize := wal.currentSegmentSize + encoded.length }, .ok sequence) ∨
      Exists fun next => Exists fun problem => Exists fun count => Exists fun buffer =>
        writeRecord env room wal sequence encoded = (next, .error problem) ∧
          next.dir = (wal.extended (encoded.take count) buffer).dir := by
  by_cases injected : env.fault = .partialWrite
  · rcases @writeRecord_injected env room wal sequence encoded healthy pending injected nonempty with
      ⟨count, buffer, failure, _, writes⟩
    exact Or.inr ⟨_, _, count, buffer, writes, rfl⟩
  · by_cases enough : forall left, room = some left -> encoded.length ≤ left
    · by_cases refused : env.syncFails = true ∨ env.fault = .crashAfterWal
      · rcases @writeRecord_unacknowledged env room wal sequence encoded always healthy pending
          injected refused enough with ⟨next, problem, writes, sameDir⟩
        refine Or.inr ⟨next, problem, encoded.length, [], writes, ?_⟩
        rw [List.take_length, sameDir]
      · rw [not_or] at refused
        have unset : env.fault = .unset := by
          cases isFault : env.fault with
          | unset => rfl
          | partialWrite => exact absurd isFault injected
          | crashAfterWal => exact absurd isFault refused.2
        exact Or.inl (writeRecord_accepted always healthy pending unset
          (Bool.eq_false_iff.mpr refused.1) enough)
    · rw [not_forall] at enough
      rcases enough with ⟨left, limited⟩
      rw [Classical.not_imp] at limited
      rcases limited with ⟨rfl, tooSmall⟩
      rcases @writeRecord_refused env wal sequence encoded left always healthy pending injected
        (Nat.lt_of_not_le tooSmall) with ⟨buffer, failure, writes⟩
      exact Or.inr ⟨_, _, left, buffer, writes, rfl⟩

end Write

/-! ## Open logs -/

/-- The log is open on the closed segments and the current one.  The size
counter counts the records of the current segment, not a torn tail behind them;
the segment index may have run ahead of the active segment when a new file could
not be opened. -/
structure Opened (P : Platform) (wal : WriteAheadLog) (closed : Layout) (current : Segment) :
    Prop where
  always : wal.syncMode = .always
  healthy : wal.poisoned = false
  holds : Holds P wal.dir.files (closed ++ [current])
  active : wal.activeSegment = current.index
  ahead : wal.activeSegment ≤ wal.currentSegmentIndex
  size : wal.currentSegmentSize = (frames P current.records).length

section Segments

variable {P : Platform} {wal : WriteAheadLog} {closed : Layout} {current : Segment}

theorem Opened.active_listed (opened : Opened P wal closed current) :
    wal.activeSegment ∈ wal.dir.files := by
  rw [← WalDir.mem_discoverSegments, opened.holds.listed, List.map_append, opened.active]
  exact List.mem_append_right _ (List.mem_singleton_self _)

theorem Opened.contents (opened : Opened P wal closed current) :
    WalDir.read wal.dir.files wal.activeSegment = current.bytes P := by
  rw [opened.active]
  exact opened.holds.contents current (List.mem_append_right _ (List.mem_singleton_self _))

/-- The closed segments have smaller indices. -/
theorem Opened.closed_lt (opened : Opened P wal closed current) {segment : Segment}
    (member : segment ∈ closed) : segment.index < wal.activeSegment := by
  have ascending := WalDir.discoverSegments_ascending wal.dir.files
  rw [opened.holds.listed, List.map_append] at ascending
  rw [opened.active]
  exact (List.pairwise_append.mp ascending).2.2 _ (List.mem_map_of_mem member) _
    (List.mem_singleton_self _)

/-- Other bytes in the active segment, everything else as it was. -/
theorem Opened.holds_insert (opened : Opened P wal closed current) (changed : Segment)
    (sameIndex : changed.index = current.index) {bytes : List UInt8}
    (changedBytes : changed.bytes P = bytes) :
    Holds P (wal.dir.files.insert wal.activeSegment bytes) (closed ++ [changed]) := by
  constructor
  · rw [WalDir.discoverSegments_insert_listed opened.active_listed, opened.holds.listed]
    simp only [List.map_append, List.map_cons, List.map_nil, sameIndex]
  · intro segment member
    rcases List.mem_append.mp member with inClosed | isChanged
    · rw [WalDir.read_insert_ne (Nat.ne_of_lt (opened.closed_lt inClosed))]
      exact opened.holds.contents segment (List.mem_append_left _ inClosed)
    · rw [List.mem_singleton.mp isChanged, sameIndex, ← opened.active, WalDir.read_insert,
        changedBytes]

/-- Writing the active segment back unchanged keeps the log open as it is. -/
theorem Opened.rewritten (opened : Opened P wal closed current) :
    Opened P (wal.extended [] []) closed current where
  always := opened.always
  healthy := opened.healthy
  holds := opened.holds_insert current rfl (by rw [List.append_nil, opened.contents])
  active := opened.active
  ahead := opened.ahead
  size := opened.size

/-- An acknowledged record behind the records of the current segment. -/
theorem Opened.appended (opened : Opened P wal closed current) (clean : current.tail = [])
    (record : NbfRecord) :
    Opened P
      { wal.extended (record.frame P) [] with
        currentSegmentSize := wal.currentSegmentSize + (record.frame P).length }
      closed { current with records := current.records ++ [record] } where
  always := opened.always
  healthy := opened.healthy
  holds := opened.holds_insert { current with records := current.records ++ [record] } rfl (by
    rw [opened.contents, Segment.bytes, Segment.bytes, clean, frames_append, frames_singleton,
      List.append_nil, List.append_nil])
  active := opened.active
  ahead := opened.ahead
  size := by
    rw [opened.size, frames_append, frames_singleton, List.length_append]

/-- Part of a record behind the records of the current segment. -/
theorem Opened.torn (opened : Opened P wal closed current) (clean : current.tail = [])
    (bytes buffer : List UInt8) :
    Opened P (wal.extended bytes buffer) closed { current with tail := bytes } where
  always := opened.always
  healthy := opened.healthy
  holds := opened.holds_insert { current with tail := bytes } rfl (by
    rw [opened.contents, Segment.bytes, Segment.bytes, clean, List.append_nil])
  active := opened.active
  ahead := opened.ahead
  size := opened.size

/-! ## Rotation -/

/-- The fresh log after a rotation. -/
theorem Opened.rotated (opened : Opened P wal closed current) :
    Opened P
      { wal with
        dir := { wal.dir with
          files := WalDir.createIfAbsent wal.dir.files (wal.currentSegmentIndex + 1) }
        currentSegmentIndex := wal.currentSegmentIndex + 1
        activeSegment := wal.currentSegmentIndex + 1
        buffer := []
        currentSegmentSize := 0 }
      (closed ++ [current]) ⟨wal.currentSegmentIndex + 1, [], []⟩ := by
  have smaller : forall other, other ∈ wal.dir.files -> other < wal.currentSegmentIndex + 1 := by
    intro other member
    rw [← WalDir.mem_discoverSegments, opened.holds.listed] at member
    rcases List.mem_map.mp member with ⟨segment, isSegment, rfl⟩
    have ahead := opened.ahead
    rcases List.mem_append.mp isSegment with inClosed | isCurrent
    · have less := opened.closed_lt inClosed
      omega
    · rw [List.mem_singleton.mp isCurrent, ← opened.active]
      omega
  have absent : wal.currentSegmentIndex + 1 ∉ wal.dir.files :=
    fun member => Nat.lt_irrefl _ (smaller _ member)
  have created : WalDir.createIfAbsent wal.dir.files (wal.currentSegmentIndex + 1) =
      wal.dir.files.insert (wal.currentSegmentIndex + 1) [] := if_neg absent
  refine ⟨opened.always, opened.healthy, ⟨?_, ?_⟩, rfl, Nat.le_refl _, rfl⟩
  · change WalDir.discoverSegments (WalDir.createIfAbsent _ _) = _
    rw [created, WalDir.discoverSegments_insert_new smaller, opened.holds.listed]
    simp only [List.map_append, List.map_cons, List.map_nil]
  · intro segment member
    change WalDir.read (WalDir.createIfAbsent _ _) _ = _
    rw [created]
    rcases List.mem_append.mp member with older | isFresh
    · rw [WalDir.read_insert_ne]
      · exact opened.holds.contents segment older
      · apply Nat.ne_of_lt
        apply smaller
        rw [← WalDir.mem_discoverSegments, opened.holds.listed]
        exact List.mem_map_of_mem older
    · rw [List.mem_singleton.mp isFresh, WalDir.read_insert]
      rfl

/-- A rotation from an empty buffer either succeeds on a fresh segment or leaves
the segments as they were. -/
theorem rotateSegment_opened (env : Environment) (opened : Opened P wal closed current)
    (pending : wal.buffer = []) :
    (Exists fun next =>
      rotateSegment env wal = (next, env.room, .ok ()) ∧ next.buffer = [] ∧
        Opened P next (closed ++ [current]) ⟨wal.currentSegmentIndex + 1, [], []⟩) ∨
    ((env.rotateSyncFails = true ∨ env.openFails = true) ∧
      Exists fun next => Exists fun failure =>
        rotateSegment env wal = (next, env.room, .error failure) ∧ next.buffer = [] ∧
          Opened P next closed current) := by
  have flushes : wal.activeFile.flush env.room =
      ⟨⟨WalDir.read wal.dir.files wal.activeSegment ++ [], []⟩, env.room, true⟩ := by
    rw [activeFile_empty pending, BufferedFile.flush_empty, List.append_nil]
  have rewritten := opened.rewritten
  unfold rotateSegment
  rw [opened.healthy, flushes]
  by_cases unsynced : env.rotateSyncFails = true
  · simp only [unsynced]
    exact Or.inr ⟨Or.inl trivial, _, _, rfl, rfl, rewritten⟩
  · rw [Bool.not_eq_true] at unsynced
    by_cases unopened : env.openFails = true
    · simp only [unsynced, unopened]
      refine Or.inr ⟨Or.inr trivial, _, _, rfl, rfl, rewritten.always, rewritten.healthy, rewritten.holds,
        rewritten.active, ?_, rewritten.size⟩
      exact Nat.le_succ_of_le rewritten.ahead
    · rw [Bool.not_eq_true] at unopened
      simp only [unsynced, unopened]
      exact Or.inl ⟨_, rfl, rfl, rewritten.rotated⟩

/-! ## The append -/

theorem Opened.resequenced (opened : Opened P wal closed current) (sequence : UInt64) :
    Opened P { wal with currentSequence := sequence } closed current :=
  ⟨opened.always, opened.healthy, opened.holds, opened.active, opened.ahead, opened.size⟩

/-- The segments an append writes to: the current one when nothing torn is
behind its records, or a fresh one. -/
inductive Target (closed : Layout) (current : Segment) : Layout -> Segment -> Prop where
  | stay (clean : current.tail = []) : Target closed current closed current
  | rotate (index : Nat) : Target closed current (closed ++ [current]) ⟨index, [], []⟩

theorem Target.clean {closed' : Layout} {current' : Segment}
    (target : Target closed current closed' current') : current'.tail = [] := by
  cases target with
  | stay clean => exact clean
  | rotate index => rfl

theorem Target.records {closed' : Layout} {current' : Segment}
    (target : Target closed current closed' current') :
    Layout.records (closed' ++ [current']) = Layout.records (closed ++ [current]) := by
  cases target with
  | stay clean => rfl
  | rotate index => rw [Layout.records_append, Layout.records_singleton, List.append_nil]

theorem Target.torn {closed' : Layout} {current' : Segment}
    (target : Target closed current closed' current')
    (torn : forall segment, segment ∈ closed ++ [current] -> TornTail P segment.tail) :
    forall segment, segment ∈ closed' -> TornTail P segment.tail := by
  cases target with
  | stay clean => exact fun segment member => torn segment (List.mem_append_left _ member)
  | rotate index => exact torn

/-- Nothing torn is in the way of this append: the current segment has no tail,
or a record that can be encoded goes to a fresh segment. -/
def Clear (P : Platform) (env : Environment) (wal : WriteAheadLog) (mutation : Mutation) : Prop :=
  (WalDir.read wal.dir.files wal.activeSegment).length = wal.currentSegmentSize ∨
    forall encoded, (mutation.record (wal.currentSequence + 1) env.now).encode P = .ok encoded ->
      wal.segmentSizeLimit < wal.currentSegmentSize + encoded.length

theorem Opened.clean_of_length (opened : Opened P wal closed current)
    (length : (WalDir.read wal.dir.files wal.activeSegment).length = wal.currentSegmentSize) :
    current.tail = [] := by
  rw [opened.contents, opened.size, Segment.bytes, List.length_append] at length
  exact List.length_eq_zero_iff.mp (by omega)

theorem Opened.length_of_clean (opened : Opened P wal closed current) (clean : current.tail = []) :
    (WalDir.read wal.dir.files wal.activeSegment).length = wal.currentSegmentSize := by
  rw [opened.contents, opened.size, Segment.bytes, clean, List.append_nil]

/-- The record the next append writes, if it gets to encode one that fits. -/
def nextRecord (P : Platform) (env : Environment) (wal : WriteAheadLog) (mutation : Mutation) :
    Option NbfRecord :=
  let record := mutation.record (wal.currentSequence + 1) env.now
  if P.overflowChecks && wal.currentSequence == 0xFFFFFFFFFFFFFFFF then none
  else
    match record.encode P with
    | .ok _ => some record
    | .error _ => none

/-- An append either ends before the write, with the segments as they were, or
reaches the write of a record that fits.  Without a record, or when the rotation
fails, it ends before. -/
theorem append_opened (env : Environment) (mutation : Mutation)
    (opened : Opened P wal closed current) (pending : wal.buffer = [])
    (clear : Clear P env wal mutation) :
    ((nextRecord P env wal mutation = none ∨ env.rotateSyncFails = true ∨ env.openFails = true) ∧
      Exists fun next => Exists fun fault =>
        append P env wal mutation = (next, .error fault) ∧ next.buffer = [] ∧
          Opened P next closed current) ∨
    (nextRecord P env wal mutation =
        some (mutation.record (wal.currentSequence + 1) env.now) ∧
      (mutation.record (wal.currentSequence + 1) env.now).Fits ∧
      Exists fun next => Exists fun closed' => Exists fun current' =>
        append P env wal mutation =
            writeRecord env env.room next (wal.currentSequence + 1)
              ((mutation.record (wal.currentSequence + 1) env.now).frame P) ∧
          next.buffer = [] ∧ Target closed current closed' current' ∧
          Opened P next closed' current') := by
  have counted := opened.resequenced (wal.currentSequence + 1)
  unfold append nextRecord
  by_cases overflows :
      (P.overflowChecks && wal.currentSequence == 0xFFFFFFFFFFFFFFFF) = true
  · simp only [if_pos overflows]
    exact Or.inl ⟨Or.inl trivial, _, _, rfl, pending, counted⟩
  · simp only [if_neg overflows]
    cases encodes : (mutation.record (wal.currentSequence + 1) env.now).encode P with
    | error failure => exact Or.inl ⟨Or.inl rfl, _, _, rfl, pending, counted⟩
    | ok encoded =>
        rcases NbfRecord.encode_eq_ok_iff.mp encodes with ⟨fits, rfl⟩
        simp only
        split
        · rcases rotateSegment_opened env counted pending with
            ⟨next, rotates, empty, rotated⟩ | ⟨cause, next, failure, fails, empty, kept⟩
          · simp only [rotates]
            exact Or.inr ⟨trivial, fits, next, _, _, rfl, empty, Target.rotate _, rotated⟩
          · simp only [fails]
            exact Or.inl ⟨Or.inr cause, next, _, rfl, empty, kept⟩
        · rename_i small
          have clean : current.tail = [] := by
            rcases clear with length | always
            · exact opened.clean_of_length length
            · exact absurd (always _ encodes) small
          exact Or.inr ⟨trivial, fits, _, _, _, rfl, pending, Target.stay clean, counted⟩

end Segments

end WriteAheadLog
end Storage
end NovaDb
