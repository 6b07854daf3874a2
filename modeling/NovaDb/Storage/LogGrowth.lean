import NovaDb.Storage.SegmentLayout
import NovaDb.Storage.BufferedLog

namespace NovaDb
namespace Storage

open Core Foundation

/-!
# What an append adds to the log

Whatever policy the log is opened under, whatever else fails around it and
whatever torn bytes it already holds, an append that returns a number has put
exactly one encoded record behind all earlier bytes, in the active segment or in a
fresh one.
-/

namespace WriteAheadLog

/-- The bytes of the log in order: the segments one after another, and those still
in the writer's buffer. -/
def bytes (wal : WriteAheadLog) : List UInt8 :=
  (segmentFiles wal).flatten ++ wal.buffer

/-- The writer is on the last segment of the directory. -/
structure Ordered (wal : WriteAheadLog) : Prop where
  listed : wal.activeSegment ∈ wal.dir.files
  last : forall index, index ∈ wal.dir.files -> index ≤ wal.activeSegment
  ahead : wal.activeSegment ≤ wal.currentSegmentIndex

section Order

variable {wal : WriteAheadLog}

theorem Ordered.resequenced (ordered : wal.Ordered) (sequence : UInt64) :
    Ordered { wal with currentSequence := sequence } :=
  ⟨ordered.listed, ordered.last, ordered.ahead⟩

theorem Ordered.stored (ordered : wal.Ordered) (file : BufferedFile) :
    (wal.storeActive file).Ordered := by
  refine ⟨AList.mem_insert _ |>.mpr (Or.inl rfl), ?_, ordered.ahead⟩
  intro index member
  rcases (AList.mem_insert _).mp member with same | older
  · exact Nat.le_of_eq same
  · exact ordered.last index older

theorem Ordered.advanced (ordered : wal.Ordered) {index : Nat}
    (later : wal.currentSegmentIndex ≤ index) :
    Ordered { wal with currentSegmentIndex := index } :=
  ⟨ordered.listed, ordered.last, ordered.ahead.trans later⟩

/-- The segment that a rotation opens is a new one, with the largest index. -/
theorem Ordered.fresh (ordered : wal.Ordered) {index : Nat} (member : index ∈ wal.dir.files) :
    index < wal.currentSegmentIndex + 1 :=
  Nat.lt_succ_of_le ((ordered.last index member).trans ordered.ahead)

theorem Ordered.rotated_files (ordered : wal.Ordered) :
    wal.rotated.dir.files =
      (wal.storeActive ⟨wal.activeFile.all, []⟩).dir.files.insert (wal.currentSegmentIndex + 1)
        [] := by
  have stored := ordered.stored ⟨wal.activeFile.all, []⟩
  exact if_neg (fun member => Nat.lt_irrefl _ (stored.fresh member))

theorem Ordered.rotated (ordered : wal.Ordered) : wal.rotated.Ordered := by
  have stored := ordered.stored ⟨wal.activeFile.all, []⟩
  refine ⟨?_, ?_, Nat.le_refl _⟩
  · rw [ordered.rotated_files]
    exact (AList.mem_insert _).mpr (Or.inl rfl)
  · intro index member
    rw [ordered.rotated_files] at member
    rcases (AList.mem_insert _).mp member with same | older
    · exact Nat.le_of_eq same
    · exact Nat.le_of_lt (stored.fresh older)

theorem ordered_openDir (dir : WalDir) (mode : SyncMode) (limit : Nat) :
    (openDir dir mode limit).Ordered := by
  have last : forall index, index ∈ dir.files ->
      index ≤ (WalDir.discoverSegments dir.files).getLast?.getD 0 := by
    intro index member
    rw [← WalDir.mem_discoverSegments] at member
    have ascending := WalDir.discoverSegments_ascending dir.files
    rcases List.eq_nil_or_concat (WalDir.discoverSegments dir.files) with nothing | ⟨front, top, same⟩
    · rw [nothing] at member
      cases member
    · rw [same] at member ascending ⊢
      rw [List.concat_eq_append] at member ascending ⊢
      rw [List.getLast?_concat, Option.getD_some]
      rcases List.mem_append.mp member with inFront | isTop
      · exact Nat.le_of_lt ((List.pairwise_append.mp ascending).2.2 _ inFront _
          (List.mem_singleton_self _))
      · exact Nat.le_of_eq (List.mem_singleton.mp isTop)
  refine ⟨?_, ?_, Nat.le_refl _⟩
  · unfold openDir WalDir.createIfAbsent
    simp only
    split
    · assumption
    · exact (AList.mem_insert _).mpr (Or.inl rfl)
  · intro index member
    unfold openDir WalDir.createIfAbsent at member
    simp only at member
    split at member
    · exact last index member
    · rcases (AList.mem_insert _).mp member with same | older
      · exact Nat.le_of_eq same
      · exact last index older

/-! ## Any append keeps the order -/

theorem Ordered.rotateSegment (ordered : wal.Ordered) (env : Environment) :
    (WriteAheadLog.rotateSegment env wal).1.Ordered := by
  unfold WriteAheadLog.rotateSegment
  split
  · exact ordered
  · simp only
    have stored := ordered.stored (wal.activeFile.flush env.room).file
    split
    · exact stored
    · have advanced := stored.advanced (Nat.le_succ wal.currentSegmentIndex)
      split
      · exact advanced
      · have absent : wal.currentSegmentIndex + 1 ∉
            (wal.storeActive (wal.activeFile.flush env.room).file).dir.files :=
          fun member => Nat.lt_irrefl _ (stored.fresh member)
        have created : WalDir.createIfAbsent
            (wal.storeActive (wal.activeFile.flush env.room).file).dir.files
              (wal.currentSegmentIndex + 1) = AList.insert (wal.currentSegmentIndex + 1) [] _ :=
          if_neg absent
        simp only [storeActive] at created ⊢
        rw [created]
        refine ⟨(AList.mem_insert _).mpr (Or.inl rfl), ?_, Nat.le_refl _⟩
        intro index member
        rcases (AList.mem_insert _).mp member with same | older
        · exact Nat.le_of_eq same
        · exact Nat.le_of_lt (stored.fresh older)

theorem Ordered.writeRecord (ordered : wal.Ordered) (env : Environment) (room : Option Nat)
    (sequence : UInt64) (encoded : List UInt8) :
    (WriteAheadLog.writeRecord env room wal sequence encoded).1.Ordered := by
  have counted : forall file size poisoned,
      Ordered { wal.storeActive file with currentSegmentSize := size, poisoned } := by
    intro file size poisoned
    have stored := ordered.stored file
    exact ⟨stored.listed, stored.last, stored.ahead⟩
  unfold WriteAheadLog.writeRecord
  simp only
  split
  · exact ordered
  · split
    · split
      · exact ordered.stored _
      · split
        · exact ordered.stored _
        · exact ordered.stored _
    · split
      · exact ordered.stored _
      · generalize (if wal.syncMode = SyncMode.always then _ else _) = flushed
        split
        · exact ordered.stored _
        · split
          · exact ordered.stored _
          · split
            · exact counted _ _ _
            · exact counted _ _ _

theorem Ordered.append (ordered : wal.Ordered) (P : Platform) (env : Environment)
    (mutation : Mutation) : (WriteAheadLog.append P env wal mutation).1.Ordered := by
  have counted := ordered.resequenced (wal.currentSequence + 1)
  unfold WriteAheadLog.append
  simp only
  split
  · exact counted
  · split
    · exact counted
    · split
      · have rotated := counted.rotateSegment env
        split
        · rename_i same
          rw [same] at rotated
          exact rotated
        · rename_i same
          rw [same] at rotated
          exact rotated.writeRecord env _ _ _
      · exact counted.writeRecord env _ _ _

end Order

/-! ## The shape of a successful append -/

section Success

variable {P : Platform} {env : Environment} {wal next : WriteAheadLog} {room left : Option Nat}
  {sequence given : UInt64} {encoded : List UInt8} {mutation : Mutation}

theorem rotateSegment_succeeds
    (rotates : rotateSegment env wal = (next, left, .ok ())) : next = wal.rotated := by
  unfold rotateSegment at rotates
  split at rotates
  · cases rotates
  · simp only at rotates
    split at rotates
    · cases rotates
    · rename_i finished
      have succeeds : (wal.activeFile.flush env.room).succeeded = true := by
        cases flushed : (wal.activeFile.flush env.room).succeeded with
        | true => rfl
        | false => simp [flushed] at finished
      split at rotates
      · cases rotates
      · rw [BufferedFile.flush_succeeded succeeds] at rotates
        cases rotates
        rfl

theorem writeRecord_succeeds
    (writes : writeRecord env room wal sequence encoded = (next, .ok given)) :
    given = sequence ∧ Exists fun file => file.all = wal.activeFile.all ++ encoded ∧
      next = { wal.storeActive file with
        currentSegmentSize := wal.currentSegmentSize + encoded.length } := by
  unfold writeRecord at writes
  simp only at writes
  split at writes
  · cases writes
  · split at writes
    · split at writes
      · cases writes
      · split at writes
        · cases writes
        · cases writes
    · split at writes
      · cases writes
      · rename_i whole
        have written : (wal.activeFile.writeAll bufferCapacity encoded room).succeeded = true := by
          simpa using whole
        have grown := BufferedFile.writeAll_succeeded written
        generalize flushes : (if wal.syncMode = SyncMode.always then _ else _) = flushed at writes
        split at writes
        · cases writes
        · rename_i finished
          have isAll : flushed.file.all = wal.activeFile.all ++ encoded := by
            by_cases always : wal.syncMode = .always
            · rw [if_pos always] at flushes
              rw [← flushes] at finished ⊢
              rw [BufferedFile.flush_succeeded (by simpa using finished)]
              exact (List.append_nil _).trans grown
            · rw [if_neg always] at flushes
              rw [← flushes]
              exact grown
          split at writes
          · cases writes
          · split at writes
            · cases writes
            · cases writes
              exact ⟨rfl, flushed.file, isAll, rfl⟩

/-- The log that a successful append writes to: with the next number, perhaps rotated. -/
theorem append_succeeds (appends : append P env wal mutation = (next, .ok given)) :
    given = wal.currentSequence + 1 ∧ Exists fun target =>
      (target = { wal with currentSequence := wal.currentSequence + 1 } ∨
        target = rotated { wal with currentSequence := wal.currentSequence + 1 }) ∧
      Exists fun file =>
        file.all = target.activeFile.all ++ (mutation.record given env.now).frame P ∧
        next = { target.storeActive file with
          currentSegmentSize := target.currentSegmentSize +
            ((mutation.record given env.now).frame P).length } := by
  unfold append at appends
  simp only at appends
  split at appends
  · cases appends
  · cases encodes : (mutation.record (wal.currentSequence + 1) env.now).encode P with
    | error failure =>
        rw [encodes] at appends
        cases appends
    | ok encoded =>
        rcases NbfRecord.encode_eq_ok_iff.mp encodes with ⟨_, rfl⟩
        rw [encodes] at appends
        simp only at appends
        split at appends
        · split at appends
          · cases appends
          · rename_i rotates
            rcases writeRecord_succeeds appends with ⟨rfl, file, grown, rfl⟩
            have isRotated := rotateSegment_succeeds rotates
            exact ⟨rfl, _, Or.inr isRotated, file, grown, rfl⟩
        · rcases writeRecord_succeeds appends with ⟨rfl, file, grown, rfl⟩
          exact ⟨rfl, _, Or.inl rfl, file, grown, rfl⟩

end Success

/-! ## Growth -/

/-- From one log to another by these records and nothing else: the bytes gain
their frames, and a log of whole records stays one. -/
structure Grows (P : Platform) (wal next : WriteAheadLog) (added : List NbfRecord) : Prop where
  bytes : wal.Ordered -> next.bytes = wal.bytes ++ frames P added
  records : forall records, Logs P wal records -> Logs P next (records ++ added)
  ordered : wal.Ordered -> next.Ordered

theorem grows_nil (P : Platform) (wal : WriteAheadLog) : Grows P wal wal [] where
  bytes := fun _ => (List.append_nil _).symm
  records := by
    intro records logs
    rw [List.append_nil]
    exact logs
  ordered := id

theorem Grows.trans {P : Platform} {wal middle next : WriteAheadLog}
    {first second : List NbfRecord} (before : Grows P wal middle first)
    (after : Grows P middle next second) : Grows P wal next (first ++ second) where
  bytes := by
    intro ordered
    rw [after.bytes (before.ordered ordered), before.bytes ordered, frames_append,
      List.append_assoc]
  records := by
    intro records logs
    rw [← List.append_assoc]
    exact after.records _ (before.records records logs)
  ordered := fun ordered => after.ordered (before.ordered ordered)

section Growth

variable {P : Platform} {env : Environment} {wal next : WriteAheadLog}

/-- The bytes in front of the active segment, whatever is in it. -/
theorem Ordered.split (ordered : wal.Ordered) : Exists fun front =>
    wal.bytes = front ++ wal.activeFile.all ∧
      forall file, (wal.storeActive file).bytes = front ++ file.all := by
  have ascending := WalDir.discoverSegments_ascending wal.dir.files
  have inListing := WalDir.mem_discoverSegments.mpr ordered.listed
  rcases List.append_of_mem inListing with ⟨closed, behind, listing⟩
  rw [listing] at ascending
  have nothing : behind = [] := by
    cases behind with
    | nil => rfl
    | cons index rest =>
        have member : index ∈ wal.dir.files := by
          rw [← WalDir.mem_discoverSegments, listing]
          exact List.mem_append_right _ (List.mem_cons_of_mem _ List.mem_cons_self)
        have larger := (List.pairwise_cons.mp (List.pairwise_append.mp ascending).2.1).1 index
          List.mem_cons_self
        exact absurd (ordered.last index member) (Nat.not_le_of_lt larger)
  rw [nothing] at listing ascending
  refine ⟨(closed.map (WalDir.read wal.dir.files)).flatten, ?_, ?_⟩
  · rw [bytes, segmentFiles, listing]
    simp only [List.map_append, List.map_cons, List.map_nil, List.flatten_append,
      List.flatten_cons, List.flatten_nil, List.append_nil, List.append_assoc]
    rfl
  · intro file
    have sameListing : WalDir.discoverSegments (wal.storeActive file).dir.files =
        closed ++ [wal.activeSegment] := by
      rw [← listing]
      exact WalDir.discoverSegments_insert_listed ordered.listed file.contents
    have sameFiles : closed.map (WalDir.read (wal.storeActive file).dir.files) =
        closed.map (WalDir.read wal.dir.files) := by
      apply List.map_congr_left
      intro index member
      exact WalDir.read_insert_ne (Nat.ne_of_lt ((List.pairwise_append.mp ascending).2.2 index member
        _ (List.mem_singleton_self _))) file.contents
    have activeFile : WalDir.read (wal.storeActive file).dir.files wal.activeSegment =
        file.contents := WalDir.read_insert _ _ _
    rw [bytes, segmentFiles, sameListing, List.map_append, sameFiles, List.map_singleton,
      activeFile]
    simp only [List.flatten_append, List.flatten_cons, List.flatten_nil, List.append_nil,
      List.append_assoc]
    rfl

theorem Ordered.rotated_bytes (ordered : wal.Ordered) : wal.rotated.bytes = wal.bytes := by
  rcases ordered.split with ⟨front, whole, stored⟩
  have larger : forall other, other ∈ (wal.storeActive ⟨wal.activeFile.all, []⟩).dir.files ->
      other < wal.currentSegmentIndex + 1 := by
    intro other member
    exact (ordered.stored ⟨wal.activeFile.all, []⟩).fresh member
  have files : segmentFiles wal.rotated =
      segmentFiles (wal.storeActive ⟨wal.activeFile.all, []⟩) ++ [[]] := by
    rw [segmentFiles, segmentFiles, ordered.rotated_files,
      WalDir.discoverSegments_insert_new larger, List.map_append, List.map_singleton,
      WalDir.read_insert]
    congr 1
    apply List.map_congr_left
    intro index member
    exact WalDir.read_insert_ne (Nat.ne_of_lt (larger index (WalDir.mem_discoverSegments.mp member)))
      []
  have flushed : (wal.storeActive ⟨wal.activeFile.all, []⟩).bytes = wal.bytes := by
    rw [stored, whole]
    exact congrArg (front ++ ·) (List.append_nil _)
  rw [← flushed, bytes, bytes, files, List.flatten_append, List.flatten_singleton, List.append_nil]
  rfl

theorem Ordered.extended (ordered : wal.Ordered) {file : BufferedFile} {added : List UInt8}
    (grown : file.all = wal.activeFile.all ++ added) (size : Nat) :
    bytes { wal.storeActive file with currentSegmentSize := size } = wal.bytes ++ added := by
  rcases ordered.split with ⟨front, whole, stored⟩
  have written := stored file
  rw [grown, ← List.append_assoc, ← whole] at written
  exact written

theorem Logs.extended {records : List NbfRecord} (logs : Logs P wal records)
    {file : BufferedFile} {record : NbfRecord}
    (grown : file.all = wal.activeFile.all ++ record.frame P) (size : Nat) :
    Logs P { wal.storeActive file with currentSegmentSize := size } (records ++ [record]) := by
  rcases logs with ⟨closed, current, carries, clean, same⟩
  have noTail := clean current (List.mem_append_right _ (List.mem_singleton_self _))
  have bytes : Segment.bytes P { current with records := current.records ++ [record] } =
      current.bytes P ++ record.frame P := by
    rw [Segment.bytes, Segment.bytes, noTail, frames_append, frames_singleton, List.append_nil,
      List.append_nil]
  have stored := @Carries.stored P wal closed current carries file
    { current with records := current.records ++ [record] } rfl
    (by rw [grown, carries.currentBytes, bytes])
  refine ⟨closed, _, ⟨stored.healthy, stored.listed, stored.closedBytes, stored.currentBytes,
    stored.active, stored.ahead⟩, ?_, ?_⟩
  · intro segment member
    rcases List.mem_append.mp member with older | isChanged
    · exact clean segment (List.mem_append_left _ older)
    · rw [List.mem_singleton.mp isChanged]
      exact noTail
  · rw [← same]
    simp only [Layout.records_append, Layout.records_singleton, List.append_assoc]

theorem Logs.rotated {records : List NbfRecord} (logs : Logs P wal records) :
    Logs P wal.rotated records := by
  rcases logs with ⟨closed, current, carries, clean, same⟩
  refine ⟨closed ++ [current], _, carries.rotates, ?_, ?_⟩
  · intro segment member
    rcases List.mem_append.mp member with older | isFresh
    · exact clean segment older
    · rw [List.mem_singleton.mp isFresh]
  · rw [Layout.records_append, Layout.records_singleton, List.append_nil, same]

/-- An append that returns a number adds its record and nothing else. -/
theorem append_grows {mutation : Mutation} {given : UInt64}
    (appends : append P env wal mutation = (next, .ok given)) :
    Grows P wal next [mutation.record given env.now] := by
  have keeps : wal.Ordered -> next.Ordered := by
    intro ordered
    have kept := ordered.append P env mutation
    rw [appends] at kept
    exact kept
  rcases append_succeeds appends with ⟨_, target, isTarget, file, grown, rfl⟩
  refine ⟨?_, ?_, keeps⟩
  · intro ordered
    have counted := ordered.resequenced (wal.currentSequence + 1)
    rw [frames_singleton]
    rcases isTarget with rfl | rfl
    · exact counted.extended grown _
    · rw [counted.rotated.extended grown, counted.rotated_bytes]
      rfl
  · intro records logs
    have counted := logs.resequenced (wal.currentSequence + 1)
    rcases isTarget with rfl | rfl
    · exact counted.extended grown _
    · exact counted.rotated.extended grown _

end Growth

/-! ## Appends with nothing in the way -/

section Quiet

variable {P : Platform} {env : Environment}

end Quiet

end WriteAheadLog
end Storage
end NovaDb
