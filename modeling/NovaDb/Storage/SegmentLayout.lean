import NovaDb.Storage.Repair

namespace NovaDb
namespace Storage

open Core Foundation WriteAheadLog

/-!
# How records lie in segments

A run of successful appends and reopenings keeps the log in whole records: each
segment file is the concatenation of the encodings of some consecutive records,
the size counter is the length of the active file, and only a segment of one
record is longer than the limit.  An append either fits behind the records of the
current segment or starts a fresh one, and reopening derives the counter and the
active segment from the directory again.
-/

/-- Runs of successful appends and reopenings from an empty directory, under
`Always` and one limit, with the encodings of the records appended so far.  The
writer's buffer is empty when such a log is dropped, so the files are all of it. -/
inductive AppendRun (P : Platform) (limit : Nat) : WriteAheadLog -> List (List UInt8) -> Prop where
  | opened (path : String) : AppendRun P limit (openDir ⟨path, ∅⟩ .always limit) []
  | append {wal next : WriteAheadLog} {encodings : List (List UInt8)} {env : Environment}
      {mutation : Mutation} {sequence : UInt64} {encoded : List UInt8}
      (before : AppendRun P limit wal encodings)
      (appended : wal.append P env mutation = (next, .ok sequence))
      (encodes : (mutation.record (wal.currentSequence + 1) env.now).encode P = .ok encoded) :
      AppendRun P limit next (encodings ++ [encoded])
  | reopen {wal : WriteAheadLog} {encodings : List (List UInt8)}
      (before : AppendRun P limit wal encodings) (start : UInt64) :
      AppendRun P limit ((openDir wal.dir .always limit).setSequence start) encodings

/-- The segment files, in the order `discoverSegments` returns them. -/
def segmentFiles (wal : WriteAheadLog) : List (List UInt8) :=
  (WalDir.discoverSegments wal.dir.files).map (WalDir.read wal.dir.files)

/-- Every encoding lies in one segment, the segments are the encodings in order,
the size counter is the length of the active segment file, and a segment longer
than the limit holds exactly one record. -/
structure LaidOut (limit : Nat) (wal : WriteAheadLog) (encodings : List (List UInt8)) : Prop where
  segments : Exists fun layout : List (List (List UInt8)) =>
    layout.flatten = encodings ∧ segmentFiles wal = layout.map List.flatten ∧
      forall segment, segment ∈ layout -> limit < segment.flatten.length -> segment.length = 1
  whole : (segmentFiles wal).flatten = encodings.flatten
  size : wal.currentSegmentSize = (WalDir.read wal.dir.files wal.activeSegment).length

/-! ## The invariant -/

/-- No torn tail, and longer than the limit only with a single record. -/
structure Segment.Filled (P : Platform) (limit : Nat) (segment : Segment) : Prop where
  clean : segment.tail = []
  single : limit < (frames P segment.records).length -> segment.records.length = 1

/-- The log is open on filled segments with these encodings. -/
structure Filling (P : Platform) (limit : Nat) (wal : WriteAheadLog) (closed : Layout)
    (current : Segment) (encodings : List (List UInt8)) : Prop where
  opened : Opened P wal closed current
  pending : wal.buffer = []
  limited : wal.segmentSizeLimit = limit
  filled : forall segment, segment ∈ closed ++ [current] -> segment.Filled P limit
  encoded : (Layout.records (closed ++ [current])).map (NbfRecord.frame P) = encodings

section Steps

variable {P : Platform} {limit : Nat} {wal next : WriteAheadLog} {closed : Layout}
  {current : Segment} {encodings : List (List UInt8)}

theorem filled_empty (P : Platform) (limit index : Nat) : (⟨index, [], []⟩ : Segment).Filled P limit :=
  ⟨rfl, fun long => absurd long (Nat.not_lt_zero limit)⟩

/-- A rotation that succeeds opens a fresh segment and keeps the limit. -/
theorem Filling.rotated {env : Environment} {room : Option Nat}
    (filling : Filling P limit wal closed current encodings)
    (rotates : rotateSegment env wal = (next, room, .ok ())) :
    room = env.room ∧
      Filling P limit next (closed ++ [current]) ⟨wal.currentSegmentIndex + 1, [], []⟩ encodings := by
  have sameLimit : next.segmentSizeLimit = wal.segmentSizeLimit := by
    unfold rotateSegment at rotates
    rw [if_neg (Bool.eq_false_iff.mp filling.opened.healthy)] at rotates
    dsimp only at rotates
    split at rotates
    · cases rotates
    · split at rotates
      · cases rotates
      · cases rotates
        rfl
  rcases rotateSegment_opened env filling.opened filling.pending with
    ⟨fresh, succeeds, empty, opened⟩ | ⟨_, _, _, fails, _⟩
  · cases rotates.symm.trans succeeds
    refine ⟨rfl, opened, empty, sameLimit.trans filling.limited, ?_, ?_⟩
    · intro segment member
      rcases List.mem_append.mp member with older | isFresh
      · exact filling.filled segment older
      · rw [List.mem_singleton.mp isFresh]
        exact filled_empty P limit _
    · rw [Layout.records_append, Layout.records_singleton, List.append_nil]
      exact filling.encoded
  · cases rotates.symm.trans fails

/-- A write that succeeds puts the record behind those of the current segment,
which has room for it or is empty. -/
theorem Filling.written {env : Environment} {sequence given : UInt64} {record : NbfRecord}
    (filling : Filling P limit wal closed current encodings)
    (room : current.records = [] ∨
      wal.currentSegmentSize + (record.frame P).length ≤ limit)
    (writes : writeRecord env env.room wal sequence (record.frame P) = (next, .ok given)) :
    Filling P limit next closed { current with records := current.records ++ [record] }
      (encodings ++ [record.frame P]) := by
  have clean := (filling.filled current
    (List.mem_append_right _ (List.mem_singleton_self _))).clean
  rcases @writeRecord_cases env env.room wal sequence (record.frame P) filling.opened.always
    filling.opened.healthy filling.pending (record.frame_length_pos P) with
    succeeds | ⟨_, _, _, _, fails, _⟩
  · cases writes.symm.trans succeeds
    refine ⟨filling.opened.appended clean record, rfl, filling.limited, ?_, ?_⟩
    · intro segment member
      rcases List.mem_append.mp member with older | isCurrent
      · exact filling.filled segment (List.mem_append_left _ older)
      · rw [List.mem_singleton.mp isCurrent]
        refine ⟨clean, fun long => ?_⟩
        rcases room with isEmpty | fits
        · rw [isEmpty]
          rfl
        · rw [filling.opened.size] at fits
          rw [frames_append, frames_singleton, List.length_append] at long
          omega
    · rw [Layout.records_append, Layout.records_singleton, List.map_append, ← filling.encoded,
        Layout.records_append, Layout.records_singleton, List.map_append, List.map_append]
      simp only [List.map_cons, List.map_nil, List.append_assoc]
  · cases writes.symm.trans fails

/-- An append that succeeds keeps the segments filled, with one more record. -/
theorem Filling.append {env : Environment} {mutation : Mutation} {given : UInt64}
    {encoded : List UInt8} (filling : Filling P limit wal closed current encodings)
    (appended : wal.append P env mutation = (next, .ok given))
    (encodes : (mutation.record (wal.currentSequence + 1) env.now).encode P = .ok encoded) :
    Exists fun closed => Exists fun current =>
      Filling P limit next closed current (encodings ++ [encoded]) := by
  rcases NbfRecord.encode_eq_ok_iff.mp encodes with ⟨_, rfl⟩
  have counted : Filling P limit { wal with currentSequence := wal.currentSequence + 1 } closed
      current encodings :=
    ⟨filling.opened.resequenced _, filling.pending, filling.limited, filling.filled,
      filling.encoded⟩
  unfold WriteAheadLog.append at appended
  dsimp only at appended
  rw [encodes] at appended
  split at appended
  · cases appended
  · dsimp only at appended
    split at appended
    · split at appended
      · cases appended
      · rename_i rotates
        rcases counted.rotated rotates with ⟨rfl, fresh⟩
        exact ⟨_, _, fresh.written (.inl rfl) appended⟩
    · rename_i small
      rw [filling.limited] at small
      exact ⟨_, _, counted.written (.inr (Nat.le_of_not_lt small)) appended⟩

/-- Reopening goes on in the last segment. -/
theorem Filling.reopen (filling : Filling P limit wal closed current encodings) (start : UInt64) :
    Filling P limit ((openDir wal.dir .always limit).setSequence start) closed current encodings := by
  have clean := (filling.filled current
    (List.mem_append_right _ (List.mem_singleton_self _))).clean
  rcases openDir_current filling.opened.holds clean limit with ⟨opened, pending⟩
  exact ⟨opened.resequenced start, pending, rfl, filling.filled, filling.encoded⟩

/-- Filled segments are the encodings in order, some in each. -/
theorem Filling.laidOut (filling : Filling P limit wal closed current encodings) :
    LaidOut limit wal encodings := by
  have files : segmentFiles wal =
      ((closed ++ [current]).map fun segment => segment.records.map (NbfRecord.frame P)).map
        List.flatten := by
    rw [segmentFiles, filling.opened.holds.listed, List.map_map, List.map_map]
    apply List.map_congr_left
    intro segment member
    have bytes := filling.opened.holds.contents segment member
    rw [Segment.bytes, (filling.filled segment member).clean, List.append_nil, frames,
      List.flatMap_def] at bytes
    exact bytes
  have parts : ((closed ++ [current]).map fun segment =>
      segment.records.map (NbfRecord.frame P)).flatten = encodings := by
    rw [← filling.encoded, Layout.records, List.map_flatMap, List.flatMap_def]
  refine ⟨⟨_, parts, files, ?_⟩, ?_, ?_⟩
  · intro segment member long
    rcases List.mem_map.mp member with ⟨own, isOwn, rfl⟩
    rw [List.length_map]
    apply (filling.filled own isOwn).single
    rwa [frames, List.flatMap_def]
  · rw [files, ← parts, List.flatten_flatten]
  · have clean := (filling.filled current
      (List.mem_append_right _ (List.mem_singleton_self _))).clean
    exact (filling.opened.length_of_clean clean).symm

end Steps

/-! ## Runs -/

theorem AppendRun.filling {P : Platform} {limit : Nat} {wal : WriteAheadLog}
    {encodings : List (List UInt8)} (run : AppendRun P limit wal encodings) :
    Exists fun closed => Exists fun current => Filling P limit wal closed current encodings := by
  induction run with
  | opened path =>
      have ready := @openDir_empty P ⟨path, ∅⟩ (intact_empty P) limit
      refine ⟨[], ⟨0, [], []⟩, ready.opened, ready.pending, rfl, ?_, rfl⟩
      intro segment member
      rw [List.mem_singleton.mp member]
      exact filled_empty P limit 0
  | append before appended encodes inductionHypothesis =>
      rcases inductionHypothesis with ⟨closed, current, filling⟩
      exact filling.append appended encodes
  | reopen before start inductionHypothesis =>
      rcases inductionHypothesis with ⟨closed, current, filling⟩
      exact ⟨closed, current, filling.reopen start⟩

/-- After every call of a run, rotations and reopenings included, the log is laid out in
segments: every record lies whole in one of them, in order, and only a record that is
too long by itself makes a segment longer than the limit.  -/
theorem segments_laid_out {P : Platform} {limit : Nat} {wal : WriteAheadLog}
    {encodings : List (List UInt8)} (run : AppendRun P limit wal encodings) :
    LaidOut limit wal encodings := by
  rcases run.filling with ⟨closed, current, filling⟩
  exact filling.laidOut

/-- The log after an append of a record that is longer than the limit. -/
def oversizedLog : WriteAheadLog :=
  ((openDir ⟨"wal", ∅⟩ .always 10).append samplePlatform quietEnvironment sampleInsert).1

/-- The record lies in a segment of its own, also when the log is reopened. -/
theorem segments_laid_out_sample :
    10 < (sampleRecord.frame samplePlatform).length ∧
      LaidOut 10 ((openDir oversizedLog.dir .always 10).setSequence 1)
        [sampleRecord.frame samplePlatform] := by
  have appends : ((openDir ⟨"wal", ∅⟩ .always 10).append samplePlatform quietEnvironment
      sampleInsert).2 = .ok 1 := by decide +kernel
  have appended : (openDir ⟨"wal", ∅⟩ .always 10).append samplePlatform quietEnvironment
      sampleInsert = (oversizedLog, .ok 1) := by
    rw [oversizedLog, ← appends]
  have encodes : sampleRecord.encode samplePlatform = .ok (sampleRecord.frame samplePlatform) :=
    NbfRecord.encode_eq_ok_iff.mpr ⟨valid_sampleRecord.fits, rfl⟩
  exact ⟨by decide +kernel,
    segments_laid_out (.reopen (.append (.opened "wal") appended encodes) 1)⟩

end Storage
end NovaDb
