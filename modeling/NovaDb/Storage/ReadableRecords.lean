import NovaDb.Storage.BufferedLog
import NovaDb.Storage.Corruption
import NovaDb.Storage.RepeatedRecovery

namespace NovaDb
namespace Storage

open Core Foundation

/-!
# The records that can be read

A crash may leave a few bytes behind the last whole record that recovery does not
cut off.  Records appended behind them are in the file, but no scan reads them.
What a log tells is therefore what a scan of its segments reads.  Losing a back part
of the bytes loses a back part of the records read; recovery keeps a front part of
them and leaves segments in which reading ends for good; an append behind such an
end adds its record, or nothing.
-/

namespace RecoveryManager

/-! ## Reading bytes -/

section Bytes

variable {P : Platform} {bytes front tail : List UInt8} {record : NbfRecord}
  {records : List NbfRecord}

/-- The records a scan of the bytes reads. -/
def recordsIn (P : Platform) (bytes : List UInt8) : List NbfRecord :=
  (readRecords P bytes).1

theorem recordsIn_some {behind : List UInt8}
    (decoded : NbfRecord.decode P bytes = .ok (some (record, behind))) :
    recordsIn P bytes = record :: recordsIn P behind := by
  rw [recordsIn, readRecords_some decoded]
  rfl

theorem recordsIn_stops
    (stops : forall record behind, NbfRecord.decode P bytes ≠ .ok (some (record, behind))) :
    recordsIn P bytes = [] := by
  cases decoded : NbfRecord.decode P bytes with
  | error failure => rw [recordsIn, readRecords_error decoded]
  | ok found =>
      cases found with
      | none => rw [recordsIn, readRecords_none decoded]
      | some read => exact absurd decoded (stops read.1 read.2)

/-- A front part of the bytes gives a front part of the records. -/
theorem recordsIn_leading (isFront : front <+: bytes) : recordsIn P front <+: recordsIn P bytes := by
  induction isLength : front.length using Nat.strong_induction_on generalizing front bytes with
  | _ length ih =>
      rcases isFront with ⟨more, rfl⟩
      by_cases reads : Exists fun record => Exists fun behind =>
          NbfRecord.decode P front = .ok (some (record, behind))
      · rcases reads with ⟨record, behind, decoded⟩
        have fewer : behind.length < length := isLength ▸ NbfRecord.decode_rest_lt decoded
        rw [recordsIn_some decoded]
        rcases NbfRecord.decode_local decoded with ⟨head, rfl, again⟩
        rw [List.append_assoc, recordsIn_some (again (behind ++ more)), List.prefix_cons_inj]
        exact ih behind.length fewer (List.prefix_append behind more) rfl
      · have nothing : recordsIn P front = [] := by
          apply recordsIn_stops
          intro record behind decoded
          exact reads ⟨record, behind, decoded⟩
        rw [nothing]
        exact List.nil_prefix

theorem Reads.recordsIn_append (reads : Reads P front records) (tail : List UInt8) :
    recordsIn P (front ++ tail) = records ++ recordsIn P tail := by
  induction reads with
  | nil => rfl
  | cons first later ih =>
      rw [List.append_assoc, recordsIn_some (first _), ih, List.cons_append]

theorem Reads.snoc (reads : Reads P front records) {encoded : List UInt8}
    (decodes : forall rest, NbfRecord.decode P (encoded ++ rest) = .ok (some (record, rest))) :
    Reads P (front ++ encoded) (records ++ [record]) := by
  induction reads with
  | nil =>
      have one : Reads P (encoded ++ []) [record] := .cons decodes .nil
      rw [List.append_nil] at one
      exact one
  | cons first later ih =>
      rw [List.append_assoc]
      exact .cons first ih

end Bytes

/-! ## Bytes in which reading ends for good -/

/-- Bytes that no scan reads a record from, whatever is appended to them unless
they are empty. -/
def Unreadable (tail : List UInt8) : Prop :=
  tail.length < 4 ∨ tail.take 4 ≠ nbfMagic

/-- The records that can be read, and behind them nothing that ever will: what is left
is too short for a record, or has no magic bytes, whatever is appended to it. -/
def Settled (P : Platform) (bytes : List UInt8) : Prop :=
  Exists fun front => Exists fun tail =>
    bytes = front ++ tail ∧ Reads P front (recordsIn P bytes) ∧ Unreadable tail

section Settling

variable {P : Platform} {bytes front tail encoded : List UInt8} {record : NbfRecord}
  {records : List NbfRecord}

theorem Unreadable.stops (unreadable : Unreadable tail) : recordsIn P tail = [] := by
  apply recordsIn_stops
  intro record behind decoded
  unfold NbfRecord.decode at decoded
  split at decoded
  · cases decoded
  · rename_i enough
    split at decoded
    · cases decoded
    · rename_i isMagic
      rcases unreadable with short | noMagic
      · exact enough short
      · exact isMagic noMagic

theorem Reads.settled (reads : Reads P front records) (unreadable : Unreadable tail) :
    Settled P (front ++ tail) ∧ recordsIn P (front ++ tail) = records := by
  have same : recordsIn P (front ++ tail) = records := by
    rw [reads.recordsIn_append, unreadable.stops, List.append_nil]
  refine ⟨⟨front, tail, rfl, ?_, unreadable⟩, same⟩
  rw [same]
  exact reads

theorem unreadable_nil : Unreadable [] :=
  Or.inl (Nat.zero_lt_succ 3)

theorem settled_nil (P : Platform) : Settled P [] :=
  (@Reads.settled P [] [] [] .nil unreadable_nil).1

theorem recordsIn_nil (P : Platform) : recordsIn P [] = [] :=
  unreadable_nil.stops

/-- The magic bytes do not overlap themselves, so a stray byte in front of them
hides them. -/
theorem Unreadable.hides (unreadable : Unreadable tail) (nonempty : tail ≠ [])
    (magic : encoded.take 4 = nbfMagic) : Unreadable (tail ++ encoded) := by
  right
  by_cases short : tail.length < 4
  · have shape : encoded = nbfMagic ++ encoded.drop 4 := by
      rw [← magic, List.take_append_drop]
    rw [shape]
    intro same
    match tail, nonempty, short with
    | [first], _, _ =>
        have second := congrArg (fun bytes => bytes.getD 1 0) same
        cases second
    | [first, second], _, _ =>
        have third := congrArg (fun bytes => bytes.getD 2 0) same
        cases third
    | [first, second, third], _, _ =>
        have fourth := congrArg (fun bytes => bytes.getD 3 0) same
        cases fourth
  · rw [List.take_append_of_le_length (Nat.le_of_not_lt short)]
    exact unreadable.resolve_left short

/-- Bytes that decode start with the magic bytes. -/
theorem magic_of_decodes (decodes : NbfRecord.decode P encoded = .ok (some (record, tail))) :
    encoded.take 4 = nbfMagic := by
  unfold NbfRecord.decode at decodes
  split at decodes
  · cases decodes
  · split at decodes
    · cases decodes
    · rename_i isMagic
      exact not_not.mp isMagic

/-- An appended record can be read, or is lost behind stray bytes. -/
theorem Settled.append (settled : Settled P bytes)
    (decodes : forall rest, NbfRecord.decode P (encoded ++ rest) = .ok (some (record, rest))) :
    Settled P (bytes ++ encoded) ∧
      (recordsIn P (bytes ++ encoded) = recordsIn P bytes ++ [record] ∨
        recordsIn P (bytes ++ encoded) = recordsIn P bytes) := by
  rcases settled with ⟨front, tail, rfl, reads, unreadable⟩
  by_cases empty : tail = []
  · subst empty
    rw [List.append_nil] at reads ⊢
    have longer := reads.snoc decodes
    rcases longer.settled unreadable_nil with ⟨still, same⟩
    rw [List.append_nil] at still same
    exact ⟨still, Or.inl same⟩
  · have whole := decodes []
    rw [List.append_nil] at whole
    rw [List.append_assoc]
    rcases reads.settled (unreadable.hides empty (magic_of_decodes whole)) with ⟨still, same⟩
    exact ⟨still, Or.inr same⟩

end Settling

/-! ## Replay and the largest sequence -/

/-- From one largest sequence to another by way of some records. -/
structure Raises (start : UInt64) (records : List NbfRecord) (finish : UInt64) : Prop where
  forth : start ≤ finish
  covers : forall record, record ∈ records -> record.sequence ≤ finish
  attained : finish = start ∨ Exists fun record => record ∈ records ∧ finish = record.sequence

theorem Raises.nil (start : UInt64) : Raises start [] start :=
  ⟨UInt64.le_refl _, nofun, Or.inl rfl⟩

theorem Raises.append {start middle finish : UInt64} {front back : List NbfRecord}
    (first : Raises start front middle) (second : Raises middle back finish) :
    Raises start (front ++ back) finish := by
  refine ⟨UInt64.le_trans first.forth second.forth, ?_, ?_⟩
  · intro record member
    rcases List.mem_append.mp member with inFront | inBack
    · exact UInt64.le_trans (first.covers record inFront) second.forth
    · exact second.covers record inBack
  · rcases second.attained with same | ⟨record, member, isLargest⟩
    · rcases first.attained with start | ⟨record, member, isLargest⟩
      · exact Or.inl (same.trans start)
      · exact Or.inr ⟨record, List.mem_append_left _ member, same.trans isLargest⟩
    · exact Or.inr ⟨record, List.mem_append_right _ member, isLargest⟩

section Replaying

variable {P : Platform} {path : String} {bytes : List UInt8} {record : NbfRecord}
  {records : List NbfRecord} {state next : RecoveredState} {cut : Option Nat}

theorem replayRecord_raises (replayed : replayRecord P state record = .ok next) :
    Raises state.maxSequence [record] next.maxSequence := by
  have applied : next.maxSequence =
      if state.maxSequence < record.sequence then record.sequence else state.maxSequence := by
    unfold replayRecord applyRecordToState at replayed
    by_cases larger : state.maxSequence < record.sequence
    · simp only [if_pos larger] at replayed ⊢
      cases kind : record.recordType <;> cases read : record.documentFromPayload P <;>
        simp only [kind, read] at replayed <;> cases replayed <;> rfl
    · simp only [if_neg larger] at replayed ⊢
      cases kind : record.recordType <;> cases read : record.documentFromPayload P <;>
        simp only [kind, read] at replayed <;> cases replayed <;> rfl
  rw [applied]
  split
  · rename_i larger
    refine ⟨UInt64.le_of_lt larger, ?_, Or.inr ⟨record, List.mem_singleton_self _, rfl⟩⟩
    intro other member
    rw [List.mem_singleton.mp member]
    exact UInt64.le_refl _
  · rename_i covered
    refine ⟨UInt64.le_refl _, ?_, Or.inl rfl⟩
    intro other member
    rw [List.mem_singleton.mp member]
    exact UInt64.not_lt.mp covered

theorem replayFrom_raises (replayed : replayFrom P state records = .ok next) :
    Raises state.maxSequence records next.maxSequence := by
  induction records generalizing state with
  | nil =>
      cases replayed
      exact .nil _
  | cons record rest ih =>
      cases first : replayRecord P state record with
      | error failure =>
          rw [replayFrom, List.foldlM_cons, first] at replayed
          cases replayed
      | ok middle =>
          rw [replayFrom_cons first] at replayed
          exact (replayRecord_raises first).append (ih replayed)

/-- What recovery makes of one segment. -/
structure Settles (P : Platform) (bytes kept : List UInt8) (start finish : UInt64) : Prop where
  settled : Settled P kept
  fewer : recordsIn P kept <+: recordsIn P bytes
  raises : Raises start (recordsIn P kept) finish

theorem recoverSegment_settles (ran : recoverSegment P path bytes state = .ok (cut, next)) :
    Settles P bytes (keptBytes bytes cut) state.maxSequence next.maxSequence := by
  have fewer : recordsIn P (keptBytes bytes cut) <+: recordsIn P bytes := by
    cases cut with
    | none => exact List.prefix_refl _
    | some length => exact recordsIn_leading (List.take_prefix length bytes)
  unfold recoverSegment at ran
  split at ran
  · rename_i empty
    cases ran
    rw [List.length_eq_zero_iff.mp empty] at fewer ⊢
    refine ⟨settled_nil P, fewer, ?_⟩
    change Raises _ (recordsIn P []) _
    rw [recordsIn_nil]
    exact .nil _
  · rcases recoverLoop_exit ran with ⟨front, tail, records, middle, rfl, reads, replayed, ends⟩
    have raises := replayFrom_raises replayed
    cases ends with
    | clean short =>
        rcases reads.settled (Or.inl short : Unreadable tail) with ⟨settled, same⟩
        rw [← same] at raises
        exact ⟨settled, fewer, raises⟩
    | torn =>
        have kept : keptBytes (front ++ tail) (some ((front ++ tail).length - tail.length)) =
            front := by
          rw [keptBytes, List.length_append, Nat.add_sub_cancel, List.take_left]
        rw [kept] at fewer ⊢
        rcases reads.settled unreadable_nil with ⟨settled, same⟩
        rw [List.append_nil] at settled same
        rw [← same] at raises
        exact ⟨settled, fewer, raises⟩

/-- What recovery makes of the segments of a directory. -/
theorem Scanned.settles {before after : Nat -> List UInt8} {indices : List Nat}
    (scanned : Scanned P path before after indices state next) :
    (forall index, index ∈ indices -> Settled P (after index)) ∧
      (indices.flatMap fun index => recordsIn P (after index)).Sublist
        (indices.flatMap fun index => recordsIn P (before index)) ∧
      Raises state.maxSequence (indices.flatMap fun index => recordsIn P (after index))
        next.maxSequence := by
  induction scanned with
  | nil state => exact ⟨nofun, List.Sublist.refl _, .nil _⟩
  | cons scanned kept later ih =>
      rcases ih with ⟨restSettled, restFewer, restRaises⟩
      have first := recoverSegment_settles scanned
      rw [← kept] at first
      refine ⟨?_, first.fewer.sublist.append restFewer, first.raises.append restRaises⟩
      intro other member
      rcases List.mem_cons.mp member with rfl | isLater
      · exact first.settled
      · exact restSettled other isLater

end Replaying

/-! ## Directories and open logs -/

/-- The records of all segments, as a scan reads them. -/
def recordsOf (P : Platform) (files : Files) : List NbfRecord :=
  (WalDir.discoverSegments files).flatMap fun index => recordsIn P (WalDir.read files index)

/-- Recovery keeps some of the records and knows their largest sequence. -/
theorem recover_settles {P : Platform} {dir repaired : WalDir} {state : RecoveredState}
    (ran : recover P dir = (repaired, .ok state)) :
    (forall index, index ∈ WalDir.discoverSegments repaired.files ->
        Settled P (WalDir.read repaired.files index)) ∧
      (recordsOf P repaired.files).Sublist (recordsOf P dir.files) ∧
      Raises 0 (recordsOf P repaired.files) state.maxSequence := by
  rcases recover_passes ran with ⟨_, passes⟩
  have settles := passes.scanned.settles
  rw [recordsOf, recordsOf, passes.listed]
  exact settles

/-- The segments of a directory as plain bytes. -/
def bytesOf (files : Files) : Layout :=
  (WalDir.discoverSegments files).map fun index => ⟨index, [], WalDir.read files index⟩

theorem holds_bytesOf (P : Platform) (files : Files) : Holds P files (bytesOf files) := by
  constructor
  · rw [bytesOf, List.map_map]
    exact (List.map_id _).symm
  · intro segment member
    rcases List.mem_map.mp member with ⟨index, _, rfl⟩
    rfl

end RecoveryManager

namespace WriteAheadLog

open RecoveryManager

/-- The files once the buffer is written out. -/
def written (wal : WriteAheadLog) : Files :=
  wal.dir.files.insert wal.activeSegment wal.activeFile.all

/-- The log, its lock poisoned or not, is open on segments in which reading ends
for good, and these are the records that can be read. -/
structure Tells (P : Platform) (wal : WriteAheadLog) (closed : Layout) (current : Segment)
    (records : List NbfRecord) : Prop where
  carries : Carries P { wal with poisoned := false } closed current
  plain : forall segment, segment ∈ closed ++ [current] -> segment.records = []
  settled : forall segment, segment ∈ closed ++ [current] -> Settled P segment.tail
  same : (closed ++ [current]).flatMap (fun segment => recordsIn P segment.tail) = records

/-- The records that can be read in an open log. -/
def Keeps (P : Platform) (wal : WriteAheadLog) (records : List NbfRecord) : Prop :=
  Exists fun closed => Exists fun current => Tells P wal closed current records

section Keeping

variable {P : Platform} {env : Environment} {wal : WriteAheadLog} {records : List NbfRecord}
  {closed : Layout} {current : Segment}

theorem plain_bytes {segment : Segment} (plain : segment.records = []) :
    segment.bytes P = segment.tail := by
  rw [Segment.bytes, plain]
  rfl

/-- Rotated or opened: another current segment, empty. -/
theorem Tells.fresh {next : WriteAheadLog} (tells : Tells P wal closed current records)
    {index : Nat}
    (carries : Carries P { next with poisoned := false } (closed ++ [current]) ⟨index, [], []⟩) :
    Tells P next (closed ++ [current]) ⟨index, [], []⟩ records := by
  refine ⟨carries, ?_, ?_, ?_⟩
  · intro segment member
    rcases List.mem_append.mp member with older | isFresh
    · exact tells.plain segment older
    · rw [List.mem_singleton.mp isFresh]
  · intro segment member
    rcases List.mem_append.mp member with older | isFresh
    · exact tells.settled segment older
    · rw [List.mem_singleton.mp isFresh]
      exact settled_nil P
  · rw [List.flatMap_append, tells.same, List.flatMap_singleton, recordsIn_nil, List.append_nil]

theorem Keeps.resequenced (keeps : Keeps P wal records) (sequence : UInt64) :
    Keeps P { wal with currentSequence := sequence } records := by
  rcases keeps with ⟨closed, current, tells⟩
  exact ⟨closed, current, tells.carries.resequenced sequence, tells.plain, tells.settled,
    tells.same⟩

theorem Keeps.rotate (keeps : Keeps P wal records) (takes : env.Takes) :
    Exists fun next => Exists fun outcome => rotateSegment env wal = (next, none, outcome) ∧
      Keeps P next records ∧ next.currentSequence = wal.currentSequence := by
  rcases rotateSegment_takes takes wal with ⟨next, outcome, rotates, left⟩
  refine ⟨next, outcome, rotates, ?_⟩
  rcases left with rfl | rfl | ⟨index, ahead, rfl⟩
  · exact ⟨keeps, rfl⟩
  · rcases keeps with ⟨closed, current, tells⟩
    exact ⟨⟨closed ++ [current], _, tells.fresh tells.carries.rotates⟩, rfl⟩
  · rcases keeps with ⟨closed, current, tells⟩
    have stored : Carries P
        (storeActive { wal with poisoned := false } ⟨wal.activeFile.all, []⟩) closed current :=
      tells.carries.stored rfl ((List.append_nil _).trans tells.carries.currentBytes)
    refine ⟨⟨closed, current, ⟨rfl, stored.listed, stored.closedBytes, stored.currentBytes,
      stored.active, Nat.le_trans stored.ahead ahead⟩, tells.plain, tells.settled, tells.same⟩, rfl⟩

/-- A record written behind the last bytes can be read, or cannot. -/
theorem Keeps.write (keeps : Keeps P wal records) (takes : env.Takes) (sequence : UInt64)
    {record : NbfRecord} {encoded : List UInt8}
    (decodes : forall rest, NbfRecord.decode P (encoded ++ rest) = .ok (some (record, rest))) :
    Exists fun next => Exists fun outcome => Exists fun longer =>
      writeRecord env none wal sequence encoded = (next, outcome) ∧ Keeps P next longer ∧
        next.currentSequence = wal.currentSequence ∧
        (longer = records ++ [record] ∨ longer = records) := by
  rcases writeRecord_takes takes wal sequence encoded with ⟨next, outcome, writes, left⟩
  rcases left with rfl | ⟨file, size, poisoned, isAll, rfl⟩
  · exact ⟨_, outcome, records, writes, keeps, rfl, Or.inr rfl⟩
  rcases keeps with ⟨closed, current, tells⟩
  have isCurrent : current ∈ closed ++ [current] :=
    List.mem_append_right _ (List.mem_singleton_self _)
  have plain := tells.plain current isCurrent
  have bytes : file.all = Segment.bytes P { current with tail := current.tail ++ encoded } := by
    have before : wal.activeFile.all = current.bytes P := tells.carries.currentBytes
    rw [isAll, before, plain_bytes plain, plain_bytes]
    exact plain
  have stored : Carries P (storeActive { wal with poisoned := false } file) closed
      { current with tail := current.tail ++ encoded } := tells.carries.stored rfl bytes
  have written : Carries P
      { { wal.storeActive file with currentSegmentSize := size, poisoned } with poisoned := false }
      closed { current with tail := current.tail ++ encoded } :=
    ⟨rfl, stored.listed, stored.closedBytes, stored.currentBytes, stored.active, stored.ahead⟩
  rcases (tells.settled current isCurrent).append decodes with ⟨settled, grows⟩
  refine ⟨_, outcome, (closed ++ [{ current with tail := current.tail ++ encoded }]).flatMap
    (fun segment : Segment => recordsIn P segment.tail), writes,
    ⟨closed, _, written, ?_, ?_, rfl⟩, rfl, ?_⟩
  · intro segment member
    rcases List.mem_append.mp member with older | isChanged
    · exact tells.plain segment (List.mem_append_left _ older)
    · rw [List.mem_singleton.mp isChanged]
      exact plain
  · intro segment member
    rcases List.mem_append.mp member with older | isChanged
    · exact tells.settled segment (List.mem_append_left _ older)
    · rw [List.mem_singleton.mp isChanged]
      exact settled
  · have same := tells.same
    rw [List.flatMap_append, List.flatMap_singleton] at same ⊢
    rcases grows with longer | unchanged
    · left
      rw [longer, ← List.append_assoc, same]
    · right
      rw [unchanged, same]

/-- The records of the files with any bytes in the place of the active segment. -/
theorem Tells.recordsOf_insert (tells : Tells P wal closed current records) (bytes : List UInt8) :
    recordsOf P (wal.dir.files.insert wal.activeSegment bytes) =
      closed.flatMap (fun segment => recordsIn P segment.tail) ++ recordsIn P bytes := by
  have carries := tells.carries
  have listed : WalDir.discoverSegments wal.dir.files = _ := carries.listed
  have active : wal.activeSegment = current.index := carries.active
  rw [recordsOf, WalDir.discoverSegments_insert_listed carries.active_listed, listed,
    List.map_append, List.flatMap_append, List.flatMap_map, List.map_singleton,
    List.flatMap_singleton, ← active, WalDir.read_insert]
  congr 1
  apply List.flatMap_congr
  intro segment member
  have bytes : WalDir.read wal.dir.files segment.index = _ := carries.closedBytes segment member
  rw [WalDir.read_insert_ne (Nat.ne_of_lt (carries.closed_lt member)), bytes,
    plain_bytes (tells.plain segment (List.mem_append_left _ member))]

theorem Keeps.recordsOf_written (keeps : Keeps P wal records) :
    recordsOf P wal.written = records := by
  rcases keeps with ⟨closed, current, tells⟩
  have isCurrent : current ∈ closed ++ [current] :=
    List.mem_append_right _ (List.mem_singleton_self _)
  have same := tells.same
  rw [List.flatMap_append, List.flatMap_singleton] at same
  have bytes : wal.activeFile.all = _ := tells.carries.currentBytes
  rw [written, tells.recordsOf_insert, bytes,
    plain_bytes (tells.plain current isCurrent), same]

/-- The directory after a crash that leaves some bytes of the last segment. -/
def crashed (wal : WriteAheadLog) (kept : Nat) : WalDir :=
  { wal.dir with
    files := wal.dir.files.insert wal.activeSegment (wal.activeFile.all.take kept) }

/-- A crash loses records. -/
theorem Keeps.crash (keeps : Keeps P wal records) (kept : Nat) :
    (recordsOf P (wal.crashed kept).files).Sublist records := by
  rw [← keeps.recordsOf_written]
  rcases keeps with ⟨closed, current, tells⟩
  rw [crashed, written, tells.recordsOf_insert, tells.recordsOf_insert]
  exact (List.Sublist.refl _).append (recordsIn_leading (List.take_prefix _ _)).sublist

/-- A log opened on a directory in which reading ends for good. -/
theorem keeps_openDir {dir : WalDir} (mode : SyncMode) (limit : Nat)
    (settled : forall index, index ∈ WalDir.discoverSegments dir.files ->
      Settled P (WalDir.read dir.files index)) :
    Keeps P (openDir dir mode limit) (recordsOf P dir.files) := by
  have plain : forall segment, segment ∈ bytesOf dir.files ->
      segment.records = [] ∧ Settled P segment.tail := by
    intro segment member
    rcases List.mem_map.mp member with ⟨index, listed, rfl⟩
    exact ⟨rfl, settled index listed⟩
  have same : (bytesOf dir.files).flatMap (fun segment => recordsIn P segment.tail) =
      recordsOf P dir.files := by
    rw [bytesOf, List.flatMap_map]
    rfl
  rcases List.eq_nil_or_concat (bytesOf dir.files) with nothing | ⟨closed, current, split⟩
  · have unlisted : WalDir.discoverSegments dir.files = [] := List.map_eq_nil_iff.mp nothing
    rw [nothing] at same
    refine ⟨[], ⟨0, [], []⟩, carries_openDir_empty mode limit unlisted, ?_, ?_, ?_⟩
    · intro segment member
      rw [List.mem_singleton.mp member]
    · intro segment member
      rw [List.mem_singleton.mp member]
      exact settled_nil P
    · rw [← same, List.nil_append, List.flatMap_singleton, recordsIn_nil]
      rfl
  · rw [List.concat_eq_append] at split
    rw [split] at plain same
    have holds := holds_bytesOf P dir.files
    rw [split] at holds
    exact ⟨closed, current, carries_openDir_last mode limit holds,
      fun segment member => (plain segment member).1,
      fun segment member => (plain segment member).2, same⟩

end Keeping

end WriteAheadLog
end Storage
end NovaDb
