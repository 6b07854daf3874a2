import NovaDb.Storage.Durability
import NovaDb.Storage.BufferedLog

namespace NovaDb
namespace Storage

open Core Foundation WriteAheadLog

/-!
# Losing power under either sync policy

Without `Always` an acknowledged record may be in the writer's buffer, or in the
page cache, when the machine stops.  What a power loss cannot take back is what a
sync covered: a flush, a rotation, or an append under `Always`.  Behind the last
sync the disk may have any front part of the bytes of the active segment, cut in the
middle of a record or not, and no file where nothing of it was synced.  Recovery
then finds a front part of the acknowledged records, and in it all those that were
acknowledged before the last sync.
-/

/-! ## A cut through whole records -/

theorem frames_cons (P : Platform) (record : NbfRecord) (rest : List NbfRecord) :
    frames P (record :: rest) = record.frame P ++ frames P rest :=
  List.flatMap_cons

theorem AllValid.tail {P : Platform} {record : NbfRecord} {rest : List NbfRecord}
    (valid : AllValid P (record :: rest)) : AllValid P rest :=
  fun other member => valid other (List.mem_cons_of_mem _ member)

/-- A cut leaves whole records and a torn tail, and no fewer records than are in
front of it. -/
theorem frames_take {P : Platform} {records : List NbfRecord} (valid : AllValid P records)
    (count : Nat) :
    Exists fun whole => Exists fun tail =>
      (frames P records).take count = frames P (records.take whole) ++ tail ∧ TornTail P tail ∧
        forall covered, covered ≤ records.length ->
          (frames P (records.take covered)).length ≤ count -> covered ≤ whole := by
  induction records generalizing count with
  | nil =>
      refine ⟨0, [], List.take_nil, tornTail_nil P, ?_⟩
      intro covered within _
      exact within
  | cons record rest hypothesis =>
      by_cases short : count < (record.frame P).length
      · have validRecord := valid record List.mem_cons_self
        refine ⟨0, (record.frame P).take count, ?_,
          tornTail_take validRecord.fits validRecord.built short, ?_⟩
        · rw [frames_cons, List.take_append_of_le_length (Nat.le_of_lt short)]
          rfl
        · intro covered _ before
          cases covered with
          | zero => exact Nat.le_refl 0
          | succ covered =>
              rw [List.take_succ_cons, frames_cons, List.length_append] at before
              omega
      · rcases hypothesis valid.tail (count - (record.frame P).length) with
          ⟨whole, tail, cut, torn, covers⟩
        refine ⟨whole + 1, tail, ?_, torn, ?_⟩
        · rw [frames_cons, List.take_append, List.take_of_length_le (Nat.le_of_not_lt short), cut,
            List.take_succ_cons, frames_cons, List.append_assoc]
        · intro covered within before
          cases covered with
          | zero => exact Nat.zero_le _
          | succ covered =>
              rw [List.take_succ_cons, frames_cons, List.length_append] at before
              exact Nat.succ_le_succ
                (covers covered (Nat.le_of_succ_le_succ within) (by omega))

theorem frames_eq_nil {P : Platform} {records : List NbfRecord} (empty : frames P records = []) :
    records = [] := by
  cases records with
  | nil => rfl
  | cons record rest =>
      have positive := RecoveryManager.frames_length_pos P record rest
      rw [empty] at positive
      exact absurd positive (Nat.lt_irrefl 0)

theorem discoverSegments_erase_last {files : Files} {indices : List Nat} {index : Nat}
    (listed : WalDir.discoverSegments files = indices ++ [index]) :
    WalDir.discoverSegments (files.erase index) = indices := by
  have ascending := WalDir.discoverSegments_ascending files
  rw [listed] at ascending
  rcases List.pairwise_append.mp ascending with ⟨before, _, below⟩
  have absent : index ∉ indices :=
    fun member => Nat.lt_irrefl _ (below index member index (List.mem_singleton_self _))
  have permuted : (indices ++ [index]).Perm files.keys := by
    rw [← listed]
    exact List.mergeSort_perm _ _
  apply WalDir.discoverSegments_eq before
  rw [AList.keys_erase]
  have erased := permuted.erase index
  rw [List.erase_append_right _ absent, List.erase_cons_head, List.append_nil] at erased
  exact erased

theorem read_erase_ne {files : Files} {index other : Nat} (different : other ≠ index) :
    WalDir.read (files.erase index) other = WalDir.read files other := by
  rw [WalDir.read, AList.lookup_erase_ne different]
  rfl

/-! ## The log on a machine that can lose power -/

namespace WriteAheadLog

/-- Flush and fsync the active log file to disk. -/
def flush (env : Environment) (wal : WriteAheadLog) : WriteAheadLog × Except NovaError Unit :=
  if wal.poisoned then (wal, .error lockPoisoned)
  else
    let flushed := wal.activeFile.flush env.room
    let wal := wal.storeActive flushed.file
    if !flushed.succeeded then
      (wal, .error (NovaError.storage ("Failed to flush WAL: " ++ env.ioError)))
    else if env.syncFails then
      (wal, .error (NovaError.storage ("Failed to sync WAL: " ++ env.ioError)))
    else (wal, .ok ())

end WriteAheadLog

/-- An open log, the bytes of its active segment file and the acknowledged records
that the last sync covers, and all acknowledged records. -/
structure Journal where
  wal : WriteAheadLog
  durable : Nat
  acknowledged : List NbfRecord
  settled : Nat

namespace Journal

/-- Everything handed to the operating system is on the disk. -/
def synced (journal : Journal) : Journal :=
  { journal with
    durable := journal.wal.activeFile.contents.length
    settled := journal.acknowledged.length }

/-- The log behind an append.  A rotation has synced the segment it left, and started
a file of which nothing is synced. -/
def moved (next : WriteAheadLog) (journal : Journal) : Journal :=
  if next.activeSegment = journal.wal.activeSegment then { journal with wal := next }
  else ⟨next, 0, journal.acknowledged, journal.acknowledged.length⟩

theorem moved_same {next : WriteAheadLog} {journal : Journal}
    (same : next.activeSegment = journal.wal.activeSegment) :
    journal.moved next = { journal with wal := next } :=
  if_pos same

theorem moved_ne {next : WriteAheadLog} {journal : Journal}
    (different : next.activeSegment ≠ journal.wal.activeSegment) :
    journal.moved next = ⟨next, 0, journal.acknowledged, journal.acknowledged.length⟩ :=
  if_neg different

/-- One record more, which `Always` syncs. -/
def acknowledge (record : NbfRecord) (journal : Journal) : Journal :=
  let grown := { journal with acknowledged := journal.acknowledged ++ [record] }
  if journal.wal.syncMode = .always then grown.synced else grown

theorem settled_acknowledge {record : NbfRecord} {journal : Journal}
    (always : (journal.acknowledge record).wal.syncMode = .always) :
    (journal.acknowledge record).settled = (journal.acknowledge record).acknowledged.length := by
  unfold acknowledge at always ⊢
  split
  · rfl
  · rename_i without
    rw [if_neg without] at always
    exact absurd always without

/-- One append call. -/
def append (P : Platform) (env : Environment) (mutation : Mutation) (journal : Journal) :
    Journal :=
  match journal.wal.append P env mutation with
  | (next, .error _) => { journal with wal := next }
  | (next, .ok sequence) =>
      (journal.moved next).acknowledge (mutation.record sequence env.now)

/-- One call of `flush`. -/
def flush (env : Environment) (journal : Journal) : Journal :=
  match journal.wal.flush env with
  | (next, .error _) => { journal with wal := next }
  | (next, .ok ()) => { journal with wal := next }.synced

/-- What a power loss can leave: of the active segment a front part with the bytes
of the last sync in it, or no file when there are none.  The buffer is gone. -/
inductive PowerLoss (journal : Journal) : WalDir -> Prop where
  | cut (count : Nat) (kept : journal.durable ≤ count) :
      PowerLoss journal { journal.wal.dir with
        files := journal.wal.dir.files.insert journal.wal.activeSegment
          (journal.wal.activeFile.contents.take count) }
  | missing (unsynced : journal.durable = 0) :
      PowerLoss journal { journal.wal.dir with
        files := journal.wal.dir.files.erase journal.wal.activeSegment }

end Journal

/-- Appends and flushes on a log opened on whole records, under any policy and
limit, with nothing failing. -/
inductive JournalRun (P : Platform) (mode : SyncMode) (limit : Nat) : Journal -> Prop where
  | opened {dir : WalDir} {layout : Layout} (intact : Intact P dir.files layout)
      (start : UInt64) :
      JournalRun P mode limit
        (Journal.synced ⟨(openDir dir mode limit).setSequence start, 0, layout.records, 0⟩)
  | append {journal : Journal} (run : JournalRun P mode limit journal) {env : Environment}
      (quiet : env.Quiet) {mutation : Mutation} (legal : mutation.Legal P) :
      JournalRun P mode limit (journal.append P env mutation)
  | flush {journal : Journal} (run : JournalRun P mode limit journal) {env : Environment}
      (quiet : env.Quiet) : JournalRun P mode limit (journal.flush env)

/-! ## What appends do to the file -/

/-- A write takes nothing back from the file. -/
theorem contents_writeAll (capacity : Nat) (file : BufferedFile) (data : List UInt8) :
    file.contents <+: (file.writeAll capacity data none).file.contents := by
  unfold BufferedFile.writeAll
  simp only [BufferedFile.flush_all, BufferedFile.all, BufferedFile.writeThrough]
  split
  · exact List.prefix_refl _
  · split
    · simp only [if_true]
      split
      · exact ⟨file.buffer ++ data, (List.append_assoc _ _ _).symm⟩
      · exact List.prefix_append _ _
    · simp only [if_true]
      split
      · exact List.prefix_append _ _
      · exact List.prefix_refl _

namespace WriteAheadLog

section Places

variable {P : Platform} {env : Environment} {wal place : WriteAheadLog} {encoded : List UInt8}

/-- The active file before and after a write of some bytes: nothing is lost, and
under `Always` nothing stays in the buffer. -/
structure Extends (wal : WriteAheadLog) (encoded : List UInt8) (file : BufferedFile) : Prop where
  all : file.all = wal.activeFile.all ++ encoded
  contents : wal.activeFile.contents <+: file.contents
  pending : wal.syncMode = .always -> file.buffer = []

/-- The log behind such a write. -/
def recorded (wal : WriteAheadLog) (encoded : List UInt8) (file : BufferedFile) :
    WriteAheadLog :=
  { wal.storeActive file with currentSegmentSize := wal.currentSegmentSize + encoded.length }

theorem writeRecord_placed (quiet : env.Quiet) (healthy : wal.poisoned = false)
    (sequence : UInt64) (encoded : List UInt8) :
    Exists fun file => wal.Extends encoded file ∧
      writeRecord env none wal sequence encoded = (wal.recorded encoded file, .ok sequence) := by
  have grows := contents_writeAll bufferCapacity wal.activeFile encoded
  rcases BufferedFile.writeAll_all bufferCapacity wal.activeFile encoded with
    ⟨written, writes, isAll⟩
  rw [writes] at grows
  by_cases always : wal.syncMode = .always
  · refine ⟨⟨written.all, []⟩, ⟨(List.append_nil _).trans isAll, ?_, fun _ => rfl⟩, ?_⟩
    · exact grows.trans (List.prefix_append _ _)
    · simp [writeRecord, recorded, healthy, quiet.fault, writes, always, BufferedFile.flush_all,
        quiet.syncFails]
  · refine ⟨written, ⟨isAll, grows, fun isAlways => absurd isAlways always⟩, ?_⟩
    simp [writeRecord, recorded, healthy, quiet.fault, writes, always]

/-- Where an append with nothing in the way puts its record: behind those of the
active segment, or into a fresh one. -/
inductive Appended (P : Platform) (env : Environment) (wal : WriteAheadLog)
    (mutation : Mutation) : Prop where
  | refused (fault : Fault)
      (outcome : wal.append P env mutation =
        (wal.setSequence (wal.currentSequence + 1), .error fault))
  | placed (place : WriteAheadLog) (file : BufferedFile)
      (isPlace : place = wal.setSequence (wal.currentSequence + 1) ∨
        place = (wal.setSequence (wal.currentSequence + 1)).rotated)
      (fits : (mutation.record (wal.currentSequence + 1) env.now).Fits)
      (grows : place.Extends
        ((mutation.record (wal.currentSequence + 1) env.now).frame P) file)
      (outcome : wal.append P env mutation =
        (place.recorded ((mutation.record (wal.currentSequence + 1) env.now).frame P) file,
          .ok (wal.currentSequence + 1)))

theorem appended_quiet (quiet : env.Quiet) (healthy : wal.poisoned = false)
    (mutation : Mutation) : Appended P env wal mutation := by
  by_cases overflows : (P.overflowChecks && wal.currentSequence == 0xFFFFFFFFFFFFFFFF) = true
  · refine .refused (.panic "attempt to add with overflow") ?_
    unfold append
    simp only [if_pos overflows]
    rfl
  · cases encodes : (mutation.record (wal.currentSequence + 1) env.now).encode P with
    | error failure =>
        refine .refused (.error failure) ?_
        unfold append
        simp only [if_neg overflows, encodes]
        rfl
    | ok encoded =>
        rcases NbfRecord.encode_eq_ok_iff.mp encodes with ⟨fits, rfl⟩
        by_cases full : wal.segmentSizeLimit < wal.currentSegmentSize +
            ((mutation.record (wal.currentSequence + 1) env.now).frame P).length
        · have rotates := @rotateSegment_quiet env (wal.setSequence (wal.currentSequence + 1))
            quiet healthy
          rcases @writeRecord_placed env (wal.setSequence (wal.currentSequence + 1)).rotated quiet
            healthy (wal.currentSequence + 1)
            ((mutation.record (wal.currentSequence + 1) env.now).frame P) with
            ⟨file, grows, writes⟩
          refine .placed _ file (Or.inr rfl) fits grows ?_
          unfold append
          unfold setSequence at rotates writes
          simp only [if_neg overflows, encodes, if_pos full, rotates, writes]
          rfl
        · rcases @writeRecord_placed env (wal.setSequence (wal.currentSequence + 1)) quiet healthy
            (wal.currentSequence + 1)
            ((mutation.record (wal.currentSequence + 1) env.now).frame P) with
            ⟨file, grows, writes⟩
          refine .placed _ file (Or.inl rfl) fits grows ?_
          unfold append
          unfold setSequence at writes
          simp only [if_neg overflows, encodes, if_neg full, quiet.room, writes]
          rfl

end Places

end WriteAheadLog

/-! ## What every call keeps -/

namespace Journal

/-- The log carries the acknowledged records, and the bytes of the last sync are in
the file, with those records of the current segment that it covers. -/
structure Kept (P : Platform) (mode : SyncMode) (journal : Journal) (closed : Layout)
    (current : Segment) : Prop where
  carries : Carries P journal.wal closed current
  clean : forall segment, segment ∈ closed ++ [current] -> segment.tail = []
  valid : AllValid P journal.acknowledged
  same : Layout.records (closed ++ [current]) = journal.acknowledged
  durable : journal.durable ≤ journal.wal.activeFile.contents.length
  covered : Exists fun count => count ≤ current.records.length ∧
    journal.settled = (Layout.records closed).length + count ∧
    (frames P (current.records.take count)).length ≤ journal.durable
  policy : journal.wal.syncMode = mode

section Keeping

variable {P : Platform} {mode : SyncMode} {env : Environment} {journal : Journal}
  {closed : Layout} {current : Segment}

theorem Kept.currentClean (kept : Kept P mode journal closed current) : current.tail = [] :=
  kept.clean current (List.mem_append_right _ (List.mem_singleton_self _))

/-- The file of the active segment is a front part of the frames of its records. -/
theorem Kept.contents (kept : Kept P mode journal closed current) :
    journal.wal.activeFile.contents <+: frames P current.records := by
  refine ⟨journal.wal.buffer, ?_⟩
  have bytes := kept.carries.currentBytes
  rw [Segment.bytes, kept.currentClean, List.append_nil] at bytes
  exact bytes

/-- A sync with an empty buffer covers all records. -/
theorem Kept.synced (kept : Kept P mode journal closed current)
    (pending : journal.wal.buffer = []) : Kept P mode journal.synced closed current := by
  have bytes := kept.carries.currentBytes
  rw [Segment.bytes, kept.currentClean, List.append_nil, BufferedFile.all] at bytes
  refine ⟨kept.carries, kept.clean, kept.valid, kept.same, Nat.le_refl _,
    ⟨current.records.length, Nat.le_refl _, ?_, ?_⟩, kept.policy⟩
  · change journal.acknowledged.length = _
    rw [← kept.same, Layout.records_append, Layout.records_singleton, List.length_append]
  · change _ ≤ journal.wal.activeFile.contents.length
    rw [List.take_length, ← bytes]
    change (journal.wal.activeFile.contents ++ journal.wal.buffer).length ≤ _
    rw [pending, List.append_nil]

theorem Kept.flush (kept : Kept P mode journal closed current) (quiet : env.Quiet) :
    Kept P mode (journal.flush env) closed current := by
  have flushes : journal.wal.flush env =
      (journal.wal.storeActive ⟨journal.wal.activeFile.all, []⟩, .ok ()) := by
    simp [WriteAheadLog.flush, kept.carries.healthy, quiet.room, quiet.syncFails,
      BufferedFile.flush_all]
  have stored : Kept P mode
      { journal with wal := journal.wal.storeActive ⟨journal.wal.activeFile.all, []⟩ }
      closed current := by
    refine ⟨kept.carries.stored rfl ((List.append_nil _).trans kept.carries.currentBytes),
      kept.clean, kept.valid, kept.same, ?_, kept.covered, kept.policy⟩
    change _ ≤ (WalDir.read (journal.wal.dir.files.insert _ _) journal.wal.activeSegment).length
    rw [WalDir.read_insert]
    exact kept.durable.trans (List.prefix_append _ _).length_le
  rw [Journal.flush, flushes]
  exact stored.synced rfl

/-- The log behind a rotation: a fresh segment, of which nothing is synced. -/
theorem Kept.rotated (kept : Kept P mode journal closed current) (sequence : UInt64) :
    Kept P mode
      ⟨(journal.wal.setSequence sequence).rotated, 0, journal.acknowledged,
        journal.acknowledged.length⟩
      (closed ++ [current]) ⟨journal.wal.currentSegmentIndex + 1, [], []⟩ := by
  refine ⟨(kept.carries.resequenced sequence).rotates, ?_, kept.valid, ?_, Nat.zero_le _,
    ⟨0, Nat.le_refl _, ?_, Nat.le_refl _⟩, kept.policy⟩
  · intro segment member
    rcases List.mem_append.mp member with older | isFresh
    · exact kept.clean segment older
    · rw [List.mem_singleton.mp isFresh]
  · rw [Layout.records_append, Layout.records_singleton, List.append_nil]
    exact kept.same
  · change journal.acknowledged.length = _
    rw [kept.same]
    rfl

/-- A record behind those of the current segment, synced under `Always`. -/
theorem Kept.written (kept : Kept P mode journal closed current) {record : NbfRecord}
    (valid : record.Valid P) {file : BufferedFile}
    (grows : journal.wal.Extends (record.frame P) file) :
    Kept P mode
      (acknowledge record { journal with wal := journal.wal.recorded (record.frame P) file })
      closed { current with records := current.records ++ [record] } := by
  have bytes : file.all =
      Segment.bytes P { current with records := current.records ++ [record] } := by
    rw [grows.all, kept.carries.currentBytes, Segment.bytes, Segment.bytes, kept.currentClean,
      frames_append, frames_singleton, List.append_nil, List.append_nil]
  have stored := @Carries.stored P journal.wal closed current kept.carries file
    { current with records := current.records ++ [record] } rfl bytes
  have further : Kept P mode
      { journal with
        wal := journal.wal.recorded (record.frame P) file
        acknowledged := journal.acknowledged ++ [record] } closed
      { current with records := current.records ++ [record] } := by
    refine ⟨⟨stored.healthy, stored.listed, stored.closedBytes, stored.currentBytes,
      stored.active, stored.ahead⟩, ?_, kept.valid.append ?_, ?_, ?_, ?_, kept.policy⟩
    · intro segment member
      rcases List.mem_append.mp member with older | isCurrent
      · exact kept.clean segment (List.mem_append_left _ older)
      · rw [List.mem_singleton.mp isCurrent]
        exact kept.currentClean
    · intro other member
      rw [List.mem_singleton.mp member]
      exact valid
    · change _ = journal.acknowledged ++ [record]
      rw [← kept.same]
      simp only [Layout.records_append, Layout.records_singleton, List.append_assoc]
    · change _ ≤ (WalDir.read (journal.wal.dir.files.insert _ _) journal.wal.activeSegment).length
      rw [WalDir.read_insert]
      exact kept.durable.trans grows.contents.length_le
    · rcases kept.covered with ⟨count, within, settled, covered⟩
      refine ⟨count, ?_, settled, ?_⟩
      · exact within.trans (List.prefix_append _ _).length_le
      · rw [List.take_append_of_le_length within]
        exact covered
  unfold acknowledge
  split
  · rename_i always
    exact further.synced (grows.pending always)
  · exact further

/-- One append call: the log as it was but for its counter, or one more record. -/
theorem Kept.append (kept : Kept P mode journal closed current)
    (quiet : env.Quiet) {mutation : Mutation} (legal : mutation.Legal P) :
    Exists fun closed => Exists fun current =>
      Kept P mode (journal.append P env mutation) closed current := by
  have counted : Kept P mode
      { journal with wal := journal.wal.setSequence (journal.wal.currentSequence + 1) }
      closed current :=
    ⟨kept.carries.resequenced _, kept.clean, kept.valid, kept.same, kept.durable, kept.covered,
      kept.policy⟩
  cases appended_quiet quiet kept.carries.healthy mutation with
  | refused fault outcome =>
      refine ⟨closed, current, ?_⟩
      rw [Journal.append, outcome]
      exact counted
  | placed place file isPlace fits grows outcome =>
      have valid := legal.valid fits
      rcases isPlace with rfl | rfl
      · have written := counted.written valid grows
        have stays : (recorded (journal.wal.setSequence (journal.wal.currentSequence + 1))
            ((mutation.record (journal.wal.currentSequence + 1) env.now).frame P)
            file).activeSegment = journal.wal.activeSegment := rfl
        rw [Journal.append, outcome]
        simp only
        rw [moved_same stays]
        exact ⟨closed, _, written⟩
      · have written := (kept.rotated (journal.wal.currentSequence + 1)).written valid grows
        have elsewhere : (recorded
            (journal.wal.setSequence (journal.wal.currentSequence + 1)).rotated
            ((mutation.record (journal.wal.currentSequence + 1) env.now).frame P)
            file).activeSegment ≠ journal.wal.activeSegment :=
          Nat.ne_of_gt (Nat.lt_succ_of_le kept.carries.ahead)
        rw [Journal.append, outcome]
        simp only
        rw [moved_ne elsewhere]
        exact ⟨closed ++ [current], _, written⟩

/-- A log opened on whole records. -/
theorem kept_opened {dir : WalDir} {layout : Layout} (intact : Intact P dir.files layout)
    (mode : SyncMode) (limit : Nat) (start : UInt64) :
    Exists fun closed => Exists fun current =>
      Kept P mode
        (synced ⟨(openDir dir mode limit).setSequence start, 0, layout.records, 0⟩)
        closed current := by
  have begun : forall closed current, Carries P (openDir dir mode limit) closed current ->
      (forall segment, segment ∈ closed ++ [current] -> segment.tail = []) ->
      Layout.records (closed ++ [current]) = layout.records ->
      Kept P mode (synced ⟨(openDir dir mode limit).setSequence start, 0, layout.records, 0⟩)
        closed current := by
    intro closed current carries clean same
    have bytes := carries.currentBytes
    rw [Segment.bytes, clean current (List.mem_append_right _ (List.mem_singleton_self _)),
      List.append_nil] at bytes
    refine ⟨carries.resequenced start, clean, intact.valid, same, Nat.le_refl _,
      ⟨current.records.length, Nat.le_refl _, ?_, ?_⟩, rfl⟩
    · change layout.records.length = _
      rw [← same, Layout.records_append, Layout.records_singleton, List.length_append]
    · rw [List.take_length, ← bytes]
      exact Nat.le_of_eq (congrArg List.length (List.append_nil _))
  rcases List.eq_nil_or_concat' layout with rfl | ⟨closed, current, rfl⟩
  · refine ⟨[], ⟨0, [], []⟩, begun _ _ (carries_openDir_empty mode limit ?_) ?_ rfl⟩
    · exact intact.holds.listed
    · intro segment member
      rw [List.mem_singleton.mp member]
  · exact ⟨closed, current, begun _ _ (carries_openDir_last mode limit intact.holds)
      intact.noTail rfl⟩

/-- What the disk has of the current segment, as whole records and a torn tail. -/
theorem Kept.cut (kept : Kept P mode journal closed current) {count : Nat}
    (synced : journal.durable ≤ count) :
    Exists fun whole => Exists fun tail =>
      journal.wal.activeFile.contents.take count =
        frames P (current.records.take whole) ++ tail ∧ TornTail P tail ∧
      journal.settled ≤ (Layout.records closed).length + whole := by
  have valid : AllValid P current.records := by
    intro record member
    refine kept.valid record ?_
    rw [← kept.same, Layout.records_append, Layout.records_singleton]
    exact List.mem_append_right _ member
  rcases kept.contents with ⟨buffer, isFront⟩
  rcases frames_take valid (min count journal.wal.activeFile.contents.length) with
    ⟨whole, tail, cut, torn, covers⟩
  refine ⟨whole, tail, ?_, torn, ?_⟩
  · rw [← cut, ← isFront, List.take_append_of_le_length (Nat.min_le_right _ _),
      ← List.take_take, List.take_length]
  · rcases kept.covered with ⟨covered, within, settled, enough⟩
    have reached := covers covered within
      (enough.trans (Nat.le_min.mpr ⟨synced, kept.durable⟩))
    omega

/-- What a power loss leaves: closed segments, and a front part of the records of the
current one with the remains of the next. -/
theorem Kept.lost (kept : Kept P mode journal closed current) {image : WalDir}
    (loss : journal.PowerLoss image) :
    Exists fun layout => Exists fun whole => Holds P image.files layout ∧ Sound P layout ∧
      layout.records = Layout.records closed ++ current.records.take whole ∧
      journal.settled ≤ (Layout.records closed).length + whole := by
  have validClosed : AllValid P (Layout.records closed) := by
    intro record member
    refine kept.valid record ?_
    rw [← kept.same, Layout.records_append]
    exact List.mem_append_left _ member
  have validCurrent : AllValid P current.records := by
    intro record member
    refine kept.valid record ?_
    rw [← kept.same, Layout.records_append, Layout.records_singleton]
    exact List.mem_append_right _ member
  have cleanClosed : forall segment, segment ∈ closed -> TornTail P segment.tail := by
    intro segment member
    rw [kept.clean segment (List.mem_append_left _ member)]
    exact tornTail_nil P
  cases loss with
  | cut count synced =>
      rcases kept.cut synced with ⟨whole, tail, bytes, torn, settled⟩
      have stored := @Carries.stored P journal.wal closed current kept.carries
        ⟨journal.wal.activeFile.contents.take count, []⟩
        ⟨current.index, current.records.take whole, tail⟩ rfl ((List.append_nil _).trans bytes)
      have holds : Holds P (journal.wal.storeActive
          ⟨journal.wal.activeFile.contents.take count, []⟩).dir.files
          (closed ++ [⟨current.index, current.records.take whole, tail⟩]) := by
        refine ⟨stored.listed, ?_⟩
        intro segment member
        rcases List.mem_append.mp member with older | isCurrent
        · exact stored.closedBytes segment older
        · rw [List.mem_singleton.mp isCurrent, ← stored.currentBytes, ← stored.active]
          exact (List.append_nil _).symm
      refine ⟨_, whole, holds, ⟨?_, ?_⟩, ?_, settled⟩
      · rw [Layout.records_append, Layout.records_singleton]
        exact validClosed.append fun record member =>
          validCurrent record (List.mem_of_mem_take member)
      · intro segment member
        rcases List.mem_append.mp member with older | isCurrent
        · exact cleanClosed segment older
        · rw [List.mem_singleton.mp isCurrent]
          exact torn
      · rw [Layout.records_append, Layout.records_singleton]
  | missing unsynced =>
      have listed := kept.carries.listed
      rw [List.map_append, List.map_singleton, ← kept.carries.active] at listed
      refine ⟨closed, 0, ⟨discoverSegments_erase_last listed, ?_⟩, ⟨validClosed, cleanClosed⟩, ?_,
        ?_⟩
      · intro segment member
        rw [← kept.carries.closedBytes segment member]
        exact read_erase_ne (Nat.ne_of_lt (kept.carries.closed_lt member))
      · rw [List.take_zero, List.append_nil]
      · rcases kept.covered with ⟨count, within, settled, covered⟩
        rw [unsynced, Nat.le_zero, List.length_eq_zero_iff] at covered
        have nothing := congrArg List.length (frames_eq_nil covered)
        rw [List.length_take, Nat.min_eq_left within, List.length_nil] at nothing
        rw [settled, nothing]

end Keeping

end Journal

/-! ## Every run -/

theorem JournalRun.kept {P : Platform} {mode : SyncMode}
    {limit : Nat} {journal : Journal} (run : JournalRun P mode limit journal) :
    Exists fun closed => Exists fun current => journal.Kept P mode closed current := by
  induction run with
  | opened intact start => exact Journal.kept_opened intact mode limit start
  | append run quiet legal hypothesis =>
      rcases hypothesis with ⟨closed, current, kept⟩
      exact kept.append quiet legal
  | flush run quiet hypothesis =>
      rcases hypothesis with ⟨closed, current, kept⟩
      exact ⟨closed, current, kept.flush quiet⟩

/-- Under `Always` every acknowledged record is settled. -/
theorem JournalRun.settled_always {P : Platform} {limit : Nat}
    {journal : Journal} (run : JournalRun P .always limit journal) :
    journal.settled = journal.acknowledged.length := by
  induction run with
  | opened intact start => rfl
  | @append journal run env quiet mutation legal hypothesis =>
      rcases (run.append quiet legal).kept with ⟨_, _, kept⟩
      have policy := kept.policy
      unfold Journal.append at policy ⊢
      split
      · exact hypothesis
      · rename_i next sequence outcome
        rw [outcome] at policy
        simp only at policy
        exact Journal.settled_acknowledge policy
  | flush run quiet hypothesis =>
      unfold Journal.flush
      split
      · exact hypothesis
      · rfl

/-- A power loss after any run of appends and flushes leaves a directory that recovers,
to a front part of the acknowledged records with all settled ones in it; under `Always`
that is all.  The loss keeps what the last sync covered and any front part of the bytes
behind it.  The mutations of the run are legal, and nothing fails up to the loss. -/
theorem power_loss_keeps_settled {P : Platform} {mode : SyncMode}
    {limit : Nat} {journal : Journal} (run : JournalRun P mode limit journal) {image : WalDir}
    (loss : journal.PowerLoss image) :
    (Exists fun kept => journal.settled ≤ kept ∧ kept ≤ journal.acknowledged.length ∧
        Replays P image (journal.acknowledged.take kept)) ∧
      (mode = .always -> Replays P image journal.acknowledged) := by
  rcases run.kept with ⟨closed, current, kept⟩
  rcases kept.lost loss with ⟨layout, whole, holds, sound, records, settled⟩
  have replays := replays_of_holds holds sound
  have settles : Exists fun kept => journal.settled ≤ kept ∧ kept ≤ journal.acknowledged.length ∧
      Replays P image (journal.acknowledged.take kept) := by
    refine ⟨(Layout.records closed).length + min whole current.records.length, ?_, ?_, ?_⟩
    · rcases kept.covered with ⟨count, within, same, _⟩
      omega
    · rw [← kept.same, Layout.records_append, Layout.records_singleton, List.length_append]
      omega
    · rw [records] at replays
      rw [← kept.same, Layout.records_append, Layout.records_singleton, List.take_length_add_append,
        ← List.take_take, List.take_length]
      exact replays
  refine ⟨settles, ?_⟩
  rintro rfl
  rcases settles with ⟨count, atLeast, atMost, found⟩
  rw [run.settled_always] at atLeast
  rw [List.take_of_length_le atLeast] at found
  exact found

/-- A flushed insert and a delete behind it in the buffer: whatever is left of the
delete, the insert is found. -/
theorem power_loss_keeps_settled_sample :
    let flushed := (Journal.append samplePlatform quietEnvironment sampleInsert
      (Journal.synced ⟨(openDir ⟨"wal", ∅⟩ .none 4096).setSequence 0, 0, [], 0⟩)).flush
        quietEnvironment
    let journal := flushed.append samplePlatform quietEnvironment sampleDelete
    journal.settled = 1 ∧ journal.acknowledged.length = 2 ∧
      Exists fun kept => 1 ≤ kept ∧ kept ≤ 2 ∧
        Replays samplePlatform
          { journal.wal.dir with
            files := journal.wal.dir.files.insert journal.wal.activeSegment
              (journal.wal.activeFile.contents.take journal.durable) }
          (journal.acknowledged.take kept) := by
  intro flushed journal
  refine ⟨by decide +kernel, by decide +kernel, ?_⟩
  have run : JournalRun samplePlatform .none 4096 journal :=
    .append (.flush (.append
      (@JournalRun.opened samplePlatform .none 4096 ⟨"wal", ∅⟩ [] (intact_empty samplePlatform) 0)
      quiet_quietEnvironment legal_sampleInsert) quiet_quietEnvironment) quiet_quietEnvironment
      legal_sampleDelete
  have settled : journal.settled = 1 := by decide +kernel
  have acknowledged : journal.acknowledged.length = 2 := by decide +kernel
  have found := (power_loss_keeps_settled run
    (.cut journal.durable (Nat.le_refl _))).1
  rw [settled, acknowledged] at found
  exact found

end Storage
end NovaDb
