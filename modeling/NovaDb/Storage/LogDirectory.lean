import Mathlib
import NovaDb.Storage.SegmentScan

namespace NovaDb
namespace Storage

open Core Foundation

/-!
# Segment directories and recovery over them

`discoverSegments` sorts whatever order the directory is listed in, so a
directory is known by the ascending list of its segments.  The program changes a
directory by writing to a listed segment, which keeps that list, and by adding a
segment with a larger index, which extends it.

`Holds` says what a directory contains: each segment the encodings of some
records and behind them the torn tail of a further one, usually empty.  Recovery
of such a directory succeeds, replays the records in order and cuts every tail of
at least four bytes.
-/

namespace WalDir

theorem discoverSegments_eq {files : Files} {indices : List Nat}
    (ascending : indices.Pairwise (· < ·)) (listed : indices.Perm files.keys) :
    discoverSegments files = indices := by
  have sorted : (discoverSegments files).Pairwise (· ≤ ·) := List.pairwise_mergeSort' _ _
  have permuted : (discoverSegments files).Perm indices :=
    (List.mergeSort_perm _ _).trans listed.symm
  exact permuted.eq_of_pairwise' sorted (ascending.imp Nat.le_of_lt)

theorem mem_discoverSegments {files : Files} {index : Nat} :
    index ∈ discoverSegments files <-> index ∈ files := by
  rw [discoverSegments, List.mem_mergeSort, AList.mem_keys]

theorem discoverSegments_ascending (files : Files) :
    (discoverSegments files).Pairwise (· < ·) := by
  have sorted : (discoverSegments files).Pairwise (· ≤ ·) := List.pairwise_mergeSort' _ _
  have distinct : (discoverSegments files).Nodup :=
    (List.mergeSort_perm _ _).nodup_iff.mpr files.keys_nodup
  exact (sorted.and distinct).imp (fun both => Nat.lt_of_le_of_ne both.1 both.2)

/-- Writing to a listed segment does not change the listing. -/
theorem discoverSegments_insert_listed {files : Files} {index : Nat} (listed : index ∈ files)
    (bytes : List UInt8) : discoverSegments (files.insert index bytes) = discoverSegments files := by
  apply discoverSegments_eq (discoverSegments_ascending files)
  rw [AList.keys_insert]
  exact (List.mergeSort_perm _ _).trans (List.perm_cons_erase (AList.mem_keys.mp listed))

/-- A new segment with a larger index comes last in the listing. -/
theorem discoverSegments_insert_new {files : Files} {index : Nat}
    (larger : forall other, other ∈ files -> other < index) (bytes : List UInt8) :
    discoverSegments (files.insert index bytes) = discoverSegments files ++ [index] := by
  have absent : index ∉ files.keys := by
    intro member
    exact Nat.lt_irrefl index (larger index (AList.mem_keys.mpr member))
  apply discoverSegments_eq
  · apply List.pairwise_append.mpr
    refine ⟨discoverSegments_ascending files, List.pairwise_singleton _ _, ?_⟩
    intro other listed last same
    rw [List.mem_singleton.mp same]
    exact larger other (mem_discoverSegments.mp listed)
  · rw [AList.keys_insert, List.erase_of_not_mem absent]
    exact (List.perm_append_singleton index _).trans (List.Perm.cons _ (List.mergeSort_perm _ _))

@[simp] theorem read_insert (files : Files) (index : Nat) (bytes : List UInt8) :
    read (files.insert index bytes) index = bytes := by
  rw [read, AList.lookup_insert]
  rfl

theorem read_insert_ne {files : Files} {index other : Nat} (different : other ≠ index)
    (bytes : List UInt8) : read (files.insert index bytes) other = read files other := by
  rw [read, AList.lookup_insert_ne different]
  rfl

end WalDir

/-! ## What a directory holds -/

/-- What is left of a record whose write was cut short. -/
def TornTail (P : Platform) (tail : List UInt8) : Prop :=
  Exists fun record : NbfRecord =>
    record.Fits ∧ record.documentId.Built ∧ tail <+: record.frame P ∧ tail ≠ record.frame P

theorem tornTail_take {P : Platform} {record : NbfRecord} (fits : record.Fits)
    (built : record.documentId.Built) {count : Nat} (short : count < (record.frame P).length) :
    TornTail P ((record.frame P).take count) := by
  refine ⟨record, fits, built, List.take_prefix _ _, ?_⟩
  intro same
  have lengths := congrArg List.length same
  rw [List.length_take, Nat.min_eq_left (Nat.le_of_lt short)] at lengths
  exact Nat.ne_of_lt short lengths

/-- A segment: its index, its records, and the bytes behind them. -/
structure Segment where
  index : Nat
  records : List NbfRecord
  tail : List UInt8

namespace Segment

def bytes (P : Platform) (segment : Segment) : List UInt8 :=
  frames P segment.records ++ segment.tail

/-- The segment after recovery: tails shorter than the magic bytes stay. -/
def repaired (segment : Segment) : Segment :=
  { segment with tail := if segment.tail.length < 4 then segment.tail else [] }

end Segment

/-- Segments in ascending order. -/
abbrev Layout := List Segment

/-- The records of a layout in log order. -/
def Layout.records (layout : Layout) : List NbfRecord :=
  layout.flatMap Segment.records

theorem Layout.records_append (left right : Layout) :
    Layout.records (left ++ right) = Layout.records left ++ Layout.records right :=
  List.flatMap_append

theorem Layout.records_singleton (segment : Segment) :
    Layout.records [segment] = segment.records := by
  simp [Layout.records]

theorem NbfRecord.frame_length_pos (P : Platform) (record : NbfRecord) :
    0 < (record.frame P).length := by
  rw [NbfRecord.frame_eq]
  simp only [nbfMagic, List.length_append, List.length_cons]
  omega

/-- The directory consists of the segments of the layout. -/
structure Holds (P : Platform) (files : Files) (layout : Layout) : Prop where
  listed : WalDir.discoverSegments files = layout.map Segment.index
  contents : forall segment, segment ∈ layout -> WalDir.read files segment.index = segment.bytes P

/-- Two directories of one layout have the same bytes. -/
theorem Holds.read_eq {P : Platform} {left right : Files} {layout : Layout}
    (first : Holds P left layout) (second : Holds P right layout) (index : Nat) :
    WalDir.read left index = WalDir.read right index := by
  have unlisted : forall {files : Files}, Holds P files layout -> index ∉ layout.map Segment.index ->
      WalDir.read files index = [] := by
    intro files holds absent
    rw [← holds.listed, WalDir.mem_discoverSegments] at absent
    rw [WalDir.read, AList.lookup_eq_none.mpr absent]
    rfl
  by_cases listed : index ∈ layout.map Segment.index
  · rcases List.mem_map.mp listed with ⟨segment, member, rfl⟩
    rw [first.contents segment member, second.contents segment member]
  · rw [unlisted first listed, unlisted second listed]

/-- The segments hold records the program can have logged, and torn tails. -/
structure Sound (P : Platform) (layout : Layout) : Prop where
  valid : AllValid P layout.records
  torn : forall segment, segment ∈ layout -> TornTail P segment.tail

/-- The empty tail is the torn tail of any record; one that fits exists. -/
theorem tornTail_nil (P : Platform) : TornTail P [] := by
  refine ⟨⟨0, .delete, 0, none, 0, "", "", DocumentId.generate (Vector.replicate 16 0), []⟩,
    ⟨?_, ?_, ?_, ?_⟩, DocumentId.Built.generate _, List.nil_prefix, ?_⟩
  · decide
  · decide
  · decide +kernel
  · decide
  · rw [NbfRecord.frame_eq]
    exact List.cons_ne_nil _ _ ∘ Eq.symm

/-! ## The effect of recovery -/

theorem Layout.records_repaired (layout : Layout) :
    Layout.records (layout.map Segment.repaired) = layout.records := by
  rw [Layout.records, List.flatMap_map]
  rfl

/-- A repair keeps the records and leaves torn tails, if any. -/
theorem Sound.repaired {P : Platform} {layout : Layout} (sound : Sound P layout) :
    Sound P (layout.map Segment.repaired) := by
  constructor
  · rw [Layout.records_repaired]
    exact sound.valid
  · intro segment member
    rcases List.mem_map.mp member with ⟨original, isOriginal, rfl⟩
    change TornTail P (if original.tail.length < 4 then original.tail else [])
    split
    · exact sound.torn original isOriginal
    · exact tornTail_nil P

namespace RecoveryManager

/-- A record is replayed in the same way whatever the number of torn tails. -/
theorem replayRecord_torn (P : Platform) (state : RecoveredState) (record : NbfRecord)
    (count : Nat) :
    replayRecord P { state with tornTailsTruncated := count } record =
      (replayRecord P state record).map (fun next => { next with tornTailsTruncated := count }) := by
  unfold replayRecord applyRecordToState
  by_cases larger : state.maxSequence < record.sequence
  · simp only [if_pos larger]
    cases record.recordType <;> cases record.documentFromPayload P <;> rfl
  · simp only [if_neg larger]
    cases record.recordType <;> cases record.documentFromPayload P <;> rfl

theorem replayFrom_torn {P : Platform} {state next : RecoveredState} {records : List NbfRecord}
    (replayed : replayFrom P state records = .ok next) (count : Nat) :
    replayFrom P { state with tornTailsTruncated := count } records =
      .ok { next with tornTailsTruncated := count } := by
  induction records generalizing state with
  | nil =>
      cases replayed
      rfl
  | cons record rest ih =>
      cases first : replayRecord P state record with
      | error failure =>
          rw [replayFrom, List.foldlM_cons, first] at replayed
          cases replayed
      | ok middle =>
          rw [replayFrom_cons first] at replayed
          have changed := replayRecord_torn P state record count
          rw [first] at changed
          exact (replayFrom_cons changed).trans (ih replayed)

theorem frames_length_pos (P : Platform) (record : NbfRecord) (rest : List NbfRecord) :
    0 < (frames P (record :: rest)).length := by
  have positive := record.frame_length_pos P
  rw [frames, List.flatMap_cons, List.length_append]
  omega

/-- The scan of one segment: the records are replayed, and a tail that reaches
behind the magic bytes is cut off. -/
theorem recoverSegment_bytes {P : Platform} {path : String} {segment : Segment}
    (valid : AllValid P segment.records) (torn : TornTail P segment.tail)
    {state next : RecoveredState} (replayed : replayFrom P state segment.records = .ok next) :
    recoverSegment P path (segment.bytes P) state =
      if segment.tail.length < 4 then .ok (none, next)
      else
        .ok (some (frames P segment.records).length,
          { next with tornTailsTruncated := next.tornTailsTruncated + 1 }) := by
  unfold recoverSegment
  split
  · rename_i empty
    rw [Segment.bytes, List.length_append] at empty
    have noTail : segment.tail.length < 4 := by omega
    rw [if_pos noTail]
    cases same : segment.records with
    | nil =>
        rw [same] at replayed
        cases replayed
        rfl
    | cons record rest =>
        have nonempty := frames_length_pos P record rest
        rw [same] at empty
        omega
  · rw [Segment.bytes, recoverLoop_frames valid replayed]
    split
    · rename_i short
      exact recoverLoop_short short next
    · rename_i long
      rcases torn with ⟨record, fits, built, isFront, different⟩
      rcases NbfRecord.decode_cut P fits built isFront different (Nat.le_of_not_lt long) with
        ⟨failure, failed, isTorn⟩
      rw [recoverLoop_torn failed isTorn, List.length_append, Nat.add_sub_cancel]

/-- Recovery passes over whole segments without touching a file. -/
theorem recoverSegments_whole {P : Platform} {path : String} {layout : Layout} {files : Files}
    (valid : AllValid P layout.records)
    (noTail : forall segment, segment ∈ layout -> segment.tail = [])
    (contents : forall segment, segment ∈ layout ->
      WalDir.read files segment.index = segment.bytes P)
    {state next : RecoveredState} (replayed : replayFrom P state layout.records = .ok next)
    (further : List Nat) :
    recoverSegments P path (layout.map Segment.index ++ further) files state =
      recoverSegments P path further files next := by
  induction layout generalizing state with
  | nil =>
      cases replayed
      rfl
  | cons segment rest ih =>
      have recordsEq : Layout.records (segment :: rest) = segment.records ++ Layout.records rest := rfl
      rw [recordsEq] at valid replayed
      have firstValid : AllValid P segment.records :=
        fun record member => valid record (List.mem_append_left _ member)
      have restValid : AllValid P (Layout.records rest) :=
        fun record member => valid record (List.mem_append_right _ member)
      have clean := noTail segment List.mem_cons_self
      have torn : TornTail P segment.tail := by
        rw [clean]
        exact tornTail_nil P
      have short : segment.tail.length < 4 := by
        rw [clean]
        decide
      rcases replayFrom_ok firstValid state with ⟨middle, first, _⟩
      rw [replayFrom_append first] at replayed
      rw [List.map_cons, List.cons_append, recoverSegments, contents segment List.mem_cons_self]
      simp only [recoverSegment_bytes firstValid torn first, if_pos short]
      exact ih restValid (fun other member => noTail other (List.mem_cons_of_mem _ member))
        (fun other member => contents other (List.mem_cons_of_mem _ member)) replayed

/-- The files after recovery has passed the segments of a layout. -/
structure Repairs (P : Platform) (layout : Layout) (files repaired : Files) : Prop where
  listed : WalDir.discoverSegments repaired = WalDir.discoverSegments files
  contents : forall segment, segment ∈ layout ->
    WalDir.read repaired segment.index = segment.repaired.bytes P
  others : forall index, index ∉ layout.map Segment.index ->
    WalDir.read repaired index = WalDir.read files index

/-- One segment: recovery answers the replay of its records and repairs the file. -/
theorem recoverSegments_cons {P : Platform} {path : String} {segment : Segment} {files : Files}
    (valid : AllValid P segment.records) (torn : TornTail P segment.tail)
    (listed : segment.index ∈ files)
    (contents : WalDir.read files segment.index = segment.bytes P)
    {state next : RecoveredState} (replayed : replayFrom P state segment.records = .ok next) :
    Exists fun repaired => Exists fun count =>
      Repairs P [segment] files repaired ∧
        forall further, recoverSegments P path (segment.index :: further) files state =
          recoverSegments P path further repaired { next with tornTailsTruncated := count } := by
  have scanned := @recoverSegment_bytes P (WalDir.segmentPath path segment.index) segment valid torn
    state next replayed
  by_cases short : segment.tail.length < 4
  · rw [if_pos short] at scanned
    refine ⟨files, next.tornTailsTruncated, ⟨rfl, ?_, fun _ _ => rfl⟩, ?_⟩
    · intro other member
      rw [List.mem_singleton.mp member, contents]
      simp only [Segment.bytes, Segment.repaired, if_pos short]
    · intro further
      rw [recoverSegments, contents]
      simp only [scanned]
  · rw [if_neg short] at scanned
    refine ⟨files.insert segment.index (frames P segment.records),
      next.tornTailsTruncated + 1, ⟨?_, ?_, ?_⟩, ?_⟩
    · exact WalDir.discoverSegments_insert_listed listed _
    · intro other member
      rw [List.mem_singleton.mp member, WalDir.read_insert]
      simp only [Segment.bytes, Segment.repaired, if_neg short, List.append_nil]
    · intro index absent
      exact WalDir.read_insert_ne (fun same => absent (by rw [same]; exact List.mem_singleton_self _)) _
    · intro further
      rw [recoverSegments, contents]
      simp only [scanned]
      rw [Segment.bytes, List.take_left' rfl]

/-- Recovery over the segments of a layout, whatever segments follow. -/
theorem recoverSegments_layout {P : Platform} {path : String} {layout : Layout}
    (sound : Sound P layout) (distinct : (layout.map Segment.index).Nodup) {files : Files}
    (listed : forall segment, segment ∈ layout -> segment.index ∈ files)
    (contents : forall segment, segment ∈ layout ->
      WalDir.read files segment.index = segment.bytes P)
    {state next : RecoveredState} (replayed : replayFrom P state layout.records = .ok next) :
    Exists fun repaired => Exists fun count =>
      Repairs P layout files repaired ∧
        forall further, recoverSegments P path (layout.map Segment.index ++ further) files state =
          recoverSegments P path further repaired { next with tornTailsTruncated := count } := by
  induction layout generalizing files state next with
  | nil =>
      cases replayed
      refine ⟨files, _, ⟨rfl, ?_, fun _ _ => rfl⟩, fun _ => rfl⟩
      intro segment member
      cases member
  | cons segment rest ih =>
      have recordsEq : Layout.records (segment :: rest) = segment.records ++ Layout.records rest := rfl
      have valid := sound.valid
      rw [recordsEq] at valid replayed
      have firstValid : AllValid P segment.records :=
        fun record member => valid record (List.mem_append_left _ member)
      have restSound : Sound P rest :=
        ⟨fun record member => valid record (List.mem_append_right _ member),
          fun other member => sound.torn other (List.mem_cons_of_mem _ member)⟩
      have notAgain : segment.index ∉ rest.map Segment.index := (List.nodup_cons.mp distinct).1
      rcases replayFrom_ok firstValid state with ⟨middle, first, _⟩
      rw [replayFrom_append first] at replayed
      rcases @recoverSegments_cons P path segment files firstValid
          (sound.torn segment List.mem_cons_self) (listed segment List.mem_cons_self)
          (contents segment List.mem_cons_self) state middle first with
        ⟨repaired, count, headRepairs, headRun⟩
      have unchanged : forall other, other ∈ rest ->
          WalDir.read repaired other.index = WalDir.read files other.index := by
        intro other member
        apply headRepairs.others
        intro same
        apply notAgain
        rw [← List.mem_singleton.mp same]
        exact List.mem_map_of_mem member
      rcases ih restSound (List.nodup_cons.mp distinct).2
          (fun other member => by
            rw [← WalDir.mem_discoverSegments, headRepairs.listed, WalDir.mem_discoverSegments]
            exact listed other (List.mem_cons_of_mem _ member))
          (fun other member => by
            rw [unchanged other member]
            exact contents other (List.mem_cons_of_mem _ member))
          (replayFrom_torn replayed count) with
        ⟨final, total, restRepairs, restRun⟩
      refine ⟨final, total, ⟨restRepairs.listed.trans headRepairs.listed, ?_, ?_⟩, ?_⟩
      · intro other member
        rcases List.mem_cons.mp member with rfl | later
        · rw [restRepairs.others _ notAgain]
          exact headRepairs.contents _ (List.mem_singleton_self _)
        · exact restRepairs.contents other later
      · intro index absent
        rw [List.map_cons, List.mem_cons, not_or] at absent
        rw [restRepairs.others index absent.2]
        exact headRepairs.others index (fun same => absent.1 (List.mem_singleton.mp same))
      · intro further
        rw [List.map_cons, List.cons_append, headRun, restRun]

theorem Repairs.holds {P : Platform} {layout : Layout} {files repaired : Files}
    (repairs : Repairs P layout files repaired) (holds : Holds P files layout) :
    Holds P repaired (layout.map Segment.repaired) := by
  constructor
  · rw [repairs.listed, holds.listed, List.map_map]
    rfl
  · intro segment member
    rcases List.mem_map.mp member with ⟨original, isOriginal, rfl⟩
    exact repairs.contents original isOriginal

/-- Recovery of a directory of valid records with torn tails succeeds, replays
the records in log order, and repairs the files. -/
theorem recover_holds {P : Platform} {dir : WalDir} {layout : Layout}
    (holds : Holds P dir.files layout) (sound : Sound P layout) :
    Exists fun files => Exists fun next => Exists fun count =>
      replay P layout.records = .ok next ∧
        recover P dir = ({ dir with files }, .ok { next with tornTailsTruncated := count }) ∧
        Holds P files (layout.map Segment.repaired) := by
  have ascending := WalDir.discoverSegments_ascending dir.files
  rw [holds.listed] at ascending
  have distinct : (layout.map Segment.index).Nodup := ascending.imp Nat.ne_of_lt
  have listed : forall segment, segment ∈ layout -> segment.index ∈ dir.files := by
    intro segment member
    rw [← WalDir.mem_discoverSegments, holds.listed]
    exact List.mem_map_of_mem member
  rcases replayFrom_ok sound.valid RecoveredState.new with ⟨next, replayed, _⟩
  rcases @recoverSegments_layout P dir.path layout sound distinct dir.files listed holds.contents
      _ _ replayed with ⟨files, count, repairs, run⟩
  refine ⟨files, next, count, replayed, ?_, repairs.holds holds⟩
  have ran := run []
  rw [List.append_nil, recoverSegments] at ran
  rw [recover, holds.listed, ran]

end RecoveryManager
end Storage
end NovaDb
