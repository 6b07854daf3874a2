import NovaDb.Storage.AppendRun
import NovaDb.Storage.ReferencePlatform

namespace NovaDb
namespace Storage

open Core Foundation

/-!
# Runs of appends, and recovery after a crash

A run is a list of append calls, each with what happens outside the program
during it.  The records of a run are those whose append returned `Ok`.  A crash
cuts a further call anywhere; recovery then finds the records of the run, and the
record in flight exactly when all of it is on disk.
-/

/-! ## Mutations of the program -/

/-- A mutation that replay can apply: an id from one of the constructors, and where
the record type carries a document, a payload that the JSON library decodes. -/
structure Mutation.Legal (P : Platform) (mutation : Mutation) : Prop where
  built : mutation.documentId.Built
  payload : mutation.recordType = .insert ∨ mutation.recordType = .update ->
    Exists fun found => P.fromSlice mutation.payload = .ok found

theorem Mutation.Legal.valid {P : Platform} {mutation : Mutation} (legal : mutation.Legal P)
    {sequence now : UInt64} (fits : (mutation.record sequence now).Fits) :
    (mutation.record sequence now).Valid P := by
  refine ⟨fits, legal.built, ?_⟩
  intro carries
  rcases legal.payload carries with ⟨found, accepted⟩
  refine ⟨found, ?_⟩
  change (P.fromSlice mutation.payload).mapError NovaError.storage = .ok found
  rw [accepted]
  rfl

/-- A mutation whose record, once it fits, is one that replay accepts. -/
def Mutation.Loggable (P : Platform) (mutation : Mutation) : Prop :=
  forall sequence now, (mutation.record sequence now).Fits -> (mutation.record sequence now).Valid P

theorem Mutation.Legal.loggable {P : Platform} {mutation : Mutation} (legal : mutation.Legal P) :
    mutation.Loggable P :=
  fun _ _ fits => legal.valid fits

/-! ## Sample calls -/

def quietEnvironment : Environment := ⟨0, .unset, none, false, false, false, ""⟩

theorem quiet_quietEnvironment : quietEnvironment.Quiet := ⟨rfl, rfl, rfl, rfl, rfl⟩

def sampleInsert : Mutation :=
  ⟨.insert, "default", "users", sampleDocument.id, samplePayload, none⟩

def sampleDelete : Mutation :=
  ⟨.delete, "default", "users", sampleDocument.id, [], none⟩

theorem legal_sampleInsert : sampleInsert.Legal samplePlatform :=
  ⟨built_sample, fun _ => ⟨sampleDocument, fromSlice_sample⟩⟩

theorem legal_sampleDelete : sampleDelete.Legal samplePlatform := by
  refine ⟨built_sample, ?_⟩
  intro carries
  rcases carries with isInsert | isUpdate
  · cases isInsert
  · cases isUpdate

/-! ## Sequences of calls -/

/-- One append call: what happens outside the program, and its arguments. -/
abbrev Call := Environment × Mutation

namespace WriteAheadLog

/-- Append calls in turn: the log after them, and the records whose append
returned `Ok`. -/
def appendAll (P : Platform) : WriteAheadLog -> List Call -> WriteAheadLog × List NbfRecord
  | wal, [] => (wal, [])
  | wal, (env, mutation) :: rest =>
      match append P env wal mutation with
      | (next, .ok sequence) =>
          let (final, records) := appendAll P next rest
          (final, mutation.record sequence env.now :: records)
      | (next, .error _) => appendAll P next rest

/-- An open log in good order: nothing pending, and no torn tail in the way. -/
structure Ready (P : Platform) (wal : WriteAheadLog) (closed : Layout) (current : Segment) :
    Prop where
  opened : Opened P wal closed current
  pending : wal.buffer = []
  clean : current.tail = []
  sound : Sound P (closed ++ [current])

section Steps

variable {P : Platform} {wal : WriteAheadLog} {closed : Layout} {current : Segment}

theorem Ready.clear (ready : Ready P wal closed current) (env : Environment)
    (mutation : Mutation) : Clear P env wal mutation :=
  Or.inl (ready.opened.length_of_clean ready.clean)

/-- A valid record behind the records of the target segment. -/
theorem sound_appended {closed' : Layout} {current' : Segment} {record : NbfRecord}
    (sound : Sound P (closed ++ [current])) (target : Target closed current closed' current')
    (valid : record.Valid P) :
    Sound P (closed' ++ [{ current' with records := current'.records ++ [record] }]) ∧
      Layout.records (closed' ++ [{ current' with records := current'.records ++ [record] }]) =
        Layout.records (closed ++ [current]) ++ [record] := by
  have recordsEq :
      Layout.records (closed' ++ [{ current' with records := current'.records ++ [record] }]) =
        Layout.records (closed ++ [current]) ++ [record] := by
    rw [← target.records]
    simp only [Layout.records_append, Layout.records_singleton, List.append_assoc]
  refine ⟨⟨?_, ?_⟩, recordsEq⟩
  · rw [recordsEq]
    refine sound.valid.append ?_
    intro other member
    rw [List.mem_singleton.mp member]
    exact valid
  · intro segment member
    rcases List.mem_append.mp member with inClosed | isCurrent
    · exact target.torn sound.torn segment inClosed
    · rw [List.mem_singleton.mp isCurrent]
      change TornTail P current'.tail
      rw [target.clean]
      exact tornTail_nil P

/-- A front part of a record behind the records of the target segment. -/
theorem sound_torn {closed' : Layout} {current' : Segment} {tail : List UInt8}
    (sound : Sound P (closed ++ [current])) (target : Target closed current closed' current')
    (torn : TornTail P tail) :
    Sound P (closed' ++ [{ current' with tail := tail }]) ∧
      Layout.records (closed' ++ [{ current' with tail := tail }]) =
        Layout.records (closed ++ [current]) := by
  have recordsEq : Layout.records (closed' ++ [{ current' with tail := tail }]) =
      Layout.records (closed ++ [current]) := by
    rw [← target.records]
    simp only [Layout.records_append, Layout.records_singleton]
  refine ⟨⟨?_, ?_⟩, recordsEq⟩
  · rw [recordsEq]
    exact sound.valid
  · intro segment member
    rcases List.mem_append.mp member with inClosed | isCurrent
    · exact target.torn sound.torn segment inClosed
    · rw [List.mem_singleton.mp isCurrent]
      exact torn

/-- One call on a log in good order, nothing failing outside: a record is
logged, or the call ends in an error with the segments as they were. -/
theorem append_quiet {env : Environment} (quiet : env.Quiet) {mutation : Mutation}
    (loggable : mutation.Loggable P) (ready : Ready P wal closed current) :
    (Exists fun next => Exists fun fault =>
      append P env wal mutation = (next, .error fault) ∧ Ready P next closed current) ∨
    (Exists fun next => Exists fun closed' => Exists fun current' =>
      append P env wal mutation = (next, .ok (wal.currentSequence + 1)) ∧
        Ready P next closed' current' ∧
        Layout.records (closed' ++ [current']) = Layout.records (closed ++ [current]) ++
          [mutation.record (wal.currentSequence + 1) env.now]) := by
  rcases append_opened env mutation ready.opened ready.pending (ready.clear env mutation) with
    ⟨_, next, fault, ends, empty, opened⟩ |
    ⟨_, fits, next, closed', current', writes, empty, target, opened⟩
  · exact Or.inl ⟨next, fault, ends, opened, empty, ready.clean, ready.sound⟩
  · right
    have accepted := @writeRecord_accepted env env.room next (wal.currentSequence + 1)
      ((mutation.record (wal.currentSequence + 1) env.now).frame P) opened.always opened.healthy
      empty quiet.fault quiet.syncFails (fun left limited => by
        rw [quiet.room] at limited
        cases limited)
    rcases sound_appended ready.sound target (loggable _ _ fits) with ⟨sound, recordsEq⟩
    exact ⟨_, closed', _, writes.trans accepted,
      ⟨opened.appended target.clean _, rfl, target.clean, sound⟩, recordsEq⟩

/-- A run of such calls keeps the log in good order and logs its records. -/
theorem appendAll_quiet {calls : List Call}
    (quiet : forall call, call ∈ calls -> call.1.Quiet)
    (legal : forall call, call ∈ calls -> call.2.Legal P) (ready : Ready P wal closed current) :
    Exists fun closed' => Exists fun current' =>
      Ready P (appendAll P wal calls).1 closed' current' ∧
        Layout.records (closed' ++ [current']) =
          Layout.records (closed ++ [current]) ++ (appendAll P wal calls).2 := by
  induction calls generalizing wal closed current with
  | nil => exact ⟨closed, current, ready, (List.append_nil _).symm⟩
  | cons call rest ih =>
      rcases call with ⟨env, mutation⟩
      have restQuiet := fun other member => quiet other (List.mem_cons_of_mem _ member)
      have restLegal := fun other member => legal other (List.mem_cons_of_mem _ member)
      have headLegal : mutation.Legal P := legal _ List.mem_cons_self
      rcases append_quiet (quiet _ List.mem_cons_self) headLegal.loggable ready with
        ⟨next, fault, ends, kept⟩ | ⟨next, closed', current', logs, kept, recordsEq⟩
      · simp only [appendAll, ends]
        exact ih restQuiet restLegal kept
      · simp only [appendAll, logs]
        rcases ih restQuiet restLegal kept with ⟨closed'', current'', final, finalRecords⟩
        refine ⟨closed'', current'', final, ?_⟩
        rw [finalRecords, recordsEq, List.append_assoc, List.singleton_append]

end Steps

end WriteAheadLog

/-! ## Opening a log -/

/-- A directory of whole records the program can have logged, segment by segment as the
layout has it, and no bytes behind the last record of a segment. -/
structure Intact (P : Platform) (files : Files) (layout : Layout) : Prop where
  holds : Holds P files layout
  valid : AllValid P layout.records
  noTail : forall segment, segment ∈ layout -> segment.tail = []

theorem Intact.sound {P : Platform} {files : Files} {layout : Layout}
    (intact : Intact P files layout) : Sound P layout := by
  refine ⟨intact.valid, ?_⟩
  intro segment member
  rw [intact.noTail segment member]
  exact tornTail_nil P

theorem intact_empty (P : Platform) : Intact P ∅ [] := by
  refine ⟨⟨by decide +kernel, ?_⟩, ?_, ?_⟩
  · intro segment member
    cases member
  · intro record member
    cases member
  · intro segment member
    cases member

namespace WriteAheadLog

/-- A log opened on an empty directory starts a first segment. -/
theorem openDir_empty {P : Platform} {dir : WalDir} (intact : Intact P dir.files [])
    (limit : Nat) : Ready P (openDir dir .always limit) [] ⟨0, [], []⟩ := by
  have none : WalDir.discoverSegments dir.files = [] := intact.holds.listed
  have absent : forall index, index ∉ dir.files := by
    intro index member
    rw [← WalDir.mem_discoverSegments, none] at member
    cases member
  have created : WalDir.createIfAbsent dir.files 0 = (AList.insert 0 [] dir.files : Files) :=
    if_neg (absent 0)
  have opens : openDir dir .always limit =
      { dir := { dir with files := AList.insert 0 [] dir.files }
        currentSegmentIndex := 0
        currentSequence := 0
        segmentSizeLimit := limit
        syncMode := .always
        activeSegment := 0
        buffer := []
        currentSegmentSize := 0
        poisoned := false } := by
    simp only [openDir, none, List.getLast?_nil, Option.getD_none, created, WalDir.read_insert,
      List.length_nil]
  rw [opens]
  refine ⟨⟨rfl, rfl, ⟨?_, ?_⟩, rfl, Nat.le_refl _, rfl⟩, rfl, rfl, ⟨?_, ?_⟩⟩
  · rw [WalDir.discoverSegments_insert_new (fun other member => absurd member (absent other)), none]
    rfl
  · intro segment member
    rw [List.mem_singleton.mp member, WalDir.read_insert]
    rfl
  · intro record member
    cases member
  · intro segment member
    rw [List.mem_singleton.mp member]
    exact tornTail_nil P

/-- A log opened on a directory with segments goes on in the last one. -/
theorem openDir_current {P : Platform} {dir : WalDir} {closed : Layout} {current : Segment}
    (holds : Holds P dir.files (closed ++ [current])) (clean : current.tail = []) (limit : Nat) :
    Opened P (openDir dir .always limit) closed current ∧
      (openDir dir .always limit).buffer = [] := by
  have isLast : current ∈ closed ++ [current] :=
    List.mem_append_right _ (List.mem_singleton_self _)
  have lastListed : (WalDir.discoverSegments dir.files).getLast?.getD 0 = current.index := by
    rw [holds.listed, List.map_append]
    simp
  have listed : current.index ∈ dir.files := by
    rw [← WalDir.mem_discoverSegments, holds.listed]
    exact List.mem_map_of_mem isLast
  have contents : WalDir.read dir.files current.index = frames P current.records := by
    rw [holds.contents current isLast, Segment.bytes, clean, List.append_nil]
  have opens : openDir dir .always limit =
      { dir := dir
        currentSegmentIndex := current.index
        currentSequence := 0
        segmentSizeLimit := limit
        syncMode := .always
        activeSegment := current.index
        buffer := []
        currentSegmentSize := (frames P current.records).length
        poisoned := false } := by
    simp only [openDir, lastListed, WalDir.createIfAbsent, if_pos listed, contents]
  rw [opens]
  exact ⟨⟨rfl, rfl, holds, rfl, Nat.le_refl _, rfl⟩, rfl⟩

theorem openDir_last {P : Platform} {dir : WalDir} {closed : Layout} {current : Segment}
    (holds : Holds P dir.files (closed ++ [current])) (sound : Sound P (closed ++ [current]))
    (clean : current.tail = []) (limit : Nat) :
    Ready P (openDir dir .always limit) closed current := by
  rcases openDir_current holds clean limit with ⟨opened, pending⟩
  exact ⟨opened, pending, clean, sound⟩

/-- A log opened on a directory of whole records is in good order. -/
theorem openDir_ready {P : Platform} {dir : WalDir} {layout : Layout}
    (intact : Intact P dir.files layout) (limit : Nat) :
    Exists fun closed => Exists fun current =>
      Ready P (openDir dir .always limit) closed current ∧
        Layout.records (closed ++ [current]) = layout.records := by
  rcases List.eq_nil_or_concat' layout with rfl | ⟨closed, current, rfl⟩
  · exact ⟨[], ⟨0, [], []⟩, openDir_empty intact limit, rfl⟩
  · have isLast : current ∈ closed ++ [current] :=
      List.mem_append_right _ (List.mem_singleton_self _)
    exact ⟨closed, current,
      openDir_last intact.holds intact.sound (intact.noTail current isLast) limit, rfl⟩

end WriteAheadLog

/-! ## Recovery after a crash -/

/-- Recovery of the directory succeeds and replays exactly these records in
order: it counts them, knows their largest sequence, and its collections are the
fold of the record application over them. -/
def Replays (P : Platform) (dir : WalDir) (records : List NbfRecord) : Prop :=
  Exists fun state =>
    (RecoveryManager.recover P dir).2 = .ok state ∧
      state.recordsReplayed = records.length ∧
      state.maxSequence.toNat = (records.map (fun record => record.sequence.toNat)).foldl max 0 ∧
      Exists fun folded =>
        RecoveryManager.applyAll P RecoveredState.new records = .ok folded ∧
          state.collections = folded.collections

theorem replays_of_holds {P : Platform} {dir : WalDir} {layout : Layout}
    (holds : Holds P dir.files layout) (sound : Sound P layout) : Replays P dir layout.records := by
  rcases RecoveryManager.recover_holds holds sound with ⟨files, next, count, replayed, recovers, _⟩
  rcases RecoveryManager.replayFrom_ok sound.valid RecoveredState.new with
    ⟨same, replayed', largest, counted, _⟩
  cases replayed.symm.trans replayed'
  rcases RecoveryManager.applyAll_collections replayed rfl with ⟨folded, applies, equal⟩
  refine ⟨_, congrArg Prod.snd recovers, ?_, largest, folded, applies, equal.symm⟩
  exact counted.trans (Nat.zero_add _)

/-- A call cut short by a crash: its environment and its mutation, and how many bytes of
its record reached the disk. -/
structure InFlight where
  env : Environment
  mutation : Mutation
  count : Nat

namespace WriteAheadLog

/-- The directory a crash leaves: the call in flight has come as far as the
device accepting `count` bytes of its record. -/
def crashImage (P : Platform) (wal : WriteAheadLog) : Option InFlight -> WalDir
  | none => wal.dir
  | some call => (append P { call.env with room := some call.count } wal call.mutation).1.dir

/-- The record in flight, when its whole encoding is on disk. -/
def wholeInFlight (P : Platform) (wal : WriteAheadLog) : Option InFlight -> List NbfRecord
  | none => []
  | some call =>
      match nextRecord P call.env wal call.mutation with
      | none => []
      | some record => if (record.frame P).length ≤ call.count then [record] else []

/-- What a crash leaves of a log in good order: its records, the record in flight
if that is whole, and otherwise a torn tail. -/
theorem crashImage_holds {P : Platform} {wal : WriteAheadLog}
    {closed : Layout} {current : Segment} (ready : Ready P wal closed current)
    {inFlight : Option InFlight}
    (quiet : forall call, call ∈ inFlight -> call.env.Quiet)
    (legal : forall call, call ∈ inFlight -> call.mutation.Legal P) :
    Exists fun layout =>
      Holds P (crashImage P wal inFlight).files layout ∧ Sound P layout ∧
        Layout.records layout =
          Layout.records (closed ++ [current]) ++ wholeInFlight P wal inFlight := by
  cases inFlight with
  | none => exact ⟨closed ++ [current], ready.opened.holds, ready.sound, (List.append_nil _).symm⟩
  | some call =>
      rcases call with ⟨env, mutation, count⟩
      have envQuiet : env.Quiet := quiet _ rfl
      have mutationLegal : mutation.Legal P := legal _ rfl
      rcases append_opened { env with room := some count } mutation ready.opened ready.pending
          (ready.clear _ mutation) with
        ⟨cause, next, fault, ends, _, opened⟩ |
        ⟨isNext, fits, next, closed', current', writes, empty, target, opened⟩
      · have noRecord : nextRecord P env wal mutation = none := by
          rcases cause with noRecord | unsynced | unopened
          · exact noRecord
          · exact absurd (envQuiet.rotateSyncFails.symm.trans unsynced) Bool.false_ne_true
          · exact absurd (envQuiet.openFails.symm.trans unopened) Bool.false_ne_true
        refine ⟨closed ++ [current], ?_, ready.sound, ?_⟩
        · simp only [crashImage, ends]
          exact opened.holds
        · simp only [wholeInFlight, noRecord, List.append_nil]
      · have known : nextRecord P env wal mutation =
            some (mutation.record (wal.currentSequence + 1) env.now) := isNext
        by_cases whole :
            ((mutation.record (wal.currentSequence + 1) env.now).frame P).length ≤ count
        · have accepted := @writeRecord_accepted { env with room := some count } (some count) next
            (wal.currentSequence + 1) _ opened.always opened.healthy empty envQuiet.fault
            envQuiet.syncFails (fun left limited => Option.some.inj limited ▸ whole)
          rcases sound_appended ready.sound target (mutationLegal.valid fits) with
            ⟨sound, recordsEq⟩
          refine ⟨_, ?_, sound, ?_⟩
          · simp only [crashImage, writes, accepted]
            exact (opened.appended target.clean _).holds
          · simp only [wholeInFlight, known, if_pos whole]
            exact recordsEq
        · have less := Nat.lt_of_not_le whole
          have notInjected : env.fault ≠ .partialWrite := by
            rw [envQuiet.fault]
            decide
          rcases @writeRecord_refused { env with room := some count } next (wal.currentSequence + 1)
              _ count opened.always opened.healthy empty notInjected less with
            ⟨buffer, failure, refused⟩
          have torn := tornTail_take fits mutationLegal.built less
          rcases sound_torn ready.sound target torn with ⟨sound, recordsEq⟩
          refine ⟨_, ?_, sound, ?_⟩
          · simp only [crashImage, writes, refused]
            exact (opened.torn target.clean _ buffer).holds
          · simp only [wholeInFlight, known, if_neg whole, List.append_nil]
            exact recordsEq

theorem Ready.setSequence {P : Platform} {wal : WriteAheadLog} {closed : Layout}
    {current : Segment} (ready : Ready P wal closed current) (sequence : UInt64) :
    Ready P (wal.setSequence sequence) closed current :=
  ⟨ready.opened.resequenced sequence, ready.pending, ready.clean, ready.sound⟩

/-- Crash durability.  After any run of calls on a log opened on whole records,
with any segment size limit, and a crash at any point of a further call, recovery
replays exactly the records that are wholly on disk.  The ids come from constructors,
the payloads of inserts and updates decode, and nothing fails but by the crash. -/
theorem recover_after_crash {P : Platform} {dir : WalDir}
    {layout : Layout} (intact : Intact P dir.files layout) (limit : Nat) (start : UInt64)
    {calls : List Call} (quiet : forall call, call ∈ calls -> call.1.Quiet)
    (legal : forall call, call ∈ calls -> call.2.Legal P) {inFlight : Option InFlight}
    (quietInFlight : forall call, call ∈ inFlight -> call.env.Quiet)
    (legalInFlight : forall call, call ∈ inFlight -> call.mutation.Legal P) :
    let run := appendAll P ((openDir dir .always limit).setSequence start) calls
    Replays P (crashImage P run.1 inFlight)
      (layout.records ++ run.2 ++ wholeInFlight P run.1 inFlight) := by
  intro run
  rcases openDir_ready intact limit with ⟨closed, current, ready, recordsEq⟩
  rcases appendAll_quiet quiet legal (ready.setSequence start) with
    ⟨closed', current', runReady, runRecords⟩
  rcases crashImage_holds runReady quietInFlight legalInFlight with
    ⟨crashed, holds, sound, crashedRecords⟩
  have replays := replays_of_holds holds sound
  rw [crashedRecords, runRecords, recordsEq] at replays
  exact replays

/-- The run of the sample calls on an empty directory; the first record is longer
than the limit, so each call rotates. -/
theorem recover_after_crash_sample :
    let run := appendAll samplePlatform ((openDir ⟨"wal", ∅⟩ .always 100).setSequence 0)
      [(quietEnvironment, sampleInsert), (quietEnvironment, sampleDelete)]
    let inFlight := some ⟨quietEnvironment, sampleInsert, 50⟩
    run.2.length = 2 ∧ wholeInFlight samplePlatform run.1 inFlight = [] ∧
      Replays samplePlatform (crashImage samplePlatform run.1 inFlight)
        (Layout.records [] ++ run.2 ++ wholeInFlight samplePlatform run.1 inFlight) := by
  refine ⟨by decide +kernel, by decide +kernel, ?_⟩
  refine recover_after_crash (intact_empty samplePlatform) 100 0 ?_ ?_ ?_ ?_
  · intro call member
    rcases List.mem_pair.mp member with rfl | rfl
    · exact quiet_quietEnvironment
    · exact quiet_quietEnvironment
  · intro call member
    rcases List.mem_pair.mp member with rfl | rfl
    · exact legal_sampleInsert
    · exact legal_sampleDelete
  · intro call member
    cases member
    exact quiet_quietEnvironment
  · intro call member
    cases member
    exact legal_sampleInsert

end WriteAheadLog
end Storage
end NovaDb
