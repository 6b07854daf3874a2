import NovaDb.Storage.Durability

namespace NovaDb
namespace Storage

open Core Foundation WriteAheadLog

/-!
# Logs that are written to again

Two ways lead to records behind the remains of a cut write.  A restart opens the
log recovery has repaired: recovery removes every torn tail except one of one to
three bytes, which the decoder takes for the end of the log.  And a process that
carries on after a failed append writes behind what the failed call left, unless
the next record goes to a fresh segment.
-/

/-! ## The log after a repair -/

/-- A repair leaves a usable log: recovery succeeds, every segment file is then
exactly the encodings of its records, and whatever is appended after reopening,
a second recovery replays the old records followed by the new ones. -/
structure RepairUsable (P : Platform) (dir : WalDir) (layout : Layout) : Prop where
  recovers : Replays P dir layout.records
  listed : WalDir.discoverSegments (RecoveryManager.recover P dir).1.files =
    layout.map Segment.index
  contents : forall segment, segment ∈ layout ->
    WalDir.read (RecoveryManager.recover P dir).1.files segment.index = frames P segment.records
  appends : forall (limit : Nat) (start : UInt64) (calls : List Call),
    (forall call, call ∈ calls -> call.1.Quiet) -> (forall call, call ∈ calls -> call.2.Legal P) ->
      let reopened := (openDir (RecoveryManager.recover P dir).1 .always limit).setSequence start
      Replays P (appendAll P reopened calls).1.dir
        (layout.records ++ (appendAll P reopened calls).2)

/-- Recovery followed by appends, when the repair has removed every tail. -/
theorem repairUsable_of_repaired {P : Platform} {dir : WalDir} {layout : Layout}
    (holds : Holds P dir.files layout) (sound : Sound P layout)
    (removed : forall segment, segment ∈ layout -> segment.repaired.tail = []) :
    RepairUsable P dir layout := by
  rcases RecoveryManager.recover_holds holds sound with
    ⟨files, next, count, _, recovers, repaired⟩
  have filesEq : (RecoveryManager.recover P dir).1 = { dir with files } := by rw [recovers]
  have intact : Intact P files (layout.map Segment.repaired) := by
    refine ⟨repaired, ?_, ?_⟩
    · rw [Layout.records_repaired]
      exact sound.valid
    · intro segment member
      rcases List.mem_map.mp member with ⟨original, isOriginal, rfl⟩
      exact removed original isOriginal
  constructor
  · exact replays_of_holds holds sound
  · rw [filesEq]
    change WalDir.discoverSegments files = _
    rw [repaired.listed, List.map_map]
    rfl
  · intro segment member
    rw [filesEq]
    change WalDir.read files segment.repaired.index = _
    rw [repaired.contents _ (List.mem_map_of_mem member), Segment.bytes, removed segment member,
      List.append_nil]
    rfl
  · intro limit start calls quiet legal reopened
    have reopenedEq : reopened = (openDir { dir with files } .always limit).setSequence start := by
      rw [← filesEq]
    rcases @openDir_ready P { dir with files } _ intact limit with
      ⟨closed, current, ready, recordsEq⟩
    rcases appendAll_quiet quiet legal (ready.setSequence start) with
      ⟨closed', current', runReady, runRecords⟩
    have replays := replays_of_holds runReady.opened.holds runReady.sound
    rw [runRecords, recordsEq, Layout.records_repaired] at replays
    rw [reopenedEq]
    exact replays

/-- A log with a torn tail behind its last record is usable after recovery exactly
when the tail is empty or reaches behind the magic bytes.  The records in front of the
tail are valid, the tail is a proper front part of one, and the appends after reopening
are legal and meet no failure. -/
theorem repairUsable_iff {P : Platform} {dir : WalDir} {closed : Layout} {current : Segment}
    (holds : Holds P dir.files (closed ++ [current]))
    (valid : AllValid P (Layout.records (closed ++ [current])))
    (noTail : forall segment, segment ∈ closed -> segment.tail = [])
    (torn : TornTail P current.tail) :
    RepairUsable P dir (closed ++ [current]) <->
      current.tail.length = 0 ∨ 4 ≤ current.tail.length := by
  have sound : Sound P (closed ++ [current]) := by
    refine ⟨valid, ?_⟩
    intro segment member
    rcases List.mem_append.mp member with inClosed | isCurrent
    · rw [noTail segment inClosed]
      exact tornTail_nil P
    · rw [List.mem_singleton.mp isCurrent]
      exact torn
  have isLast : current ∈ closed ++ [current] :=
    List.mem_append_right _ (List.mem_singleton_self _)
  constructor
  · intro usable
    by_cases short : current.tail.length < 4
    · left
      rcases RecoveryManager.recover_holds holds sound with ⟨files, next, count, _, recovers, repaired⟩
      have kept : WalDir.read files current.index = frames P current.records ++ current.tail := by
        simpa only [Segment.bytes, Segment.repaired, if_pos short] using
          repaired.contents _ (List.mem_map_of_mem isLast)
      have exactly := usable.contents current isLast
      rw [recovers] at exactly
      have lengths := congrArg List.length (exactly.symm.trans kept)
      rw [List.length_append] at lengths
      omega
    · exact Or.inr (Nat.le_of_not_lt short)
  · intro condition
    apply repairUsable_of_repaired holds sound
    intro segment member
    rcases List.mem_append.mp member with inClosed | isCurrent
    · simp only [Segment.repaired, noTail segment inClosed, ite_self]
    · rw [List.mem_singleton.mp isCurrent]
      rcases condition with empty | long
      · simp only [Segment.repaired, List.length_eq_zero_iff.mp empty, ite_self]
      · simp only [Segment.repaired, if_neg (Nat.not_lt_of_le long)]

/-- The sample record, as the first append of a log writes it. -/
def sampleRecord : NbfRecord := sampleInsert.record 1 0

theorem valid_sampleRecord : sampleRecord.Valid samplePlatform := by
  refine legal_sampleInsert.valid ⟨?_, ?_, ?_, ?_⟩
  all_goals decide +kernel

/-- A segment with the first bytes of one record. -/
def sampleTorn (count : Nat) : Segment :=
  ⟨0, [], (sampleRecord.frame samplePlatform).take count⟩

def sampleDir (segment : Segment) : WalDir :=
  ⟨"wal", AList.singleton segment.index (segment.bytes samplePlatform)⟩

theorem holds_sampleDir (segment : Segment) :
    Holds samplePlatform (sampleDir segment).files [segment] := by
  constructor
  · exact WalDir.discoverSegments_eq (List.pairwise_singleton _ _) (List.Perm.refl _)
  · intro other member
    rw [List.mem_singleton.mp member, WalDir.read]
    simp [sampleDir, AList.singleton, AList.lookup]

theorem valid_sampleTorn (count : Nat) :
    AllValid samplePlatform (Layout.records ([] ++ [sampleTorn count])) := by
  intro record member
  cases member

theorem torn_sampleTorn {count : Nat}
    (short : count < (sampleRecord.frame samplePlatform).length) :
    TornTail samplePlatform (sampleTorn count).tail :=
  tornTail_take valid_sampleRecord.fits valid_sampleRecord.built short

/-- A tail of forty bytes is repaired. -/
theorem repairUsable_forty :
    RepairUsable samplePlatform (sampleDir (sampleTorn 40)) ([] ++ [sampleTorn 40]) := by
  refine (repairUsable_iff (holds_sampleDir (sampleTorn 40))
    (valid_sampleTorn 40) ?_ (torn_sampleTorn ?_)).mpr (Or.inr ?_)
  · intro segment member
    cases member
  · decide +kernel
  · decide +kernel

/-- A tail of one byte stays in the file, and the first append behind it makes
the next recovery fail. -/
theorem not_repairUsable_one :
    TornTail samplePlatform (sampleTorn 1).tail ∧
      ¬ RepairUsable samplePlatform (sampleDir (sampleTorn 1)) [sampleTorn 1] ∧
      (let reopened := openDir (RecoveryManager.recover samplePlatform (sampleDir (sampleTorn 1))).1
          .always 4096
        let run := appendAll samplePlatform reopened [(quietEnvironment, sampleDelete)]
        run.2.length = 1 ∧
          (RecoveryManager.recover samplePlatform run.1.dir).2.toOption.isNone = true) := by
  refine ⟨torn_sampleTorn (by decide +kernel), ?_, by decide +kernel⟩
  intro usable
  have exactly := usable.contents (sampleTorn 1) (List.mem_singleton_self _)
  exact absurd exactly (by decide +kernel)

/-! ## Carrying on after a failed append -/

/-- A call that fails has left a proper front part of its record, possibly
nothing: writes and rotations may fail, but a flushed record is also synced, and
the process does not panic. -/
structure Environment.Cuts (env : Environment) : Prop where
  fault : env.fault ≠ .crashAfterWal
  syncFails : env.syncFails = false

/-- Every call of the run starts with an empty buffer and with no leftover of a
failed call in front of the place it writes to. -/
def RunsClear (P : Platform) : WriteAheadLog -> List Call -> Prop
  | _, [] => True
  | wal, (env, mutation) :: rest =>
      wal.buffer = [] ∧ Clear P env wal mutation ∧ RunsClear P (append P env wal mutation).1 rest

namespace WriteAheadLog

section Failing

variable {P : Platform} {wal : WriteAheadLog} {closed : Layout} {current : Segment}

/-- One such call: the log holds one record more when it returned `Ok`, and
otherwise the same records, perhaps with a torn tail. -/
theorem append_cuts {env : Environment} (cuts : env.Cuts) {mutation : Mutation}
    (legal : mutation.Legal P) (opened : Opened P wal closed current)
    (sound : Sound P (closed ++ [current])) (pending : wal.buffer = [])
    (clear : Clear P env wal mutation) :
    Exists fun next => Exists fun closed' => Exists fun current' =>
      Opened P next closed' current' ∧ Sound P (closed' ++ [current']) ∧
        ((append P env wal mutation = (next, .ok (wal.currentSequence + 1)) ∧
            Layout.records (closed' ++ [current']) = Layout.records (closed ++ [current]) ++
              [mutation.record (wal.currentSequence + 1) env.now]) ∨
          Exists fun fault => append P env wal mutation = (next, .error fault) ∧
            Layout.records (closed' ++ [current']) = Layout.records (closed ++ [current])) := by
  rcases append_opened env mutation opened pending clear with
    ⟨_, next, fault, ends, _, kept⟩ |
    ⟨_, fits, next, closed', current', writes, empty, target, reached⟩
  · exact ⟨next, closed, current, kept, sound, Or.inr ⟨fault, ends, rfl⟩⟩
  · have cutShort : forall (count : Nat) (buffer : List UInt8) (failure : NovaError),
        count < ((mutation.record (wal.currentSequence + 1) env.now).frame P).length ->
        writeRecord env env.room next (wal.currentSequence + 1)
            ((mutation.record (wal.currentSequence + 1) env.now).frame P) =
          (next.extended
            (((mutation.record (wal.currentSequence + 1) env.now).frame P).take count) buffer,
            .error (.error failure)) ->
        Exists fun next => Exists fun closed' => Exists fun current' =>
          Opened P next closed' current' ∧ Sound P (closed' ++ [current']) ∧
            Exists fun fault => append P env wal mutation = (next, .error fault) ∧
              Layout.records (closed' ++ [current']) = Layout.records (closed ++ [current]) := by
      intro count buffer failure short wrote
      rcases sound_torn sound target (tornTail_take fits legal.built short) with
        ⟨tornSound, recordsEq⟩
      exact ⟨_, closed', _, reached.torn target.clean _ buffer, tornSound, _, writes.trans wrote,
        recordsEq⟩
    cases isFault : env.fault with
    | crashAfterWal => exact absurd isFault cuts.fault
    | partialWrite =>
        have nonempty := RecoveryManager.frames_length_pos P
          (mutation.record (wal.currentSequence + 1) env.now) []
        rw [frames_singleton] at nonempty
        rcases @writeRecord_injected env env.room next (wal.currentSequence + 1) _ reached.healthy
            empty isFault nonempty with ⟨count, buffer, failure, short, wrote⟩
        rcases cutShort count buffer failure short wrote with
          ⟨final, closedF, currentF, openedF, soundF, failed⟩
        exact ⟨final, closedF, currentF, openedF, soundF, Or.inr failed⟩
    | unset =>
        by_cases enough : forall left, env.room = some left ->
            ((mutation.record (wal.currentSequence + 1) env.now).frame P).length ≤ left
        · have accepted := @writeRecord_accepted env env.room next (wal.currentSequence + 1) _
            reached.always reached.healthy empty isFault cuts.syncFails enough
          rcases sound_appended sound target (legal.valid fits) with ⟨grown, recordsEq⟩
          exact ⟨_, closed', _, reached.appended target.clean _, grown,
            Or.inl ⟨writes.trans accepted, recordsEq⟩⟩
        · rw [not_forall] at enough
          rcases enough with ⟨left, limited⟩
          rw [Classical.not_imp] at limited
          rcases limited with ⟨hasRoom, tooSmall⟩
          have short := Nat.lt_of_not_le tooSmall
          have notInjected : env.fault ≠ .partialWrite := by
            rw [isFault]
            decide
          rcases @writeRecord_refused env next (wal.currentSequence + 1) _ left reached.always
              reached.healthy empty notInjected short with ⟨buffer, failure, wrote⟩
          rw [← hasRoom] at wrote
          rcases cutShort left buffer failure short wrote with
            ⟨final, closedF, currentF, openedF, soundF, failed⟩
          exact ⟨final, closedF, currentF, openedF, soundF, Or.inr failed⟩

/-- A run of such calls, none of which meets the leftover of another. -/
theorem appendAll_cuts {calls : List Call}
    (cuts : forall call, call ∈ calls -> Environment.Cuts call.1)
    (legal : forall call, call ∈ calls -> call.2.Legal P) (opened : Opened P wal closed current)
    (sound : Sound P (closed ++ [current])) (clear : RunsClear P wal calls) :
    Exists fun closed' => Exists fun current' =>
      Opened P (appendAll P wal calls).1 closed' current' ∧ Sound P (closed' ++ [current']) ∧
        Layout.records (closed' ++ [current']) =
          Layout.records (closed ++ [current]) ++ (appendAll P wal calls).2 := by
  induction calls generalizing wal closed current with
  | nil => exact ⟨closed, current, opened, sound, (List.append_nil _).symm⟩
  | cons call rest ih =>
      rcases call with ⟨env, mutation⟩
      rcases clear with ⟨pending, headClear, restClear⟩
      have restCuts := fun other member => cuts other (List.mem_cons_of_mem _ member)
      have restLegal := fun other member => legal other (List.mem_cons_of_mem _ member)
      rcases append_cuts (cuts _ List.mem_cons_self) (legal _ List.mem_cons_self) opened
          sound pending headClear with
        ⟨next, closed', current', nextOpened, nextSound, ⟨logs, recordsEq⟩ | ⟨fault, ends, recordsEq⟩⟩
      · rw [logs] at restClear
        rcases ih restCuts restLegal nextOpened nextSound restClear with
          ⟨closedF, currentF, openedF, soundF, finalRecords⟩
        simp only [appendAll, logs]
        refine ⟨closedF, currentF, openedF, soundF, ?_⟩
        rw [finalRecords, recordsEq, List.append_assoc, List.singleton_append]
      · rw [ends] at restClear
        rcases ih restCuts restLegal nextOpened nextSound restClear with
          ⟨closedF, currentF, openedF, soundF, finalRecords⟩
        simp only [appendAll, ends]
        refine ⟨closedF, currentF, openedF, soundF, ?_⟩
        rw [finalRecords, recordsEq]

end Failing

/-- In a run of calls that may fail with part of a record written, but in which no
call writes behind such a leftover, recovery replays exactly the records whose
append returned `Ok`.  The ids come from constructors and the payloads of inserts and
updates decode. -/
theorem recover_after_failed_appends {P : Platform} {dir : WalDir} {layout : Layout}
    (intact : Intact P dir.files layout) (limit : Nat) (start : UInt64)
    {calls : List Call} (cuts : forall call, call ∈ calls -> Environment.Cuts call.1)
    (legal : forall call, call ∈ calls -> call.2.Legal P)
    (clear : RunsClear P ((openDir dir .always limit).setSequence start) calls) :
    let run := appendAll P ((openDir dir .always limit).setSequence start) calls
    Replays P run.1.dir (layout.records ++ run.2) := by
  intro run
  rcases openDir_ready intact limit with ⟨closed, current, ready, recordsEq⟩
  rcases appendAll_cuts cuts legal (ready.setSequence start).opened ready.sound clear with
    ⟨closed', current', opened, sound, runRecords⟩
  have replays := replays_of_holds opened.holds sound
  rw [runRecords, recordsEq] at replays
  exact replays

def partialEnvironment : Environment := { quietEnvironment with fault := .partialWrite }

/-- An insert, a delete that fails with most of its bytes written, and an insert
that goes to the next segment. -/
def sampleFailing : List Call :=
  [(quietEnvironment, sampleInsert), (partialEnvironment, sampleDelete),
    (quietEnvironment, sampleInsert)]

theorem runsClear_sampleFailing :
    RunsClear samplePlatform ((openDir ⟨"wal", ∅⟩ .always 200).setSequence 0) sampleFailing := by
  refine ⟨rfl, Or.inl ?_, ?_, Or.inl ?_, ?_, Or.inr ?_, trivial⟩
  · decide +kernel
  · decide +kernel
  · decide +kernel
  · decide +kernel
  · intro encoded encodes
    rw [(NbfRecord.encode_eq_ok_iff.mp encodes).2]
    decide +kernel

theorem recover_after_failed_appends_sample :
    let run := appendAll samplePlatform ((openDir ⟨"wal", ∅⟩ .always 200).setSequence 0)
      sampleFailing
    run.2.length = 2 ∧ Replays samplePlatform run.1.dir (Layout.records [] ++ run.2) := by
  refine ⟨by decide +kernel, ?_⟩
  refine recover_after_failed_appends (intact_empty samplePlatform) 200 0
    ?_ ?_ runsClear_sampleFailing
  · intro call member
    simp only [sampleFailing, List.mem_cons, List.not_mem_nil, or_false] at member
    rcases member with rfl | rfl | rfl
    · exact ⟨by decide, rfl⟩
    · exact ⟨by decide, rfl⟩
    · exact ⟨by decide, rfl⟩
  · intro call member
    simp only [sampleFailing, List.mem_cons, List.not_mem_nil, or_false] at member
    rcases member with rfl | rfl | rfl
    · exact legal_sampleInsert
    · exact legal_sampleDelete
    · exact legal_sampleInsert

/-- A delete that fails with most of its bytes written, and an acknowledged one
behind it: the decoder reads the second record as part of the first, runs past the
end of the file, and recovery drops both. -/
theorem acknowledged_append_dropped :
    let run := appendAll samplePlatform ((openDir ⟨"wal", ∅⟩ .always 4096).setSequence 0)
      [(partialEnvironment, sampleDelete), (quietEnvironment, sampleDelete)]
    run.2.length = 1 ∧ ¬ Replays samplePlatform run.1.dir run.2 := by
  intro run
  have logged : run.2.length = 1 := by decide +kernel
  refine ⟨logged, ?_⟩
  rintro ⟨state, recovers, counted, _⟩
  have dropped : ((RecoveryManager.recover samplePlatform run.1.dir).2.map
      RecoveredState.recordsReplayed).toOption = some 0 := by decide +kernel
  rw [recovers] at dropped
  have none : state.recordsReplayed = 0 := Option.some.inj dropped
  omega

end WriteAheadLog

end Storage
end NovaDb
