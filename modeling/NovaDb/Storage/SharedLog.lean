import NovaDb.Storage.BufferedLog

namespace NovaDb
namespace Storage

open Core Foundation

/-!
# A log with other writers

Writers that share a log see each other in its files, its size and its counter.
Whether an append succeeds depends on these only through the device: as long as
every byte is taken and every segment that falls due is opened, an append ends as
its own arguments, the policy and the lock say.
-/

/-- The device takes every byte, opens every segment that falls due, and the process
survives.  What fails apart from that does so whatever is in the log. -/
structure Environment.Steady (env : Environment) : Prop where
  room : env.room = none
  rotateSyncFails : env.rotateSyncFails = false
  openFails : env.openFails = false
  survives : env.fault ≠ .crashAfterWal

theorem Environment.Quiet.steady {env : Environment} (quiet : env.Quiet) : env.Steady :=
  ⟨quiet.room, quiet.rotateSyncFails, quiet.openFails, by rw [quiet.fault]; nofun⟩

namespace WriteAheadLog

variable {P : Platform} {env : Environment} {wal next : WriteAheadLog} {mutation : Mutation}

/-- Logs under one policy whose locks are alike. -/
structure Alike (first second : WriteAheadLog) : Prop where
  syncMode : first.syncMode = second.syncMode
  poisoned : first.poisoned = second.poisoned

theorem alike_refl (wal : WriteAheadLog) : Alike wal wal :=
  ⟨rfl, rfl⟩

theorem Alike.symm {first second : WriteAheadLog} (alike : Alike first second) :
    Alike second first :=
  ⟨alike.syncMode.symm, alike.poisoned.symm⟩

theorem Alike.trans {first second third : WriteAheadLog} (alike : Alike first second)
    (further : Alike second third) : Alike first third :=
  ⟨alike.syncMode.trans further.syncMode, alike.poisoned.trans further.poisoned⟩

/-! ## What no append changes -/

theorem rotateSegment_alike (env : Environment) (wal : WriteAheadLog) :
    Alike wal (rotateSegment env wal).1 := by
  unfold rotateSegment
  split
  · exact alike_refl wal
  · dsimp only
    split
    · exact ⟨rfl, rfl⟩
    · split
      · exact ⟨rfl, rfl⟩
      · exact ⟨rfl, rfl⟩

/-- Only a crash poisons the lock. -/
theorem writeRecord_alike (survives : env.fault ≠ .crashAfterWal) (room : Option Nat)
    (wal : WriteAheadLog) (sequence : UInt64) (encoded : List UInt8) :
    Alike wal (writeRecord env room wal sequence encoded).1 := by
  unfold writeRecord
  dsimp only
  split
  · exact alike_refl wal
  · split
    · split
      · exact ⟨rfl, rfl⟩
      · split
        · exact ⟨rfl, rfl⟩
        · exact ⟨rfl, rfl⟩
    · split
      · exact ⟨rfl, rfl⟩
      · generalize (if wal.syncMode = .always then _ else _) = flushed
        split
        · exact ⟨rfl, rfl⟩
        · split
          · exact ⟨rfl, rfl⟩
          · exact ⟨rfl, rfl⟩

theorem append_alike (survives : env.fault ≠ .crashAfterWal) (wal : WriteAheadLog)
    (mutation : Mutation) : Alike wal (append P env wal mutation).1 := by
  have counted : Alike wal { wal with currentSequence := wal.currentSequence + 1 } := ⟨rfl, rfl⟩
  unfold append
  dsimp only
  split
  · exact counted
  · split
    · exact counted
    · split
      · have rotates := rotateSegment_alike env
          { wal with currentSequence := wal.currentSequence + 1 }
        split
        · rename_i isRotated
          rw [isRotated] at rotates
          exact counted.trans rotates
        · rename_i isRotated
          rw [isRotated] at rotates
          exact (counted.trans rotates).trans (writeRecord_alike survives _ _ _ _)
      · exact counted.trans (writeRecord_alike survives _ _ _ _)

/-! ## How a steady append ends -/

/-- Whether a record is encoded does not depend on its number and its time. -/
theorem encode_unnumbered (mutation : Mutation) (sequence now other later : UInt64) :
    ((mutation.record sequence now).encode P).map (fun _ => ()) =
      ((mutation.record other later).encode P).map (fun _ => ()) := by
  unfold NbfRecord.encode Mutation.record
  cases NbfRecord.encodeText "Namespace length exceeds u16 limit" mutation.namespaceName with
  | error failure => rfl
  | ok ns =>
      cases NbfRecord.encodeText "Collection name length exceeds u16 limit" mutation.collection with
      | error failure => rfl
      | ok coll =>
          cases NbfRecord.encodeText "Document ID length exceeds u16 limit"
              mutation.documentId.asStr with
          | error failure => rfl
          | ok docId =>
              by_cases large : payloadLimit < mutation.payload.length
              · simp only [bind, Except.bind, if_pos large]
                rfl
              · simp only [bind, Except.bind, if_neg large]
                rfl

/-- The end of an append whose device is steady and whose number is there to take. -/
def steadyEnd (P : Platform) (env : Environment) (syncMode : SyncMode) (poisoned : Bool)
    (mutation : Mutation) : Outcome Unit :=
  match (mutation.record 0 0).encode P with
  | .error failure => .error (.error failure)
  | .ok _ =>
      if poisoned then .error (.error lockPoisoned)
      else if env.fault = .partialWrite then
        .error (.error (NovaError.storage "Simulated partial write fault injected"))
      else if syncMode = .always ∧ env.syncFails = true then
        .error (.error (NovaError.storage ("Failed to fsync WAL file: " ++ env.ioError)))
      else .ok ()

theorem rotateSegment_steady (steady : env.Steady) (wal : WriteAheadLog) :
    (wal.poisoned = true ∧ rotateSegment env wal = (wal, none, .error lockPoisoned)) ∨
      (wal.poisoned = false ∧ Exists fun next => rotateSegment env wal = (next, none, .ok ())) := by
  unfold rotateSegment
  cases isPoisoned : wal.poisoned with
  | true => exact Or.inl ⟨rfl, by rw [if_pos rfl, steady.room]⟩
  | false =>
      refine Or.inr ⟨rfl, ?_⟩
      simp only [Bool.false_eq_true, if_false, steady.room, steady.rotateSyncFails,
        steady.openFails, activeFile, BufferedFile.flush_unlimited]
      exact ⟨_, rfl⟩

theorem writeRecord_steady (steady : env.Steady) (wal : WriteAheadLog) (sequence : UInt64)
    (encoded : List UInt8) :
    (writeRecord env none wal sequence encoded).2.map (fun _ => ()) =
      if wal.poisoned then .error (.error lockPoisoned)
      else if env.fault = .partialWrite then
        .error (.error (NovaError.storage "Simulated partial write fault injected"))
      else if wal.syncMode = .always ∧ env.syncFails = true then
        .error (.error (NovaError.storage ("Failed to fsync WAL file: " ++ env.ioError)))
      else .ok () := by
  unfold writeRecord
  dsimp only
  cases isPoisoned : wal.poisoned with
  | true => rfl
  | false =>
      simp only [Bool.false_eq_true, if_false]
      by_cases isPartial : env.fault = .partialWrite
      · rcases BufferedFile.writeAll_all bufferCapacity wal.activeFile
          (encoded.take (encoded.length - 16)) with ⟨written, writes, _⟩
        simp [isPartial, writes, BufferedFile.flush_all, Except.map]
      · rcases BufferedFile.writeAll_all bufferCapacity wal.activeFile encoded with
          ⟨written, writes, _⟩
        simp only [if_neg isPartial, writes]
        by_cases always : wal.syncMode = .always
        · cases fails : env.syncFails with
          | true => simp [always, BufferedFile.flush_all, Except.map]
          | false => simp [always, BufferedFile.flush_all, Except.map, steady.survives]
        · simp [always, Except.map, steady.survives]

/-- A steady append ends as its arguments, the policy and the lock say. -/
theorem append_steady (steady : env.Steady) (wal : WriteAheadLog) (mutation : Mutation)
    (more : (P.overflowChecks && wal.currentSequence == 0xFFFFFFFFFFFFFFFF) = false) :
    (append P env wal mutation).2.map (fun _ => ()) =
      steadyEnd P env wal.syncMode wal.poisoned mutation := by
  have unnumbered := @encode_unnumbered P mutation (wal.currentSequence + 1) env.now 0 0
  unfold append steadyEnd
  simp only [more, Bool.false_eq_true, if_false]
  cases encodes : (mutation.record (wal.currentSequence + 1) env.now).encode P with
  | error failure =>
      rw [encodes] at unnumbered
      cases isFirst : (mutation.record 0 0).encode P with
      | error other =>
          rw [isFirst] at unnumbered
          cases unnumbered
          rfl
      | ok bytes =>
          rw [isFirst] at unnumbered
          cases unnumbered
  | ok encoded =>
      rw [encodes] at unnumbered
      cases isFirst : (mutation.record 0 0).encode P with
      | error other =>
          rw [isFirst] at unnumbered
          cases unnumbered
      | ok bytes =>
          dsimp only
          split
          · have kept := rotateSegment_alike env
              { wal with currentSequence := wal.currentSequence + 1 }
            rcases rotateSegment_steady steady
              { wal with currentSequence := wal.currentSequence + 1 } with
              ⟨isPoisoned, rotates⟩ | ⟨isHealthy, rotated, rotates⟩
            · have poisoned : wal.poisoned = true := isPoisoned
              rw [rotates, poisoned]
              rfl
            · rw [rotates] at kept
              rw [rotates]
              dsimp only
              rw [writeRecord_steady steady, ← kept.poisoned, ← kept.syncMode]
          · rw [steady.room, writeRecord_steady steady]

/-- There are numbers left for so many appends, where taking one too many panics. -/
def HasRoom (P : Platform) (wal : WriteAheadLog) (count : Nat) : Prop :=
  P.overflowChecks = true -> wal.currentSequence.toNat + count < 2 ^ 64

theorem HasRoom.more (room : HasRoom P wal 1) :
    (P.overflowChecks && wal.currentSequence == 0xFFFFFFFFFFFFFFFF) = false := by
  cases checks : P.overflowChecks with
  | false => rfl
  | true =>
      have fits := room checks
      rw [Bool.true_and]
      apply beq_false_of_ne
      intro last
      rw [last] at fits
      exact absurd fits (by decide)

theorem HasRoom.fewer {count less : Nat} (room : HasRoom P wal count) (fewer : less ≤ count) :
    HasRoom P wal less :=
  fun checks => Nat.lt_of_le_of_lt (Nat.add_le_add_left fewer _) (room checks)

/-- A step that takes at most one number leaves the others. -/
theorem HasRoom.left {count : Nat} (room : HasRoom P wal (count + 1))
    (takes : next.currentSequence = wal.currentSequence ∨
      next.currentSequence = wal.currentSequence + 1) : HasRoom P next count := by
  intro checks
  have fits := room checks
  rcases takes with same | one
  · rw [same]
    omega
  · rw [one, toNat_next (by omega)]
    omega

/-- How the same append ends on two logs: both fail alike, or both take a number. -/
inductive Together (P : Platform) (env later : Environment) (mutation : Mutation)
    (first second : WriteAheadLog) : Prop where
  | refused (next other : WriteAheadLog) (fault : Fault) (alike : Alike next other)
      (fails : append P env first mutation = (next, .error fault))
      (failsToo : append P later second mutation = (other, .error fault))
  | taken (next other : WriteAheadLog) (number numbered : UInt64) (alike : Alike next other)
      (appends : append P env first mutation = (next, .ok number))
      (appendsToo : append P later second mutation = (other, .ok numbered))

/-- Alike logs answer a steady append alike. -/
theorem append_together {later : Environment} {first second : WriteAheadLog}
    (alike : Alike first second) (steady : env.Steady) (steadyToo : later.Steady)
    (sameEnd : forall syncMode poisoned,
      steadyEnd P env syncMode poisoned mutation = steadyEnd P later syncMode poisoned mutation)
    (room : HasRoom P first 1) (roomToo : HasRoom P second 1) :
    Together P env later mutation first second := by
  have ends := append_steady steady first mutation room.more
  have endsToo := append_steady steadyToo second mutation roomToo.more
  have kept := @append_alike P env steady.survives first mutation
  have keptToo := @append_alike P later steadyToo.survives second mutation
  rw [← alike.syncMode, ← alike.poisoned, ← sameEnd, ← ends] at endsToo
  cases appends : append P env first mutation with
  | mk next outcome =>
      cases appendsToo : append P later second mutation with
      | mk other result =>
          rw [appends, appendsToo] at endsToo
          rw [appends] at kept
          rw [appendsToo] at keptToo
          have same := (kept.symm.trans alike).trans keptToo
          cases outcome with
          | error fault =>
              cases result with
              | error failure =>
                  cases endsToo
                  exact .refused next other fault same appends appendsToo
              | ok numbered => cases endsToo
          | ok number =>
              cases result with
              | error failure => cases endsToo
              | ok numbered => exact .taken next other number numbered same appends appendsToo

end WriteAheadLog
end Storage
end NovaDb
