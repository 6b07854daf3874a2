import Mathlib
import NovaDb.Foundation.BufferedFile
import NovaDb.Storage.Format

namespace NovaDb
namespace Storage

open Core Foundation

/-!
# The write-ahead log

A log is a directory of numbered segment files.  Appending a record takes the
next sequence number, encodes, rotates to a new segment when the record would
push the current one over its limit, and writes through the buffered writer of
the active segment.  The size counter counts acknowledged bytes only.

Everything the operating system or the process environment decides during an
append is an explicit `Environment`: the clock, the `NOVA_FAULT` variable, how
many bytes the device still accepts, and which of the other calls fail.
-/

/-- Segment files by index. -/
abbrev Files := AList (fun _ : Nat => List UInt8)

/-- A log directory: its path, for messages, and its segment files. -/
structure WalDir where
  path : String
  files : Files

/-- Durability sync policy for commit log flushes. -/
inductive SyncMode where
  | always
  | none
  deriving DecidableEq, Repr

/-- The values of the `NOVA_FAULT` environment variable that `append` knows. -/
inductive NovaFault where
  | unset
  | partialWrite
  | crashAfterWal
  deriving DecidableEq, Repr

/-- What happens outside the program during one append: the clock, the fault variable,
how many bytes the device takes, and whether a sync, a rotation or the opening of a
segment fails, with the text of the operating system. -/
structure Environment where
  now : UInt64
  fault : NovaFault
  room : Option Nat
  syncFails : Bool
  rotateSyncFails : Bool
  openFails : Bool
  ioError : String

/-- Nothing fails: the fault variable is unset and every call succeeds. -/
structure Environment.Quiet (env : Environment) : Prop where
  fault : env.fault = .unset
  room : env.room = none
  syncFails : env.syncFails = false
  rotateSyncFails : env.rotateSyncFails = false
  openFails : env.openFails = false

/-- Write-Ahead Log (WAL) manager with segment rotation and durability policies.
`activeSegment` and `buffer` are the file and the pending bytes of the writer
behind the lock; the lock is poisoned by a panic while it is held. -/
structure WriteAheadLog where
  dir : WalDir
  currentSegmentIndex : Nat
  currentSequence : UInt64
  segmentSizeLimit : Nat
  syncMode : SyncMode
  activeSegment : Nat
  buffer : List UInt8
  currentSegmentSize : Nat
  poisoned : Bool

/-- The arguments of an append. -/
structure Mutation where
  recordType : RecordType
  namespaceName : String
  collection : String
  documentId : DocumentId
  payload : List UInt8
  txId : Option UInt64

/-- The record an append writes. -/
def Mutation.record (mutation : Mutation) (sequence now : UInt64) : NbfRecord where
  sequence := sequence
  recordType := mutation.recordType
  flags := 0
  txId := mutation.txId
  timestamp := now
  namespaceName := mutation.namespaceName
  collection := mutation.collection
  documentId := mutation.documentId
  payload := mutation.payload

namespace WalDir

/-- Existing segment indices sorted in ascending order. -/
def discoverSegments (files : Files) : List Nat :=
  files.keys.mergeSort

/-- File path for a segment index: `0000000000000001.wal`. -/
def segmentPath (path : String) (index : Nat) : String :=
  let digits := Nat.toDigits 10 index
  path ++ "/" ++ String.ofList (List.replicate (16 - digits.length) '0' ++ digits) ++ ".wal"

/-- Open a segment for appending, creating it when it does not exist. -/
def createIfAbsent (files : Files) (index : Nat) : Files :=
  if index ∈ files then files else files.insert index []

/-- The bytes of a segment file. -/
def read (files : Files) (index : Nat) : List UInt8 :=
  (files.lookup index).getD []

end WalDir

namespace WriteAheadLog

/-- The default capacity of the buffered writer. -/
def bufferCapacity : Nat := 8192

/-- Open or create a WAL directory with the specified configuration. -/
def openDir (dir : WalDir) (syncMode : SyncMode) (segmentSizeLimit : Nat) : WriteAheadLog :=
  let index := (WalDir.discoverSegments dir.files).getLast?.getD 0
  let files := WalDir.createIfAbsent dir.files index
  { dir := { dir with files }
    currentSegmentIndex := index
    currentSequence := 0
    segmentSizeLimit
    syncMode
    activeSegment := index
    buffer := []
    currentSegmentSize := (WalDir.read files index).length
    poisoned := false }

/-- Set sequence counter directly (typically called after recovery replay). -/
def setSequence (wal : WriteAheadLog) (sequence : UInt64) : WriteAheadLog :=
  { wal with currentSequence := sequence }

/-- The active segment and the writer's buffer. -/
def activeFile (wal : WriteAheadLog) : BufferedFile :=
  ⟨WalDir.read wal.dir.files wal.activeSegment, wal.buffer⟩

def storeActive (wal : WriteAheadLog) (file : BufferedFile) : WriteAheadLog :=
  { wal with
    dir := { wal.dir with files := wal.dir.files.insert wal.activeSegment file.contents }
    buffer := file.buffer }

def lockPoisoned : NovaError :=
  NovaError.storage "Active WAL file lock poisoned"

/-- Rotate active segment to a new segment file.  The index is advanced before
the new file is opened, so it stays advanced when opening fails. -/
def rotateSegment (env : Environment) (wal : WriteAheadLog) :
    WriteAheadLog × Option Nat × Except NovaError Unit :=
  if wal.poisoned then (wal, env.room, .error lockPoisoned)
  else
    let flushed := wal.activeFile.flush env.room
    let wal := wal.storeActive flushed.file
    if !flushed.succeeded || env.rotateSyncFails then
      (wal, flushed.room, .error (NovaError.storage env.ioError))
    else
      let nextIndex := wal.currentSegmentIndex + 1
      let wal := { wal with currentSegmentIndex := nextIndex }
      if env.openFails then
        (wal, flushed.room, .error (NovaError.storage
          ("Failed to open new segment " ++ (WalDir.segmentPath wal.dir.path nextIndex).quote ++
            ": " ++ env.ioError)))
      else
        let files := WalDir.createIfAbsent wal.dir.files nextIndex
        ({ wal with
            dir := { wal.dir with files }
            activeSegment := nextIndex
            buffer := []
            currentSegmentSize := 0 }, flushed.room, .ok ())

/-- The locked part of an append: write, flush and fsync under the policy,
count the bytes.  `partial_write` leaves all but the last 16 bytes on disk and
reports an error. -/
def writeRecord (env : Environment) (room : Option Nat) (wal : WriteAheadLog) (sequence : UInt64)
    (encoded : List UInt8) : WriteAheadLog × Outcome UInt64 :=
  let fails := fun (wal : WriteAheadLog) (message : String) =>
    (wal, (.error (.error (NovaError.storage (message ++ env.ioError))) : Outcome UInt64))
  if wal.poisoned then (wal, .error (.error lockPoisoned))
  else if env.fault = .partialWrite then
    let written := wal.activeFile.writeAll bufferCapacity (encoded.take (encoded.length - 16)) room
    if !written.succeeded then fails (wal.storeActive written.file) "WAL partial write: "
    else
      let flushed := written.file.flush written.room
      if !flushed.succeeded then fails (wal.storeActive flushed.file) ""
      else
        (wal.storeActive flushed.file,
          .error (.error (NovaError.storage "Simulated partial write fault injected")))
  else
    let written := wal.activeFile.writeAll bufferCapacity encoded room
    if !written.succeeded then fails (wal.storeActive written.file) "Failed to write WAL record: "
    else
      let flushed :=
        if wal.syncMode = .always then written.file.flush written.room else written
      if !flushed.succeeded then
        fails (wal.storeActive flushed.file) "Failed to flush WAL buffer: "
      else if decide (wal.syncMode = .always) && env.syncFails then
        fails (wal.storeActive flushed.file) "Failed to fsync WAL file: "
      else
        let wal := { wal.storeActive flushed.file with
          currentSegmentSize := wal.currentSegmentSize + encoded.length }
        if env.fault = .crashAfterWal then
          ({ wal with poisoned := true }, .error (.panic
            "NOVA_FAULT=crash_after_wal triggered: process simulating crash right after WAL append"))
        else (wal, .ok sequence)

/-- Append a new mutation record to the WAL.  Taking the next sequence number
panics behind the largest one when overflow checks are compiled in; the counter
itself wraps either way. -/
def append (P : Platform) (env : Environment) (wal : WriteAheadLog) (mutation : Mutation) :
    WriteAheadLog × Outcome UInt64 :=
  let sequence := wal.currentSequence + 1
  let overflows := P.overflowChecks && wal.currentSequence == 0xFFFFFFFFFFFFFFFF
  let wal := { wal with currentSequence := sequence }
  if overflows then (wal, .error (.panic "attempt to add with overflow"))
  else
    match (mutation.record sequence env.now).encode P with
    | .error failure => (wal, .error (.error failure))
    | .ok encoded =>
        if wal.segmentSizeLimit < wal.currentSegmentSize + encoded.length then
          match rotateSegment env wal with
          | (wal, _, .error failure) => (wal, .error (.error failure))
          | (wal, room, .ok ()) => writeRecord env room wal sequence encoded
        else writeRecord env env.room wal sequence encoded

end WriteAheadLog
end Storage
end NovaDb
