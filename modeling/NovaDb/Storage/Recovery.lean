import NovaDb.Storage.RoundTrip
import NovaDb.Storage.Wal

namespace NovaDb
namespace Storage

open Core Foundation

/-!
# Crash recovery

Recovery scans the segments in ascending order.  In each it decodes records
until the end, applies them to the state, truncates the segment behind the last
valid record when the decoder reports a torn write, and gives up on any other
error.  Files change only by that truncation, so a scan answers where to cut, if
anywhere.

`replay` is what recovery is for: the fold of the record application over a list
of records.  `recoverSegments_frames` connects the scan to it.
-/

/-- Collection key: (namespace, collection) -/
abbrev CollectionKey := String × String

/-- Documents of one collection. -/
abbrev DocumentStore := AList (fun _ : DocumentId => Document)

/-- All collections. -/
abbrev Collections := AList (fun _ : CollectionKey => DocumentStore)

/-- Recovered database state from WAL replay. -/
structure RecoveredState where
  collections : Collections
  maxSequence : UInt64
  recordsReplayed : Nat
  tornTailsTruncated : Nat

namespace RecoveredState

def new : RecoveredState := ⟨∅, 0, 0, 0⟩

end RecoveredState

/-- The store of a collection, empty when there is none: `entry(key).or_default()`. -/
def storeOf (collections : Collections) (key : CollectionKey) : DocumentStore :=
  (collections.lookup key).getD ∅

namespace RecoveryManager

/-- Apply a validated record to the in-memory document state during recovery replay. -/
def applyRecordToState (P : Platform) (record : NbfRecord) (state : RecoveredState) :
    Except NovaError RecoveredState :=
  let key := (record.namespaceName, record.collection)
  let store := storeOf state.collections key
  let withStore := fun (store : DocumentStore) =>
    { state with collections := state.collections.insert key store }
  match record.recordType with
  | .insert | .update =>
      match record.documentFromPayload P with
      | .error failure => .error failure
      | .ok doc => .ok (withStore (store.insert record.documentId doc))
  | .delete => .ok (withStore (store.erase record.documentId))
  | .checkpoint | .txBegin | .txCommit | .txRollback => .ok (withStore store)

/-- One accepted record: the largest sequence, the mutation, the count. -/
def replayRecord (P : Platform) (state : RecoveredState) (record : NbfRecord) :
    Except NovaError RecoveredState :=
  let state :=
    if state.maxSequence < record.sequence then { state with maxSequence := record.sequence }
    else state
  match applyRecordToState P record state with
  | .error failure => .error failure
  | .ok state => .ok { state with recordsReplayed := state.recordsReplayed + 1 }

/-- The scan of one segment from the bytes left to read.  The answer is the
length to truncate the file to, if it has a torn tail, and the new state. -/
def recoverLoop (P : Platform) (path : String) (fileLen : Nat) (rest : List UInt8)
    (state : RecoveredState) : Except NovaError (Option Nat × RecoveredState) :=
  -- the position before a record is also the end of the last valid one
  let position := fileLen - rest.length
  match decoded : NbfRecord.decode P rest with
  | .ok (some (record, behind)) =>
      match replayRecord P state record with
      | .error failure => .error failure
      | .ok state =>
          have := NbfRecord.decode_rest_lt decoded
          recoverLoop P path fileLen behind state
  | .ok none => .ok (none, state)
  | .error failure =>
      if failure.code = .tornWriteDetected then
        .ok (some position, { state with tornTailsTruncated := state.tornTailsTruncated + 1 })
      else
        .error (NovaError.withDetails .walCorrupted
          ("Corruption encountered in WAL segment " ++ path.quote ++ " at offset " ++
            toString position) failure.display)
termination_by rest.length

/-- Scan a single segment file, validate CRC32, repair torn tail if found, and
replay mutations. -/
def recoverSegment (P : Platform) (path : String) (bytes : List UInt8) (state : RecoveredState) :
    Except NovaError (Option Nat × RecoveredState) :=
  if bytes.length = 0 then .ok (none, state)
  else recoverLoop P path bytes.length bytes state

/-- The segments in turn.  A truncation stays on disk even when a later
segment fails. -/
def recoverSegments (P : Platform) (path : String) :
    List Nat -> Files -> RecoveredState -> Files × Except NovaError RecoveredState
  | [], files, state => (files, .ok state)
  | index :: rest, files, state =>
      let bytes := WalDir.read files index
      match recoverSegment P (WalDir.segmentPath path index) bytes state with
      | .error failure => (files, .error failure)
      | .ok (none, state) => recoverSegments P path rest files state
      | .ok (some length, state) =>
          recoverSegments P path rest (files.insert index (bytes.take length)) state

/-- Run full crash recovery over the specified WAL directory. -/
def recover (P : Platform) (dir : WalDir) : WalDir × Except NovaError RecoveredState :=
  let (files, result) := recoverSegments P dir.path (WalDir.discoverSegments dir.files) dir.files
    RecoveredState.new
  ({ dir with files }, result)

/-- The mutations of a list of records, without the counters of the scan. -/
def applyAll (P : Platform) (state : RecoveredState) (records : List NbfRecord) :
    Except NovaError RecoveredState :=
  records.foldlM (fun state record => applyRecordToState P record state) state

/-- Replay of a list of records, from a given state. -/
def replayFrom (P : Platform) (state : RecoveredState) (records : List NbfRecord) :
    Except NovaError RecoveredState :=
  records.foldlM (replayRecord P) state

/-- Replay of a list of records from the empty state. -/
def replay (P : Platform) (records : List NbfRecord) : Except NovaError RecoveredState :=
  replayFrom P RecoveredState.new records

end RecoveryManager
end Storage
end NovaDb
