import Mathlib

namespace NovaDb
namespace Core

/-!
# Structured errors

Every fallible operation of the database reports a `NovaError`: a code, a
message and optional details.  Recovery branches on the code alone, so codes are
an enumeration; messages are carried as the source writes them.

A Rust panic is not an error value.  Where an operation can panic, its outcome
is a `Fault`, which keeps the two apart.
-/

/-- Structured error codes for NOVA DB operations. -/
inductive ErrorCode where
  | documentNotFound
  | collectionNotFound
  | namespaceNotFound
  | documentAlreadyExists
  | indexAlreadyExists
  | indexNotFound
  | invalidQuery
  | parseError
  | typeError
  | storageError
  | walCorrupted
  | tornWriteDetected
  | checksumMismatch
  | transactionAborted
  | transactionActive
  | noActiveTransaction
  | protocolViolation
  | frameTooLarge
  | authenticationFailed
  | permissionDenied
  | connectionLimitExceeded
  | bufferOverflow
  | snapshotFailed
  | internalError
  deriving DecidableEq, Repr

def ErrorCode.asStr : ErrorCode -> String
  | .documentNotFound => "DOCUMENT_NOT_FOUND"
  | .collectionNotFound => "COLLECTION_NOT_FOUND"
  | .namespaceNotFound => "NAMESPACE_NOT_FOUND"
  | .documentAlreadyExists => "DOCUMENT_ALREADY_EXISTS"
  | .indexAlreadyExists => "INDEX_ALREADY_EXISTS"
  | .indexNotFound => "INDEX_NOT_FOUND"
  | .invalidQuery => "INVALID_QUERY"
  | .parseError => "PARSE_ERROR"
  | .typeError => "TYPE_ERROR"
  | .storageError => "STORAGE_ERROR"
  | .walCorrupted => "WAL_CORRUPTED"
  | .tornWriteDetected => "TORN_WRITE_DETECTED"
  | .checksumMismatch => "CHECKSUM_MISMATCH"
  | .transactionAborted => "TRANSACTION_ABORTED"
  | .transactionActive => "TRANSACTION_ACTIVE"
  | .noActiveTransaction => "NO_ACTIVE_TRANSACTION"
  | .protocolViolation => "PROTOCOL_VIOLATION"
  | .frameTooLarge => "FRAME_TOO_LARGE"
  | .authenticationFailed => "AUTH_FAILED"
  | .permissionDenied => "PERMISSION_DENIED"
  | .connectionLimitExceeded => "CONNECTION_LIMIT_EXCEEDED"
  | .bufferOverflow => "BUFFER_OVERFLOW"
  | .snapshotFailed => "SNAPSHOT_FAILED"
  | .internalError => "INTERNAL_ERROR"

/-- Unified error type for NOVA DB with actionable diagnostics. -/
structure NovaError where
  code : ErrorCode
  message : String
  details : Option String
  deriving DecidableEq, Repr

/-- Upper-case hexadecimal digits of a number, padded with zeros to `width`:
the `{:02X}` and `{:08X}` of the messages. -/
def upperHex (width number : Nat) : String :=
  let digits := (Nat.toDigits 16 number).map Char.toUpper
  String.ofList (List.replicate (width - digits.length) '0' ++ digits)

namespace NovaError

def new (code : ErrorCode) (message : String) : NovaError :=
  ⟨code, message, none⟩

def withDetails (code : ErrorCode) (message details : String) : NovaError :=
  ⟨code, message, some details⟩

def invalidQuery (message : String) : NovaError :=
  new .invalidQuery message

def parseError (message : String) (line column : Nat) : NovaError :=
  withDetails .parseError message
    ("Error location: line " ++ toString line ++ ", column " ++ toString column)

def typeError (expected found : String) : NovaError :=
  new .typeError s!"Type mismatch: expected {expected}, found {found}"

def storage (message : String) : NovaError :=
  new .storageError message

def walCorrupted (message : String) : NovaError :=
  new .walCorrupted message

def checksumMismatch (expected calculated : UInt32) : NovaError :=
  withDetails .checksumMismatch "Checksum verification failed"
    ("Expected CRC32 0x" ++ upperHex 8 expected.toNat ++
      ", but calculated 0x" ++ upperHex 8 calculated.toNat)

def protocol (message : String) : NovaError :=
  new .protocolViolation message

/-- The `Display` text: code, message and details in brackets. -/
def display (failure : NovaError) : String :=
  "[" ++ failure.code.asStr ++ "] " ++ failure.message ++
    (match failure.details with
      | none => ""
      | some details => " (" ++ details ++ ")")

end NovaError

/-- How an operation that may panic fails. -/
inductive Fault where
  | error (failure : NovaError)
  | panic (message : String)
  deriving DecidableEq, Repr

/-- Results of operations that may panic. -/
abbrev Outcome (α : Type) := Except Fault α

/-- A sequence of two fallible steps succeeds exactly when both do. -/
theorem bind_eq_ok_iff {ε α β : Type} {result : Except ε α} {next : α -> Except ε β} {final : β} :
    (result >>= next) = .ok final <->
      Exists fun value => result = .ok value ∧ next value = .ok final := by
  cases result with
  | error failure => simp only [bind, Except.bind, reduceCtorEq, false_and, exists_false]
  | ok value => simp only [bind, Except.bind, Except.ok.injEq, exists_eq_left']

end Core
end NovaDb
