import NovaDb.Core.Document
import NovaDb.Foundation.BigEndian
import NovaDb.Foundation.ByteReader

namespace NovaDb
namespace Storage

open Core Foundation

/-!
# The NOVA Binary Format

A log record is framed by magic bytes, a fixed header, three length-prefixed
texts, a length-prefixed payload and a checksum over everything before it.  The
encoder refuses over-long fields.  The decoder is a sequence of exact reads with
checks between them; every read after the magic bytes reports a torn write when
the input ends, and a missing magic is a clean end of the log.

The checksum is recomputed from the decoded pieces, in particular from the
document id after `DocumentId::new` has trimmed it.
-/

/-- Magic bytes for NOVA Binary Format: "NOVB" -/
def nbfMagic : List UInt8 := [0x4E, 0x4F, 0x56, 0x42]

/-- Current NBF storage version -/
def nbfVersion : Nat := 1

/-- The largest payload of a record: 64 MB. -/
def payloadLimit : Nat := 64 * 1024 * 1024

/-- Type of WAL / NBF record. -/
inductive RecordType where
  | insert
  | update
  | delete
  | checkpoint
  | txBegin
  | txCommit
  | txRollback
  deriving DecidableEq, Repr

namespace RecordType

def toU8 : RecordType -> UInt8
  | .insert => 0x01
  | .update => 0x02
  | .delete => 0x03
  | .checkpoint => 0x04
  | .txBegin => 0x05
  | .txCommit => 0x06
  | .txRollback => 0x07

def fromU8 (byte : UInt8) : Except NovaError RecordType :=
  if byte = 0x01 then .ok .insert
  else if byte = 0x02 then .ok .update
  else if byte = 0x03 then .ok .delete
  else if byte = 0x04 then .ok .checkpoint
  else if byte = 0x05 then .ok .txBegin
  else if byte = 0x06 then .ok .txCommit
  else if byte = 0x07 then .ok .txRollback
  else .error (NovaError.storage ("Unknown NBF record type: 0x" ++ upperHex 2 byte.toNat))

theorem fromU8_toU8 (recordType : RecordType) : fromU8 recordType.toU8 = .ok recordType := by
  cases recordType <;> rfl

end RecordType

/-- A structured record in the NOVA Binary Format. -/
structure NbfRecord where
  sequence : UInt64
  recordType : RecordType
  flags : UInt8
  txId : Option UInt64
  timestamp : UInt64
  namespaceName : String
  collection : String
  documentId : DocumentId
  payload : List UInt8
  deriving DecidableEq, Repr

/-- The UTF-8 bytes of a string. -/
def utf8Bytes (text : String) : List UInt8 :=
  text.toByteArray.data.toList

/-- `String::from_utf8`. -/
def fromUtf8 (bytes : List UInt8) : Option String :=
  String.fromUTF8? ⟨⟨bytes⟩⟩

theorem fromUtf8_utf8Bytes (text : String) : fromUtf8 (utf8Bytes text) = some text := by
  have valid : ByteArray.IsValidUTF8 ⟨⟨utf8Bytes text⟩⟩ := text.isValidUTF8
  rw [fromUtf8, String.fromUTF8?, dif_pos valid]
  rfl

/-! ## Encoding -/

namespace NbfRecord

/-- A text field behind its `u16` length. -/
def encodeText (tooLong text : String) : Except NovaError (List UInt8) :=
  if 0xFFFF < (utf8Bytes text).length then .error (NovaError.storage tooLong)
  else .ok (toBigEndian 2 (utf8Bytes text).length ++ utf8Bytes text)

/-- Version, type, flags, sequence, transaction id and timestamp: 28 bytes. -/
def headerBytes (record : NbfRecord) : List UInt8 :=
  toBigEndian 2 nbfVersion ++ record.recordType.toU8 :: record.flags ::
    (toBigEndian 8 record.sequence.toNat ++ (toBigEndian 8 (record.txId.getD 0).toNat ++
      toBigEndian 8 record.timestamp.toNat))

/-- Serialize this record into bytes with CRC32 checksum. -/
def encode (P : Platform) (record : NbfRecord) : Except NovaError (List UInt8) := do
  let ns <- encodeText "Namespace length exceeds u16 limit" record.namespaceName
  let coll <- encodeText "Collection name length exceeds u16 limit" record.collection
  let docId <- encodeText "Document ID length exceeds u16 limit" record.documentId.asStr
  if payloadLimit < record.payload.length then
    throw (NovaError.storage "Payload exceeds 64MB limit")
  let buf := nbfMagic ++ (record.headerBytes ++ (ns ++ (coll ++ (docId ++
    (toBigEndian 4 record.payload.length ++ record.payload)))))
  return buf ++ toBigEndian 4 (P.crc32 buf).toNat

/-! ## Decoding -/

/-- The text of the standard library's end-of-file error. -/
def eofText : String := "failed to fill whole buffer"

def tornWrite (message : String) : NovaError :=
  NovaError.new .tornWriteDetected (message ++ ": " ++ eofText)

/-- The fields of the fixed header. -/
structure Header where
  recordType : RecordType
  flags : UInt8
  sequence : UInt64
  txId : Option UInt64
  timestamp : UInt64

/-- Interpret the 28 header bytes.  A zero transaction id stands for none. -/
def decodeHeader (header : List UInt8) : Except NovaError Header :=
  let version := ofBigEndian (header.take 2)
  if version ≠ nbfVersion then
    .error (NovaError.storage s!"Unsupported NBF version: {version}")
  else
    match RecordType.fromU8 (header.getD 2 0) with
    | .error failure => .error failure
    | .ok recordType =>
        let rawTx := UInt64.ofNat (ofBigEndian ((header.drop 12).take 8))
        .ok
          { recordType
            flags := header.getD 3 0
            sequence := UInt64.ofNat (ofBigEndian ((header.drop 4).take 8))
            txId := if rawTx = 0 then none else some rawTx
            timestamp := UInt64.ofNat (ofBigEndian ((header.drop 20).take 8)) }

/-- A text field: its `u16` length, its bytes, and the check that they are UTF-8. -/
def readText (field utf8Field : String) : Reader NovaError (Nat × String) := do
  let lengthBytes <- Reader.exact 2 (tornWrite s!"Torn write in {field} length")
  let bytes <- Reader.exact (ofBigEndian lengthBytes) (tornWrite s!"Torn write in {field}")
  let text <- Reader.check <|
    match fromUtf8 bytes with
    | some text => .ok text
    | none => .error (NovaError.walCorrupted s!"Invalid UTF-8 in {utf8Field}")
  pure (ofBigEndian lengthBytes, text)

/-- The payload behind its `u32` length. -/
def readPayload : Reader NovaError (List UInt8) := do
  let lengthBytes <- Reader.exact 4 (tornWrite "Torn write in payload length")
  Reader.check <|
    if payloadLimit < ofBigEndian lengthBytes then
      .error (NovaError.walCorrupted "Payload length exceeds limit")
    else .ok ()
  Reader.exact (ofBigEndian lengthBytes) (tornWrite "Torn write in payload")

/-- Everything behind the magic bytes. -/
def decodeRecord (P : Platform) : Reader NovaError NbfRecord := do
  let headerBuf <- Reader.exact 28
    (NovaError.withDetails .tornWriteDetected "Incomplete NBF record header (torn write)" eofText)
  let header <- Reader.check (decodeHeader headerBuf)
  let (nsLen, namespaceName) <- readText "namespace" "namespace"
  let (collLen, collection) <- readText "collection" "collection"
  let (docIdLen, docIdStr) <- readText "doc ID" "document ID"
  let documentId <- Reader.check (DocumentId.new docIdStr)
  let payload <- readPayload
  let checksumBytes <- Reader.exact 4 (tornWrite "Torn write in checksum")
  let expected := UInt32.ofNat (ofBigEndian checksumBytes)
  let calculated := P.crc32 (nbfMagic ++ (headerBuf ++
    ((toBigEndian 2 nsLen ++ utf8Bytes namespaceName) ++
    ((toBigEndian 2 collLen ++ utf8Bytes collection) ++
    ((toBigEndian 2 docIdLen ++ utf8Bytes documentId.asStr) ++
    (toBigEndian 4 payload.length ++ payload))))))
  Reader.check <|
    if expected ≠ calculated then .error (NovaError.checksumMismatch expected calculated)
    else .ok ()
  pure
    { sequence := header.sequence
      recordType := header.recordType
      flags := header.flags
      txId := header.txId
      timestamp := header.timestamp
      namespaceName, collection, documentId, payload }

/-- Decode a record from the bytes left to read.  Returns the record and what
follows it, `none` on clean end of file, or an error. -/
def decode (P : Platform) (bytes : List UInt8) :
    Except NovaError (Option (NbfRecord × List UInt8)) :=
  if bytes.length < 4 then .ok none
  else if bytes.take 4 ≠ nbfMagic then
    .error (NovaError.withDetails .walCorrupted "Invalid NBF magic bytes"
      ("Expected " ++ toString (nbfMagic.map UInt8.toNat) ++ ", found " ++
        toString ((bytes.take 4).map UInt8.toNat)))
  else (decodeRecord P (bytes.drop 4)).map some

/-- Serialize a document into payload bytes. -/
def payloadFromDocument (P : Platform) (doc : Document) : Except NovaError (List UInt8) :=
  (P.toVec doc).mapError NovaError.storage

/-- Deserialize a document from payload bytes. -/
def documentFromPayload (P : Platform) (record : NbfRecord) : Except NovaError Document :=
  (P.fromSlice record.payload).mapError NovaError.storage

end NbfRecord
end Storage
end NovaDb
