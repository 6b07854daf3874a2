import NovaDb.Storage.Format

namespace NovaDb
namespace Storage

open Core Foundation

/-!
# Reading back what was encoded

`decodeRecord` consumes exactly the bytes behind the magic of an encoded record
and fails as a torn write on every strictly shorter front part of them.  Both
facts come from `Reader.Consumes`, one reader at a time, so the argument follows
the layout of the record and never looks at a position.

A record is read back up to its transaction id: `Some(0)` and `None` have the
same bytes, and the decoder answers `None`.
-/

namespace NbfRecord

/-- A failure recovery repairs instead of reporting. -/
def IsTorn (failure : NovaError) : Prop :=
  failure.code = .tornWriteDetected

theorem isTorn_tornWrite (message : String) : IsTorn (tornWrite message) := rfl

theorem isTorn_withDetails (message details : String) :
    IsTorn (NovaError.withDetails .tornWriteDetected message details) := rfl

/-- The limits the encoder enforces. -/
structure Fits (record : NbfRecord) : Prop where
  namespaceName : (utf8Bytes record.namespaceName).length ≤ 0xFFFF
  collection : (utf8Bytes record.collection).length ≤ 0xFFFF
  documentId : (utf8Bytes record.documentId.asStr).length ≤ 0xFFFF
  payload : record.payload.length ≤ payloadLimit

/-- A text field as it stands in the log. -/
def textBytes (text : String) : List UInt8 :=
  toBigEndian 2 (utf8Bytes text).length ++ utf8Bytes text

/-- The checksummed part of a record. -/
def body (record : NbfRecord) : List UInt8 :=
  nbfMagic ++ (record.headerBytes ++ (textBytes record.namespaceName ++
    (textBytes record.collection ++ (textBytes record.documentId.asStr ++
      (toBigEndian 4 record.payload.length ++ record.payload)))))

/-- The bytes of a record that fits. -/
def frame (P : Platform) (record : NbfRecord) : List UInt8 :=
  record.body ++ toBigEndian 4 (P.crc32 record.body).toNat

theorem encodeText_eq_ok_iff {tooLong text : String} {bytes : List UInt8} :
    encodeText tooLong text = .ok bytes <->
      (utf8Bytes text).length ≤ 0xFFFF ∧ bytes = textBytes text := by
  unfold encodeText
  split
  · rename_i long
    simp only [reduceCtorEq, false_iff, not_and]
    intro short
    exact absurd short (Nat.not_le_of_lt long)
  · rename_i short
    simp only [Except.ok.injEq, Nat.le_of_not_lt short, true_and]
    exact eq_comm

/-- The encoder succeeds exactly on records within the limits. -/
theorem encode_eq_ok_iff {P : Platform} {record : NbfRecord} {bytes : List UInt8} :
    record.encode P = .ok bytes <-> record.Fits ∧ bytes = record.frame P := by
  unfold encode
  simp only [bind_eq_ok_iff, encodeText_eq_ok_iff]
  constructor
  · rintro ⟨_, ⟨ns, rfl⟩, _, ⟨coll, rfl⟩, _, ⟨docId, rfl⟩, last⟩
    split at last
    · cases last
    · rename_i fits
      cases last
      exact ⟨⟨ns, coll, docId, Nat.le_of_not_lt fits⟩, rfl⟩
  · rintro ⟨fits, rfl⟩
    refine ⟨_, ⟨fits.namespaceName, rfl⟩, _, ⟨fits.collection, rfl⟩, _,
      ⟨fits.documentId, rfl⟩, ?_⟩
    rw [if_neg (Nat.not_lt_of_le fits.payload)]
    rfl

/-! ## The decoder on a whole record and on a cut one -/

/-- The record the decoder returns: a zero transaction id is read as none. -/
def asRead (record : NbfRecord) : NbfRecord :=
  { record with txId := if record.txId.getD 0 = 0 then none else some (record.txId.getD 0) }

@[simp] theorem length_headerBytes (record : NbfRecord) : record.headerBytes.length = 28 := by
  simp only [headerBytes, List.length_append, List.length_cons, length_toBigEndian]

theorem ofNat_ofBigEndian_toBigEndian (number : UInt64) :
    UInt64.ofNat (ofBigEndian (toBigEndian 8 number.toNat)) = number := by
  have small : number.toNat % 256 ^ 8 = number.toNat := Nat.mod_eq_of_lt number.toNat_lt
  rw [ofBigEndian_toBigEndian, small, UInt64.ofNat_toNat]

theorem decodeHeader_headerBytes (record : NbfRecord) :
    decodeHeader record.headerBytes =
      .ok
        { recordType := record.recordType
          flags := record.flags
          sequence := record.sequence
          txId := record.asRead.txId
          timestamp := record.timestamp } := by
  have sequenceAt : (record.headerBytes.drop 4).take 8 = toBigEndian 8 record.sequence.toNat :=
    List.take_left' (length_toBigEndian 8 _)
  have txBehind : record.headerBytes.drop 12 =
      toBigEndian 8 (record.txId.getD 0).toNat ++ toBigEndian 8 record.timestamp.toNat := by
    change ((record.headerBytes.drop 4).drop 8) = _
    exact List.drop_left' (length_toBigEndian 8 _)
  have txAt : (record.headerBytes.drop 12).take 8 = toBigEndian 8 (record.txId.getD 0).toNat := by
    rw [txBehind]
    exact List.take_left' (length_toBigEndian 8 _)
  have timestampAt : (record.headerBytes.drop 20).take 8 = toBigEndian 8 record.timestamp.toNat := by
    have behind : record.headerBytes.drop 20 = toBigEndian 8 record.timestamp.toNat := by
      change (record.headerBytes.drop (12 + 8)) = _
      rw [← List.drop_drop, txBehind]
      exact List.drop_left' (length_toBigEndian 8 _)
    rw [behind]
    exact List.take_of_length_le (by rw [length_toBigEndian])
  have version : ofBigEndian (record.headerBytes.take 2) = nbfVersion := rfl
  have typeAt : record.headerBytes.getD 2 0 = record.recordType.toU8 := rfl
  have flagsAt : record.headerBytes.getD 3 0 = record.flags := rfl
  simp only [decodeHeader, version, ne_eq, not_true_eq_false, if_false, typeAt,
    RecordType.fromU8_toU8, flagsAt, sequenceAt, txAt, timestampAt,
    ofNat_ofBigEndian_toBigEndian, asRead]

theorem consumes_text {field utf8Field text : String}
    (fits : (utf8Bytes text).length ≤ 0xFFFF) :
    Reader.Consumes IsTorn (readText field utf8Field) (textBytes text)
      ((utf8Bytes text).length, text) := by
  have length : ofBigEndian (toBigEndian 2 (utf8Bytes text).length) = (utf8Bytes text).length := by
    rw [ofBigEndian_toBigEndian]
    exact Nat.mod_eq_of_lt (by omega)
  refine Reader.Consumes.bind (Reader.Consumes.exact (isTorn_tornWrite _) _ (length_toBigEndian 2 _)) ?_
  rw [length]
  refine Reader.Consumes.bindNothing (Reader.Consumes.exact (isTorn_tornWrite _) _ rfl) ?_
  refine Reader.Consumes.checkBind ?_ (Reader.Consumes.pure _)
  rw [fromUtf8_utf8Bytes]

theorem consumes_payload {payload : List UInt8} (fits : payload.length ≤ payloadLimit) :
    Reader.Consumes IsTorn readPayload (toBigEndian 4 payload.length ++ payload) payload := by
  have length : ofBigEndian (toBigEndian 4 payload.length) = payload.length := by
    rw [ofBigEndian_toBigEndian]
    unfold payloadLimit at fits
    exact Nat.mod_eq_of_lt (by omega)
  refine Reader.Consumes.bind (Reader.Consumes.exact (isTorn_tornWrite _) _ (length_toBigEndian 4 _)) ?_
  rw [length]
  exact Reader.Consumes.checkBind (if_neg (Nat.not_lt_of_le fits))
    (Reader.Consumes.exact (isTorn_tornWrite _) _ rfl)

/-- Everything behind the magic bytes of a record. -/
def afterMagic (P : Platform) (record : NbfRecord) : List UInt8 :=
  record.headerBytes ++ (textBytes record.namespaceName ++ (textBytes record.collection ++
    (textBytes record.documentId.asStr ++ ((toBigEndian 4 record.payload.length ++ record.payload) ++
      toBigEndian 4 (P.crc32 record.body).toNat))))

theorem frame_eq (P : Platform) (record : NbfRecord) :
    record.frame P = nbfMagic ++ record.afterMagic P := by
  simp only [frame, body, afterMagic, List.append_assoc]

/-- The decoder reads a whole record back, and reports a torn write on every
strictly shorter front part of it. -/
theorem consumes_record (P : Platform) {record : NbfRecord} (fits : record.Fits)
    (built : record.documentId.Built) :
    Reader.Consumes IsTorn (decodeRecord P) (record.afterMagic P) record.asRead := by
  refine Reader.Consumes.bind (Reader.Consumes.exact (isTorn_withDetails _ _) _
    (length_headerBytes record)) ?_
  refine Reader.Consumes.checkBind (decodeHeader_headerBytes record) ?_
  refine Reader.Consumes.bind (consumes_text fits.namespaceName) ?_
  refine Reader.Consumes.bind (consumes_text fits.collection) ?_
  refine Reader.Consumes.bind (consumes_text fits.documentId) ?_
  refine Reader.Consumes.checkBind (DocumentId.new_asStr built) ?_
  refine Reader.Consumes.bind (consumes_payload fits.payload) ?_
  refine Reader.Consumes.bindNothing (Reader.Consumes.exact (isTorn_tornWrite _) _ (length_toBigEndian 4 _)) ?_
  refine Reader.Consumes.checkBind (if_neg (not_not_intro ?_)) (Reader.Consumes.pure _)
  have small : (P.crc32 record.body).toNat % 256 ^ 4 = (P.crc32 record.body).toNat :=
    Nat.mod_eq_of_lt (P.crc32 record.body).toNat_lt
  rw [ofBigEndian_toBigEndian, small, UInt32.ofNat_toNat]
  rfl

/-- NBF round trip: an encoded record is read back and what follows is left. -/
theorem decode_frame (P : Platform) {record : NbfRecord} (fits : record.Fits)
    (built : record.documentId.Built) (rest : List UInt8) :
    decode P (record.frame P ++ rest) = .ok (some (record.asRead, rest)) := by
  have shape : record.frame P ++ rest = nbfMagic ++ (record.afterMagic P ++ rest) := by
    rw [frame_eq, List.append_assoc]
  have enough : ¬ (record.frame P ++ rest).length < 4 := by
    rw [shape, List.length_append]
    exact Nat.not_lt_of_le (Nat.le_add_right 4 _)
  have magic : (record.frame P ++ rest).take 4 = nbfMagic := by
    rw [shape]
    rfl
  have behind : (record.frame P ++ rest).drop 4 = record.afterMagic P ++ rest := by
    rw [shape]
    rfl
  rw [decode, if_neg enough, if_neg (not_not_intro magic), behind,
    (consumes_record P fits built).run rest]
  rfl

/-- A cut inside the magic bytes reads as a clean end of the log. -/
theorem decode_short (P : Platform) {bytes : List UInt8} (short : bytes.length < 4) :
    decode P bytes = .ok none :=
  if_pos short

/-- A cut anywhere behind the magic bytes reads as a torn write. -/
theorem decode_cut (P : Platform) {record : NbfRecord} (fits : record.Fits)
    (built : record.documentId.Built) {front : List UInt8} (isFront : front <+: record.frame P)
    (different : front ≠ record.frame P) (long : 4 ≤ front.length) :
    Exists fun failure => decode P front = .error failure ∧ IsTorn failure := by
  rw [frame_eq] at isFront different
  rcases List.prefix_of_prefix_length_le (List.prefix_append nbfMagic _) isFront long with
    ⟨behind, rfl⟩
  have behindFront : behind <+: record.afterMagic P :=
    (List.prefix_append_right_inj nbfMagic).mp isFront
  have behindDifferent : behind ≠ record.afterMagic P := by
    intro same
    exact different (by rw [same])
  rcases (consumes_record P fits built).cut behind behindFront behindDifferent with
    ⟨failure, failed, torn⟩
  refine ⟨failure, ?_, torn⟩
  have magic : (nbfMagic ++ behind).take 4 = nbfMagic := rfl
  have rest : (nbfMagic ++ behind).drop 4 = behind := rfl
  rw [decode, if_neg (Nat.not_lt_of_le long), if_neg (not_not_intro magic), rest, failed]
  rfl

/-! ## A decoded record depends on its own bytes -/

theorem local_text (field utf8Field : String) : Reader.Local (readText field utf8Field) := by
  refine Reader.Local.bind (Reader.Local.exact _ _) (fun lengthBytes => ?_)
  refine Reader.Local.bind (Reader.Local.exact _ _) (fun bytes => ?_)
  exact Reader.Local.bind (Reader.Local.check _) (fun text => Reader.Local.pure _)

theorem local_payload : Reader.Local readPayload := by
  refine Reader.Local.bind (Reader.Local.exact _ _) (fun lengthBytes => ?_)
  exact Reader.Local.bind (Reader.Local.check _) (fun _ => Reader.Local.exact _ _)

theorem local_record (P : Platform) : Reader.Local (decodeRecord P) := by
  refine Reader.Local.bind (Reader.Local.exact _ _) (fun headerBuf => ?_)
  refine Reader.Local.bind (Reader.Local.check _) (fun header => ?_)
  refine Reader.Local.bind (local_text _ _) (fun namespaceRead => ?_)
  refine Reader.Local.bind (local_text _ _) (fun collectionRead => ?_)
  refine Reader.Local.bind (local_text _ _) (fun docIdRead => ?_)
  refine Reader.Local.bind (Reader.Local.check _) (fun documentId => ?_)
  refine Reader.Local.bind local_payload (fun payload => ?_)
  refine Reader.Local.bind (Reader.Local.exact _ _) (fun checksumBytes => ?_)
  exact Reader.Local.bind (Reader.Local.check _) (fun _ => Reader.Local.pure _)

/-- A decoded record leaves strictly fewer bytes. -/
theorem decode_rest_lt {P : Platform} {bytes rest : List UInt8} {record : NbfRecord}
    (decoded : decode P bytes = .ok (some (record, rest))) : rest.length < bytes.length := by
  unfold decode at decoded
  split at decoded
  · cases decoded
  · rename_i enough
    split at decoded
    · cases decoded
    · cases ran : decodeRecord P (bytes.drop 4) with
      | error failure =>
          rw [ran] at decoded
          cases decoded
      | ok result =>
          rw [ran] at decoded
          cases decoded
          have left := ((local_record P).shrinks _ _ _ ran).length_le
          rw [List.length_drop] at left
          omega

/-- The bytes of a decoded record decode to it whatever follows them. -/
theorem decode_local {P : Platform} {bytes rest : List UInt8} {record : NbfRecord}
    (decoded : decode P bytes = .ok (some (record, rest))) :
    Exists fun front => bytes = front ++ rest ∧
      forall other, decode P (front ++ other) = .ok (some (record, other)) := by
  unfold decode at decoded
  split at decoded
  · cases decoded
  · rename_i enough
    split at decoded
    · cases decoded
    · rename_i isMagic
      have magic : bytes.take 4 = nbfMagic := not_not.mp isMagic
      cases ran : decodeRecord P (bytes.drop 4) with
      | error failure =>
          rw [ran] at decoded
          cases decoded
      | ok result =>
          rw [ran] at decoded
          cases decoded
          rcases local_record P _ _ _ ran with ⟨front, split, again⟩
          refine ⟨nbfMagic ++ front, ?_, ?_⟩
          · rw [List.append_assoc, ← split, ← magic, List.take_append_drop]
          · intro other
            have long : ¬ (nbfMagic ++ front ++ other).length < 4 := by
              rw [List.append_assoc, List.length_append]
              exact Nat.not_lt_of_le (Nat.le_add_right 4 _)
            have starts : (nbfMagic ++ front ++ other).take 4 = nbfMagic := rfl
            have behind : (nbfMagic ++ front ++ other).drop 4 = front ++ other := rfl
            rw [decode, if_neg long, if_neg (not_not_intro starts), behind, again]
            rfl

end NbfRecord
end Storage
end NovaDb
