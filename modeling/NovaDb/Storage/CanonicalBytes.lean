import NovaDb.Storage.Repair

namespace NovaDb
namespace Storage

open Core Foundation

/-!
# Which bytes the decoder accepts

Every field of a record has one encoding, and the decoder reads them all back as
they stand, but for one: it trims the document id.  The checksum is then compared
with one of the trimmed id.  So a record that is accepted has the bytes the
encoder writes for it exactly if the document id in the log is trimmed already.
-/

namespace NbfRecord

/-! ## Fields that are read back as they stand -/

theorem toU8_of_fromU8 {byte : UInt8} {recordType : RecordType}
    (read : RecordType.fromU8 byte = .ok recordType) : recordType.toU8 = byte := by
  unfold RecordType.fromU8 at read
  repeat' split at read
  all_goals
    cases read
    try simp only [*, RecordType.toU8]

theorem utf8Bytes_of_fromUtf8 {bytes : List UInt8} {text : String}
    (read : fromUtf8 bytes = some text) : utf8Bytes text = bytes := by
  unfold fromUtf8 String.fromUTF8? at read
  split at read
  · cases read
    rfl
  · cases read

/-- A number of a fixed width has one encoding. -/
theorem toBigEndian_ofNat {bytes : List UInt8} (size : bytes.length = 8) :
    toBigEndian 8 (UInt64.ofNat (ofBigEndian bytes)).toNat = bytes := by
  have small : ofBigEndian bytes < 2 ^ 64 := by
    have bound := ofBigEndian_lt bytes
    rwa [size] at bound
  rw [UInt64.toNat_ofNat_of_lt' small, toBigEndian_ofBigEndian size]

/-- The 28 bytes of a header, by its fields. -/
theorem header_parts {bytes : List UInt8} (size : bytes.length = 28) :
    bytes = bytes.take 2 ++ bytes.getD 2 0 :: bytes.getD 3 0 ::
      ((bytes.drop 4).take 8 ++ ((bytes.drop 12).take 8 ++ (bytes.drop 20).take 8)) := by
  have third : bytes.drop 2 = bytes.getD 2 0 :: bytes.drop 3 := by
    rw [List.drop_eq_getElem_cons (by omega), List.getD_eq_getElem?_getD,
      List.getElem?_eq_getElem (by omega), Option.getD_some]
  have fourth : bytes.drop 3 = bytes.getD 3 0 :: bytes.drop 4 := by
    rw [List.drop_eq_getElem_cons (by omega), List.getD_eq_getElem?_getD,
      List.getElem?_eq_getElem (by omega), Option.getD_some]
  have sequence : bytes.drop 4 = (bytes.drop 4).take 8 ++ bytes.drop 12 := by
    rw [← List.drop_drop (i := 8) (j := 4), List.take_append_drop]
  have txId : bytes.drop 12 = (bytes.drop 12).take 8 ++ bytes.drop 20 := by
    rw [← List.drop_drop (i := 8) (j := 12), List.take_append_drop]
  have timestamp : (bytes.drop 20).take 8 = bytes.drop 20 :=
    List.take_of_length_le (by rw [List.length_drop, size])
  rw [timestamp, ← txId, ← sequence, ← fourth, ← third, List.take_append_drop]

/-- The header bytes are those of the fields read from them: a zero transaction
id is read as none and written as zero again. -/
theorem headerBytes_of_decodeHeader {bytes : List UInt8} (size : bytes.length = 28)
    {header : Header} (read : decodeHeader bytes = .ok header) (namespaceName collection : String)
    (documentId : DocumentId) (payload : List UInt8) :
    headerBytes
      { sequence := header.sequence
        recordType := header.recordType
        flags := header.flags
        txId := header.txId
        timestamp := header.timestamp
        namespaceName, collection, documentId, payload } = bytes := by
  unfold decodeHeader at read
  dsimp only at read
  split at read
  · cases read
  · rename_i version
    split at read
    · cases read
    · rename_i recordType isType
      cases read
      have width {start : Nat} (inside : start + 8 ≤ 28) :
          ((bytes.drop start).take 8).length = 8 := by
        rw [List.length_take, List.length_drop, size]
        omega
      have versionBytes : toBigEndian 2 nbfVersion = bytes.take 2 := by
        rw [← not_ne_iff.mp version]
        exact toBigEndian_ofBigEndian (List.length_take_of_le (by omega))
      have txBytes : forall raw : UInt64,
          (if raw = 0 then none else some raw : Option UInt64).getD 0 = raw := by
        intro raw
        by_cases zero : raw = 0
        · rw [if_pos zero, zero]
          rfl
        · rw [if_neg zero]
          rfl
      simp only [headerBytes, versionBytes, toU8_of_fromU8 isType, txBytes,
        toBigEndian_ofNat (width (by omega : 4 + 8 ≤ 28)),
        toBigEndian_ofNat (width (by omega : 12 + 8 ≤ 28)),
        toBigEndian_ofNat (width (by omega : 20 + 8 ≤ 28))]
      exact (header_parts size).symm

/-- A text field is read from its length and its UTF-8 bytes. -/
theorem readText_eq_ok {field utf8Field text : String} {length : Nat} {bytes rest : List UInt8}
    (ran : readText field utf8Field bytes = .ok ((length, text), rest)) :
    bytes = textBytes text ++ rest ∧ length = (utf8Bytes text).length ∧ length ≤ 0xFFFF := by
  rcases Reader.bind_eq_ok ran with ⟨lengthBytes, left, lengthRan, ran⟩
  rcases Reader.bind_eq_ok ran with ⟨content, right, contentRan, ran⟩
  rcases Reader.bind_eq_ok ran with ⟨found, later, checked, ran⟩
  rcases Reader.exact_eq_ok lengthRan with ⟨rfl, lengthSize⟩
  rcases Reader.exact_eq_ok contentRan with ⟨rfl, contentSize⟩
  rcases Reader.check_eq_ok checked with ⟨valid, rfl⟩
  cases ran
  have content_eq : utf8Bytes text = content := by
    apply utf8Bytes_of_fromUtf8
    split at valid
    · rename_i read
      rw [read, Except.ok.inj valid]
    · cases valid
  have bound := ofBigEndian_lt lengthBytes
  rw [lengthSize] at bound
  rw [textBytes, content_eq, contentSize, toBigEndian_ofBigEndian lengthSize, List.append_assoc]
  exact ⟨rfl, rfl, by omega⟩

theorem readPayload_eq_ok {payload : List UInt8} {bytes rest : List UInt8}
    (ran : readPayload bytes = .ok (payload, rest)) :
    bytes = (toBigEndian 4 payload.length ++ payload) ++ rest ∧ payload.length ≤ payloadLimit := by
  rcases Reader.bind_eq_ok ran with ⟨lengthBytes, left, lengthRan, ran⟩
  rcases Reader.bind_eq_ok ran with ⟨_, middle, checked, payloadRan⟩
  rcases Reader.exact_eq_ok lengthRan with ⟨rfl, lengthSize⟩
  rcases Reader.check_eq_ok checked with ⟨fits, rfl⟩
  rcases Reader.exact_eq_ok payloadRan with ⟨rfl, payloadSize⟩
  rw [payloadSize, toBigEndian_ofBigEndian lengthSize, List.append_assoc]
  refine ⟨rfl, ?_⟩
  by_contra long
  rw [if_pos (Nat.lt_of_not_le long)] at fits
  cases fits

/-! ## The bytes of an accepted record -/

/-- The checksummed bytes of a record whose document id stands in the log as `idText`. -/
def bodyWithId (record : NbfRecord) (idText : String) : List UInt8 :=
  nbfMagic ++ (record.headerBytes ++ (textBytes record.namespaceName ++
    (textBytes record.collection ++ (textBytes idText ++
      (toBigEndian 4 record.payload.length ++ record.payload)))))

/-- An accepted record, field by field: the id is the one in the log, trimmed. -/
theorem decode_eq_some {P : Platform} {bytes rest : List UInt8} {record : NbfRecord}
    (decoded : decode P bytes = .ok (some (record, rest))) :
    Exists fun idText => Exists fun checksum : List UInt8 =>
      DocumentId.new idText = .ok record.documentId ∧
        (utf8Bytes record.namespaceName).length ≤ 0xFFFF ∧
        (utf8Bytes record.collection).length ≤ 0xFFFF ∧ (utf8Bytes idText).length ≤ 0xFFFF ∧
        record.payload.length ≤ payloadLimit ∧ checksum.length = 4 ∧
        bytes = record.bodyWithId idText ++ (checksum ++ rest) ∧
        UInt32.ofNat (ofBigEndian checksum) = P.crc32 (nbfMagic ++ (record.headerBytes ++
          (textBytes record.namespaceName ++ (textBytes record.collection ++
            ((toBigEndian 2 (utf8Bytes idText).length ++ utf8Bytes record.documentId.asStr) ++
              (toBigEndian 4 record.payload.length ++ record.payload)))))) := by
  unfold decode at decoded
  split at decoded
  · cases decoded
  · split at decoded
    · cases decoded
    · rename_i magic
      cases ran : decodeRecord P (bytes.drop 4) with
      | error failure =>
          rw [ran] at decoded
          cases decoded
      | ok found =>
          rw [ran] at decoded
          cases decoded
          have front : bytes = nbfMagic ++ bytes.drop 4 := by
            rw [← not_ne_iff.mp magic, List.take_append_drop]
          generalize bytes.drop 4 = behind at front ran
          subst front
          rcases Reader.bind_eq_ok ran with ⟨headerBuf, _, headerRan, ran⟩
          rcases Reader.bind_eq_ok ran with ⟨header, _, headerChecked, ran⟩
          rcases Reader.bind_eq_ok ran with ⟨⟨_, namespaceName⟩, _, nsRan, ran⟩
          rcases Reader.bind_eq_ok ran with ⟨⟨_, collection⟩, _, collRan, ran⟩
          rcases Reader.bind_eq_ok ran with ⟨⟨_, idText⟩, _, idRan, ran⟩
          rcases Reader.bind_eq_ok ran with ⟨documentId, _, idChecked, ran⟩
          rcases Reader.bind_eq_ok ran with ⟨payload, _, payloadRan, ran⟩
          rcases Reader.bind_eq_ok ran with ⟨checksum, _, checksumRan, ran⟩
          rcases Reader.bind_eq_ok ran with ⟨_, _, checksumChecked, ran⟩
          rcases Reader.exact_eq_ok headerRan with ⟨rfl, headerSize⟩
          rcases Reader.check_eq_ok headerChecked with ⟨isHeader, rfl⟩
          rcases readText_eq_ok nsRan with ⟨rfl, rfl, nsFits⟩
          rcases readText_eq_ok collRan with ⟨rfl, rfl, collFits⟩
          rcases readText_eq_ok idRan with ⟨rfl, rfl, idFits⟩
          rcases Reader.check_eq_ok idChecked with ⟨isId, rfl⟩
          rcases readPayload_eq_ok payloadRan with ⟨rfl, payloadFits⟩
          rcases Reader.exact_eq_ok checksumRan with ⟨rfl, checksumSize⟩
          rcases Reader.check_eq_ok checksumChecked with ⟨matching, rfl⟩
          cases ran
          have headerIs := headerBytes_of_decodeHeader headerSize isHeader namespaceName collection
            documentId payload
          refine ⟨idText, checksum, isId, nsFits, collFits, idFits, payloadFits, checksumSize,
            ?_, ?_⟩
          · rw [bodyWithId, headerIs]
            simp only [List.append_assoc]
          · rw [headerIs]
            split at matching
            · cases matching
            · rename_i same
              exact not_ne_iff.mp same

/-! ## When they are the ones the encoder writes -/

/-- The bytes of a field behind its `u16` length. -/
def fieldBytes (bytes : List UInt8) : List UInt8 :=
  (bytes.drop 2).take (ofBigEndian (bytes.take 2))

/-- What follows the field. -/
def pastField (bytes : List UInt8) : List UInt8 :=
  (bytes.drop 2).drop (ofBigEndian (bytes.take 2))

/-- The document id as it stands in the log: the third field behind the header. -/
def storedId (bytes : List UInt8) : List UInt8 :=
  fieldBytes (pastField (pastField (bytes.drop 32)))

/-- The document id in the log has no white space at either end. -/
def IdTrimmed (bytes : List UInt8) : Prop :=
  forall text, fromUtf8 (storedId bytes) = some text -> trim text = text

/-- The bytes end with the checksum of those before it. -/
def EndsWithChecksum (P : Platform) (bytes : List UInt8) : Prop :=
  bytes.drop (bytes.length - 4) = toBigEndian 4 (P.crc32 (bytes.take (bytes.length - 4))).toNat

/-- The bytes are the encoding of the record, and end with their checksum. -/
structure Canonical (P : Platform) (record : NbfRecord) (bytes : List UInt8) : Prop where
  encoded : record.encode P = .ok bytes
  checksum : EndsWithChecksum P bytes

theorem ofBigEndian_length {text : String} (fits : (utf8Bytes text).length ≤ 0xFFFF) :
    ofBigEndian (toBigEndian 2 (utf8Bytes text).length) = (utf8Bytes text).length := by
  rw [ofBigEndian_toBigEndian]
  exact Nat.mod_eq_of_lt (by omega)

theorem fieldBytes_textBytes {text : String} (fits : (utf8Bytes text).length ≤ 0xFFFF)
    (rest : List UInt8) : fieldBytes (textBytes text ++ rest) = utf8Bytes text := by
  have size := length_toBigEndian 2 (utf8Bytes text).length
  rw [fieldBytes, textBytes, List.append_assoc, List.take_left' size, List.drop_left' size,
    ofBigEndian_length fits, List.take_left' rfl]

theorem pastField_textBytes {text : String} (fits : (utf8Bytes text).length ≤ 0xFFFF)
    (rest : List UInt8) : pastField (textBytes text ++ rest) = rest := by
  have size := length_toBigEndian 2 (utf8Bytes text).length
  rw [pastField, textBytes, List.append_assoc, List.take_left' size, List.drop_left' size,
    ofBigEndian_length fits, List.drop_left' rfl]

theorem storedId_bodyWithId {record : NbfRecord} {idText : String}
    (nsFits : (utf8Bytes record.namespaceName).length ≤ 0xFFFF)
    (collFits : (utf8Bytes record.collection).length ≤ 0xFFFF)
    (idFits : (utf8Bytes idText).length ≤ 0xFFFF) (behind : List UInt8) :
    storedId (record.bodyWithId idText ++ behind) = utf8Bytes idText := by
  have front : (nbfMagic ++ record.headerBytes).length = 32 := by
    rw [List.length_append, length_headerBytes]
    rfl
  have past (more : List UInt8) : (nbfMagic ++ (record.headerBytes ++ more)).drop 32 = more := by
    rw [← List.append_assoc, List.drop_left' front]
  rw [storedId, bodyWithId]
  simp only [List.append_assoc]
  rw [past, pastField_textBytes nsFits, pastField_textBytes collFits, fieldBytes_textBytes idFits]

theorem endsWithChecksum_frame (P : Platform) (record : NbfRecord) :
    EndsWithChecksum P (record.frame P) := by
  have length : (record.frame P).length - 4 = record.body.length := by
    rw [frame, List.length_append, length_toBigEndian, Nat.add_sub_cancel]
  rw [EndsWithChecksum, length, frame, List.drop_left' rfl, List.take_left' rfl]

/-- Encoded, a record has the canonical bytes. -/
theorem canonical_iff {P : Platform} {record : NbfRecord} {bytes : List UInt8} :
    Canonical P record bytes <-> record.Fits ∧ bytes = record.frame P := by
  constructor
  · intro canonical
    exact encode_eq_ok_iff.mp canonical.encoded
  · rintro ⟨fits, rfl⟩
    exact ⟨encode_eq_ok_iff.mpr ⟨fits, rfl⟩, endsWithChecksum_frame P record⟩

end NbfRecord

theorem asStr_of_new {text : String} {id : DocumentId} (made : DocumentId.new text = .ok id) :
    id.asStr = trim text := by
  unfold DocumentId.new at made
  dsimp only at made
  split at made
  · cases made
  · split at made <;> cases made
    rfl

/-- Of all byte strings that begin with an accepted record, under any checksum: the
bytes of the record are the ones the encoder writes, checksum included, exactly if the
document id among them is trimmed.  -/
theorem decoded_canonical_iff (P : Platform) {bytes consumed rest : List UInt8}
    {record : NbfRecord} (decoded : NbfRecord.decode P bytes = .ok (some (record, rest)))
    (parts : bytes = consumed ++ rest) :
    NbfRecord.Canonical P record consumed <-> NbfRecord.IdTrimmed bytes := by
  rcases NbfRecord.decode_eq_some decoded with
    ⟨idText, checksum, made, nsFits, collFits, idFits, payloadFits, checksumSize, whole, matching⟩
  have stored : NbfRecord.storedId bytes = utf8Bytes idText := by
    rw [whole]
    exact NbfRecord.storedId_bodyWithId nsFits collFits idFits _
  rw [NbfRecord.canonical_iff]
  constructor
  · rintro ⟨fits, rfl⟩ text isText
    have again : NbfRecord.storedId bytes = utf8Bytes record.documentId.asStr := by
      rw [parts, NbfRecord.frame, List.append_assoc]
      exact NbfRecord.storedId_bodyWithId nsFits collFits fits.documentId _
    rw [again, fromUtf8_utf8Bytes] at isText
    rw [← Option.some.inj isText]
    have sameId : idText = record.documentId.asStr := by
      have same := congrArg fromUtf8 (stored.symm.trans again)
      rw [fromUtf8_utf8Bytes, fromUtf8_utf8Bytes] at same
      exact Option.some.inj same
    have trimmedId := asStr_of_new made
    rw [sameId] at trimmedId
    exact trimmedId.symm
  · intro trimmed
    have sameId : record.documentId.asStr = idText := by
      rw [asStr_of_new made]
      apply trimmed
      rw [stored, fromUtf8_utf8Bytes]
    have body : record.bodyWithId idText = record.body := by
      rw [NbfRecord.bodyWithId, NbfRecord.body, sameId]
    have checksumIs : checksum = toBigEndian 4 (P.crc32 record.body).toNat := by
      have small : ofBigEndian checksum < 2 ^ 32 := by
        have bound := ofBigEndian_lt checksum
        rwa [checksumSize] at bound
      have calculated : UInt32.ofNat (ofBigEndian checksum) = P.crc32 record.body := by
        rw [matching]
        simp only [NbfRecord.body, NbfRecord.textBytes, sameId]
      rw [← calculated, UInt32.toNat_ofNat_of_lt' small, toBigEndian_ofBigEndian checksumSize]
    refine ⟨⟨nsFits, collFits, sameId ▸ idFits, payloadFits⟩, ?_⟩
    apply @List.append_cancel_right _ _ rest _
    rw [← parts, whole, body, checksumIs, NbfRecord.frame, List.append_assoc]

theorem decoded_canonical_sample :
    NbfRecord.decode samplePlatform (sampleRecord.frame samplePlatform ++ [0x4E]) =
        .ok (some (sampleRecord, [0x4E])) ∧
      (NbfRecord.Canonical samplePlatform sampleRecord (sampleRecord.frame samplePlatform) <->
        NbfRecord.IdTrimmed (sampleRecord.frame samplePlatform ++ [0x4E])) := by
  have decoded : NbfRecord.decode samplePlatform (sampleRecord.frame samplePlatform ++ [0x4E]) =
      .ok (some (sampleRecord, [0x4E])) :=
    NbfRecord.decode_frame samplePlatform valid_sampleRecord.fits valid_sampleRecord.built [0x4E]
  exact ⟨decoded, decoded_canonical_iff samplePlatform decoded rfl⟩

/-- A document id with a space in front of it is accepted under the checksum of
the id without the space. -/
theorem untrimmed_accepted :
    let spaced : List UInt8 := toBigEndian 2 2 ++ utf8Bytes " a"
    let checked : List UInt8 := toBigEndian 2 2 ++ utf8Bytes "a"
    let front : List UInt8 := nbfMagic ++ sampleRecord.headerBytes ++
      NbfRecord.textBytes "default" ++ NbfRecord.textBytes "users"
    let payload : List UInt8 := toBigEndian 4 0
    let bytes : List UInt8 := front ++ spaced ++ payload ++
      toBigEndian 4 (samplePlatform.crc32 (front ++ checked ++ payload)).toNat
    Exists fun record : NbfRecord =>
      NbfRecord.decode samplePlatform bytes = .ok (some (record, [])) ∧
        ¬NbfRecord.Canonical samplePlatform record bytes := by
  intro spaced checked front payload bytes
  have accepted : NbfRecord.decode samplePlatform bytes =
      .ok (some ({ sampleRecord with documentId := ⟨"a"⟩, payload := [] }, [])) := by
    decide +kernel
  refine ⟨_, accepted, fun canonical => ?_⟩
  have encoded := (NbfRecord.encode_eq_ok_iff.mp canonical.encoded).2
  exact absurd (congrArg List.length encoded) (by decide +kernel)

end Storage
end NovaDb
