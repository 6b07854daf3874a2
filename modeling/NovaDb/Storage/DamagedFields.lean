import NovaDb.Storage.CanonicalBytes
import NovaDb.Storage.Corruption

namespace NovaDb
namespace Storage

open Core Foundation WriteAheadLog RecoveryManager

/-!
# Which damage is detected

A changed byte outside the length fields leaves every field where it was, and the
checksum gives it away.  A changed length field moves the fields behind it: the
decoder then reports a torn write, which recovery repairs by dropping what follows,
exactly if the fields, as the lengths now lay them out, run past the end of the
segment with everything before that well formed.  What remains are bytes that carry
a matching checksum although they are damaged.
-/

namespace NbfRecord

/-! ## Fields that run past the end -/

/-- The field behind a `u16` length does not end within the bytes. -/
def FieldOverruns (bytes : List UInt8) : Prop :=
  bytes.length < 2 + ofBigEndian (bytes.take 2)

/-- The bytes of the field are UTF-8. -/
def FieldIsText (bytes : List UInt8) : Prop :=
  Exists fun text => fromUtf8 (fieldBytes bytes) = some text

/-- The bytes of the field are a document id. -/
def FieldIsId (bytes : List UInt8) : Prop :=
  Exists fun text => fromUtf8 (fieldBytes bytes) = some text ∧
    Exists fun id => DocumentId.new text = .ok id

/-- A payload of legal length, or the checksum behind it, does not end within the
bytes. -/
def PayloadOverruns (bytes : List UInt8) : Prop :=
  ofBigEndian (bytes.take 4) ≤ payloadLimit ∧ bytes.length < 4 + ofBigEndian (bytes.take 4) + 4

/-- The fields behind a header, where their lengths put them, run past the end of the
bytes, and those before the first that does are well formed. -/
def FieldsOverrun (bytes : List UInt8) : Prop :=
  FieldOverruns bytes ∨ FieldIsText bytes ∧
    (FieldOverruns (pastField bytes) ∨ FieldIsText (pastField bytes) ∧
      (FieldOverruns (pastField (pastField bytes)) ∨ FieldIsId (pastField (pastField bytes)) ∧
        PayloadOverruns (pastField (pastField (pastField bytes)))))

/-! ## The torn-write exits of the decoder -/

/-- A text field ends in a torn write exactly when it overruns. -/
theorem fails_readText_bind {α : Type} {field utf8Field : String}
    {next : Nat × String -> Reader NovaError α} {bytes : List UInt8} :
    Reader.Fails IsTorn (readText field utf8Field >>= next) bytes <->
      FieldOverruns bytes ∨ Exists fun text => fromUtf8 (fieldBytes bytes) = some text ∧
        Reader.Fails IsTorn (next (ofBigEndian (bytes.take 2), text)) (pastField bytes) := by
  unfold readText
  simp only [bind_assoc, pure_bind]
  rw [Reader.fails_exact_bind (isTorn_tornWrite _), Reader.fails_exact_bind (isTorn_tornWrite _),
    Reader.fails_check_bind, List.length_drop]
  case other =>
    intro failure invalid torn
    split at invalid <;> cases invalid
    cases torn
  unfold FieldOverruns fieldBytes pastField
  constructor
  · rintro (short | ⟨enough, short | ⟨inside, text, valid, failed⟩⟩)
    · exact Or.inl (by omega)
    · exact Or.inl (by omega)
    · refine Or.inr ⟨text, ?_, failed⟩
      split at valid
      · rename_i isText
        rw [isText, Except.ok.inj valid]
      · cases valid
  · rintro (overruns | ⟨text, isText, failed⟩)
    · omega
    · by_cases overruns : bytes.length < 2 + ofBigEndian (bytes.take 2)
      · omega
      · refine Or.inr ⟨by omega, Or.inr ⟨by omega, text, ?_, failed⟩⟩
        rw [isText]

theorem fails_readPayload_bind {α : Type} {next : List UInt8 -> Reader NovaError α}
    {bytes : List UInt8}
    (behind : forall payload rest, Reader.Fails IsTorn (next payload) rest <-> rest.length < 4) :
    Reader.Fails IsTorn (readPayload >>= next) bytes <-> PayloadOverruns bytes := by
  have untorn : forall (count : Nat) (failure : NovaError),
      (if payloadLimit < count then .error (NovaError.walCorrupted "Payload length exceeds limit")
        else .ok () : Except NovaError Unit) = .error failure -> ¬IsTorn failure := by
    intro count failure refused torn
    split at refused <;> cases refused
    cases torn
  have small : (bytes.take 4).length < 4 -> ofBigEndian (bytes.take 4) ≤ payloadLimit := by
    intro short
    have bound := ofBigEndian_lt (bytes.take 4)
    have power : 256 ^ (bytes.take 4).length ≤ 256 ^ 3 := Nat.pow_le_pow_right (by decide) (by omega)
    have limit : 256 ^ 3 ≤ payloadLimit := by decide
    omega
  unfold readPayload
  simp only [bind_assoc]
  rw [Reader.fails_exact_bind (isTorn_tornWrite _), Reader.fails_check_bind (untorn _)]
  simp only [Reader.fails_exact_bind (isTorn_tornWrite _), behind, List.length_drop]
  rw [List.length_take] at small
  unfold PayloadOverruns
  constructor
  · rintro (short | ⟨enough, _, accepted, short⟩)
    · exact ⟨small (by omega), by omega⟩
    · refine ⟨?_, by omega⟩
      by_contra long
      rw [if_pos (Nat.lt_of_not_le long)] at accepted
      cases accepted
  · rintro ⟨fits, overruns⟩
    by_cases short : bytes.length < 4
    · exact Or.inl short
    · exact Or.inr ⟨by omega, (), if_neg (Nat.not_lt_of_le fits), by omega⟩

/-- Behind the payload only the checksum can be missing. -/
theorem fails_checksum {α : Type} {calculated : UInt32} {value : α} {rest : List UInt8} :
    Reader.Fails IsTorn (do
      let checksumBytes <- Reader.exact 4 (tornWrite "Torn write in checksum")
      Reader.check <|
        if UInt32.ofNat (ofBigEndian checksumBytes) ≠ calculated then
          .error (NovaError.checksumMismatch (UInt32.ofNat (ofBigEndian checksumBytes)) calculated)
        else .ok ()
      pure value) rest <-> rest.length < 4 := by
  rw [Reader.fails_exact_bind (isTorn_tornWrite _), Reader.fails_check_bind]
  case other =>
    intro failure mismatch torn
    split at mismatch <;> cases mismatch
    cases torn
  refine or_iff_left ?_
  rintro ⟨_, _, _, failed⟩
  exact Reader.not_fails_pure failed

theorem decodeHeader_untorn {header : List UInt8} {failure : NovaError}
    (refused : decodeHeader header = .error failure) : ¬IsTorn failure := by
  intro torn
  unfold decodeHeader at refused
  dsimp only at refused
  split at refused
  · cases refused
    cases torn
  · split at refused
    · rename_i unknown
      cases refused
      unfold RecordType.fromU8 at unknown
      repeat' split at unknown
      all_goals cases unknown
      cases torn
    · cases refused

theorem new_untorn {text : String} {failure : NovaError}
    (refused : DocumentId.new text = .error failure) : ¬IsTorn failure := by
  intro torn
  unfold DocumentId.new at refused
  dsimp only at refused
  split at refused
  · cases refused
    cases torn
  · split at refused <;> cases refused
    cases torn

/-- Behind an acceptable header, a torn write is reported exactly when the fields
overrun. -/
theorem fails_decodeRecord {P : Platform} {bytes : List UInt8} (long : 28 ≤ bytes.length) :
    Reader.Fails IsTorn (decodeRecord P) bytes <->
      (Exists fun header => decodeHeader (bytes.take 28) = .ok header) ∧
        FieldsOverrun (bytes.drop 28) := by
  unfold decodeRecord
  rw [Reader.fails_exact_bind (isTorn_withDetails _ _),
    Reader.fails_check_bind fun _ refused => decodeHeader_untorn refused]
  simp only [fails_readText_bind, Reader.fails_check_bind fun _ refused => new_untorn refused]
  unfold FieldsOverrun FieldIsText FieldIsId
  constructor
  · rintro (short | ⟨_, header, isHeader, overruns⟩)
    · omega
    refine ⟨⟨header, isHeader⟩, ?_⟩
    rcases overruns with first | ⟨ns, isNs, second | ⟨coll, isColl, third | ⟨text, isText, id, isId,
      failed⟩⟩⟩
    · exact Or.inl first
    · exact Or.inr ⟨⟨ns, isNs⟩, Or.inl second⟩
    · exact Or.inr ⟨⟨ns, isNs⟩, Or.inr ⟨⟨coll, isColl⟩, Or.inl third⟩⟩
    · have last := (fails_readPayload_bind fun payload rest => fails_checksum).mp failed
      exact Or.inr ⟨⟨ns, isNs⟩, Or.inr ⟨⟨coll, isColl⟩, Or.inr ⟨⟨text, isText, id, isId⟩, last⟩⟩⟩
  · rintro ⟨⟨header, isHeader⟩, overruns⟩
    refine Or.inr ⟨long, header, isHeader, ?_⟩
    rcases overruns with first | ⟨⟨ns, isNs⟩, second | ⟨⟨coll, isColl⟩, third | ⟨⟨text, isText, id,
      isId⟩, last⟩⟩⟩
    · exact Or.inl first
    · exact Or.inr ⟨ns, isNs, Or.inl second⟩
    · exact Or.inr ⟨ns, isNs, Or.inr ⟨coll, isColl, Or.inl third⟩⟩
    · refine Or.inr ⟨ns, isNs, Or.inr ⟨coll, isColl, Or.inr ⟨text, isText, id, isId, ?_⟩⟩⟩
      exact (fails_readPayload_bind fun payload rest => fails_checksum).mpr last

/-- ... and so by the decoder. -/
theorem decode_torn_iff {P : Platform} {bytes : List UInt8} (long : 32 ≤ bytes.length) :
    (Exists fun failure => decode P bytes = .error failure ∧ IsTorn failure) <->
      bytes.take 4 = nbfMagic ∧
        (Exists fun header => decodeHeader ((bytes.drop 4).take 28) = .ok header) ∧
          FieldsOverrun (bytes.drop 32) := by
  have enough : ¬bytes.length < 4 := by omega
  have behind : 28 ≤ (bytes.drop 4).length := by
    rw [List.length_drop]
    omega
  have fields : (bytes.drop 4).drop 28 = bytes.drop 32 := List.drop_drop
  rw [← fields, ← @fails_decodeRecord P _ behind, decode, if_neg enough]
  split
  · rename_i foreign
    refine iff_of_false ?_ (fun both => foreign both.1)
    rintro ⟨failure, failed, torn⟩
    cases failed
    cases torn
  · rename_i starts
    rw [and_iff_right (not_not.mp starts)]
    unfold Reader.Fails
    cases decodeRecord P (bytes.drop 4) with
    | error failure =>
        constructor
        · rintro ⟨_, failed, torn⟩
          cases failed
          exact ⟨failure, rfl, torn⟩
        · rintro ⟨_, failed, torn⟩
          cases failed
          exact ⟨failure, rfl, torn⟩
    | ok found =>
        refine iff_of_false ?_ ?_
        · rintro ⟨_, failed, _⟩
          cases failed
        · rintro ⟨_, failed, _⟩
          cases failed

/-! ## Where the length fields of a record are -/

/-- Where the length of the collection stands: behind the namespace. -/
def collectionAt (record : NbfRecord) : Nat :=
  34 + (utf8Bytes record.namespaceName).length

def documentIdAt (record : NbfRecord) : Nat :=
  record.collectionAt + 2 + (utf8Bytes record.collection).length

def payloadAt (record : NbfRecord) : Nat :=
  record.documentIdAt + 2 + (utf8Bytes record.documentId.asStr).length

/-- The byte is one of the length fields: of the namespace, the collection, the
document id or the payload. -/
def LengthByte (record : NbfRecord) (offset : Nat) : Prop :=
  32 ≤ offset ∧ offset < 34 ∨
    record.collectionAt ≤ offset ∧ offset < record.collectionAt + 2 ∨
    record.documentIdAt ≤ offset ∧ offset < record.documentIdAt + 2 ∨
    record.payloadAt ≤ offset ∧ offset < record.payloadAt + 4

/-- The bytes have the length fields of the record where the record has them, and do
not end before it does. -/
structure Aligned (record : NbfRecord) (bytes : List UInt8) : Prop where
  namespaceName : (bytes.drop 32).take 2 =
    toBigEndian 2 (utf8Bytes record.namespaceName).length
  collection : (bytes.drop record.collectionAt).take 2 =
    toBigEndian 2 (utf8Bytes record.collection).length
  documentId : (bytes.drop record.documentIdAt).take 2 =
    toBigEndian 2 (utf8Bytes record.documentId.asStr).length
  payload : (bytes.drop record.payloadAt).take 4 = toBigEndian 4 record.payload.length
  long : record.payloadAt + 4 + record.payload.length + 4 ≤ bytes.length

theorem length_textBytes (text : String) :
    (textBytes text).length = 2 + (utf8Bytes text).length := by
  rw [textBytes, List.length_append, length_toBigEndian]

theorem length_body (record : NbfRecord) :
    record.body.length = record.payloadAt + 4 + record.payload.length := by
  simp only [body, payloadAt, documentIdAt, collectionAt, List.length_append, length_textBytes,
    length_headerBytes, length_toBigEndian]
  have magic : nbfMagic.length = 4 := rfl
  omega

/-- A part of the bytes does not change with a byte outside it. -/
theorem slice_set {bytes : List UInt8} {offset start width : Nat} {byte : UInt8}
    (outside : offset < start ∨ start + width ≤ offset) :
    ((bytes.set offset byte).drop start).take width = (bytes.drop start).take width := by
  rw [List.drop_set]
  split
  · rfl
  · rw [List.take_set]
    apply List.set_eq_of_length_le
    rw [List.length_take]
    omega

theorem Aligned.set {record : NbfRecord} {bytes : List UInt8} (aligned : record.Aligned bytes)
    {offset : Nat} (outside : ¬record.LengthByte offset) (byte : UInt8) :
    record.Aligned (bytes.set offset byte) := by
  unfold LengthByte at outside
  refine ⟨?_, ?_, ?_, ?_, ?_⟩
  · rw [slice_set (by omega), aligned.namespaceName]
  · rw [slice_set (by omega), aligned.collection]
  · rw [slice_set (by omega), aligned.documentId]
  · rw [slice_set (by omega), aligned.payload]
  · rw [List.length_set]
    exact aligned.long

theorem aligned_frame (P : Platform) (record : NbfRecord) (behind : List UInt8) :
    record.Aligned (record.frame P ++ behind) := by
  have front : (nbfMagic ++ record.headerBytes).length = 32 := by
    rw [List.length_append, length_headerBytes]
    rfl
  have shape : record.frame P ++ behind = (nbfMagic ++ record.headerBytes) ++
      (textBytes record.namespaceName ++ (textBytes record.collection ++
        (textBytes record.documentId.asStr ++ (toBigEndian 4 record.payload.length ++
          (record.payload ++ (toBigEndian 4 (P.crc32 record.body).toNat ++ behind)))))) := by
    simp only [frame, body, List.append_assoc]
  have past (text : String) (bytes : List UInt8) (start : Nat) (rest : List UInt8)
      (here : bytes.drop start = textBytes text ++ rest) :
      bytes.drop (start + 2 + (utf8Bytes text).length) = rest := by
    rw [Nat.add_assoc, ← List.drop_drop, here, List.drop_left' (length_textBytes text)]
  have atNamespace := (congrArg (List.drop 32) shape).trans (List.drop_left' front)
  have atCollection := past _ _ _ _ atNamespace
  have atDocumentId := past _ _ _ _ atCollection
  have atPayload := past _ _ _ _ atDocumentId
  have width (text : String) (rest : List UInt8) :
      (textBytes text ++ rest).take 2 = toBigEndian 2 (utf8Bytes text).length := by
    rw [textBytes, List.append_assoc, List.take_left' (length_toBigEndian 2 _)]
  refine ⟨?_, ?_, ?_, ?_, ?_⟩
  · rw [atNamespace, width]
  · exact (congrArg (List.take 2) atCollection).trans (width _ _)
  · exact (congrArg (List.take 2) atDocumentId).trans (width _ _)
  · exact (congrArg (List.take 4) atPayload).trans (List.take_left' (length_toBigEndian 4 _))
  · rw [List.length_append, frame, List.length_append, length_body, length_toBigEndian]
    omega

section Alignment

variable {record : NbfRecord} {bytes : List UInt8}

theorem pastField_drop {start length : Nat} (small : length ≤ 0xFFFF)
    (isLength : (bytes.drop start).take 2 = toBigEndian 2 length) :
    pastField (bytes.drop start) = bytes.drop (start + 2 + length) ∧
      (FieldOverruns (bytes.drop start) <-> bytes.length - start < 2 + length) := by
  have number : ofBigEndian (toBigEndian 2 length) = length := by
    rw [ofBigEndian_toBigEndian]
    exact Nat.mod_eq_of_lt (by omega)
  unfold pastField FieldOverruns
  rw [isLength, number, List.drop_drop, List.drop_drop, List.length_drop]
  exact ⟨congrArg (fun place => bytes.drop place) (Nat.add_assoc _ _ _).symm, Iff.rfl⟩

/-- The fields of aligned bytes do not overrun. -/
theorem Aligned.fits (aligned : record.Aligned bytes) (fits : record.Fits) :
    ¬FieldsOverrun (bytes.drop 32) := by
  rcases pastField_drop fits.namespaceName aligned.namespaceName with ⟨pastNs, nsOverruns⟩
  rcases pastField_drop fits.collection aligned.collection with ⟨pastColl, collOverruns⟩
  rcases pastField_drop fits.documentId aligned.documentId with ⟨pastId, idOverruns⟩
  have long := aligned.long
  have number : ofBigEndian (toBigEndian 4 record.payload.length) = record.payload.length := by
    have limit := fits.payload
    unfold payloadLimit at limit
    rw [ofBigEndian_toBigEndian]
    exact Nat.mod_eq_of_lt (by omega)
  have payloadFits : ¬PayloadOverruns (bytes.drop record.payloadAt) := by
    rintro ⟨_, overruns⟩
    rw [aligned.payload, number, List.length_drop] at overruns
    omega
  have toCollection : pastField (bytes.drop 32) = bytes.drop record.collectionAt := pastNs
  have toId : pastField (bytes.drop record.collectionAt) = bytes.drop record.documentIdAt := pastColl
  have toPayload : pastField (bytes.drop record.documentIdAt) = bytes.drop record.payloadAt := pastId
  unfold FieldsOverrun
  rw [toCollection, toId, toPayload, nsOverruns, collOverruns, idOverruns]
  unfold payloadAt documentIdAt collectionAt at long ⊢
  rintro (first | ⟨_, second | ⟨_, third | ⟨_, last⟩⟩⟩)
  · omega
  · omega
  · omega
  · exact payloadFits last

/-- Aligned bytes that hold a record hold one of the same size. -/
theorem Aligned.same_size (aligned : record.Aligned bytes) (fits : record.Fits)
    {other : NbfRecord} {idText : String} {rest : List UInt8}
    (nsFits : (utf8Bytes other.namespaceName).length ≤ 0xFFFF)
    (collFits : (utf8Bytes other.collection).length ≤ 0xFFFF)
    (idFits : (utf8Bytes idText).length ≤ 0xFFFF) (payloadFits : other.payload.length ≤ payloadLimit)
    (holds : bytes = other.bodyWithId idText ++ rest) :
    (other.bodyWithId idText).length = record.body.length := by
  have front : (nbfMagic ++ other.headerBytes).length = 32 := by
    rw [List.length_append, length_headerBytes]
    rfl
  have behind : bytes.drop 32 = textBytes other.namespaceName ++ (textBytes other.collection ++
      (textBytes idText ++ (toBigEndian 4 other.payload.length ++ (other.payload ++ rest)))) := by
    rw [holds, bodyWithId]
    simp only [List.append_assoc]
    rw [← List.append_assoc, List.drop_left' front]
  have sameLength {start length : Nat} (small : length ≤ 0xFFFF) {text : String}
      (textFits : (utf8Bytes text).length ≤ 0xFFFF) {rest : List UInt8}
      (isLength : (bytes.drop start).take 2 = toBigEndian 2 length)
      (here : bytes.drop start = textBytes text ++ rest) :
      (utf8Bytes text).length = length ∧ bytes.drop (start + 2 + length) = rest := by
    have width : (bytes.drop start).take 2 = toBigEndian 2 (utf8Bytes text).length := by
      rw [here, textBytes, List.append_assoc, List.take_left' (length_toBigEndian 2 _)]
    have numbers := congrArg ofBigEndian (width.symm.trans isLength)
    rw [ofBigEndian_length textFits, ofBigEndian_toBigEndian, Nat.mod_eq_of_lt (by omega)] at numbers
    refine ⟨numbers, ?_⟩
    rw [← (pastField_drop small isLength).1, here, pastField_textBytes textFits]
  rcases sameLength fits.namespaceName nsFits aligned.namespaceName behind with ⟨sameNs, atColl⟩
  rcases sameLength fits.collection collFits aligned.collection atColl with ⟨sameColl, atId⟩
  rcases sameLength fits.documentId idFits aligned.documentId atId with ⟨sameId, atPayload⟩
  have samePayload : other.payload.length = record.payload.length := by
    have width : (bytes.drop record.payloadAt).take 4 = toBigEndian 4 other.payload.length := by
      change (bytes.drop (record.documentIdAt + 2 + _)).take 4 = _
      rw [atPayload, List.take_left' (length_toBigEndian 4 _)]
    have numbers := congrArg ofBigEndian (width.symm.trans aligned.payload)
    have limit := fits.payload
    unfold payloadLimit at limit payloadFits
    rwa [ofBigEndian_toBigEndian, ofBigEndian_toBigEndian, Nat.mod_eq_of_lt (by omega),
      Nat.mod_eq_of_lt (by omega)] at numbers
  simp only [bodyWithId, body, List.length_append, length_textBytes, length_headerBytes,
    length_toBigEndian, sameNs, sameColl, sameId, samePayload]

end Alignment

/-! ## Bytes that still carry their checksum -/

/-- The bytes hold a record, where their length fields put its fields, with the
checksum behind it that the decoder calculates: over the id as `DocumentId::new`
gives it. -/
def Attested (P : Platform) (bytes : List UInt8) : Prop :=
  Exists fun record : NbfRecord => Exists fun idText => Exists fun checksum : List UInt8 =>
    Exists fun rest => DocumentId.new idText = .ok record.documentId ∧
      (utf8Bytes record.namespaceName).length ≤ 0xFFFF ∧
      (utf8Bytes record.collection).length ≤ 0xFFFF ∧ (utf8Bytes idText).length ≤ 0xFFFF ∧
      record.payload.length ≤ payloadLimit ∧ checksum.length = 4 ∧
      bytes = record.bodyWithId idText ++ (checksum ++ rest) ∧
      UInt32.ofNat (ofBigEndian checksum) = P.crc32 (nbfMagic ++ (record.headerBytes ++
        (textBytes record.namespaceName ++ (textBytes record.collection ++
          ((toBigEndian 2 (utf8Bytes idText).length ++ utf8Bytes record.documentId.asStr) ++
            (toBigEndian 4 record.payload.length ++ record.payload))))))

/-- The checksum tells apart bytes that differ in one place, as every CRC does.  It is
all that is supposed of the checksum here; CRC-32 has it. -/
def DetectsByte (checksum : List UInt8 -> UInt32) : Prop :=
  forall (front back : List UInt8) (old new : UInt8), old ≠ new ->
    checksum (front ++ old :: back) ≠ checksum (front ++ new :: back)

theorem DetectsByte.set {checksum : List UInt8 -> UInt32} (detects : DetectsByte checksum)
    {bytes : List UInt8} {offset : Nat} (inside : offset < bytes.length) {byte : UInt8}
    (changed : bytes[offset]? ≠ some byte) : checksum (bytes.set offset byte) ≠ checksum bytes := by
  have different : bytes[offset] ≠ byte := by
    intro same
    rw [List.getElem?_eq_getElem inside, same] at changed
    exact changed rfl
  have whole : bytes = bytes.take offset ++ bytes[offset] :: bytes.drop (offset + 1) := by
    rw [← List.drop_eq_getElem_cons inside, List.take_append_drop]
  have apart := detects (bytes.take offset) (bytes.drop (offset + 1)) _ _ different
  rw [← whole] at apart
  rw [List.set_eq_take_append_cons_drop, if_pos inside]
  exact fun same => apart same.symm

/-- The checksum is read as it was written. -/
theorem ofBigEndian_checksum (sum : UInt32) :
    UInt32.ofNat (ofBigEndian (toBigEndian 4 sum.toNat)) = sum := by
  have remainder : sum.toNat % 256 ^ 4 = sum.toNat := Nat.mod_eq_of_lt sum.toNat_lt
  rw [ofBigEndian_toBigEndian, remainder, UInt32.ofNat_toNat]

/-- A changed byte outside the length fields leaves no matching checksum, unless it
is one of the id that trimming drops. -/
theorem not_attested {P : Platform} (detects : DetectsByte P.crc32) {record : NbfRecord}
    (fits : record.Fits) {behind : List UInt8} {offset : Nat}
    (inside : offset < (record.frame P).length) {byte : UInt8}
    (changed : (record.frame P)[offset]? ≠ some byte) (outside : ¬record.LengthByte offset)
    (trimmed : IdTrimmed ((record.frame P).set offset byte ++ behind)) :
    ¬Attested P ((record.frame P).set offset byte ++ behind) := by
  rintro ⟨other, idText, checksum, rest, made, nsFits, collFits, idFits, payloadFits, four, holds,
    matching⟩
  have aligned : record.Aligned ((record.frame P).set offset byte ++ behind) := by
    have moved := (aligned_frame P record behind).set outside byte
    rwa [List.set_append_left _ _ inside] at moved
  have size := aligned.same_size fits nsFits collFits idFits payloadFits holds
  have sameId : other.documentId.asStr = idText := by
    rw [asStr_of_new made]
    apply trimmed
    rw [holds, storedId_bodyWithId nsFits collFits idFits, fromUtf8_utf8Bytes]
  have calculated : UInt32.ofNat (ofBigEndian checksum) = P.crc32 (other.bodyWithId idText) := by
    rw [matching, sameId]
    rfl
  have damagedFrame : (record.frame P).set offset byte = other.bodyWithId idText ++ checksum := by
    rw [← List.append_assoc] at holds
    refine (List.append_inj holds ?_).1
    rw [List.length_set, frame, List.length_append, length_toBigEndian, List.length_append, four, size]
  have small : ofBigEndian checksum < 2 ^ 32 := by
    have bound := ofBigEndian_lt checksum
    rwa [four] at bound
  rw [frame] at changed damagedFrame
  rcases Nat.lt_or_ge offset record.body.length with inBody | behindBody
  · rw [List.set_append_left _ _ inBody] at damagedFrame
    rcases List.append_inj damagedFrame (by rw [List.length_set, size]) with ⟨sameBody, sameSum⟩
    rw [List.getElem?_append_left inBody] at changed
    rw [← sameBody, ← sameSum, ofBigEndian_checksum] at calculated
    exact detects.set inBody changed calculated.symm
  · rw [List.set_append_right _ _ behindBody] at damagedFrame
    rcases List.append_inj damagedFrame size.symm with ⟨sameBody, sameSum⟩
    rw [← sameBody] at calculated
    have unchanged : toBigEndian 4 (P.crc32 record.body).toNat = checksum := by
      rw [← calculated, UInt32.toNat_ofNat_of_lt' small, toBigEndian_ofBigEndian four]
    rw [List.getElem?_append_right behindBody, unchanged, ← sameSum, List.getElem?_set_self] at changed
    · exact changed rfl
    · rw [length_toBigEndian]
      rw [frame, List.length_append, length_toBigEndian] at inside
      omega

/-! ## Damage that is detected -/

/-- The changed byte is one of a length field, and the fields now run past the end of
the bytes. -/
def Overruns (record : NbfRecord) (offset : Nat) (damaged : List UInt8) : Prop :=
  record.LengthByte offset ∧ FieldsOverrun (damaged.drop 32)

/-- The changed byte is one of a length field, or leaves the id with white space at an
end, and the bytes carry a matching checksum all the same. -/
def Forged (P : Platform) (record : NbfRecord) (offset : Nat) (damaged : List UInt8) : Prop :=
  (record.LengthByte offset ∨ ¬IdTrimmed damaged) ∧ Attested P damaged

/-- The decoder comes to the end of the log only where there is no room for the magic
bytes. -/
theorem length_of_decode_none {P : Platform} {bytes : List UInt8}
    (decoded : decode P bytes = .ok none) : bytes.length < 4 := by
  unfold decode at decoded
  split at decoded
  · assumption
  · split at decoded
    · cases decoded
    · cases ran : decodeRecord P (bytes.drop 4) with
      | error failure =>
          rw [ran] at decoded
          cases decoded
      | ok result =>
          rw [ran] at decoded
          cases decoded

/-- A byte behind the header leaves the magic bytes and the header as they are. -/
theorem header_set (P : Platform) (record : NbfRecord) (behind : List UInt8) {offset : Nat}
    (behindHeader : 32 ≤ offset) (byte : UInt8) :
    ((record.frame P ++ behind).set offset byte).take 4 = nbfMagic ∧
      (((record.frame P ++ behind).set offset byte).drop 4).take 28 = record.headerBytes := by
  constructor
  · have kept := @slice_set (record.frame P ++ behind) offset 0 4 byte
      (Or.inr (Nat.le_trans (by decide) behindHeader))
    refine kept.trans ?_
    rw [frame_eq, List.append_assoc]
    rfl
  · rw [slice_set (Or.inr behindHeader), frame_eq, afterMagic]
    simp only [List.append_assoc]
    exact List.take_left' (length_headerBytes record)

/-- A damaged record does not decode, and is taken for a torn write exactly when it
overruns. -/
theorem decode_damaged {P : Platform} (detects : DetectsByte P.crc32) {record : NbfRecord}
    (fits : record.Fits) {behind : List UInt8} {offset : Nat}
    (inside : offset < (record.frame P).length) {byte : UInt8}
    (changed : (record.frame P)[offset]? ≠ some byte)
    (unforged : ¬record.Forged P offset ((record.frame P).set offset byte ++ behind)) :
    Exists fun failure =>
      decode P ((record.frame P).set offset byte ++ behind) = .error failure ∧
        (IsTorn failure <->
          record.Overruns offset ((record.frame P).set offset byte ++ behind)) := by
  have asSet : (record.frame P).set offset byte ++ behind =
      (record.frame P ++ behind).set offset byte := (List.set_append_left _ _ inside).symm
  have aligned := aligned_frame P record behind
  have long : 36 ≤ ((record.frame P).set offset byte ++ behind).length := by
    have whole := aligned.long
    unfold payloadAt documentIdAt collectionAt at whole
    rw [asSet, List.length_set]
    omega
  cases decoded : decode P ((record.frame P).set offset byte ++ behind) with
  | error failure =>
      refine ⟨failure, rfl, ?_⟩
      have torn := @decode_torn_iff P ((record.frame P).set offset byte ++ behind) (by omega)
      rw [decoded] at torn
      constructor
      · intro isTorn
        have overruns := (torn.mp ⟨failure, rfl, isTorn⟩).2.2
        refine ⟨?_, overruns⟩
        by_contra outside
        rw [asSet] at overruns
        exact (aligned.set outside byte).fits fits overruns
      · rintro ⟨isLength, overruns⟩
        have behindHeader : 32 ≤ offset := by
          unfold LengthByte payloadAt documentIdAt collectionAt at isLength
          omega
        rcases header_set P record behind behindHeader byte with ⟨starts, header⟩
        rw [← asSet] at starts header
        rcases torn.mpr ⟨starts, ⟨_, header ▸ decodeHeader_headerBytes record⟩, overruns⟩ with
          ⟨_, same, isTorn⟩
        cases same
        exact isTorn
  | ok found =>
      cases found with
      | none =>
          have short := length_of_decode_none decoded
          omega
      | some pair =>
          rcases pair with ⟨other, rest⟩
          rcases decode_eq_some decoded with ⟨idText, checksum, parts⟩
          have attested : Attested P ((record.frame P).set offset byte ++ behind) :=
            ⟨other, idText, checksum, rest, parts⟩
          have outside : ¬record.LengthByte offset :=
            fun isLength => unforged ⟨Or.inl isLength, attested⟩
          have trimmed : IdTrimmed ((record.frame P).set offset byte ++ behind) := by
            by_contra untrimmed
            exact unforged ⟨Or.inr untrimmed, attested⟩
          exact absurd attested (not_attested detects fits inside changed outside trimmed)

end NbfRecord

/-- A changed byte of a record, whichever segment the record is in and whatever
follows it, is detected exactly unless it is one of a length field that now makes the
fields run past the end of the segment.  Only bytes that carry a matching checksum
although they are damaged are left out, which takes a changed length or an id byte
that trimming drops. -/
theorem damageDetected_iff {P : Platform} (detects : NbfRecord.DetectsByte P.crc32) {dir : WalDir}
    {before after : Layout} {segment : Segment}
    (intact : Intact P dir.files (before ++ [segment] ++ after)) {front back : List NbfRecord}
    {record : NbfRecord} (split : segment.records = front ++ record :: back) {offset : Nat}
    (inside : offset < (record.frame P).length) {byte : UInt8}
    (changed : (record.frame P)[offset]? ≠ some byte)
    (unforged : ¬record.Forged P offset ((record.frame P).set offset byte ++ frames P back)) :
    DamageDetected P dir (dir.overwrite segment.index
        (frames P front ++ ((record.frame P).set offset byte ++ frames P back))) <->
      ¬record.Overruns offset ((record.frame P).set offset byte ++ frames P back) := by
  have nonempty : (record.frame P).set offset byte ++ frames P back ≠ [] := by
    intro empty
    have lengths := congrArg List.length empty
    rw [List.length_append, List.length_set, List.length_nil] at lengths
    omega
  have allRecords : Layout.records (before ++ [segment] ++ after) =
      (before.records ++ front) ++ (record :: back ++ after.records) := by
    rw [Layout.records_append, Layout.records_append, Layout.records_singleton, split]
    simp only [List.append_assoc]
  have valid := intact.valid
  rw [allRecords] at valid
  have isValid : record.Valid P := valid record (by simp)
  have earlierValid : AllValid P (before.records ++ front) :=
    fun other member => valid other (List.mem_append_left _ member)
  rcases replayFrom_ok earlierValid RecoveredState.new with ⟨reached, replayed, _⟩
  rcases NbfRecord.decode_damaged detects isValid.fits inside changed unforged with
    ⟨failure, decoded, torn⟩
  rw [damageDetected_iff_caught intact split nonempty, Caught, readRecords_error decoded,
    List.append_nil, replay, replayed]
  exact not_congr torn

/-- An insert and a delete in one segment. -/
def samplePair : Segment := ⟨0, [sampleRecord, sampleDelete.record 2 0], []⟩

theorem intact_samplePair :
    Intact samplePlatform (sampleDir samplePair).files ([] ++ [samplePair] ++ []) := by
  refine ⟨holds_sampleDir samplePair, ?_, ?_⟩
  · intro record member
    rcases List.mem_pair.mp member with rfl | rfl
    · exact valid_sampleRecord
    · refine legal_sampleDelete.valid ⟨?_, ?_, ?_, ?_⟩
      all_goals decide +kernel
  · intro segment member
    rw [List.mem_singleton.mp member]
    rfl

/-- A changed byte of the payload is reported. -/
theorem damageDetected_payload :
    DamageDetected samplePlatform (sampleDir samplePair) ((sampleDir samplePair).overwrite 0
      (frames samplePlatform [] ++ ((sampleRecord.frame samplePlatform).set 60 0 ++
        frames samplePlatform [sampleDelete.record 2 0]))) := by
  have outside : ¬sampleRecord.LengthByte 60 := by
    unfold NbfRecord.LengthByte NbfRecord.payloadAt NbfRecord.documentIdAt NbfRecord.collectionAt
    decide +kernel
  have stored : NbfRecord.storedId ((sampleRecord.frame samplePlatform).set 60 0 ++
      frames samplePlatform [sampleDelete.record 2 0]) = utf8Bytes "a" := by decide +kernel
  have trimmed : NbfRecord.IdTrimmed ((sampleRecord.frame samplePlatform).set 60 0 ++
      frames samplePlatform [sampleDelete.record 2 0]) := by
    intro text isText
    rw [stored, fromUtf8_utf8Bytes] at isText
    cases isText
    decide +kernel
  refine (@damageDetected_iff samplePlatform
    (fun front back _ _ different => crc32_ne front back different) (sampleDir samplePair) [] []
    samplePair intact_samplePair [] [sampleDelete.record 2 0] sampleRecord rfl 60 (by decide +kernel)
    0 (by decide +kernel) ?_).mpr (fun overruns => outside overruns.1)
  rintro ⟨isLength | untrimmed, _⟩
  · exact outside isLength
  · exact untrimmed trimmed

/-- A larger payload length makes the decoder run past the end of the segment:
recovery answers `Ok` without the damaged record and the one behind it. -/
theorem payload_length_damage_undetected :
    let damaged := (sampleDir samplePair).overwrite 0
      (frames samplePlatform [] ++ ((sampleRecord.frame samplePlatform).set 54 255 ++
        frames samplePlatform [sampleDelete.record 2 0]))
    ((recover samplePlatform damaged).2.map RecoveredState.recordsReplayed).toOption = some 0 ∧
      ¬ DamageDetected samplePlatform (sampleDir samplePair) damaged := by
  refine ⟨by decide +kernel, ?_⟩
  intro detected
  have decoded : NbfRecord.decode samplePlatform ((sampleRecord.frame samplePlatform).set 54 255 ++
      frames samplePlatform [sampleDelete.record 2 0]) =
        .error (NbfRecord.tornWrite "Torn write in payload") := by decide +kernel
  have caught := (@damageDetected_iff_caught samplePlatform (sampleDir samplePair) [] [] samplePair
    intact_samplePair [] _ rfl _ (by decide +kernel)).mp detected
  unfold Caught at caught
  rw [readRecords_error decoded] at caught
  exact caught rfl

end Storage
end NovaDb
