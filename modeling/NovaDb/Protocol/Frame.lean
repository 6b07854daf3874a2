import NovaDb.Core.Error
import NovaDb.Foundation.BigEndian
import NovaDb.Foundation.Framing

namespace NovaDb
namespace Protocol

open Core Foundation

/-!
# NVP frames

The binary frame of the network protocol: a header of 20 bytes, the payload and a
CRC32 checksum of both.  The checksum is any function of the bytes.
-/

/-- NVP protocol magic bytes: "NVP1". -/
def nvpMagic : List UInt8 := [0x4E, 0x56, 0x50, 0x31]

/-- Current NVP protocol version. -/
def nvpVersion : Nat := 1

/-- 4 (magic) + 2 (version) + 1 (type) + 1 (flags) + 8 (request id) + 4 (payload length). -/
def nvpHeaderSize : Nat := 20

def nvpChecksumSize : Nat := 4

/-- Maximum allowed frame payload size. -/
def maxFramePayloadSize : Nat := 16 * 1024 * 1024

/-- Frame types supported by NVP. -/
inductive FrameType where
  | request
  | response
  | event
  | error
  | ping
  | pong
  deriving DecidableEq, Repr

namespace FrameType

def toU8 : FrameType -> UInt8
  | .request => 0x01
  | .response => 0x02
  | .event => 0x03
  | .error => 0x04
  | .ping => 0x05
  | .pong => 0x06

def fromU8 (byte : UInt8) : Except NovaError FrameType :=
  if byte = 0x01 then .ok .request
  else if byte = 0x02 then .ok .response
  else if byte = 0x03 then .ok .event
  else if byte = 0x04 then .ok .error
  else if byte = 0x05 then .ok .ping
  else if byte = 0x06 then .ok .pong
  else .error (NovaError.protocol ("Unknown NVP frame type: 0x" ++ upperHex 2 byte.toNat))

theorem fromU8_toU8 (frameType : FrameType) : fromU8 frameType.toU8 = .ok frameType := by
  cases frameType <;> rfl

theorem toU8_of_fromU8 {byte : UInt8} {frameType : FrameType}
    (known : fromU8 byte = .ok frameType) : frameType.toU8 = byte := by
  unfold fromU8 at known
  repeat' split at known
  all_goals cases known
  all_goals symm
  all_goals assumption

end FrameType

/-- A complete binary network frame in the NOVA Protocol. -/
structure NvpFrame where
  frameType : FrameType
  flags : UInt8
  requestId : UInt64
  payload : List UInt8
  deriving DecidableEq, Repr

/-- The fields of the fixed header. -/
structure FrameHeader where
  frameType : FrameType
  flags : UInt8
  requestId : UInt64
  payloadLen : Nat

namespace FrameHeader

/-- The 20 bytes of a header. -/
def bytes (header : FrameHeader) : List UInt8 :=
  nvpMagic ++ (toBigEndian 2 nvpVersion ++ (header.frameType.toU8 :: header.flags ::
    (toBigEndian 8 header.requestId.toNat ++ toBigEndian 4 header.payloadLen)))

/-- Check and interpret the 20 bytes in front of the payload. -/
def decode (src : List UInt8) : Except NovaError FrameHeader :=
  if src.take 4 ≠ nvpMagic then
    .error (NovaError.withDetails .protocolViolation "Invalid NVP magic bytes"
      ("Expected " ++ toString (nvpMagic.map UInt8.toNat) ++ ", found " ++
        toString ((src.take 4).map UInt8.toNat)))
  else
    let version := ofBigEndian ((src.drop 4).take 2)
    if version ≠ nvpVersion then
      .error (NovaError.protocol s!"Unsupported NVP version: {version}")
    else
      match FrameType.fromU8 (src.getD 6 0) with
      | .error failure => .error failure
      | .ok frameType =>
          let payloadLen := ofBigEndian ((src.drop 16).take 4)
          if maxFramePayloadSize < payloadLen then
            .error (NovaError.new .frameTooLarge
              s!"Oversized frame: declared length {payloadLen} exceeds limit {maxFramePayloadSize}")
          else
            .ok
              { frameType
                flags := src.getD 7 0
                requestId := UInt64.ofNat (ofBigEndian ((src.drop 8).take 8))
                payloadLen }

@[simp] theorem length_bytes (header : FrameHeader) : header.bytes.length = 20 := by
  simp [bytes, nvpMagic]

/-- Twenty bytes by the fields of the header. -/
theorem eq_fields {src : List UInt8} (size : src.length = 20) :
    src = src.take 4 ++ ((src.drop 4).take 2 ++ (src.getD 6 0 :: src.getD 7 0 ::
      ((src.drop 8).take 8 ++ (src.drop 16).take 4))) := by
  have last : (src.drop 16).take 4 = src.drop 16 := by
    apply List.take_of_length_le
    rw [List.length_drop, size]
  have request : (src.drop 8).take 8 ++ src.drop 16 = src.drop 8 := by
    have split := List.take_append_drop 8 (src.drop 8)
    rw [List.drop_drop] at split
    exact split
  have byte : forall index, index < 20 -> src.getD index 0 :: src.drop (index + 1) = src.drop index := by
    intro index inside
    have bound : index < src.length := by omega
    rw [List.drop_eq_getElem_cons bound, List.getD_eq_getElem?_getD, List.getElem?_eq_getElem bound,
      Option.getD_some]
  have version : (src.drop 4).take 2 ++ src.drop 6 = src.drop 4 := by
    have split := List.take_append_drop 2 (src.drop 4)
    rw [List.drop_drop] at split
    exact split
  rw [last, request, byte 7 (by omega), byte 6 (by omega), version, List.take_append_drop]

/-- A header is read back. -/
theorem decode_bytes {header : FrameHeader} (fits : header.payloadLen ≤ maxFramePayloadSize) :
    decode header.bytes = .ok header := by
  have version : ofBigEndian ((header.bytes.drop 4).take 2) = nvpVersion := rfl
  have typeAt : header.bytes.getD 6 0 = header.frameType.toU8 := rfl
  have flagsAt : header.bytes.getD 7 0 = header.flags := rfl
  have requestAt : (header.bytes.drop 8).take 8 = toBigEndian 8 header.requestId.toNat := by
    change (toBigEndian 8 header.requestId.toNat ++ toBigEndian 4 header.payloadLen).take 8 = _
    exact List.take_left' (length_toBigEndian 8 _)
  have lengthAt : (header.bytes.drop 16).take 4 = toBigEndian 4 header.payloadLen := by
    change ((toBigEndian 8 header.requestId.toNat ++ toBigEndian 4 header.payloadLen).drop 8).take 4 = _
    rw [List.drop_left' (length_toBigEndian 8 _)]
    exact List.take_of_length_le (by rw [length_toBigEndian])
  have length : ofBigEndian (toBigEndian 4 header.payloadLen) = header.payloadLen := by
    rw [ofBigEndian_toBigEndian]
    unfold maxFramePayloadSize at fits
    exact Nat.mod_eq_of_lt (by omega)
  have request : UInt64.ofNat (ofBigEndian (toBigEndian 8 header.requestId.toNat)) = header.requestId := by
    have small : header.requestId.toNat % 256 ^ 8 = header.requestId.toNat :=
      Nat.mod_eq_of_lt header.requestId.toNat_lt
    rw [ofBigEndian_toBigEndian, small, UInt64.ofNat_toNat]
  have magic : header.bytes.take 4 = nvpMagic := rfl
  simp only [decode, magic, ne_eq, not_true_eq_false, if_false, version, typeAt,
    FrameType.fromU8_toU8, flagsAt, requestAt, lengthAt, length, request,
    if_neg (Nat.not_lt_of_le fits)]

/-- Accepted bytes are the bytes of the header that was read. -/
theorem bytes_of_decode {src : List UInt8} {header : FrameHeader} (size : src.length = 20)
    (decoded : decode src = .ok header) :
    src = header.bytes ∧ header.payloadLen ≤ maxFramePayloadSize := by
  unfold decode at decoded
  split at decoded
  · cases decoded
  · rename_i magic
    dsimp only at decoded
    split at decoded
    · cases decoded
    · rename_i version
      split at decoded
      · cases decoded
      · rename_i frameType known
        split at decoded
        · cases decoded
        · rename_i fits
          cases decoded
          refine ⟨?_, Nat.le_of_not_lt fits⟩
          have versionBytes : toBigEndian 2 nvpVersion = (src.drop 4).take 2 := by
            rw [← not_not.mp version]
            apply toBigEndian_ofBigEndian
            rw [List.length_take, List.length_drop, size]
            rfl
          have requestBytes : toBigEndian 8 (UInt64.ofNat (ofBigEndian ((src.drop 8).take 8))).toNat =
              (src.drop 8).take 8 := by
            have bound := ofBigEndian_lt ((src.drop 8).take 8)
            have eight : ((src.drop 8).take 8).length = 8 := by
              rw [List.length_take, List.length_drop, size]
              rfl
            rw [eight] at bound
            rw [UInt64.toNat_ofNat_of_lt' (by exact bound)]
            exact toBigEndian_ofBigEndian eight
          have lengthBytes : toBigEndian 4 (ofBigEndian ((src.drop 16).take 4)) =
              (src.drop 16).take 4 := by
            apply toBigEndian_ofBigEndian
            rw [List.length_take, List.length_drop, size]
            rfl
          rw [bytes, requestBytes, lengthBytes, versionBytes, FrameType.toU8_of_fromU8 known,
            ← not_not.mp magic]
          exact eq_fields size

end FrameHeader

namespace NvpFrame

def header (frame : NvpFrame) : FrameHeader :=
  ⟨frame.frameType, frame.flags, frame.requestId, frame.payload.length⟩

/-- Encode a frame into a complete byte buffer with header, payload and CRC32 checksum. -/
def encode (crc32 : List UInt8 -> UInt32) (frame : NvpFrame) : Except NovaError (List UInt8) :=
  if maxFramePayloadSize < frame.payload.length then
    .error (NovaError.new .frameTooLarge
      s!"Payload size {frame.payload.length} bytes exceeds maximum allowed {maxFramePayloadSize} bytes")
  else
    let buf := frame.header.bytes ++ frame.payload
    .ok (buf ++ toBigEndian 4 (crc32 buf).toNat)

/-- Decode from a raw slice: the frame and the bytes it took, `none` if the buffer
is incomplete, or an error on corrupt or oversized frames. -/
def decodeFromSlice (crc32 : List UInt8 -> UInt32) (src : List UInt8) :
    Except NovaError (Option (NvpFrame × Nat)) :=
  if src.length < nvpHeaderSize then .ok none
  else
    match FrameHeader.decode (src.take nvpHeaderSize) with
    | .error failure => .error failure
    | .ok header =>
        let totalFrameLen := nvpHeaderSize + header.payloadLen + nvpChecksumSize
        if src.length < totalFrameLen then .ok none
        else
          let expected := UInt32.ofNat
            (ofBigEndian ((src.drop (nvpHeaderSize + header.payloadLen)).take nvpChecksumSize))
          let calculated := crc32 (src.take (nvpHeaderSize + header.payloadLen))
          if expected ≠ calculated then .error (NovaError.checksumMismatch expected calculated)
          else
            .ok (some
              ({ frameType := header.frameType
                 flags := header.flags
                 requestId := header.requestId
                 payload := (src.drop nvpHeaderSize).take header.payloadLen }, totalFrameLen))

section Decoding

variable {crc32 : List UInt8 -> UInt32}

/-- The bytes of an encodable frame. -/
def bytes (crc32 : List UInt8 -> UInt32) (frame : NvpFrame) : List UInt8 :=
  frame.header.bytes ++ frame.payload ++
    toBigEndian 4 (crc32 (frame.header.bytes ++ frame.payload)).toNat

theorem encode_eq_ok_iff {frame : NvpFrame} {encoded : List UInt8} :
    frame.encode crc32 = .ok encoded <->
      frame.payload.length ≤ maxFramePayloadSize ∧ encoded = frame.bytes crc32 := by
  unfold encode
  split
  · rename_i large
    refine iff_of_false (nofun) ?_
    rintro ⟨fits, _⟩
    exact absurd fits (Nat.not_le_of_lt large)
  · rename_i fits
    simp only [Except.ok.injEq, Nat.le_of_not_lt fits, true_and]
    exact eq_comm

theorem length_bytes (frame : NvpFrame) :
    (frame.bytes crc32).length = nvpHeaderSize + frame.payload.length + nvpChecksumSize := by
  simp [bytes, nvpHeaderSize, nvpChecksumSize, Nat.add_assoc]

/-- A slice that starts with an accepted header and is long enough. -/
theorem decodeFromSlice_of_header {src : List UInt8} {header : FrameHeader}
    (long : nvpHeaderSize ≤ src.length)
    (decoded : FrameHeader.decode (src.take nvpHeaderSize) = .ok header) :
    decodeFromSlice crc32 src =
      if src.length < nvpHeaderSize + header.payloadLen + nvpChecksumSize then .ok none
      else if UInt32.ofNat
          (ofBigEndian ((src.drop (nvpHeaderSize + header.payloadLen)).take nvpChecksumSize)) ≠
            crc32 (src.take (nvpHeaderSize + header.payloadLen)) then
        .error (NovaError.checksumMismatch
          (UInt32.ofNat
            (ofBigEndian ((src.drop (nvpHeaderSize + header.payloadLen)).take nvpChecksumSize)))
          (crc32 (src.take (nvpHeaderSize + header.payloadLen))))
      else
        .ok (some
          ({ frameType := header.frameType
             flags := header.flags
             requestId := header.requestId
             payload := (src.drop nvpHeaderSize).take header.payloadLen },
            nvpHeaderSize + header.payloadLen + nvpChecksumSize)) := by
  rw [decodeFromSlice, if_neg (Nat.not_lt_of_le long), decoded]

/-- What a decision rests on is in the buffer, so longer buffers decide the same. -/
theorem decodeFromSlice_append {src : List UInt8} (decided : decodeFromSlice crc32 src ≠ .ok none)
    (more : List UInt8) : decodeFromSlice crc32 (src ++ more) = decodeFromSlice crc32 src := by
  by_cases long : nvpHeaderSize ≤ src.length
  · have longer : nvpHeaderSize ≤ (src ++ more).length := by
      rw [List.length_append]
      omega
    have front : (src ++ more).take nvpHeaderSize = src.take nvpHeaderSize :=
      List.take_append_of_le_length long
    cases decoded : FrameHeader.decode (src.take nvpHeaderSize) with
    | error failure =>
        rw [decodeFromSlice, decodeFromSlice, if_neg (Nat.not_lt_of_le long),
          if_neg (Nat.not_lt_of_le longer), front, decoded]
    | ok header =>
        have enough : nvpHeaderSize + header.payloadLen + nvpChecksumSize ≤ src.length := by
          by_contra short
          apply decided
          rw [decodeFromSlice_of_header long decoded, if_pos (Nat.lt_of_not_le short)]
        have stillEnough : nvpHeaderSize + header.payloadLen + nvpChecksumSize ≤ (src ++ more).length := by
          rw [List.length_append]
          omega
        have body : (src ++ more).take (nvpHeaderSize + header.payloadLen) =
            src.take (nvpHeaderSize + header.payloadLen) :=
          List.take_append_of_le_length (by omega)
        have checksum : ((src ++ more).drop (nvpHeaderSize + header.payloadLen)).take nvpChecksumSize =
            (src.drop (nvpHeaderSize + header.payloadLen)).take nvpChecksumSize := by
          rw [List.drop_append_of_le_length (by omega), List.take_append_of_le_length]
          rw [List.length_drop]
          omega
        have payload : ((src ++ more).drop nvpHeaderSize).take header.payloadLen =
            (src.drop nvpHeaderSize).take header.payloadLen := by
          rw [List.drop_append_of_le_length long, List.take_append_of_le_length]
          rw [List.length_drop]
          omega
        rw [decodeFromSlice_of_header long decoded,
          decodeFromSlice_of_header longer (by rw [front]; exact decoded),
          if_neg (Nat.not_lt_of_le enough), if_neg (Nat.not_lt_of_le stillEnough), body, checksum,
          payload]
  · exact absurd (if_pos (Nat.lt_of_not_le long)) decided

/-- A frame that is produced took exactly the bytes that encode it. -/
theorem bytes_of_decodeFromSlice {src : List UInt8} {frame : NvpFrame} {count : Nat}
    (decoded : decodeFromSlice crc32 src = .ok (some (frame, count))) :
    count ≤ src.length ∧ src.take count = frame.bytes crc32 ∧
      frame.payload.length ≤ maxFramePayloadSize := by
  by_cases long : nvpHeaderSize ≤ src.length
  · cases read : FrameHeader.decode (src.take nvpHeaderSize) with
    | error failure =>
        rw [decodeFromSlice, if_neg (Nat.not_lt_of_le long), read] at decoded
        cases decoded
    | ok header =>
        rw [decodeFromSlice_of_header long read] at decoded
        split at decoded
        · cases decoded
        · rename_i enough
          split at decoded
          · cases decoded
          · rename_i matching
            cases decoded
            have size : (src.take nvpHeaderSize).length = 20 := List.length_take_of_le long
            rcases FrameHeader.bytes_of_decode size read with ⟨front, fits⟩
            have payloadSize : ((src.drop nvpHeaderSize).take header.payloadLen).length =
                header.payloadLen := by
              rw [List.length_take, List.length_drop]
              omega
            have checksumSize : ((src.drop (nvpHeaderSize + header.payloadLen)).take
                nvpChecksumSize).length = 4 := by
              rw [List.length_take, List.length_drop]
              unfold nvpChecksumSize at enough ⊢
              omega
            have checksum : toBigEndian 4 (crc32 (src.take (nvpHeaderSize + header.payloadLen))).toNat =
                (src.drop (nvpHeaderSize + header.payloadLen)).take nvpChecksumSize := by
              have bound := ofBigEndian_lt
                ((src.drop (nvpHeaderSize + header.payloadLen)).take nvpChecksumSize)
              rw [checksumSize] at bound
              rw [← not_not.mp matching, UInt32.toNat_ofNat_of_lt' (by exact bound)]
              exact toBigEndian_ofBigEndian checksumSize
            refine ⟨Nat.le_of_not_lt enough, ?_, by rw [payloadSize]; exact fits⟩
            simp only [NvpFrame.bytes, NvpFrame.header, payloadSize]
            rw [← front, ← List.take_add, checksum, ← List.take_add]
  · rw [decodeFromSlice, if_pos (Nat.lt_of_not_le long)] at decoded
    cases decoded

/-- An encoded frame is read back, whatever follows it. -/
theorem decodeFromSlice_bytes {frame : NvpFrame}
    (fits : frame.payload.length ≤ maxFramePayloadSize) (rest : List UInt8) :
    decodeFromSlice crc32 (frame.bytes crc32 ++ rest) =
      .ok (some (frame, (frame.bytes crc32).length)) := by
  have headerSize : frame.header.bytes.length = nvpHeaderSize := frame.header.length_bytes
  have bodySize : (frame.header.bytes ++ frame.payload).length =
      nvpHeaderSize + frame.header.payloadLen := by
    rw [List.length_append, headerSize]
    rfl
  have shape : frame.bytes crc32 ++ rest = frame.header.bytes ++ (frame.payload ++
      (toBigEndian 4 (crc32 (frame.header.bytes ++ frame.payload)).toNat ++ rest)) := by
    simp only [NvpFrame.bytes, List.append_assoc]
  have long : nvpHeaderSize ≤ (frame.bytes crc32 ++ rest).length := by
    rw [shape, List.length_append, headerSize]
    exact Nat.le_add_right _ _
  have front : FrameHeader.decode ((frame.bytes crc32 ++ rest).take nvpHeaderSize) =
      .ok frame.header := by
    rw [shape, List.take_left' headerSize]
    exact FrameHeader.decode_bytes fits
  have enough : ¬ (frame.bytes crc32 ++ rest).length <
      nvpHeaderSize + frame.header.payloadLen + nvpChecksumSize := by
    have total := @length_bytes crc32 frame
    rw [List.length_append, total]
    exact Nat.not_lt_of_le (Nat.le_add_right _ _)
  have body : (frame.bytes crc32 ++ rest).take (nvpHeaderSize + frame.header.payloadLen) =
      frame.header.bytes ++ frame.payload := by
    rw [shape, ← List.append_assoc]
    exact List.take_left' bodySize
  have checksum : ((frame.bytes crc32 ++ rest).drop (nvpHeaderSize + frame.header.payloadLen)).take
      nvpChecksumSize = toBigEndian 4 (crc32 (frame.header.bytes ++ frame.payload)).toNat := by
    rw [shape, ← List.append_assoc, List.drop_left' bodySize]
    exact List.take_left' (length_toBigEndian 4 _)
  have payload : ((frame.bytes crc32 ++ rest).drop nvpHeaderSize).take frame.header.payloadLen =
      frame.payload := by
    rw [shape, List.drop_left' headerSize]
    exact List.take_left
  have small : (crc32 (frame.header.bytes ++ frame.payload)).toNat % 256 ^ 4 =
      (crc32 (frame.header.bytes ++ frame.payload)).toNat :=
    Nat.mod_eq_of_lt (UInt32.toNat_lt _)
  rw [decodeFromSlice_of_header long front, if_neg enough, body, checksum, payload,
    ofBigEndian_toBigEndian, small, UInt32.ofNat_toNat, if_neg (not_not_intro rfl), length_bytes]
  rfl

end Decoding

end NvpFrame

/-! ## The codec -/

/-- An `io::Error` of kind `InvalidData`. -/
structure InvalidData where
  message : String
  deriving DecidableEq, Repr

namespace NvpCodec

/-- One call of the decoder on its buffer: the result and the buffer it leaves. -/
def decode (crc32 : List UInt8 -> UInt32) (src : List UInt8) :
    Except InvalidData (Option NvpFrame) × List UInt8 :=
  match NvpFrame.decodeFromSlice crc32 src with
  | .ok (some (frame, bytesConsumed)) => (.ok (some frame), src.drop bytesConsumed)
  | .ok none => (.ok none, src)
  | .error failure => (.error ⟨failure.display⟩, src)

/-- Append the encoding of a frame to the output buffer. -/
def encode (crc32 : List UInt8 -> UInt32) (item : NvpFrame) (dst : List UInt8) :
    Except InvalidData (List UInt8) :=
  match item.encode crc32 with
  | .ok bytes => .ok (dst ++ bytes)
  | .error failure => .error ⟨failure.display⟩

section Stream

variable {crc32 : List UInt8 -> UInt32}

/-- A call returns a frame exactly when the buffer starts with its encoding. -/
theorem decode_item_iff {src left : List UInt8} {frame : NvpFrame} :
    decode crc32 src = (.ok (some frame), left) <->
      Exists fun bytes => frame.encode crc32 = .ok bytes ∧ src = bytes ++ left := by
  constructor
  · intro decoded
    unfold decode at decoded
    split at decoded
    · rename_i found count isFrame
      cases decoded
      rcases NvpFrame.bytes_of_decodeFromSlice isFrame with ⟨_, taken, fits⟩
      refine ⟨_, NvpFrame.encode_eq_ok_iff.mpr ⟨fits, rfl⟩, ?_⟩
      rw [← taken, List.take_append_drop]
    · cases decoded
    · cases decoded
  · rintro ⟨bytes, encoded, rfl⟩
    rcases NvpFrame.encode_eq_ok_iff.mp encoded with ⟨fits, rfl⟩
    rw [decode, NvpFrame.decodeFromSlice_bytes fits]
    dsimp only
    rw [List.drop_left]

/-- A call that waits or fails leaves the buffer as it is. -/
theorem decode_left {src left : List UInt8} {result : Except InvalidData (Option NvpFrame)}
    (decoded : decode crc32 src = (result, left)) (noFrame : forall frame, result ≠ .ok (some frame)) :
    left = src := by
  unfold decode at decoded
  split at decoded <;> cases decoded
  · exact absurd rfl (noFrame _)
  · rfl
  · rfl

theorem decode_error_append {src left : List UInt8} {failure : InvalidData}
    (decoded : decode crc32 src = (.error failure, left)) (more : List UInt8) :
    decode crc32 (src ++ more) = (.error failure, left ++ more) := by
  have same := decode_left decoded (nofun)
  subst same
  unfold decode at decoded ⊢
  split at decoded
  · cases decoded
  · cases decoded
  · rename_i reason isError
    rw [NvpFrame.decodeFromSlice_append (by rw [isError]; exact nofun), isError]
    cases decoded
    rfl

theorem encode_length_pos {frame : NvpFrame} {bytes : List UInt8}
    (encoded : frame.encode crc32 = .ok bytes) : 0 < bytes.length := by
  rcases NvpFrame.encode_eq_ok_iff.mp encoded with ⟨_, rfl⟩
  rw [NvpFrame.length_bytes]
  exact Nat.succ_pos _

/-- The codec as a decoder of streams. -/
def decoder (crc32 : List UInt8 -> UInt32) : FrameDecoder InvalidData UInt8 NvpFrame where
  decode := decode crc32
  decode_nil := rfl
  shrinks := by
    intro buffer frame left decoded
    rcases decode_item_iff.mp decoded with ⟨bytes, encoded, rfl⟩
    have positive := encode_length_pos encoded
    rw [List.length_append]
    omega
  waits := fun decoded => decode_left decoded (nofun)
  final_item := by
    intro buffer frame left decoded more
    rcases decode_item_iff.mp decoded with ⟨bytes, encoded, rfl⟩
    exact decode_item_iff.mpr ⟨bytes, encoded, List.append_assoc _ _ _⟩
  final_error := fun decoded => decode_error_append decoded

/-- Frames and the bytes that encode them. -/
def Encodes (crc32 : List UInt8 -> UInt32) (frame : NvpFrame) (bytes : List UInt8) : Prop :=
  frame.encode crc32 = .ok bytes

/-- The frames drained from a buffer took their encodings off its front. -/
theorem drain_encodings (buffer : List UInt8) :
    Exists fun encodings => Exists fun rest =>
      List.Forall₂ (Encodes crc32) ((decoder crc32).drain buffer).items encodings ∧
        buffer = encodings.flatten ++ rest ∧
        forall left, ((decoder crc32).drain buffer).ending = .ok left -> left = rest := by
  induction buffer using FrameDecoder.drain_induction (decoder crc32) with
  | item buffer frame left decoded ih =>
      rcases ih with ⟨encodings, rest, encode, splits, ending⟩
      rcases decode_item_iff.mp decoded with ⟨bytes, encoded, rfl⟩
      rw [FrameDecoder.drain_item decoded]
      refine ⟨bytes :: encodings, rest, .cons encoded encode, ?_, ending⟩
      rw [List.flatten_cons, List.append_assoc, ← splits]
  | wait buffer left decoded =>
      rw [FrameDecoder.drain_wait decoded]
      exact ⟨[], buffer, .nil, rfl, fun left same => (Except.ok.inj same).symm⟩
  | error buffer failure left decoded =>
      rw [FrameDecoder.drain_error decoded]
      exact ⟨[], buffer, .nil, rfl, (nofun)⟩

/-- Encoded frames are read back and nothing is left. -/
theorem drain_flatten {frames : List NvpFrame} {encodings : List (List UInt8)}
    (encode : List.Forall₂ (Encodes crc32) frames encodings) :
    (decoder crc32).drain encodings.flatten = ⟨frames, .ok []⟩ := by
  induction encode with
  | nil => exact FrameDecoder.drain_wait (decoder crc32).decode_nil
  | cons first others ih =>
      rw [List.flatten_cons, FrameDecoder.drain_item (decode_item_iff.mpr ⟨_, first, rfl⟩), ih]

/-- NVP framing is exact and independent of chunking.  However the bytes arrive, the
decoder reads the same frames; what it reads is what the encoder writes; what it has
consumed is the frames and nothing else; and a concatenation of encodings is read as
those frames, with nothing left over.  -/
theorem framing_exact (crc32 : List UInt8 -> UInt32) :
    (forall chunks : List (List UInt8),
      (decoder crc32).feed chunks = (decoder crc32).feed [chunks.flatten]) ∧
    (forall (src left : List UInt8) (frame : NvpFrame),
      decode crc32 src = (.ok (some frame), left) ->
        Exists fun bytes => frame.encode crc32 = .ok bytes ∧ src = bytes ++ left) ∧
    (forall chunks : List (List UInt8), Exists fun encodings => Exists fun rest =>
      List.Forall₂ (Encodes crc32) ((decoder crc32).feed chunks).items encodings ∧
        chunks.flatten = encodings.flatten ++ rest ∧
        forall left, ((decoder crc32).feed chunks).ending = .ok left -> left = rest) ∧
    (forall (frames : List NvpFrame) (encodings chunks : List (List UInt8)),
      List.Forall₂ (Encodes crc32) frames encodings -> chunks.flatten = encodings.flatten ->
        (decoder crc32).feed chunks = ⟨frames, .ok []⟩) := by
  refine ⟨?_, fun src left frame => decode_item_iff.mp, ?_, ?_⟩
  · intro chunks
    rw [FrameDecoder.feed_eq_drain, FrameDecoder.feed_eq_drain, List.flatten_singleton]
  · intro chunks
    rw [FrameDecoder.feed_eq_drain]
    exact drain_encodings chunks.flatten
  · intro frames encodings chunks encode same
    rw [FrameDecoder.feed_eq_drain, same]
    exact drain_flatten encode

end Stream

end NvpCodec

end Protocol
end NovaDb
