import TrenchDb.Lib.BigEndian

/-!
# Transport errors

`transport/src/errors.rs`. An `std::io::Error` is its text.
-/

open TrenchDb.Lib.BigEndian

namespace TrenchDb.Transport

/-! ## Error codes -/

inductive ErrorCode where
  | Unknown
  | ProtocolError
  | InvalidVersion
  | InvalidFrame
  | FrameTooLarge
  | StreamClosed
  | StreamReset
  | FlowControlViolation
  | HandshakeRejected
  | Timeout
  | InternalError
  | ActionNotFound
  | InternalIoError
  deriving DecidableEq, Repr

/-- `error_code as u16`. -/
def ErrorCode.asU16 : ErrorCode → UInt16
  | .Unknown => 0
  | .ProtocolError => 1
  | .InvalidVersion => 2
  | .InvalidFrame => 3
  | .FrameTooLarge => 4
  | .StreamClosed => 5
  | .StreamReset => 6
  | .FlowControlViolation => 7
  | .HandshakeRejected => 8
  | .Timeout => 9
  | .InternalError => 10
  | .ActionNotFound => 11
  | .InternalIoError => 12

def ErrorCode.fromU16 (value : UInt16) : Option ErrorCode :=
  match value.toNat with
  | 0 => some .Unknown
  | 1 => some .ProtocolError
  | 2 => some .InvalidVersion
  | 3 => some .InvalidFrame
  | 4 => some .FrameTooLarge
  | 5 => some .StreamClosed
  | 6 => some .StreamReset
  | 7 => some .FlowControlViolation
  | 8 => some .HandshakeRejected
  | 9 => some .Timeout
  | 10 => some .InternalError
  | 11 => some .ActionNotFound
  | 12 => some .InternalIoError
  | _ => none

/-! ## The error type -/

inductive TransportError where
  | InvalidMagic
  | InvalidVersion (got min max : UInt8)
  | InvalidFrame (message : String)
  | FrameTooLarge (size max : Nat)
  | ConnectionClosed
  | StreamClosed (id : UInt32)
  | StreamReset (id : UInt32)
  | FlowControlViolation (streamId : UInt32)
  | HandshakeRejected (code : ErrorCode) (message : String)
  | RemoteError (code : ErrorCode) (streamId : UInt32) (message : String)
  | NeedMoreData
  | StreamIdExhausted
  | BufferOverflow
  | Timeout
  | Io (error : String)
  | UnknownStream (id : UInt32)
  | StreamNotWritable (id : UInt32)
  | ActionNotFound (action : String)
  | InternalError (message : String)
  deriving DecidableEq, Repr

/-- The `Debug` text of an error code. -/
def ErrorCode.debug : ErrorCode → String
  | .Unknown => "Unknown"
  | .ProtocolError => "ProtocolError"
  | .InvalidVersion => "InvalidVersion"
  | .InvalidFrame => "InvalidFrame"
  | .FrameTooLarge => "FrameTooLarge"
  | .StreamClosed => "StreamClosed"
  | .StreamReset => "StreamReset"
  | .FlowControlViolation => "FlowControlViolation"
  | .HandshakeRejected => "HandshakeRejected"
  | .Timeout => "Timeout"
  | .InternalError => "InternalError"
  | .ActionNotFound => "ActionNotFound"
  | .InternalIoError => "InternalIoError"

/-- `impl Display for TransportError`. -/
def TransportError.display : TransportError → String
  | .InvalidMagic => "Invalid magic number in header"
  | .InvalidVersion got min max => "Invalid version: got " ++ toString got ++ ", expected between " ++
      toString min ++ " and " ++ toString max
  | .InvalidFrame message => "Invalid frame: " ++ message
  | .FrameTooLarge size max => "Frame too large: size " ++ toString size ++ ", max " ++ toString max
  | .ConnectionClosed => "Connection closed"
  | .StreamClosed id => "Stream " ++ toString id ++ " is closed"
  | .StreamReset id => "Stream " ++ toString id ++ " was reset by remote"
  | .FlowControlViolation id => "Flow control violation on stream " ++ toString id
  | .HandshakeRejected code message => "Handshake rejected: " ++ code.debug ++ " - " ++ message
  | .RemoteError code id message => "Remote error: " ++ code.debug ++ " on stream " ++ toString id ++ ": " ++
      message
  | .NeedMoreData => "Need more data to parse frame"
  | .StreamIdExhausted => "No more stream IDs available"
  | .BufferOverflow => "Buffer overflow"
  | .Timeout => "Operation timed out"
  | .Io error => "I/O error: " ++ error
  | .UnknownStream id => "Unknown stream: " ++ toString id
  | .StreamNotWritable id => "Stream " ++ toString id ++ " is not writable"
  | .ActionNotFound action => "Action not found: " ++ action
  | .InternalError message => "Internal error: " ++ message

/-! ## Fallible methods -/

/-- What a `&mut self` method returns, and the state it leaves behind. -/
abbrev Outcome (σ α : Type) := Except TransportError α × σ

/-- Go on with the value, or return the error with the state as it is: `?` after a `&mut self` call. -/
def Outcome.andThen {σ α β : Type} (o : Outcome σ α) (k : α → σ → Outcome σ β) : Outcome σ β :=
  match o.1 with
  | .ok a => k a o.2
  | .error e => (.error e, o.2)

/-! ## The payload of an `Error` frame -/

structure ErrorPayload where
  errorCode : ErrorCode
  streamId : UInt32
  message : String
  deriving DecidableEq, Repr

/-- `message.as_bytes()`. -/
def asBytes (message : String) : List UInt8 := message.toUTF8.data.toList

/-- `String::from_utf8`. -/
def fromUtf8 (bytes : List UInt8) : Option String := String.fromUTF8? ⟨bytes.toArray⟩

theorem asBytes_append (s t : String) : asBytes (s ++ t) = asBytes s ++ asBytes t := by
  simp [asBytes, String.toByteArray_append]

theorem asBytes_length (s : String) : (asBytes s).length = s.utf8ByteSize := by
  simp [asBytes]

theorem asBytes_toList (s : String) : asBytes s = s.toList.flatMap String.utf8EncodeChar := by
  rw [asBytes, String.toUTF8_eq_toByteArray, ← String.utf8Encode_toList]
  simp [List.utf8Encode]

theorem toNat_of_ascii_mem {c : Char} {b : UInt8} (h : b ∈ String.utf8EncodeChar c) (hb : b.toNat < 128) :
    c.toNat = b.toNat := by
  have hbyte : ∀ n, b = UInt8.ofNat n → b.toNat = n % 256 := fun n hn => hn ▸ UInt8.toNat_ofNat'
  have hval : c.val.toNat = c.toNat := rfl
  unfold String.utf8EncodeChar at h
  dsimp only at h
  rw [hval] at h
  split_ifs at h
  all_goals
    simp only [List.mem_cons, List.not_mem_nil, or_false] at h
    grind

theorem asBytes_injective : Function.Injective asBytes := by
  intro s t h
  refine String.toByteArray_inj.mp (ByteArray.ext (Array.toList_inj.mp ?_))
  simpa [asBytes] using h

theorem fromUtf8_eq_some {bytes : List UInt8} {s : String} : fromUtf8 bytes = some s ↔ asBytes s = bytes := by
  unfold fromUtf8 String.fromUTF8? asBytes
  constructor
  · intro h
    split at h
    · obtain rfl := Option.some.inj h
      rfl
    · exact nomatch h
  · rintro rfl
    simp [s.isValidUTF8, String.fromUTF8]

def ErrorPayload.encode (p : ErrorPayload) : List UInt8 :=
  let messageBytes := asBytes p.message
  toBE 2 p.errorCode.asU16.toNat ++ toBE 4 p.streamId.toNat ++
    -- `as u16` wraps for long messages.
    toBE 2 (UInt16.ofNat messageBytes.length).toNat ++ messageBytes

def ErrorPayload.decode (bytes : List UInt8) : Except TransportError ErrorPayload :=
  if bytes.length < 8 then
    .error (.InvalidFrame "Error frame payload must be at least 8 bytes")
  else
    let errorCode := UInt16.ofNat (ofBE (bytes.take 2))
    let streamId := UInt32.ofNat (ofBE ((bytes.drop 2).take 4))
    let messageLen := ofBE ((bytes.drop 6).take 2)
    if bytes.length ≠ 8 + messageLen then
      .error (.InvalidFrame "Error frame payload length does not match message length")
    else
      match fromUtf8 (bytes.drop 8) with
      | none => .error (.InvalidFrame "Error frame message is not valid UTF-8")
      | some message =>
        .ok { errorCode := (ErrorCode.fromU16 errorCode).getD .Unknown, streamId, message }

end TrenchDb.Transport
