import TrenchDb.Transport.Errors

/-!
# Frames

The wire format of `transport/src/frame`: the 16-byte header, its checks, the
encoder and the decoder.
-/

open TrenchDb.Lib.BigEndian

namespace TrenchDb.Transport

/-! ## Frame types -/

inductive Frametype where
  | Open
  | Data
  | Close
  | Reset
  | Ping
  | Pong
  | Window
  | Error
  | Settings
  | Hello
  | Welcome
  deriving DecidableEq, Repr

/-- `frame_type as u8`. -/
def Frametype.asU8 : Frametype → UInt8
  | .Open => 1
  | .Data => 2
  | .Close => 3
  | .Reset => 4
  | .Ping => 5
  | .Pong => 6
  | .Window => 7
  | .Error => 8
  | .Settings => 9
  | .Hello => 10
  | .Welcome => 11

def Frametype.fromU8 (value : UInt8) : Option Frametype :=
  match value.toNat with
  | 1 => some .Open
  | 2 => some .Data
  | 3 => some .Close
  | 4 => some .Reset
  | 5 => some .Ping
  | 6 => some .Pong
  | 7 => some .Window
  | 8 => some .Error
  | 9 => some .Settings
  | 10 => some .Hello
  | 11 => some .Welcome
  | _ => none

/-- The derived `Debug` text. -/
def Frametype.debug : Frametype → String
  | .Open => "Open"
  | .Data => "Data"
  | .Close => "Close"
  | .Reset => "Reset"
  | .Ping => "Ping"
  | .Pong => "Pong"
  | .Window => "Window"
  | .Error => "Error"
  | .Settings => "Settings"
  | .Hello => "Hello"
  | .Welcome => "Welcome"

/-! ## The header -/

def FLAG_FIN : UInt16 := 1
def FLAG_ACK : UInt16 := 2
def FLAG_CONTROL : UInt16 := 4

/-- `"TRNC"`. -/
def FRAME_MAGIC : Vector UInt8 4 := #v[0x54, 0x52, 0x4E, 0x43]

def CURRENT_VERSION : UInt8 := 1
def MIN_SUPPORTED_VERSION : UInt8 := 1
def MAX_FRAME_SIZE : Nat := 16 * 1024 * 1024
def HEADER_SIZE : Nat := 16

structure Header where
  magic : Vector UInt8 4
  version : UInt8
  flags : UInt16
  streamId : UInt32
  payloadLength : UInt32
  frameType : Frametype
  deriving DecidableEq, Repr

/-- `{:016b}`. -/
def binary16 (n : UInt16) : String :=
  String.ofList ((List.range 16).reverse.map fun i => if n.toNat.testBit i then '1' else '0')

namespace Header

def isControl (h : Header) : Bool := h.flags &&& FLAG_CONTROL != 0

/-- The frame types that must carry `FLAG_CONTROL`. -/
def isControlType (h : Header) : Bool :=
  match h.frameType with
  | .Ping | .Pong | .Settings | .Hello | .Welcome => true
  | _ => false

/-- The checks, in the order of the source. The match over all frame types there never fails. -/
def validate (h : Header) : Except TransportError Unit :=
  if h.magic ≠ FRAME_MAGIC then
    .error .InvalidMagic
  else if h.version < MIN_SUPPORTED_VERSION ∨ CURRENT_VERSION < h.version then
    .error (.InvalidVersion h.version MIN_SUPPORTED_VERSION CURRENT_VERSION)
  else if MAX_FRAME_SIZE < h.payloadLength.toNat then
    .error (.FrameTooLarge h.payloadLength.toNat MAX_FRAME_SIZE)
  else if h.flags &&& ~~~(FLAG_FIN ||| FLAG_ACK ||| FLAG_CONTROL) ≠ 0 then
    .error (.InvalidFrame ("Unknown flags set: " ++ binary16 h.flags))
  else if h.isControlType ∧ ¬ h.isControl then
    .error (.InvalidFrame (h.frameType.debug ++ " frame must have FLAG_CONTROL set"))
  else if ¬ h.isControlType ∧ h.isControl then
    .error (.InvalidFrame (h.frameType.debug ++ " frame must not have FLAG_CONTROL set"))
  else
    .ok ()

def new (frameType : Frametype) (flags : UInt16) (streamId payloadLength : UInt32) : Header :=
  { magic := FRAME_MAGIC, version := CURRENT_VERSION, flags, streamId, payloadLength, frameType }

end Header

/-! ## The frame -/

structure Frame where
  header : Header
  payload : List UInt8
  deriving DecidableEq, Repr

namespace Frame

/-- `payload.len() as u32` wraps for payloads of 4 GiB and more. -/
def new (frameType : Frametype) (flags : UInt16) (streamId : UInt32) (payload : List UInt8) : Frame :=
  { header := Header.new frameType flags streamId (UInt32.ofNat payload.length), payload }

def empty (frameType : Frametype) (flags : UInt16) (streamId : UInt32) : Frame :=
  new frameType flags streamId []

/-- The bytes of a frame: header, then payload, integers big-endian. -/
def wire (f : Frame) : List UInt8 :=
  f.header.magic.toList ++ [f.header.version] ++ toBE 2 f.header.flags.toNat ++
    toBE 4 f.header.streamId.toNat ++ toBE 4 f.header.payloadLength.toNat ++
    [f.header.frameType.asU8] ++ f.payload

end Frame

/-! ## Encoder and decoder -/

def encode (frame : Frame) : Except TransportError (List UInt8) :=
  if frame.payload.length ≠ frame.header.payloadLength.toNat then
    .error (.InvalidFrame ("Payload length mismatch: header says " ++
      toString frame.header.payloadLength ++ ", but actual payload is " ++
      toString frame.payload.length))
  else
    .ok frame.wire

/-- `buffer[i]`, used only below the length of the buffer. -/
def byteAt (buffer : List UInt8) (i : Nat) : UInt8 := buffer.getD i 0

/-- The header fields at their offsets. -/
def headerAt (buffer : List UInt8) (frameType : Frametype) : Header :=
  let b := byteAt buffer
  { magic := #v[b 0, b 1, b 2, b 3]
    version := b 4
    flags := UInt16.ofNat (ofBE [b 5, b 6])
    streamId := UInt32.ofNat (ofBE [b 7, b 8, b 9, b 10])
    payloadLength := UInt32.ofNat (ofBE [b 11, b 12, b 13, b 14])
    frameType }

/-- The frame at the front of the buffer, and how many bytes it takes. -/
def decode (buffer : List UInt8) : Except TransportError (Frame × Nat) :=
  if buffer.length < HEADER_SIZE then
    .error .NeedMoreData
  else
    match Frametype.fromU8 (byteAt buffer 15) with
    | none => .error (.InvalidFrame ("Unknown frame type: " ++ toString (byteAt buffer 15)))
    | some frameType =>
      let header := headerAt buffer frameType
      match header.validate with
      | .error e => .error e
      | .ok () =>
        let totalLen := HEADER_SIZE + header.payloadLength.toNat
        if buffer.length < totalLen then
          .error .NeedMoreData
        else
          .ok ({ header, payload := (buffer.drop HEADER_SIZE).take header.payloadLength.toNat }, totalLen)

end TrenchDb.Transport
