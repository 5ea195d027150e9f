import TrenchDb.Transport.Sending

/-!
# The manager without its bytes

An endpoint is a stream manager without its connection. It takes and emits whole
frames. `perform_acts` and `dispatch_receives` say that the manager does nothing else,
while writes succeed.
-/

open TrenchDb.Lib.BigEndian

namespace TrenchDb.Transport

/-! ## The frames that a manager sends -/

def helloFrame : Frame := Frame.empty .Hello FLAG_CONTROL 0
def welcomeFrame : Frame := Frame.empty .Welcome FLAG_CONTROL 0
def openFrame (s : UInt32) : Frame := Frame.empty .Open 0 s
def dataFrame (s : UInt32) (payload : List UInt8) : Frame := Frame.new .Data 0 s payload
def closeFrame (s : UInt32) : Frame := Frame.empty .Close FLAG_FIN s
def resetFrame (s : UInt32) : Frame := Frame.empty .Reset 0 s
def windowFrame (s : UInt32) (byteCount : Nat) : Frame :=
  Frame.new .Window 0 s (StreamManager.windowPayload byteCount)
def pingFrame (payload : List UInt8) : Frame := Frame.new .Ping FLAG_CONTROL 0 payload
def pongFrame (payload : List UInt8) : Frame := Frame.new .Pong FLAG_CONTROL 0 payload

/-- The frame of `fail_handshake`. -/
def rejectFrame : Frame :=
  Frame.new .Error 0 0 (ErrorPayload.encode
    { errorCode := .HandshakeRejected, streamId := 0,
      message := "received non-handshake frame before handshake completed" })

/-- The frame types that belong to one stream. -/
def Frametype.isStream : Frametype → Bool
  | .Open | .Data | .Close | .Reset | .Window => true
  | _ => false

@[simp] theorem helloFrame_type : helloFrame.header.frameType = .Hello := rfl
@[simp] theorem welcomeFrame_type : welcomeFrame.header.frameType = .Welcome := rfl
@[simp] theorem rejectFrame_type : rejectFrame.header.frameType = .Error := rfl
@[simp] theorem pingFrame_type (payload : List UInt8) : (pingFrame payload).header.frameType = .Ping := rfl
@[simp] theorem pongFrame_type (payload : List UInt8) : (pongFrame payload).header.frameType = .Pong := rfl

section Fields

variable (s : UInt32) (payload : List UInt8) (n : Nat)

@[simp] theorem openFrame_type : (openFrame s).header.frameType = .Open := rfl
@[simp] theorem openFrame_streamId : (openFrame s).header.streamId = s := rfl
@[simp] theorem dataFrame_type : (dataFrame s payload).header.frameType = .Data := rfl
@[simp] theorem dataFrame_streamId : (dataFrame s payload).header.streamId = s := rfl
@[simp] theorem dataFrame_payload : (dataFrame s payload).payload = payload := rfl
@[simp] theorem closeFrame_type : (closeFrame s).header.frameType = .Close := rfl
@[simp] theorem closeFrame_streamId : (closeFrame s).header.streamId = s := rfl
@[simp] theorem resetFrame_type : (resetFrame s).header.frameType = .Reset := rfl
@[simp] theorem resetFrame_streamId : (resetFrame s).header.streamId = s := rfl
@[simp] theorem windowFrame_type : (windowFrame s n).header.frameType = .Window := rfl
@[simp] theorem windowFrame_streamId : (windowFrame s n).header.streamId = s := rfl
@[simp] theorem windowFrame_payload : (windowFrame s n).payload = StreamManager.windowPayload n := rfl

end Fields

@[simp] theorem windowPayload_length (n : Nat) : (StreamManager.windowPayload n).length = 4 := by
  simp [StreamManager.windowPayload]

theorem windowFrame_fitted (s : UInt32) (n : Nat) : (windowFrame s n).Fitted := new_fitted (by simp)
theorem windowFrame_small (s : UInt32) (n : Nat) : (windowFrame s n).Small := new_small (by simp)

theorem new_valid {t : Frametype} {flags : UInt16} {s : UInt32} {payload : List UInt8}
    (hflags : (Header.new t flags 0 0).validate = .ok ()) (hlen : payload.length ≤ MAX_FRAME_SIZE) :
    (Frame.new t flags s payload).Valid := by
  have hlt : payload.length < 2 ^ 32 := by unfold MAX_FRAME_SIZE at hlen; omega
  obtain ⟨hmagic, hversion, -, hknown, hcontrol⟩ := validate_eq_ok.mp hflags
  refine .of_fitted (new_fitted hlt) (validate_eq_ok.mpr ⟨hmagic, hversion, ?_, hknown, hcontrol⟩)
  simp only [Frame.new, Header.new]
  rwa [UInt32.toNat_ofNat_of_lt' hlt]

theorem helloFrame_valid : helloFrame.Valid := new_valid (by decide) (by simp)
theorem welcomeFrame_valid : welcomeFrame.Valid := new_valid (by decide) (by simp)
theorem openFrame_valid (s : UInt32) : (openFrame s).Valid := new_valid (by decide) (by simp)
theorem closeFrame_valid (s : UInt32) : (closeFrame s).Valid := new_valid (by decide) (by simp)
theorem resetFrame_valid (s : UInt32) : (resetFrame s).Valid := new_valid (by decide) (by simp)
theorem windowFrame_valid (s : UInt32) (n : Nat) : (windowFrame s n).Valid :=
  new_valid (by decide) (by simp [MAX_FRAME_SIZE])
theorem dataFrame_valid (s : UInt32) {payload : List UInt8} (h : payload.length ≤ MAX_FRAME_SIZE) :
    (dataFrame s payload).Valid := new_valid (by decide) h
theorem pingFrame_valid {payload : List UInt8} (h : payload.length ≤ MAX_FRAME_SIZE) :
    (pingFrame payload).Valid := new_valid (by decide) h
theorem pongFrame_valid {payload : List UInt8} (h : payload.length ≤ MAX_FRAME_SIZE) :
    (pongFrame payload).Valid := new_valid (by decide) h

theorem rejectFrame_length : rejectFrame.payload.length = 63 := by decide +kernel

theorem rejectFrame_valid : rejectFrame.Valid :=
  new_valid (by decide) (by have := rejectFrame_length; unfold MAX_FRAME_SIZE; simp_all [rejectFrame, Frame.new])

theorem rejectFrame_small : rejectFrame.Small := by
  rw [Frame.Small, wire_length, rejectFrame_length]
  decide

/-! ## Endpoints -/

@[ext] structure Endpoint where
  role : Role
  handshakeState : HandshakeState
  nextLocalId : UInt32
  streams : Streams
  deriving DecidableEq

namespace Endpoint

def new (role : Role) : Endpoint :=
  { role, handshakeState := .AwaitingHello, nextLocalId := StreamManager.firstLocalId role, streams := ∅ }

def put (e : Endpoint) (s : UInt32) (stream : Stream) : Endpoint :=
  { e with streams := e.streams.insert s stream }

def drop (e : Endpoint) (s : UInt32) : Endpoint := { e with streams := e.streams.erase s }

end Endpoint

def StreamManager.endpoint (m : StreamManager) : Endpoint :=
  { role := m.role, handshakeState := m.handshakeState, nextLocalId := m.nextLocalId, streams := m.streams }

/-! ## Calls -/

/-- The calls of the application, `recv_frame` apart. -/
inductive Call where
  | startHandshake
  | openStream
  | sendData (streamId : UInt32) (payload : List UInt8)
  | closeStream (streamId : UInt32)
  | resetStream (streamId : UInt32)
  | recvData (streamId : UInt32)
  | sendPing (payload : List UInt8)
  | flush
  deriving DecidableEq, Repr

inductive Answer where
  | done
  | opened (streamId : UInt32)
  | data (payload : Option (List UInt8))
  deriving DecidableEq, Repr

abbrev Reply := Except TransportError Answer

/-- Rename what a method returns. -/
def Outcome.map {σ α β : Type} (f : α → β) (o : Outcome σ α) : Outcome σ β := (o.1.map f, o.2)

/-- One call. Of `start_handshake` it is the part before the loop: the loop is `recv_frame` calls. -/
def StreamManager.perform (m : StreamManager) : Call → Outcome StreamManager Answer
  | .startHandshake => m.startHandshake.map fun _ => .done
  | .openStream => m.openStream.map .opened
  | .sendData s payload => (m.sendData s payload).map fun _ => .done
  | .closeStream s => (m.closeStream s).map fun _ => .done
  | .resetStream s => (m.resetStream s).map fun _ => .done
  | .recvData s => (m.recvData s).map .data
  | .sendPing payload => (m.sendPing payload).map fun _ => .done
  | .flush => m.flush.map fun _ => .done

namespace Endpoint

/-- The state of `s` after a local close. -/
def afterClose (e : Endpoint) (s : UInt32) (stream : Stream) : Endpoint :=
  if stream.onLocalClose.state = .Closed then e.drop s else e.put s stream.onLocalClose

theorem afterClose_same (e : Endpoint) (s : UInt32) (stream : Stream) :
    (e.afterClose s stream).role = e.role ∧ (e.afterClose s stream).handshakeState = e.handshakeState ∧
      (e.afterClose s stream).nextLocalId = e.nextLocalId := by
  unfold afterClose; split_ifs <;> exact ⟨rfl, rfl, rfl⟩

/-- The frame that returns the credit of a payload just taken from `stream`. -/
def credit (s : UInt32) (stream : Stream) (payload : List UInt8) : List Frame :=
  if stream.state.canReceive ∧ payload ≠ [] then [windowFrame s payload.length] else []

/-- What a call can do: its reply, the frames it emits, and the endpoint it leaves. -/
inductive Acts (e : Endpoint) : Call → Reply → List Frame → Endpoint → Prop
  | failed (call : Call) (err : TransportError) : Acts e call (.error err) [] e
  | hello : e.role = .Initiator → e.handshakeState = .AwaitingHello →
      Acts e .startHandshake (.ok .done) [helloFrame] { e with handshakeState := .AwaitingWelcome }
  | waits : e.role = .Initiator → e.handshakeState = .AwaitingWelcome →
      Acts e .startHandshake (.ok .done) [] e
  | ready : e.role = .Acceptor ∨ e.handshakeState = .Established →
      Acts e .startHandshake (.ok .done) [] e
  | opened : e.handshakeState = .Established → e.nextLocalId.toNat + 2 < 2 ^ 32 →
      Acts e .openStream (.ok (.opened e.nextLocalId)) [openFrame e.nextLocalId]
        { e.put e.nextLocalId (Stream.new e.nextLocalId) with nextLocalId := e.nextLocalId + 2 }
  | nothing (s : UInt32) : e.handshakeState = .Established → Acts e (.sendData s []) (.ok .done) [] e
  | sent {s : UInt32} {payload : List UInt8} {stream : Stream} : e.handshakeState = .Established →
      payload ≠ [] → payload.length ≤ MAX_FRAME_SIZE → e.streams.lookup s = some stream →
      stream.state.canSend → (payload.length : Int) ≤ stream.sendWindow →
      Acts e (.sendData s payload) (.ok .done) [dataFrame s payload]
        (e.put s (stream.consumeSendWindow payload.length))
  | overflowed {s : UInt32} {payload : List UInt8} {stream : Stream} : e.handshakeState = .Established →
      e.streams.lookup s = some stream → stream.state.canSend →
      (payload.length : Int) ≤ stream.sendWindow → ¬ (dataFrame s payload).Small →
      Acts e (.sendData s payload) (.error .BufferOverflow) []
        (e.put s (stream.consumeSendWindow payload.length))
  | closed {s : UInt32} {stream : Stream} : e.handshakeState = .Established →
      e.streams.lookup s = some stream → ¬ stream.state.isClosed →
      Acts e (.closeStream s) (.ok .done) [closeFrame s] (e.afterClose s stream)
  | reset {s : UInt32} {stream : Stream} : e.handshakeState = .Established →
      e.streams.lookup s = some stream → Acts e (.resetStream s) (.ok .done) [resetFrame s] (e.drop s)
  | empty {s : UInt32} {stream : Stream} : e.handshakeState = .Established →
      e.streams.lookup s = some stream → stream.recvQueue = [] →
      Acts e (.recvData s) (.ok (.data none)) [] e
  | took {s : UInt32} {stream rest : Stream} {payload : List UInt8} : e.handshakeState = .Established →
      e.streams.lookup s = some stream → stream.popRecv = (some payload, rest) →
      Acts e (.recvData s) (.ok (.data (some payload))) (credit s stream payload) (e.put s rest)
  | pinged (payload : List UInt8) : Acts e (.sendPing payload) (.ok .done) [pingFrame payload] e
  | flushed : Acts e .flush (.ok .done) [] e

/-! ## Inbound frames -/

/-- The receiver functions behind one dispatch. -/
def onStream (e : Endpoint) (f : Frame) : Outcome Streams Unit :=
  match f.header.frameType with
  | .Open => handleOpen e.streams e.role f.header.streamId
  | .Data => handleData e.streams f.header.streamId f.payload
  | .Close => handleClose e.streams f.header.streamId
  | .Reset => (.ok (), handleReset e.streams f.header.streamId)
  | .Window => handleWindow e.streams f.header.streamId f.payload
  | _ => (.ok (), e.streams)

/-- This `Hello` completes the handshake. -/
def AcceptsHello (e : Endpoint) (f : Frame) : Prop :=
  f.header.streamId = 0 ∧ e.role = .Acceptor ∧ e.handshakeState = .AwaitingHello

/-- This `Welcome` completes the handshake. -/
def AcceptsWelcome (e : Endpoint) (f : Frame) : Prop :=
  f.header.streamId = 0 ∧ e.role = .Initiator ∧ e.handshakeState = .AwaitingWelcome

/-- What the arrival of a frame can do: the verdict on the frame, the frames emitted in
reply, and the endpoint it leaves. -/
inductive Receives (e : Endpoint) (f : Frame) : Except TransportError Unit → List Frame → Endpoint → Prop
  | stream : e.handshakeState = .Established → f.header.frameType.isStream →
      Receives e f (e.onStream f).1 [] { e with streams := (e.onStream f).2 }
  | early : e.handshakeState ≠ .Established → f.header.frameType.isStream →
      Receives e f (.error (.InvalidFrame "received frame before connection handshake completed"))
        (if e.role = .Acceptor then [rejectFrame] else []) e
  | helloed : f.header.frameType = .Hello → e.AcceptsHello f →
      Receives e f (.ok ()) [welcomeFrame] { e with handshakeState := .Established }
  | badHello (err : TransportError) : f.header.frameType = .Hello → ¬ e.AcceptsHello f →
      Receives e f (.error err) [] e
  | welcomed : f.header.frameType = .Welcome → e.AcceptsWelcome f →
      Receives e f (.ok ()) [] { e with handshakeState := .Established }
  | badWelcome (err : TransportError) : f.header.frameType = .Welcome → ¬ e.AcceptsWelcome f →
      Receives e f (.error err) [] e
  | settings (r : Except TransportError Unit) : f.header.frameType = .Settings → Receives e f r [] e
  | told (err : TransportError) : f.header.frameType = .Error → Receives e f (.error err) [] e
  | pinged : f.header.frameType = .Ping → Receives e f (.ok ()) [pongFrame f.payload] e
  | pongless : f.header.frameType = .Ping → Receives e f (.error .BufferOverflow) [] e
  | ponged : f.header.frameType = .Pong → Receives e f (.ok ()) [] e

end Endpoint

end TrenchDb.Transport
