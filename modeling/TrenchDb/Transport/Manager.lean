import TrenchDb.Transport.Connection
import TrenchDb.Transport.Stream

/-!
# The stream manager

`transport/src/tcp/manager.rs`: the handshake, the calls of the application, and
the dispatch of inbound frames.
-/

open TrenchDb.Lib.BigEndian

namespace TrenchDb.Transport

def FLUSH_THRESHOLD : Nat := 32 * 1024

inductive HandshakeState where
  | AwaitingHello
  | AwaitingWelcome
  | Established
  deriving DecidableEq, Repr

structure StreamManager where
  conn : Connection
  streams : Streams
  nextLocalId : UInt32
  role : Role
  handshakeState : HandshakeState
  deriving DecidableEq

/-- `checked_add(2)`. -/
def checkedAdd2 (id : UInt32) : Option UInt32 :=
  if id.toNat + 2 < 2 ^ 32 then some (id + 2) else none

theorem toNat_add_two {id : UInt32} (h : id.toNat + 2 < 2 ^ 32) : (id + 2).toNat = id.toNat + 2 := by
  simp only [UInt32.toNat_add, UInt32.reduceToNat]
  omega

theorem add_two_mod_two {id : UInt32} (h : id.toNat + 2 < 2 ^ 32) : (id + 2) % 2 = id % 2 := by
  rw [← UInt32.toNat_inj, UInt32.toNat_mod, UInt32.toNat_mod, toNat_add_two h]
  simp

namespace StreamManager

def firstLocalId : Role → UInt32
  | .Initiator => 1
  | .Acceptor => 2

def new (conn : Connection) (role : Role) : StreamManager :=
  { conn, streams := ∅, nextLocalId := firstLocalId role, role, handshakeState := .AwaitingHello }

/-! ## Sending -/

/-- Put back the connection that a method of it leaves behind. -/
def withConn {α : Type} (m : StreamManager) (o : Outcome Connection α) : Outcome StreamManager α :=
  (o.1, { m with conn := o.2 })

def sendFrame (m : StreamManager) (frame : Frame) : Outcome StreamManager Unit :=
  m.withConn (m.conn.sendFrame frame)

def flush (m : StreamManager) : Outcome StreamManager Unit := m.withConn m.conn.flush

def bufferAndMaybeFlush (m : StreamManager) (frame : Frame) : Outcome StreamManager Unit :=
  (m.withConn (m.conn.bufferFrame frame)).andThen fun _ m =>
    if FLUSH_THRESHOLD ≤ m.conn.writeBuffer.length then m.flush else (.ok (), m)

/-! ## The handshake -/

def ensureHandshakeComplete (m : StreamManager) : Except TransportError Unit :=
  if m.handshakeState = .Established then
    .ok ()
  else
    .error (.InvalidFrame "connection handshake is not complete")

def sendHello (m : StreamManager) : Outcome StreamManager Unit :=
  if m.role ≠ .Initiator then
    (.error (.InvalidFrame "only initiator may send Hello"), m)
  else if m.handshakeState = .AwaitingWelcome ∨ m.handshakeState = .Established then
    (.ok (), m)
  else
    (m.sendFrame (Frame.empty .Hello FLAG_CONTROL 0)).andThen fun _ m =>
      (.ok (), { m with handshakeState := .AwaitingWelcome })

def sendWelcome (m : StreamManager) : Outcome StreamManager Unit :=
  if m.role ≠ .Acceptor then
    (.error (.InvalidFrame "only acceptor may send Welcome"), m)
  else if m.handshakeState = .Established then
    (.ok (), m)
  else
    (m.sendFrame (Frame.empty .Welcome FLAG_CONTROL 0)).andThen fun _ m =>
      (.ok (), { m with handshakeState := .Established })

def sendErrorFrame (m : StreamManager) (p : ErrorPayload) : Outcome StreamManager Unit :=
  m.sendFrame (Frame.new .Error 0 p.streamId p.encode)

def failHandshake (m : StreamManager) (message : String) : Outcome StreamManager Unit :=
  m.sendErrorFrame { errorCode := .HandshakeRejected, streamId := 0, message }

def handleHello (m : StreamManager) (frame : Frame) : Outcome StreamManager Unit :=
  if frame.header.streamId ≠ 0 then
    (.error (.InvalidFrame "Hello frame must use stream_id 0"), m)
  else if m.role ≠ .Acceptor then
    (.error (.InvalidFrame "only acceptor may receive Hello"), m)
  else if m.handshakeState ≠ .AwaitingHello then
    (.error (.InvalidFrame "unexpected Hello frame"), m)
  else
    m.sendWelcome

def handleWelcome (m : StreamManager) (frame : Frame) : Outcome StreamManager Unit :=
  if frame.header.streamId ≠ 0 then
    (.error (.InvalidFrame "Welcome frame must use stream_id 0"), m)
  else if m.role ≠ .Initiator then
    (.error (.InvalidFrame "only initiator may receive Welcome"), m)
  else if m.handshakeState ≠ .AwaitingWelcome then
    (.error (.InvalidFrame "unexpected Welcome frame"), m)
  else
    (.ok (), { m with handshakeState := .Established })

def handleSettings (m : StreamManager) (frame : Frame) : Outcome StreamManager Unit :=
  if frame.header.streamId ≠ 0 then
    (.error (.InvalidFrame "Settings frame must use stream_id 0"), m)
  else
    (.ok (), m)

/-- An inbound `Error` frame is always returned as an error. -/
def handleError (frame : Frame) : TransportError :=
  match ErrorPayload.decode frame.payload with
  | .error e => e
  | .ok p =>
    if p.errorCode = .HandshakeRejected ∧ p.streamId = 0 then
      .HandshakeRejected p.errorCode p.message
    else
      .RemoteError p.errorCode p.streamId p.message

/-! ## Calls of the application -/

def streamCount (m : StreamManager) : Nat := m.streams.keys.card

/-- Go on when the handshake is complete. -/
def whenEstablished {α : Type} (m : StreamManager) (k : Outcome StreamManager α) : Outcome StreamManager α :=
  match m.ensureHandshakeComplete with
  | .error e => (.error e, m)
  | .ok () => k

def openStream (m : StreamManager) : Outcome StreamManager UInt32 :=
  m.whenEstablished <|
    let id := m.nextLocalId
    match checkedAdd2 id with
    | none => (.error .StreamIdExhausted, m)
    | some next =>
      let m := { m with nextLocalId := next, streams := m.streams.insert id (Stream.new id) }
      (m.bufferAndMaybeFlush (Frame.empty .Open 0 id)).andThen fun _ m => (.ok id, m)

def sendData (m : StreamManager) (streamId : UInt32) (payload : List UInt8) : Outcome StreamManager Unit :=
  m.whenEstablished <|
    if payload = [] then
      (.ok (), m)
    else if MAX_FRAME_SIZE < payload.length then
      (.error (.FrameTooLarge payload.length MAX_FRAME_SIZE), m)
    else
      match m.streams.lookup streamId with
      | none => (.error (.UnknownStream streamId), m)
      | some stream =>
        if ¬ stream.state.canSend then
          (.error (.StreamNotWritable streamId), m)
        else
          match stream.checkSendWindow payload.length with
          | .error e => (.error e, m)
          | .ok () =>
            let stream := stream.consumeSendWindow payload.length
            let m := { m with streams := m.streams.insert streamId stream }
            m.bufferAndMaybeFlush (Frame.new .Data 0 streamId payload)

def closeStream (m : StreamManager) (streamId : UInt32) : Outcome StreamManager Unit :=
  m.whenEstablished <|
    match m.streams.lookup streamId with
    | none => (.error (.UnknownStream streamId), m)
    | some stream =>
      if stream.state.isClosed then
        (.error (.StreamClosed streamId), m)
      else
        let stream := stream.onLocalClose
        let m := { m with streams := m.streams.insert streamId stream }
        (m.bufferAndMaybeFlush (Frame.empty .Close FLAG_FIN streamId)).andThen fun _ m =>
          if stream.state = .Closed then
            (.ok (), { m with streams := m.streams.erase streamId })
          else
            (.ok (), m)

def resetStream (m : StreamManager) (streamId : UInt32) : Outcome StreamManager Unit :=
  m.whenEstablished <|
    match m.streams.lookup streamId with
    | none => (.error (.UnknownStream streamId), m)
    | some stream =>
      let m := { m with streams := m.streams.insert streamId stream.onReset }
      (m.sendFrame (Frame.empty .Reset 0 streamId)).andThen fun _ m =>
        (.ok (), { m with streams := m.streams.erase streamId })

/-- The payload of a `Window` frame for `byteCount` bytes. -/
def windowPayload (byteCount : Nat) : List UInt8 := toBE 4 (UInt32.ofNat byteCount).toNat

def recvData (m : StreamManager) (streamId : UInt32) : Outcome StreamManager (Option (List UInt8)) :=
  m.whenEstablished <|
    match m.streams.lookup streamId with
    | none => (.error (.UnknownStream streamId), m)
    | some stream =>
      match stream.popRecv with
      | (none, _) => (.ok none, m)
      | (some data, rest) =>
        let m := { m with streams := m.streams.insert streamId rest }
        if stream.state.canReceive ∧ data ≠ [] then
          (m.bufferAndMaybeFlush (Frame.new .Window 0 streamId (windowPayload data.length))).andThen
            fun _ m => (.ok (some data), m)
        else
          (.ok (some data), m)

def sendPing (m : StreamManager) (payload : List UInt8) : Outcome StreamManager Unit :=
  m.sendFrame (Frame.new .Ping FLAG_CONTROL 0 payload)

/-! ## Inbound frames -/

/-- Put back the map that a receiver function leaves behind. -/
def withStreams (m : StreamManager) (o : Outcome Streams Unit) : Outcome StreamManager Unit :=
  (o.1, { m with streams := o.2 })

def sendPong (m : StreamManager) (payload : List UInt8) : Outcome StreamManager Unit :=
  m.sendFrame (Frame.new .Pong FLAG_CONTROL 0 payload)

/-- The first dispatch table of `recv_frame`, before the handshake is complete. -/
def dispatchHandshake (m : StreamManager) (frame : Frame) : Outcome StreamManager Unit :=
  match frame.header.frameType with
  | .Hello => m.handleHello frame
  | .Welcome => m.handleWelcome frame
  | .Settings => m.handleSettings frame
  | .Error => (.error (handleError frame), m)
  | .Ping => m.sendPong frame.payload
  | .Pong => (.ok (), m)
  | _ =>
    let m :=
      -- The outcome of `fail_handshake` is dropped.
      if m.role = .Acceptor then
        (m.failHandshake "received non-handshake frame before handshake completed").2
      else
        m
    (.error (.InvalidFrame "received frame before connection handshake completed"), m)

/-- The second dispatch table of `recv_frame`. -/
def dispatchEstablished (m : StreamManager) (frame : Frame) : Outcome StreamManager Unit :=
  let streamId := frame.header.streamId
  match frame.header.frameType with
  | .Open => m.withStreams (handleOpen m.streams m.role streamId)
  | .Data => m.withStreams (handleData m.streams streamId frame.payload)
  | .Close => m.withStreams (handleClose m.streams streamId)
  | .Reset => m.withStreams (.ok (), handleReset m.streams streamId)
  | .Window => m.withStreams (handleWindow m.streams streamId frame.payload)
  | .Ping => m.sendPong frame.payload
  | .Hello => m.handleHello frame
  | .Welcome => m.handleWelcome frame
  | .Settings => m.handleSettings frame
  | .Error => (.error (handleError frame), m)
  | .Pong => (.ok (), m)

def dispatch (m : StreamManager) (frame : Frame) : Outcome StreamManager Unit :=
  if m.handshakeState ≠ .Established then m.dispatchHandshake frame else m.dispatchEstablished frame

/-- `recv_frame` on scripted reads, as `Connection.recvFrame`. -/
def recvFrame (m : StreamManager) (reads : List Read) :
    Option (Except TransportError Frame) × StreamManager × List Read :=
  match m.conn.recvFrame reads with
  | (none, conn, reads) => (none, { m with conn }, reads)
  | (some (.error e), conn, reads) => (some (.error e), { m with conn }, reads)
  | (some (.ok frame), conn, reads) =>
    let o := ({ m with conn }.dispatch frame).andThen fun _ m => (.ok frame, m)
    (some o.1, o.2, reads)

/-! ## `start_handshake` -/

/-- `start_handshake` up to its loop. -/
def startHandshake (m : StreamManager) : Outcome StreamManager Unit :=
  if m.handshakeState = .Established then
    (.ok (), m)
  else if m.role = .Initiator then
    m.sendHello.andThen fun _ m => m.flush
  else
    (.ok (), m)

/-- The loop of `start_handshake`, for at most `n` frames: its result, `none` while it waits. -/
def awaitWelcome : Nat → StreamManager → List Read →
    Option (Except TransportError Unit) × StreamManager × List Read
  | 0, m, reads => (none, m, reads)
  | n + 1, m, reads =>
    if m.handshakeState = .Established then
      (some (.ok ()), m, reads)
    else
      match m.recvFrame reads with
      | (none, m, reads) => (none, m, reads)
      | (some (.error e), m, reads) => (some (.error e), m, reads)
      | (some (.ok frame), m, reads) =>
        if frame.header.frameType = .Welcome then (some (.ok ()), m, reads) else awaitWelcome n m reads

end StreamManager

end TrenchDb.Transport
