import TrenchDb.Transport.Endpoint

/-!
# The manager does what its endpoint may do

One lemma for each call and each kind of inbound frame: while writes succeed, the
manager emits the frames of `Endpoint.Acts` and `Endpoint.Receives`, byte by byte.
-/

namespace TrenchDb.Transport

theorem erase_insert (streams : Streams) (s : UInt32) (stream : Stream) :
    (streams.insert s stream).erase s = streams.erase s := by
  apply Finmap.ext_lookup
  intro k
  by_cases hk : k = s
  · subst hk; simp
  · simp [hk]

namespace StreamManager

open Endpoint

/-- The outcome of a call on `m` is one that `Acts` allows. -/
def Performs (m : StreamManager) (call : Call) (o : Outcome StreamManager Answer) : Prop :=
  ∃ outs, m.endpoint.Acts call o.1 outs o.2.endpoint ∧
    m.conn.Sends (outs.flatMap Frame.wire) o.2.conn ∧ ∀ f ∈ outs, f.Valid

variable {m : StreamManager}

theorem performs_error (h : m.conn.Settled) (call : Call) (err : TransportError) :
    m.Performs call (.error err, m) :=
  ⟨[], .failed call err, h.sends_nothing, by simp⟩

theorem performs_silent (h : m.conn.Settled) {call : Call} {reply : Reply}
    (hacts : m.endpoint.Acts call reply [] m.endpoint) : m.Performs call (reply, m) :=
  ⟨[], hacts, h.sends_nothing, by simp⟩

theorem performs_one {call : Call} {reply : Reply} {f : Frame} {m' : StreamManager}
    (hacts : m.endpoint.Acts call reply [f] m'.endpoint) (hsends : m.conn.Sends f.wire m'.conn)
    (hv : f.Valid) : m.Performs call (reply, m') :=
  ⟨[f], hacts, by simpa using hsends, by simpa using hv⟩

/-! ## Calls -/

theorem startHandshake_performs (h : m.conn.Settled) :
    m.Performs .startHandshake (m.startHandshake.map fun _ => .done) := by
  unfold startHandshake sendHello
  split_ifs with hest hrole hinit hwait
  · exact performs_silent h (.ready (.inr hest))
  · exact absurd hrole hinit
  · have hstate : m.handshakeState = .AwaitingWelcome := hwait.resolve_right hest
    simp only [Outcome.andThen, flush_eq h.reliable]
    exact ⟨[], .waits hrole hstate, Connection.sends_flushed _, by simp⟩
  · have hstate : m.handshakeState = .AwaitingHello := by
      cases hs : m.handshakeState <;> simp_all
    obtain ⟨c, hsend, hsends, -⟩ := Connection.sendFrame_small h (empty_fitted .Hello FLAG_CONTROL 0)
      (empty_small .Hello FLAG_CONTROL 0)
    simp only [sendFrame, withConn, hsend, Outcome.andThen]
    rw [flush_eq hsends.settled.reliable]
    exact performs_one (.hello hrole hstate) hsends.flushed helloFrame_valid
  · refine performs_silent h (.ready (.inl ?_))
    show m.role = .Acceptor
    cases hr : m.role <;> simp_all

theorem openStream_ok (h : m.conn.Settled) (hest : m.handshakeState = .Established)
    (hid : m.nextLocalId.toNat + 2 < 2 ^ 32) :
    ∃ c, m.openStream = (.ok m.nextLocalId, { m with
        conn := c, nextLocalId := m.nextLocalId + 2
        streams := m.streams.insert m.nextLocalId (Stream.new m.nextLocalId) }) ∧
      m.conn.Sends (openFrame m.nextLocalId).wire c := by
  unfold openStream
  rw [whenEstablished_true hest]
  simp only [show checkedAdd2 m.nextLocalId = _ from if_pos hid]
  set m1 : StreamManager := { m with nextLocalId := m.nextLocalId + 2,
                                     streams := m.streams.insert m.nextLocalId (Stream.new m.nextLocalId) }
  obtain ⟨c, hbuf, hsends⟩ := bufferAndMaybeFlush_small (m := m1) h
    (empty_fitted .Open 0 m.nextLocalId) (empty_small .Open 0 m.nextLocalId)
  simp only [hbuf, Outcome.andThen]
  exact ⟨c, rfl, hsends⟩

theorem openStream_performs (h : m.conn.Settled) : m.Performs .openStream (m.openStream.map .opened) := by
  by_cases hest : m.handshakeState = .Established
  · by_cases hid : m.nextLocalId.toNat + 2 < 2 ^ 32
    · obtain ⟨c, heq, hsends⟩ := openStream_ok h hest hid
      rw [heq]
      exact performs_one (.opened hest hid) hsends (openFrame_valid _)
    · unfold openStream
      rw [whenEstablished_true hest]
      simp only [show checkedAdd2 m.nextLocalId = _ from if_neg hid]
      exact performs_error h _ _
  · unfold openStream
    rw [whenEstablished_false hest]
    exact performs_error h _ _

section SendData

variable {s : UInt32} {payload : List UInt8} {stream : Stream}

theorem checkSendWindow_ok (hwin : (payload.length : Int) ≤ stream.sendWindow) :
    stream.checkSendWindow payload.length = .ok () := if_neg (by omega)

theorem sendData_eq (hest : m.handshakeState = .Established) (hne : payload ≠ [])
    (hle : payload.length ≤ MAX_FRAME_SIZE) (hlook : m.streams.lookup s = some stream)
    (hcan : stream.state.canSend) (hwin : (payload.length : Int) ≤ stream.sendWindow) :
    m.sendData s payload = { m with
      streams := m.streams.insert s (stream.consumeSendWindow payload.length) }.bufferAndMaybeFlush
        (dataFrame s payload) := by
  unfold sendData
  rw [whenEstablished_true hest, if_neg hne, if_neg (Nat.not_lt.mpr hle), hlook]
  simp only [hcan, not_true_eq_false, if_false, checkSendWindow_ok hwin]
  rfl

theorem sendData_cases (h : m.conn.Settled) (hest : m.handshakeState = .Established) (hne : payload ≠ [])
    (hle : payload.length ≤ MAX_FRAME_SIZE) (hlook : m.streams.lookup s = some stream)
    (hcan : stream.state.canSend) (hwin : (payload.length : Int) ≤ stream.sendWindow) :
    (∃ c, m.sendData s payload = (.ok (), { m with
        conn := c, streams := m.streams.insert s (stream.consumeSendWindow payload.length) }) ∧
      m.conn.Sends (dataFrame s payload).wire c) ∨
    (¬ (dataFrame s payload).Small ∧ m.sendData s payload = (.error .BufferOverflow,
      { m with streams := m.streams.insert s (stream.consumeSendWindow payload.length) })) := by
  rw [sendData_eq hest hne hle hlook hcan hwin]
  exact bufferAndMaybeFlush_cases (m := { m with
    streams := m.streams.insert s (stream.consumeSendWindow payload.length) }) h (dataFrame_valid s hle).length_eq

theorem sendData_performs (h : m.conn.Settled) (s : UInt32) (payload : List UInt8) :
    m.Performs (.sendData s payload) ((m.sendData s payload).map fun _ => .done) := by
  by_cases hest : m.handshakeState = .Established
  · by_cases hne : payload = []
    · subst hne
      rw [sendData, whenEstablished_true hest, if_pos rfl]
      exact performs_silent h (.nothing s hest)
    by_cases hle : payload.length ≤ MAX_FRAME_SIZE
    · cases hlook : m.streams.lookup s with
      | none =>
        rw [sendData, whenEstablished_true hest, if_neg hne, if_neg (Nat.not_lt.mpr hle), hlook]
        exact performs_error h _ _
      | some stream =>
        by_cases hcan : stream.state.canSend
        · by_cases hwin : (payload.length : Int) ≤ stream.sendWindow
          · rcases sendData_cases h hest hne hle hlook hcan hwin with ⟨c, heq, hsends⟩ | ⟨hsmall, heq⟩
            · rw [heq]
              exact performs_one (.sent hest hne hle hlook hcan hwin) hsends (dataFrame_valid s hle)
            · rw [heq]
              exact ⟨[], .overflowed hest hlook hcan hwin hsmall, h.sends_nothing, by simp⟩
          · have hcheck : stream.checkSendWindow payload.length = .error (.FlowControlViolation stream.id) :=
              if_pos (by omega)
            rw [sendData, whenEstablished_true hest, if_neg hne, if_neg (Nat.not_lt.mpr hle), hlook]
            simp only [hcan, not_true_eq_false, if_false, hcheck]
            exact performs_error h _ _
        · rw [sendData, whenEstablished_true hest, if_neg hne, if_neg (Nat.not_lt.mpr hle), hlook]
          simp only [hcan]
          exact performs_error h _ _
    · rw [sendData, whenEstablished_true hest, if_neg hne, if_pos (Nat.not_le.mp hle)]
      exact performs_error h _ _
  · rw [sendData, whenEstablished_false hest]
    exact performs_error h _ _

end SendData

theorem closeStream_ok (h : m.conn.Settled) (hest : m.handshakeState = .Established) {s : UInt32}
    {stream : Stream} (hlook : m.streams.lookup s = some stream) (hclosed : ¬ stream.state.isClosed) :
    ∃ c, m.closeStream s = (.ok (), { m with conn := c, streams := (m.endpoint.afterClose s stream).streams }) ∧
      m.conn.Sends (closeFrame s).wire c := by
  unfold closeStream
  rw [whenEstablished_true hest, hlook]
  simp only [if_neg hclosed]
  set m1 : StreamManager := { m with streams := m.streams.insert s stream.onLocalClose }
  obtain ⟨c, hbuf, hsends⟩ := bufferAndMaybeFlush_small (m := m1) h
    (empty_fitted .Close FLAG_FIN s) (empty_small .Close FLAG_FIN s)
  simp only [hbuf, Outcome.andThen]
  refine ⟨c, ?_, hsends⟩
  unfold afterClose
  split_ifs
  · simp only [drop, endpoint, m1, erase_insert]
  · rfl

theorem closeStream_performs (h : m.conn.Settled) (s : UInt32) :
    m.Performs (.closeStream s) ((m.closeStream s).map fun _ => .done) := by
  by_cases hest : m.handshakeState = .Established
  · cases hlook : m.streams.lookup s with
    | none =>
      rw [closeStream, whenEstablished_true hest, hlook]
      exact performs_error h _ _
    | some stream =>
      by_cases hclosed : stream.state.isClosed
      · rw [closeStream, whenEstablished_true hest, hlook]
        simp only [hclosed, if_true]
        exact performs_error h _ _
      · obtain ⟨c, heq, hsends⟩ := closeStream_ok h hest hlook hclosed
        have hsame := afterClose_same m.endpoint s stream
        rw [heq]
        refine performs_one (f := closeFrame s) ?_ hsends (closeFrame_valid s)
        have hacts := Acts.closed (e := m.endpoint) hest hlook hclosed
        rwa [show m.endpoint.afterClose s stream =
          { m.endpoint with streams := (m.endpoint.afterClose s stream).streams } from
          Endpoint.ext hsame.1 hsame.2.1 hsame.2.2 rfl] at hacts
  · rw [closeStream, whenEstablished_false hest]
    exact performs_error h _ _

theorem resetStream_performs (h : m.conn.Settled) (s : UInt32) :
    m.Performs (.resetStream s) ((m.resetStream s).map fun _ => .done) := by
  unfold resetStream
  by_cases hest : m.handshakeState = .Established
  · rw [whenEstablished_true hest]
    split
    · exact performs_error h _ _
    next stream hlook =>
      obtain ⟨c, hsend, hsends, -⟩ := Connection.sendFrame_small h (empty_fitted .Reset 0 s)
        (empty_small .Reset 0 s)
      simp only [sendFrame, withConn, hsend, Outcome.andThen]
      refine performs_one (f := resetFrame s) ?_ hsends (resetFrame_valid s)
      simpa only [endpoint, drop, erase_insert, Except.map] using Acts.reset (e := m.endpoint) hest hlook
  · rw [whenEstablished_false hest]
    exact performs_error h _ _

theorem recvData_ok (h : m.conn.Settled) (hest : m.handshakeState = .Established) {s : UInt32}
    {stream rest : Stream} {payload : List UInt8} (hlook : m.streams.lookup s = some stream)
    (hpop : stream.popRecv = (some payload, rest)) :
    ∃ c, m.recvData s = (.ok (some payload), { m with conn := c, streams := m.streams.insert s rest }) ∧
      m.conn.Sends ((credit s stream payload).flatMap Frame.wire) c := by
  unfold recvData credit
  rw [whenEstablished_true hest, hlook]
  simp only [hpop]
  split_ifs
  · set m1 : StreamManager := { m with streams := m.streams.insert s rest }
    obtain ⟨c, hbuf, hsends⟩ := bufferAndMaybeFlush_small (m := m1) h
      (windowFrame_fitted s payload.length) (windowFrame_small s payload.length)
    rw [windowFrame] at hbuf
    simp only [hbuf, Outcome.andThen]
    exact ⟨c, rfl, by simpa using hsends⟩
  · exact ⟨m.conn, rfl, h.sends_nothing⟩

theorem recvData_performs (h : m.conn.Settled) (s : UInt32) :
    m.Performs (.recvData s) ((m.recvData s).map .data) := by
  by_cases hest : m.handshakeState = .Established
  · cases hlook : m.streams.lookup s with
    | none =>
      rw [recvData, whenEstablished_true hest, hlook]
      exact performs_error h _ _
    | some stream =>
      cases hpop : stream.popRecv with
      | mk popped rest =>
        cases popped with
        | none =>
          rw [recvData, whenEstablished_true hest, hlook]
          simp only [hpop]
          exact performs_silent h (.empty hest hlook (Stream.popRecv_none hpop))
        | some payload =>
          obtain ⟨c, heq, hsends⟩ := recvData_ok h hest hlook hpop
          rw [heq]
          refine ⟨_, .took hest hlook hpop, hsends, ?_⟩
          unfold credit
          split_ifs
          · simpa using windowFrame_valid s _
          · simp
  · rw [recvData, whenEstablished_false hest]
    exact performs_error h _ _

theorem sendPing_performs (h : m.conn.Settled) (payload : List UInt8) :
    m.Performs (.sendPing payload) ((m.sendPing payload).map fun _ => .done) := by
  unfold sendPing sendFrame withConn
  rcases Connection.sendFrame_cases h (Frame.new .Ping FLAG_CONTROL 0 payload) with
    ⟨-, hle, c, hsend, hsends, -⟩ | ⟨-, -, hsend⟩ | ⟨-, e, hsend⟩
  · have hlen : payload.length ≤ MAX_FRAME_SIZE := by
      rw [wire_length] at hle
      simp only [Frame.new, MAX_BUFFER_SIZE, HEADER_SIZE, MAX_FRAME_SIZE] at hle ⊢
      omega
    rw [hsend]
    exact performs_one (.pinged payload) hsends (pingFrame_valid hlen)
  · rw [hsend]
    exact performs_error h _ _
  · rw [hsend]
    exact performs_error h _ _

theorem flush_performs (h : m.conn.Settled) : m.Performs .flush (m.flush.map fun _ => .done) := by
  rw [flush_eq h.reliable]
  exact ⟨[], .flushed, Connection.sends_flushed _, by simp⟩

/-- Every call emits whole, valid frames and changes the endpoint as `Acts` says. -/
theorem perform_acts (h : m.conn.Settled) (call : Call) : m.Performs call (m.perform call) := by
  cases call with
  | startHandshake => exact startHandshake_performs h
  | openStream => exact openStream_performs h
  | sendData s payload => exact sendData_performs h s payload
  | closeStream s => exact closeStream_performs h s
  | resetStream s => exact resetStream_performs h s
  | recvData s => exact recvData_performs h s
  | sendPing payload => exact sendPing_performs h payload
  | flush => exact flush_performs h

/-! ## Inbound frames -/

/-- The outcome of dispatching `f` to `m` is one that `Receives` allows. -/
def Dispatches (m : StreamManager) (f : Frame) (o : Outcome StreamManager Unit) : Prop :=
  ∃ outs, m.endpoint.Receives f o.1 outs o.2.endpoint ∧
    m.conn.Sends (outs.flatMap Frame.wire) o.2.conn ∧ ∀ f ∈ outs, f.Valid

variable {f : Frame}

theorem dispatches_silent (h : m.conn.Settled) {r : Except TransportError Unit} {e : Endpoint}
    (hrec : m.endpoint.Receives f r [] e) {m' : StreamManager} (he : m'.endpoint = e)
    (hconn : m'.conn = m.conn) : m.Dispatches f (r, m') :=
  ⟨[], he ▸ hrec, by simpa [hconn] using h.sends_nothing, by simp⟩

theorem dispatches_one {r : Except TransportError Unit} {out : Frame} {m' : StreamManager}
    (hrec : m.endpoint.Receives f r [out] m'.endpoint) (hsends : m.conn.Sends out.wire m'.conn)
    (hv : out.Valid) : m.Dispatches f (r, m') :=
  ⟨[out], hrec, by simpa using hsends, by simpa using hv⟩

theorem handleHello_dispatches (h : m.conn.Settled) (ht : f.header.frameType = .Hello) :
    m.Dispatches f (m.handleHello f) := by
  unfold handleHello
  split_ifs with hid hrole hstate
  · exact dispatches_silent h (.badHello _ ht fun hacc => hid hacc.1) rfl rfl
  · exact dispatches_silent h (.badHello _ ht fun hacc => hrole hacc.2.1) rfl rfl
  · exact dispatches_silent h (.badHello _ ht fun hacc => hstate hacc.2.2) rfl rfl
  · have hrole' : m.role = .Acceptor := not_not.mp hrole
    have hstate' : m.handshakeState = .AwaitingHello := not_not.mp hstate
    obtain ⟨c, hsend, hsends, -⟩ := Connection.sendFrame_small h (empty_fitted .Welcome FLAG_CONTROL 0)
      (empty_small .Welcome FLAG_CONTROL 0)
    rw [sendWelcome, if_neg hrole, if_neg (by rw [hstate']; decide)]
    simp only [sendFrame, withConn, hsend, Outcome.andThen]
    exact dispatches_one (.helloed ht ⟨not_not.mp hid, hrole', hstate'⟩) hsends welcomeFrame_valid

theorem handleWelcome_dispatches (h : m.conn.Settled) (ht : f.header.frameType = .Welcome) :
    m.Dispatches f (m.handleWelcome f) := by
  unfold handleWelcome
  split_ifs with hid hrole hstate
  · exact dispatches_silent h (.badWelcome _ ht fun hacc => hid hacc.1) rfl rfl
  · exact dispatches_silent h (.badWelcome _ ht fun hacc => hrole hacc.2.1) rfl rfl
  · exact dispatches_silent h (.badWelcome _ ht fun hacc => hstate hacc.2.2) rfl rfl
  · exact dispatches_silent h (.welcomed ht ⟨not_not.mp hid, not_not.mp hrole, not_not.mp hstate⟩) rfl rfl

theorem handleSettings_dispatches (h : m.conn.Settled) (ht : f.header.frameType = .Settings) :
    m.Dispatches f (m.handleSettings f) := by
  unfold handleSettings
  split_ifs
  · exact dispatches_silent h (.settings _ ht) rfl rfl
  · exact dispatches_silent h (.settings _ ht) rfl rfl

theorem sendPong_dispatches (h : m.conn.Settled) (hv : f.Valid) (ht : f.header.frameType = .Ping) :
    m.Dispatches f (m.sendPong f.payload) := by
  have hpong := pongFrame_valid hv.length_le
  unfold sendPong sendFrame withConn
  rcases Connection.sendFrame_cases h (Frame.new .Pong FLAG_CONTROL 0 f.payload) with
    ⟨-, -, c, hsend, hsends, -⟩ | ⟨-, -, hsend⟩ | ⟨hfit, -⟩
  · rw [hsend]
    exact dispatches_one (.pinged ht) hsends hpong
  · rw [hsend]
    exact dispatches_silent h (.pongless ht) rfl rfl
  · exact absurd hpong.length_eq hfit

/-- What `recv_frame` answers to a stream frame that comes too early. -/
def tooEarly (m : StreamManager) : Outcome StreamManager Unit :=
  (.error (.InvalidFrame "received frame before connection handshake completed"),
    if m.role = .Acceptor then (m.sendFrame rejectFrame).2 else m)

theorem dispatchHandshake_stream (ht : f.header.frameType.isStream) : m.dispatchHandshake f = m.tooEarly := by
  unfold dispatchHandshake
  cases hf : f.header.frameType <;> rw [hf] at ht <;> first | rfl | exact absurd ht (by decide)

theorem dispatchEstablished_stream (ht : f.header.frameType.isStream) :
    m.dispatchEstablished f = m.withStreams (m.endpoint.onStream f) := by
  unfold dispatchEstablished onStream
  cases hf : f.header.frameType <;> rw [hf] at ht <;> first | rfl | exact absurd ht (by decide)

theorem dispatch_arms {P : Outcome StreamManager Unit → Prop}
    (hearly : m.handshakeState ≠ .Established → f.header.frameType.isStream → P m.tooEarly)
    (hstream : m.handshakeState = .Established → f.header.frameType.isStream →
      P (m.withStreams (m.endpoint.onStream f)))
    (hhello : f.header.frameType = .Hello → P (m.handleHello f))
    (hwelcome : f.header.frameType = .Welcome → P (m.handleWelcome f))
    (hsettings : f.header.frameType = .Settings → P (m.handleSettings f))
    (hping : f.header.frameType = .Ping → P (m.sendPong f.payload))
    (hpong : f.header.frameType = .Pong → P (.ok (), m))
    (herror : f.header.frameType = .Error → P (.error (handleError f), m)) : P (m.dispatch f) := by
  unfold dispatch
  by_cases ht : f.header.frameType.isStream
  · rw [dispatchHandshake_stream ht, dispatchEstablished_stream ht]
    split_ifs with hest
    · exact hearly hest ht
    · exact hstream (not_not.mp hest) ht
  · have hrest : ∀ t, f.header.frameType = t → P (m.dispatchHandshake f) ∧ P (m.dispatchEstablished f) := by
      intro t hf
      unfold dispatchHandshake dispatchEstablished
      cases t <;> simp only [hf]
      case Hello => exact ⟨hhello hf, hhello hf⟩
      case Welcome => exact ⟨hwelcome hf, hwelcome hf⟩
      case Settings => exact ⟨hsettings hf, hsettings hf⟩
      case Ping => exact ⟨hping hf, hping hf⟩
      case Pong => exact ⟨hpong hf, hpong hf⟩
      case Error => exact ⟨herror hf, herror hf⟩
      all_goals exact absurd (by rw [hf]; rfl) ht
    split_ifs
    · exact (hrest _ rfl).1
    · exact (hrest _ rfl).2

theorem early_dispatches (h : m.conn.Settled) (hest : m.handshakeState ≠ .Established)
    (ht : f.header.frameType.isStream) : m.Dispatches f m.tooEarly := by
  have hearly := Receives.early (e := m.endpoint) (f := f) hest ht
  unfold tooEarly
  by_cases hrole : m.role = .Acceptor
  · obtain ⟨c, hsend, hsends, -⟩ := Connection.sendFrame_small h rejectFrame_valid.length_eq rejectFrame_small
    rw [if_pos (show m.endpoint.role = .Acceptor from hrole)] at hearly
    rw [if_pos hrole]
    rw [sendFrame, withConn, hsend]
    exact dispatches_one hearly hsends rejectFrame_valid
  · rw [if_neg (show m.endpoint.role ≠ .Acceptor from hrole)] at hearly
    rw [if_neg hrole]
    exact dispatches_silent h hearly rfl rfl

/-- Every inbound frame is answered with whole, valid frames and changes the endpoint as
`Receives` says. -/
theorem dispatch_receives (h : m.conn.Settled) (hv : f.Valid) : m.Dispatches f (m.dispatch f) := by
  apply dispatch_arms
  · exact early_dispatches h
  · exact fun hest ht => dispatches_silent h (.stream hest ht) rfl rfl
  · exact handleHello_dispatches h
  · exact handleWelcome_dispatches h
  · exact handleSettings_dispatches h
  · exact sendPong_dispatches h hv
  · exact fun hf => dispatches_silent h (.ponged hf) rfl rfl
  · exact fun hf => dispatches_silent h (.told _ hf) rfl rfl

end StreamManager

end TrenchDb.Transport
