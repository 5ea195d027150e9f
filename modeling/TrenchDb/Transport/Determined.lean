import TrenchDb.Transport.Link

/-!
# Where the endpoint determines the outcome

The reply and the frames of a call are functions of the endpoint, as long as the bytes still
buffered cannot matter; so is the outcome of most inbound frames.
-/

open TrenchDb.Lib

namespace TrenchDb.Transport

/-! ## Functions of the endpoint -/

namespace Endpoint

/-- `send_data` on an established endpoint, for a payload that is refused or small. -/
def sends (e : Endpoint) (s : UInt32) (payload : List UInt8) : Option (Reply × List Frame × Endpoint) :=
  if payload = [] then
    some (.ok .done, [], e)
  else if MAX_FRAME_SIZE < payload.length then
    some (.error (.FrameTooLarge payload.length MAX_FRAME_SIZE), [], e)
  else
    match e.streams.lookup s with
    | none => none
    | some stream =>
      if ¬ stream.state.canSend then
        none
      else if stream.sendWindow < payload.length then
        some (.error (.FlowControlViolation stream.id), [], e)
      else if (payload.length : Int) ≤ DEFAULT_WINDOW then
        some (.ok .done, [dataFrame s payload], e.put s (stream.consumeSendWindow payload.length))
      else
        none

/-- A call on an established endpoint. -/
def calls (e : Endpoint) : Call → Option (Reply × List Frame × Endpoint)
  | .openStream =>
    if e.nextLocalId.toNat + 2 < 2 ^ 32 then
      some (.ok (.opened e.nextLocalId), [openFrame e.nextLocalId],
        { e.put e.nextLocalId (Stream.new e.nextLocalId) with nextLocalId := e.nextLocalId + 2 })
    else
      some (.error .StreamIdExhausted, [], e)
  | .sendData s payload => e.sends s payload
  | .closeStream s =>
    match e.streams.lookup s with
    | none => none
    | some stream =>
      if stream.state.isClosed then none else some (.ok .done, [closeFrame s], e.afterClose s stream)
  | .recvData s =>
    match e.streams.lookup s with
    | none => none
    | some stream =>
      match stream.popRecv with
      | (none, _) => some (.ok (.data none), [], e)
      | (some payload, rest) => some (.ok (.data (some payload)), credit s stream payload, e.put s rest)
  | _ => none

/-- The reply to a call, the frames it emits, and the endpoint it leaves; `none` where this is
not said. -/
def call (e : Endpoint) : Call → Option (Reply × List Frame × Endpoint)
  | .startHandshake =>
    if e.role = .Initiator ∧ e.handshakeState = .AwaitingHello then
      some (.ok .done, [helloFrame], { e with handshakeState := .AwaitingWelcome })
    else
      none
  | .flush => some (.ok .done, [], e)
  | c => if e.handshakeState = .Established then e.calls c else none

instance (e : Endpoint) (f : Frame) : Decidable (e.AcceptsHello f) := by
  unfold AcceptsHello; infer_instance

instance (e : Endpoint) (f : Frame) : Decidable (e.AcceptsWelcome f) := by
  unfold AcceptsWelcome; infer_instance

/-- The verdict on a frame, the frames emitted in reply, and the endpoint it leaves; `none` where
this is not said. -/
def hear (e : Endpoint) (f : Frame) : Option (Except TransportError Unit × List Frame × Endpoint) :=
  if f.header.frameType.isStream then
    if e.handshakeState = .Established then
      some ((e.onStream f).1, [], { e with streams := (e.onStream f).2 })
    else
      none
  else if f.header.frameType = .Hello ∧ e.AcceptsHello f then
    some (.ok (), [welcomeFrame], { e with handshakeState := .Established })
  else if f.header.frameType = .Welcome ∧ e.AcceptsWelcome f then
    some (.ok (), [], { e with handshakeState := .Established })
  else
    none

variable {e e' e'' : Endpoint} {f : Frame} {r r' : Except TransportError Unit} {outs outs' : List Frame}

theorem Receives.hear_eq (h : e.Receives f r outs e') (hhear : e.hear f = some (r', outs', e'')) :
    r = r' ∧ outs = outs' ∧ e' = e'' := by
  unfold hear at hhear
  cases h with
  | stream hest ht =>
    rw [if_pos ht, if_pos hest] at hhear
    simpa using hhear
  | early hest ht => rw [if_pos ht, if_neg hest] at hhear; cases hhear
  | helloed ht hacc =>
    rw [if_neg (by simp [ht, Frametype.isStream]), if_pos ⟨ht, hacc⟩] at hhear
    simpa using hhear
  | welcomed ht hacc =>
    rw [if_neg (by simp [ht, Frametype.isStream]), if_neg (by simp [ht]), if_pos ⟨ht, hacc⟩] at hhear
    simpa using hhear
  | badHello _ ht hacc | badWelcome _ ht hacc => simp [ht, Frametype.isStream, hacc] at hhear
  | settings _ ht | told _ ht | pinged ht | pongless ht | ponged ht => simp [ht, Frametype.isStream] at hhear

/-! ### Single outcomes -/

section Outcomes

variable {s : UInt32} {payload : List UInt8} {stream : Stream} (hest : e.handshakeState = .Established)

include hest

theorem call_openStream (hid : e.nextLocalId.toNat + 2 < 2 ^ 32) : e.call .openStream =
    some (.ok (.opened e.nextLocalId), [openFrame e.nextLocalId],
      { e.put e.nextLocalId (Stream.new e.nextLocalId) with nextLocalId := e.nextLocalId + 2 }) := by
  simp only [call, calls, if_pos hest, if_pos hid]

theorem call_openStream_exhausted (hid : ¬ e.nextLocalId.toNat + 2 < 2 ^ 32) :
    e.call .openStream = some (.error .StreamIdExhausted, [], e) := by
  simp only [call, calls, if_pos hest, if_neg hid]

theorem call_sendData (hne : payload ≠ []) (hle : (payload.length : Int) ≤ DEFAULT_WINDOW)
    (hlook : e.streams.lookup s = some stream) (hcan : stream.state.canSend)
    (hwin : stream.sendWindow = DEFAULT_WINDOW) : e.call (.sendData s payload) =
      some (.ok .done, [dataFrame s payload], e.put s (stream.consumeSendWindow payload.length)) := by
  have hmax : ¬ MAX_FRAME_SIZE < payload.length := by unfold DEFAULT_WINDOW at hle; unfold MAX_FRAME_SIZE; omega
  simp only [call, calls, sends, if_pos hest, if_neg hne, if_neg hmax, hlook, hcan, hwin, if_neg (not_lt.mpr hle),
    if_pos hle, not_true_eq_false, if_false]

theorem call_sendData_nil : e.call (.sendData s []) = some (.ok .done, [], e) := by
  simp only [call, calls, sends, if_pos hest, if_true]

theorem call_sendData_refused (hbig : DEFAULT_WINDOW < (payload.length : Int))
    (hlook : e.streams.lookup s = some stream) (hcan : stream.state.canSend)
    (hwin : stream.sendWindow = DEFAULT_WINDOW) :
    ∃ err, e.call (.sendData s payload) = some (.error err, [], e) := by
  have hne : payload ≠ [] := by rintro rfl; revert hbig; decide
  by_cases hmax : MAX_FRAME_SIZE < payload.length
  · simp only [call, calls, sends, if_pos hest, if_neg hne, if_pos hmax]
    exact ⟨_, rfl⟩
  · simp only [call, calls, sends, if_pos hest, if_neg hne, if_neg hmax, hlook, hcan, hwin, if_pos hbig,
      not_true_eq_false, if_false]
    exact ⟨_, rfl⟩

theorem call_closeStream (hlook : e.streams.lookup s = some stream) (hopen : stream.state.isClosed = false) :
    e.call (.closeStream s) = some (.ok .done, [closeFrame s], e.afterClose s stream) := by
  simp only [call, calls, if_pos hest, hlook, hopen, Bool.false_eq_true, if_false]

theorem call_recvData {rest : Stream} (hlook : e.streams.lookup s = some stream)
    (hpop : stream.popRecv = (some payload, rest)) : e.call (.recvData s) =
      some (.ok (.data (some payload)), credit s stream payload, e.put s rest) := by
  simp only [call, calls, if_pos hest, hlook, hpop]

theorem hear_openFrame (hrole : e.role = .Acceptor) (hodd : s % 2 = 1) (hnone : e.streams.lookup s = none) :
    e.hear (openFrame s) = some (.ok (), [], e.put s (Stream.new s)) := by
  have hmem : s ∉ e.streams := by rw [← Finmap.lookup_isSome, hnone]; simp
  simp [hear, Frametype.isStream, hest, onStream, handleOpen, expectedParity, hrole, hodd, hmem, put]

theorem hear_dataFrame (hlook : e.streams.lookup s = some stream) (hcan : stream.state.canReceive) :
    e.hear (dataFrame s payload) = some (.ok (), [], e.put s (stream.pushRecv payload)) := by
  simp [hear, Frametype.isStream, hest, onStream, handleData, hlook, hcan, put]

theorem hear_closeFrame (hlook : e.streams.lookup s = some stream) : e.hear (closeFrame s) = some (.ok (), [],
    if stream.onRemoteClose.state = .Closed then e.drop s else e.put s stream.onRemoteClose) := by
  have hstream : (closeFrame s).header.frameType.isStream = true := rfl
  unfold hear
  rw [if_pos hstream, if_pos hest]
  simp only [onStream, closeFrame_type, closeFrame_streamId, handleClose, hlook]
  split_ifs <;> rfl

theorem hear_windowFrame {n : Nat} (hlook : e.streams.lookup s = some stream) : e.hear (windowFrame s n) =
    some (.ok (), [], e.put s (stream.applyWindowIncrement
      (UInt32.ofNat (BigEndian.ofBE (StreamManager.windowPayload n))))) := by
  simp [hear, Frametype.isStream, hest, onStream, handleWindow, hlook, put]

end Outcomes

end Endpoint

/-! ## The manager does just that -/

namespace StreamManager

open Endpoint

/-- `m` answers the call so, emits these frames, and becomes this endpoint. -/
def Does (m : StreamManager) (c : Call) (o : Reply × List Frame × Endpoint) : Prop :=
  ∃ m', m.perform c = (o.1, m') ∧ m'.endpoint = o.2.2 ∧
    m.conn.Sends (o.2.1.flatMap Frame.wire) m'.conn ∧ ∀ f ∈ o.2.1, f.Valid

variable {m : StreamManager} {o : Reply × List Frame × Endpoint}

theorem does_silent (h : m.conn.Settled) {c : Call} {reply : Reply} (heq : m.perform c = (reply, m)) :
    m.Does c (reply, [], m.endpoint) :=
  ⟨m, heq, rfl, h.sends_nothing, by simp⟩

theorem startHandshake_hello (h : m.conn.Settled) (hrole : m.role = .Initiator)
    (hstate : m.handshakeState = .AwaitingHello) :
    ∃ c, m.startHandshake = (.ok (), { m with conn := c, handshakeState := .AwaitingWelcome }) ∧
      m.conn.Sends helloFrame.wire c ∧ c.writeBuffer = [] := by
  obtain ⟨c, hsend, hsends, -⟩ := Connection.sendFrame_small h (empty_fitted .Hello FLAG_CONTROL 0)
    (empty_small .Hello FLAG_CONTROL 0)
  refine ⟨c.flushed, ?_, hsends.flushed, rfl⟩
  unfold startHandshake sendHello
  rw [if_neg (by simp [hstate]), if_pos hrole, if_neg (by simp [hrole]), if_neg (by simp [hstate])]
  simp only [sendFrame, withConn, hsend, Outcome.andThen]
  exact flush_eq hsends.settled.reliable

theorem sendData_does (h : m.conn.Settled) (hest : m.handshakeState = .Established) {s : UInt32}
    {payload : List UInt8} (ho : m.endpoint.sends s payload = some o) : m.Does (.sendData s payload) o := by
  unfold sends at ho
  by_cases hempty : payload = []
  · rw [if_pos hempty] at ho
    obtain rfl := Option.some.inj ho
    refine does_silent h ?_
    rw [perform, sendData, whenEstablished_true hest, if_pos hempty]
    rfl
  by_cases hbig : MAX_FRAME_SIZE < payload.length
  · rw [if_neg hempty, if_pos hbig] at ho
    obtain rfl := Option.some.inj ho
    refine does_silent h ?_
    rw [perform, sendData, whenEstablished_true hest, if_neg hempty, if_pos hbig]
    rfl
  rw [if_neg hempty, if_neg hbig] at ho
  split at ho
  · cases ho
  next stream hlook =>
    replace hlook : m.streams.lookup s = some stream := hlook
    split_ifs at ho with hcan hwin hsmall <;> obtain rfl := Option.some.inj ho
    · refine does_silent h ?_
      have hcheck : stream.checkSendWindow payload.length = .error (.FlowControlViolation stream.id) :=
        if_pos hwin
      rw [perform, sendData, whenEstablished_true hest, if_neg hempty, if_neg hbig, hlook]
      simp only [hcan, not_true_eq_false, if_false, hcheck]
      rfl
    · have hsmall' : (dataFrame s payload).Small := new_small (by unfold DEFAULT_WINDOW at hsmall; omega)
      rcases sendData_cases h hest hempty (Nat.not_lt.mp hbig) hlook hcan (by omega) with
        ⟨c, heq, hsends⟩ | ⟨hno, -⟩
      · exact ⟨_, congrArg (Outcome.map _) heq, rfl, by simpa using hsends,
          by simpa using dataFrame_valid s (Nat.not_lt.mp hbig)⟩
      · exact absurd hsmall' hno

theorem calls_does (h : m.conn.Settled) (hest : m.handshakeState = .Established) {c : Call}
    (ho : m.endpoint.calls c = some o) : m.Does c o := by
  unfold calls at ho
  split at ho
  · split_ifs at ho with hid <;> obtain rfl := Option.some.inj ho
    · obtain ⟨c, heq, hsends⟩ := openStream_ok h hest hid
      exact ⟨_, congrArg (Outcome.map _) heq, rfl, by simpa [endpoint] using hsends,
        by simpa using openFrame_valid _⟩
    · refine does_silent h ?_
      rw [perform, openStream, whenEstablished_true hest]
      simp only [show checkedAdd2 m.nextLocalId = _ from if_neg hid]
      rfl
  · exact sendData_does h hest ho
  · split at ho
    · cases ho
    next s _ stream hlook =>
      split_ifs at ho with hclosed
      obtain rfl := Option.some.inj ho
      obtain ⟨c, heq, hsends⟩ := closeStream_ok h hest hlook hclosed
      have hsame := m.endpoint.afterClose_same s stream
      exact ⟨_, congrArg (Outcome.map _) heq, Endpoint.ext hsame.1.symm hsame.2.1.symm hsame.2.2.symm rfl,
        by simpa using hsends, by simpa using closeFrame_valid s⟩
  · split at ho
    · cases ho
    next s _ stream hlook =>
      replace hlook : m.streams.lookup s = some stream := hlook
      split at ho <;> obtain rfl := Option.some.inj ho
      next hpop =>
        refine does_silent h ?_
        rw [perform, recvData, whenEstablished_true hest, hlook]
        simp only [hpop]
        rfl
      next payload rest hpop =>
        obtain ⟨c, heq, hsends⟩ := recvData_ok h hest hlook hpop
        refine ⟨_, congrArg (Outcome.map _) heq, rfl, hsends, ?_⟩
        dsimp only
        unfold credit
        split_ifs
        · simpa using windowFrame_valid s _
        · simp
  · cases ho

theorem call_does (h : m.conn.Settled) {c : Call} (ho : m.endpoint.call c = some o) : m.Does c o := by
  unfold call at ho
  split at ho
  · split_ifs at ho with hstart
    obtain rfl := Option.some.inj ho
    obtain ⟨c, heq, hsends, -⟩ := startHandshake_hello h hstart.1 hstart.2
    exact ⟨_, congrArg (Outcome.map _) heq, rfl, by simpa using hsends, by simpa using helloFrame_valid⟩
  · obtain rfl := Option.some.inj ho
    exact ⟨_, congrArg (Outcome.map _) (flush_eq h.reliable), rfl, Connection.sends_flushed _, by simp⟩
  · split_ifs at ho with hest
    exact calls_does h hest ho

/-! ## Nothing left in the write buffer -/

theorem flush_empties (h : m.conn.Settled) : (m.perform .flush).2.conn.writeBuffer = [] := by
  rw [perform, flush_eq h.reliable]
  rfl

theorem startHandshake_empties (h : m.conn.Settled) {o : Reply × List Frame × Endpoint}
    (ho : m.endpoint.call .startHandshake = some o) : (m.perform .startHandshake).2.conn.writeBuffer = [] := by
  simp only [call] at ho
  split_ifs at ho with hstart
  obtain ⟨c, heq, -, hempty⟩ := startHandshake_hello h hstart.1 hstart.2
  rw [perform, heq]
  exact hempty

theorem sendFrame_empty (h : m.conn.Settled) (hempty : m.conn.writeBuffer = []) (f : Frame) :
    (m.sendFrame f).2.conn.writeBuffer = [] := by
  unfold sendFrame withConn
  rcases Connection.sendFrame_cases h f with ⟨-, -, c, heq, -, hc⟩ | ⟨-, -, heq⟩ | ⟨-, e, heq⟩ <;> rw [heq]
  · exact hc
  · exact hempty
  · exact hempty

theorem dispatch_empty (h : m.conn.Settled) (hempty : m.conn.writeBuffer = []) (f : Frame) :
    (m.dispatch f).2.conn.writeBuffer = [] := by
  have hsend := m.sendFrame_empty h hempty
  have hhello : (m.handleHello f).2.conn.writeBuffer = [] := by
    unfold handleHello sendWelcome
    have := hsend (Frame.empty .Welcome FLAG_CONTROL 0)
    generalize m.sendFrame (Frame.empty .Welcome FLAG_CONTROL 0) = o at this
    obtain ⟨_ | _, m'⟩ := o <;> split_ifs <;> assumption
  have hwelcome : (m.handleWelcome f).2.conn.writeBuffer = [] := by
    unfold handleWelcome
    split_ifs <;> exact hempty
  have hsettings : (m.handleSettings f).2.conn.writeBuffer = [] := by
    unfold handleSettings
    split_ifs <;> exact hempty
  have hearly : m.tooEarly.2.conn.writeBuffer = [] := by
    unfold tooEarly
    split_ifs
    · exact hsend _
    · exact hempty
  apply dispatch_arms (P := fun o => o.2.conn.writeBuffer = [])
  · exact fun _ _ => hearly
  · exact fun _ _ => hempty
  · exact fun _ => hhello
  · exact fun _ => hwelcome
  · exact fun _ => hsettings
  · exact fun _ => hsend _
  · exact fun _ => hempty
  · exact fun _ => hempty

theorem recvFrame_empty (h : m.conn.Settled) (hempty : m.conn.writeBuffer = []) (reads : List Read) :
    (m.recvFrame reads).2.1.conn.writeBuffer = [] := by
  obtain ⟨-, hstream, hbuffer⟩ := m.conn.recvFrame_frame reads
  generalize hp : m.conn.recvFrame reads = p at hstream hbuffer
  obtain ⟨r, c, rest⟩ := p
  replace hbuffer : c.writeBuffer = [] := hbuffer.trans hempty
  have hc : c.Settled := ⟨by rw [show c.stream = _ from hstream]; exact h.reliable, by rw [hbuffer]; decide⟩
  match r with
  | none => rw [recvFrame_none hp]; exact hbuffer
  | some (.error e) => rw [recvFrame_error hp]; exact hbuffer
  | some (.ok f) =>
    rw [recvFrame_some hp]
    exact dispatch_empty (m := { m with conn := c }) hc hbuffer f

end StreamManager

end TrenchDb.Transport
