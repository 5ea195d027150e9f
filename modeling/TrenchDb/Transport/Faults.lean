import TrenchDb.Transport.GracefulClose

/-!
# When writes fail

Runs of a manager whose socket may fail any write or flush. A call changes its stream before
it sends its frame, so a failed write can leave the change behind.
-/

open TrenchDb.Lib.Incremental TrenchDb.Lib.Lts

namespace TrenchDb.Transport

/-! ## The socket and the connection -/

/-- The next `write_all` and the `flush` after it succeed. -/
def Socket.Ready (s : Socket) : Prop := ∀ fault ∈ s.faults.take 2, fault = none

theorem Socket.writeAll_cases (s : Socket) (bytes : List UInt8) :
    (∃ (fault : WriteFault) (s' : Socket), ¬ s.Ready ∧ s.writeAll bytes = (.error fault.error, s') ∧
      s'.written = s.written ++ bytes.take fault.taken) ∨
    ∃ s', s.writeAll bytes = (.ok (), s') ∧ s'.written = s.written ++ bytes ∧
      ((s.Ready ∧ ∃ s'', s'.flush = (.ok (), s'') ∧ s''.written = s'.written) ∨
        (¬ s.Ready ∧ ∃ e s'', s'.flush = (.error e, s'') ∧ s''.written = s'.written)) := by
  obtain ⟨written, faults⟩ := s
  match faults with
  | some fault :: rest => exact .inl ⟨fault, _, by simp [Ready], rfl, rfl⟩
  | [] | [none] => exact .inr ⟨_, rfl, rfl, .inl ⟨by simp [Ready], _, rfl, rfl⟩⟩
  | none :: none :: rest => exact .inr ⟨_, rfl, rfl, .inl ⟨by simp [Ready], _, rfl, rfl⟩⟩
  | none :: some fault :: rest => exact .inr ⟨_, rfl, rfl, .inr ⟨by simp [Ready], _, _, rfl, rfl⟩⟩

namespace Connection

/-- The frame can be encoded and there is room for it in the write buffer. -/
def Fits (c : Connection) (f : Frame) : Prop :=
  f.Fitted ∧ c.writeBuffer.length + f.wire.length ≤ MAX_BUFFER_SIZE

/-- `bytes` went into the write buffer. It was not flushed, or it was flushed in part by a failed
write, or as a whole. -/
inductive Takes (c : Connection) (bytes : List UInt8) (c' : Connection) : Prop
  | buffered (n : Nat) : c'.writeBuffer = c.writeBuffer ++ bytes →
      c'.stream.written = c.stream.written ++ (c.writeBuffer ++ bytes).take n →
      (c.stream.faults = [] → n = 0) → Takes c bytes c'
  | flushed : c'.writeBuffer = [] → c'.stream.written = c.stream.written ++ (c.writeBuffer ++ bytes) →
      Takes c bytes c'

/-- The bytes that went into the write buffer between two states of a connection. -/
def took (c c' : Connection) : List UInt8 :=
  if c'.writeBuffer = [] then
    c'.stream.written.drop (c.stream.written.length + c.writeBuffer.length)
  else
    c'.writeBuffer.drop c.writeBuffer.length

variable {c c' : Connection} {bytes : List UInt8} {f : Frame}

theorem takes_nothing (c : Connection) : c.Takes [] c := .buffered 0 (by simp) (by simp) fun _ => rfl

theorem Takes.of_read {buffer : List UInt8}
    (h : ({ c with readBuffer := buffer } : Connection).Takes bytes c') : c.Takes bytes c' := by
  cases h with
  | buffered n hbuf hwritten hn => exact .buffered n hbuf hwritten hn
  | flushed hbuf hwritten => exact .flushed hbuf hwritten

theorem Takes.of_buffer
    (h : ({ c with writeBuffer := c.writeBuffer ++ bytes } : Connection).Takes [] c') : c.Takes bytes c' := by
  cases h with
  | buffered n hbuf hwritten hn => exact .buffered n (by simpa using hbuf) (by simpa using hwritten) hn
  | flushed hbuf hwritten => exact .flushed hbuf (by simpa using hwritten)

theorem Takes.took_eq (h : c.Takes bytes c') : c.took c' = bytes := by
  unfold took
  cases h with
  | buffered n hbuf hwritten _ =>
    split_ifs with hempty
    · obtain ⟨hold, rfl⟩ := List.append_eq_nil_iff.mp (hbuf.symm.trans hempty)
      simp [hwritten, hold]
    · rw [hbuf, List.drop_left]
  | flushed hbuf hwritten =>
    rw [if_pos hbuf, hwritten, ← List.append_assoc, ← List.length_append, List.drop_left]

theorem Takes.sentBytes_eq (h : c.Takes bytes c') (hs : c.stream.faults = []) :
    c'.sentBytes = c.sentBytes ++ bytes := by
  unfold sentBytes
  cases h with
  | buffered n hbuf hwritten hn => simp [hbuf, hwritten, hn hs]
  | flushed hbuf hwritten => simp [hbuf, hwritten]

theorem flush_cases (c : Connection) :
    (c.writeBuffer = [] ∧ c.flush = (.ok (), c)) ∨
    (c.stream.Ready ∧ c.writeBuffer ≠ [] ∧ ∃ c', c.flush = (.ok (), c') ∧ c'.writeBuffer = [] ∧ c.Takes [] c') ∨
    (¬ c.stream.Ready ∧ c.writeBuffer ≠ [] ∧ ∃ e c', c.flush = (.error (.Io e), c') ∧ c.Takes [] c') := by
  unfold flush
  split_ifs with hempty
  · exact .inl ⟨List.isEmpty_iff.mp hempty, rfl⟩
  have hne : c.writeBuffer ≠ [] := fun h => hempty (List.isEmpty_iff.mpr h)
  refine .inr ?_
  rcases c.stream.writeAll_cases c.writeBuffer with
    ⟨fault, s, hready, hwrite, hs⟩ | ⟨s, hwrite, hs, ⟨hready, s', hflush, hs'⟩ | ⟨hready, e, s', hflush, hs'⟩⟩
  · refine .inr ⟨hready, hne, fault.error, _, by rw [hwrite], .buffered fault.taken (by simp) (by simpa using hs) ?_⟩
    exact fun h => absurd (by simp [Socket.Ready, h]) hready
  · refine .inl ⟨hready, hne, { c with stream := s', writeBuffer := [] }, ?_, rfl, ?_⟩
    · simp only [hwrite, hflush]
    · exact .flushed rfl (by simpa [hs] using hs')
  · refine .inr ⟨hready, hne, e, { c with stream := s', writeBuffer := [] }, ?_, ?_⟩
    · simp only [hwrite, hflush]
    · exact .flushed rfl (by simpa [hs] using hs')

theorem sendFrame_any (c : Connection) (f : Frame) :
    (¬ c.Fits f ∧ ∃ e, c.sendFrame f = (.error e, c)) ∨
    (c.Fits f ∧ ∃ r c', c.sendFrame f = (r, c') ∧ c.Takes f.wire c' ∧ (r = .ok () ↔ c.stream.Ready) ∧
      (r = .ok () → c'.writeBuffer = [])) := by
  rcases c.bufferFrame_cases f with ⟨hf, hle, heq⟩ | ⟨hf, hbig, heq⟩ | ⟨hf, e, heq⟩
  · refine .inr ⟨⟨hf, hle⟩, ?_⟩
    rw [sendFrame, heq]
    dsimp only [Outcome.andThen]
    have hne : c.writeBuffer ++ f.wire ≠ [] := by
      intro h
      have hlen := congrArg List.length h
      simp [HEADER_SIZE] at hlen
    rcases ({ c with writeBuffer := c.writeBuffer ++ f.wire } : Connection).flush_cases with
      ⟨hempty, -⟩ | ⟨hready, -, c', heq', hbuf, htakes⟩ | ⟨hready, -, e, c', heq', htakes⟩
    · exact absurd hempty hne
    · exact ⟨_, _, heq', htakes.of_buffer, by simpa using hready, fun _ => hbuf⟩
    · exact ⟨_, _, heq', htakes.of_buffer, by simpa using hready, by simp⟩
  · refine .inl ⟨fun hfits => absurd hfits.2 (Nat.not_le.mpr hbig), .BufferOverflow, ?_⟩
    rw [sendFrame, heq]
    rfl
  · refine .inl ⟨fun hfits => hf hfits.1, e, ?_⟩
    rw [sendFrame, heq]
    rfl

end Connection

/-! ## Calls -/

theorem Outcome.map_andThen {σ α β γ : Type} (o : Outcome σ α) (k : α → σ → Outcome σ β) (g : β → γ) :
    (o.andThen k).map g = o.andThen fun a s => (k a s).map g := by
  obtain ⟨r, s⟩ := o
  cases r <;> rfl

theorem Outcome.map_eq_andThen {σ α β : Type} (o : Outcome σ α) (g : α → β) :
    o.map g = o.andThen fun a s => (.ok (g a), s) := by
  obtain ⟨r, s⟩ := o
  cases r <;> rfl

namespace Endpoint

/-- What a call has done to the endpoint by the time it gives a frame to the connection. -/
inductive Begins (e : Endpoint) : Call → Frame → Endpoint → Prop
  | hello : e.role = .Initiator → e.handshakeState = .AwaitingHello → Begins e .startHandshake helloFrame e
  | opened : e.handshakeState = .Established → e.nextLocalId.toNat + 2 < 2 ^ 32 →
      Begins e .openStream (openFrame e.nextLocalId)
        { e.put e.nextLocalId (Stream.new e.nextLocalId) with nextLocalId := e.nextLocalId + 2 }
  | sent {s : UInt32} {payload : List UInt8} {stream : Stream} : e.handshakeState = .Established →
      payload ≠ [] → payload.length ≤ MAX_FRAME_SIZE → e.streams.lookup s = some stream →
      stream.state.canSend → (payload.length : Int) ≤ stream.sendWindow →
      Begins e (.sendData s payload) (dataFrame s payload) (e.put s (stream.consumeSendWindow payload.length))
  | closed {s : UInt32} {stream : Stream} : e.handshakeState = .Established →
      e.streams.lookup s = some stream → ¬ stream.state.isClosed →
      Begins e (.closeStream s) (closeFrame s) (e.put s stream.onLocalClose)
  | reset {s : UInt32} {stream : Stream} : e.handshakeState = .Established →
      e.streams.lookup s = some stream → Begins e (.resetStream s) (resetFrame s) (e.put s stream.onReset)
  | took {s : UInt32} {stream rest : Stream} {payload : List UInt8} : e.handshakeState = .Established →
      e.streams.lookup s = some stream → stream.popRecv = (some payload, rest) → stream.state.canReceive →
      payload ≠ [] → Begins e (.recvData s) (windowFrame s payload.length) (e.put s rest)
  | pinged (payload : List UInt8) : Begins e (.sendPing payload) (pingFrame payload) e

end Endpoint

namespace StreamManager

open Endpoint

/-- The call flushes after it has buffered `f`. -/
def Flushes (m : StreamManager) (f : Frame) : Call → Prop
  | .startHandshake | .resetStream _ | .sendPing _ | .flush => True
  | _ => FLUSH_THRESHOLD ≤ m.conn.writeBuffer.length + f.wire.length

/-- The frame fits, and the writes that the call makes succeed. -/
def Goes (m : StreamManager) (c : Call) (f : Frame) : Prop :=
  m.conn.Fits f ∧ (m.Flushes f c → m.conn.stream.Ready)

/-- How giving `f` to the connection can go. -/
inductive Gives (m : StreamManager) (f : Frame) (flushes : Prop) : Outcome StreamManager Unit → Prop
  | refused (err : TransportError) : ¬ m.conn.Fits f → Gives m f flushes (.error err, m)
  | taken (r : Except TransportError Unit) (conn : Connection) : m.conn.Fits f → m.conn.Takes f.wire conn →
      (r = .ok () ↔ (flushes → m.conn.stream.Ready)) → (flushes → r = .ok () → conn.writeBuffer = []) →
      Gives m f flushes (r, { m with conn })

theorem sendFrame_gives (m : StreamManager) (f : Frame) : m.Gives f True (m.sendFrame f) := by
  unfold sendFrame withConn
  rcases m.conn.sendFrame_any f with ⟨hfits, e, heq⟩ | ⟨hfits, r, c', heq, htakes, hok, hbuf⟩
  · rw [heq]
    exact .refused e hfits
  · rw [heq]
    exact .taken r c' hfits htakes (by simpa using hok) fun _ => hbuf

theorem bufferAndMaybeFlush_gives (m : StreamManager) (f : Frame) :
    m.Gives f (FLUSH_THRESHOLD ≤ m.conn.writeBuffer.length + f.wire.length) (m.bufferAndMaybeFlush f) := by
  by_cases hdue : FLUSH_THRESHOLD ≤ m.conn.writeBuffer.length + f.wire.length
  · -- The frame is flushed, as by `send_frame`.
    have heq : m.bufferAndMaybeFlush f = m.sendFrame f := by
      unfold bufferAndMaybeFlush sendFrame Connection.sendFrame withConn
      rcases m.conn.bufferFrame_cases f with ⟨-, -, heq⟩ | ⟨-, -, heq⟩ | ⟨-, e, heq⟩
      · simp only [heq, Outcome.andThen, List.length_append, if_pos hdue]
        rfl
      · simp only [heq, Outcome.andThen]
      · simp only [heq, Outcome.andThen]
    rw [heq, eq_true hdue]
    exact m.sendFrame_gives f
  · unfold bufferAndMaybeFlush withConn
    rcases m.conn.bufferFrame_cases f with ⟨hf, hle, heq⟩ | ⟨-, hbig, heq⟩ | ⟨hf, e, heq⟩
    · simp only [heq, Outcome.andThen, List.length_append, if_neg hdue]
      refine .taken (.ok ()) _ ⟨hf, hle⟩ (.buffered 0 rfl (by simp) fun _ => rfl) ?_ fun h => absurd h hdue
      exact ⟨fun _ h => absurd h hdue, fun _ => rfl⟩
    · simp only [heq, Outcome.andThen]
      exact .refused _ fun hfits => absurd hfits.2 (Nat.not_le.mpr hbig)
    · simp only [heq, Outcome.andThen]
      exact .refused e fun hfits => hf hfits.1

/-- How a call can go. It gives no frame to the connection, or one that goes through, or one that
does not: then it returns with the endpoint as it is by that time. -/
inductive Tried (m : StreamManager) (c : Call) : Outcome StreamManager Answer → Prop
  | silent {reply : Reply} {n : StreamManager} : (∀ f e, ¬ m.endpoint.Begins c f e) →
      m.endpoint.Acts c reply [] n.endpoint → m.conn.Takes [] n.conn →
      (∀ err, reply = .error err → n.endpoint = m.endpoint) → Tried m c (reply, n)
  | gone {f : Frame} {e : Endpoint} {answer : Answer} {n : StreamManager} : m.endpoint.Begins c f e →
      m.Goes c f → m.endpoint.Acts c (.ok answer) [f] n.endpoint → m.conn.Takes f.wire n.conn →
      Tried m c (.ok answer, n)
  | stuck {f : Frame} {err : TransportError} {n : StreamManager} : m.endpoint.Begins c f n.endpoint →
      ¬ m.Goes c f → (n.conn = m.conn ∨ m.conn.Fits f ∧ m.conn.Takes f.wire n.conn) →
      Tried m c (.error err, n)

variable {m : StreamManager}

theorem tried_error {c : Call} (err : TransportError) (hno : ∀ f e, ¬ m.endpoint.Begins c f e) :
    m.Tried c (.error err, m) :=
  .silent hno (.failed c err) m.conn.takes_nothing fun _ _ => rfl

theorem tried_of_gives {c : Call} {f : Frame} {n : StreamManager} {o : Outcome StreamManager Unit}
    {answer : Answer} {g : StreamManager → StreamManager} (hbegins : m.endpoint.Begins c f n.endpoint)
    (hconn : n.conn = m.conn) (hgives : n.Gives f (m.Flushes f c) o)
    (hacts : ∀ conn, m.endpoint.Acts c (.ok answer) [f] (g { n with conn }).endpoint)
    (hfin : ∀ m, (g m).conn = m.conn) : m.Tried c (o.andThen fun _ m => (.ok answer, g m)) := by
  cases hgives with
  | refused err hfits =>
    rw [hconn] at hfits
    exact .stuck hbegins (fun hgoes => hfits hgoes.1) (.inl hconn)
  | taken r conn hfits htakes hok _ =>
    rw [hconn] at hfits htakes hok
    cases r with
    | ok =>
      refine .gone hbegins ⟨hfits, hok.mp rfl⟩ (hacts conn) ?_
      show m.conn.Takes f.wire (g _).conn
      rwa [hfin]
    | error err =>
      refine .stuck (n := { n with conn }) hbegins (fun hgoes => ?_) (.inr ⟨hfits, htakes⟩)
      have := hok.mpr hgoes.2
      cases this

theorem openStream_tried (m : StreamManager) : m.Tried .openStream (m.openStream.map .opened) := by
  unfold openStream
  by_cases hest : m.handshakeState = .Established
  · rw [whenEstablished_true hest]
    by_cases hid : m.nextLocalId.toNat + 2 < 2 ^ 32
    · simp only [show checkedAdd2 m.nextLocalId = _ from if_pos hid, Outcome.map_andThen]
      exact tried_of_gives (n := { m with
          nextLocalId := m.nextLocalId + 2, streams := m.streams.insert m.nextLocalId (Stream.new m.nextLocalId) })
        (g := id) (.opened hest hid) rfl (bufferAndMaybeFlush_gives _ _) (fun _ => .opened hest hid) fun _ => rfl
    · simp only [show checkedAdd2 m.nextLocalId = _ from if_neg hid]
      refine tried_error _ fun f e hbegins => ?_
      cases hbegins
      contradiction
  · rw [whenEstablished_false hest]
    refine tried_error _ fun f e hbegins => ?_
    cases hbegins
    contradiction

theorem sendData_tried (m : StreamManager) (s : UInt32) (payload : List UInt8) :
    m.Tried (.sendData s payload) ((m.sendData s payload).map fun _ => .done) := by
  by_cases hchecks : m.handshakeState = .Established ∧ payload ≠ [] ∧ payload.length ≤ MAX_FRAME_SIZE ∧
      ∃ stream, m.streams.lookup s = some stream ∧ stream.state.canSend ∧ (payload.length : Int) ≤ stream.sendWindow
  · obtain ⟨hest, hne, hle, stream, hlook, hcan, hwin⟩ := hchecks
    rw [sendData_eq hest hne hle hlook hcan hwin, Outcome.map_eq_andThen]
    exact tried_of_gives (n := { m with streams := m.streams.insert s (stream.consumeSendWindow payload.length) })
      (g := id) (.sent hest hne hle hlook hcan hwin) rfl (bufferAndMaybeFlush_gives _ _)
      (fun _ => .sent hest hne hle hlook hcan hwin) fun _ => rfl
  · have hno : ∀ f e, ¬ m.endpoint.Begins (.sendData s payload) f e := by
      intro f e hbegins
      cases hbegins with
      | sent hest hne hle hlook hcan hwin => exact hchecks ⟨hest, hne, hle, _, hlook, hcan, hwin⟩
    obtain ⟨err, heq⟩ | ⟨hest, rfl, heq⟩ : (∃ err, m.sendData s payload = (.error err, m)) ∨
        (m.handshakeState = .Established ∧ payload = [] ∧ m.sendData s payload = (.ok (), m)) := by
      unfold sendData
      by_cases hest : m.handshakeState = .Established
      · rw [whenEstablished_true hest]
        split_ifs with hne hle
        · exact .inr ⟨hest, hne, rfl⟩
        · exact .inl ⟨_, rfl⟩
        split
        · exact .inl ⟨_, rfl⟩
        next stream hlook =>
          split_ifs with hcan
          · have hwin : ¬ (payload.length : Int) ≤ stream.sendWindow := fun hwin =>
              hchecks ⟨hest, hne, Nat.not_lt.mp hle, stream, hlook, hcan, hwin⟩
            rw [show stream.checkSendWindow payload.length = .error (.FlowControlViolation stream.id) from
              if_pos (by omega)]
            exact .inl ⟨_, rfl⟩
          · exact .inl ⟨_, rfl⟩
      · rw [whenEstablished_false hest]
        exact .inl ⟨_, rfl⟩
    · rw [heq]
      exact tried_error err hno
    · rw [heq]
      exact .silent hno (.nothing s hest) m.conn.takes_nothing (by simp)

theorem closeStream_tried (m : StreamManager) (s : UInt32) :
    m.Tried (.closeStream s) ((m.closeStream s).map fun _ => .done) := by
  by_cases hchecks : m.handshakeState = .Established ∧
      ∃ stream, m.streams.lookup s = some stream ∧ ¬ stream.state.isClosed
  · obtain ⟨hest, stream, hlook, hclosed⟩ := hchecks
    have heq : (m.closeStream s).map (fun _ => Answer.done) =
        ({ m with streams := m.streams.insert s stream.onLocalClose }.bufferAndMaybeFlush (closeFrame s)).andThen
          fun _ m => (.ok .done,
            if stream.onLocalClose.state = StreamState.Closed then { m with streams := m.streams.erase s } else m) := by
      unfold closeStream
      rw [whenEstablished_true hest, hlook]
      simp only [if_neg hclosed, Outcome.map_andThen]
      refine congrArg (Outcome.andThen _) (funext fun _ => funext fun m => ?_)
      split_ifs <;> rfl
    rw [heq]
    refine tried_of_gives (n := { m with streams := m.streams.insert s stream.onLocalClose })
      (g := fun m =>
        if stream.onLocalClose.state = StreamState.Closed then { m with streams := m.streams.erase s } else m)
      (.closed hest hlook hclosed) rfl (bufferAndMaybeFlush_gives _ _) (fun conn => ?_) fun m => ?_
    · have hacts := Acts.closed (e := m.endpoint) hest hlook hclosed
      unfold afterClose at hacts
      split_ifs at hacts ⊢ with hnow
      · simpa only [endpoint, drop, erase_insert] using hacts
      · exact hacts
    · split_ifs <;> rfl
  · have hno : ∀ f e, ¬ m.endpoint.Begins (.closeStream s) f e := by
      intro f e hbegins
      cases hbegins with
      | closed hest hlook hclosed => exact hchecks ⟨hest, _, hlook, hclosed⟩
    obtain ⟨err, heq⟩ : ∃ err, m.closeStream s = (.error err, m) := by
      unfold closeStream
      by_cases hest : m.handshakeState = .Established
      · rw [whenEstablished_true hest]
        split
        · exact ⟨_, rfl⟩
        next stream hlook =>
          split_ifs with hclosed
          · exact ⟨_, rfl⟩
          · exact absurd ⟨hest, stream, hlook, hclosed⟩ hchecks
      · rw [whenEstablished_false hest]
        exact ⟨_, rfl⟩
    rw [heq]
    exact tried_error err hno

theorem resetStream_tried (m : StreamManager) (s : UInt32) :
    m.Tried (.resetStream s) ((m.resetStream s).map fun _ => .done) := by
  by_cases hchecks : m.handshakeState = .Established ∧ ∃ stream, m.streams.lookup s = some stream
  · obtain ⟨hest, stream, hlook⟩ := hchecks
    have heq : (m.resetStream s).map (fun _ => Answer.done) =
        ({ m with streams := m.streams.insert s stream.onReset }.sendFrame (resetFrame s)).andThen
          fun _ m => (.ok .done, { m with streams := m.streams.erase s }) := by
      unfold resetStream
      rw [whenEstablished_true hest, hlook]
      simp only [Outcome.map_andThen]
      rfl
    rw [heq]
    refine tried_of_gives (n := { m with streams := m.streams.insert s stream.onReset })
      (g := fun m => { m with streams := m.streams.erase s }) (.reset hest hlook) rfl (sendFrame_gives _ _)
      (fun conn => ?_) fun _ => rfl
    simpa only [endpoint, drop, erase_insert] using Acts.reset (e := m.endpoint) hest hlook
  · have hno : ∀ f e, ¬ m.endpoint.Begins (.resetStream s) f e := by
      intro f e hbegins
      cases hbegins with
      | reset hest hlook => exact hchecks ⟨hest, _, hlook⟩
    obtain ⟨err, heq⟩ : ∃ err, m.resetStream s = (.error err, m) := by
      unfold resetStream
      by_cases hest : m.handshakeState = .Established
      · rw [whenEstablished_true hest]
        split
        · exact ⟨_, rfl⟩
        next stream hlook => exact absurd ⟨hest, stream, hlook⟩ hchecks
      · rw [whenEstablished_false hest]
        exact ⟨_, rfl⟩
    rw [heq]
    exact tried_error err hno

theorem recvData_tried (m : StreamManager) (s : UInt32) :
    m.Tried (.recvData s) ((m.recvData s).map .data) := by
  unfold recvData
  by_cases hest : m.handshakeState = .Established
  · rw [whenEstablished_true hest]
    cases hlook : m.streams.lookup s with
    | none =>
      refine tried_error _ fun f e hbegins => ?_
      cases hbegins with
      | took _ hlook' => exact absurd (hlook.symm.trans hlook') (by simp)
    | some stream =>
      cases hpop : stream.popRecv with
      | mk popped rest =>
        have hpopped : ∀ f e, m.endpoint.Begins (.recvData s) f e →
            ∃ payload, popped = some payload ∧ stream.state.canReceive ∧ payload ≠ [] := by
          intro f e hbegins
          cases hbegins with
          | took _ hlook' hpop' hcan hne =>
            obtain rfl := Option.some.inj (hlook.symm.trans hlook')
            rw [hpop] at hpop'
            exact ⟨_, congrArg Prod.fst hpop', hcan, hne⟩
        cases popped with
        | none =>
          simp only [hpop]
          refine .silent (fun f e hbegins => ?_) (.empty hest hlook (Stream.popRecv_none hpop))
            m.conn.takes_nothing (by simp)
          obtain ⟨payload, hsome, -⟩ := hpopped f e hbegins
          cases hsome
        | some payload =>
          have hacts := Acts.took (e := m.endpoint) hest hlook hpop
          unfold credit at hacts
          simp only [hpop]
          split_ifs with hcredit
          · rw [if_pos hcredit] at hacts
            rw [Outcome.map_andThen]
            exact tried_of_gives (n := { m with streams := m.streams.insert s rest }) (g := id)
              (.took hest hlook hpop hcredit.1 hcredit.2) rfl (bufferAndMaybeFlush_gives _ _) (fun _ => hacts)
              fun _ => rfl
          · rw [if_neg hcredit] at hacts
            refine .silent (n := { m with streams := m.streams.insert s rest }) (fun f e hbegins => ?_) hacts
              m.conn.takes_nothing (by simp [Except.map])
            obtain ⟨_, hsome, hcan, hne⟩ := hpopped f e hbegins
            exact hcredit ⟨hcan, Option.some.inj hsome ▸ hne⟩
  · rw [whenEstablished_false hest]
    refine tried_error _ fun f e hbegins => ?_
    cases hbegins
    contradiction

theorem sendPing_tried (m : StreamManager) (payload : List UInt8) :
    m.Tried (.sendPing payload) ((m.sendPing payload).map fun _ => .done) := by
  unfold sendPing
  rw [Outcome.map_eq_andThen]
  exact tried_of_gives (g := id) (.pinged payload) rfl (sendFrame_gives m (pingFrame payload))
    (fun _ => .pinged payload) fun _ => rfl

theorem flush_tried (m : StreamManager) : m.Tried .flush (m.flush.map fun _ => .done) := by
  have hno : ∀ f e, ¬ m.endpoint.Begins .flush f e := by
    intro f e hbegins
    cases hbegins
  unfold flush withConn
  rcases m.conn.flush_cases with ⟨-, heq⟩ | ⟨-, -, c, heq, -, htakes⟩ | ⟨-, -, err, c, heq, htakes⟩
  · rw [heq]
    exact .silent hno .flushed m.conn.takes_nothing fun _ _ => rfl
  · rw [heq]
    exact .silent (n := { m with conn := c }) hno .flushed htakes fun _ _ => rfl
  · rw [heq]
    exact .silent (n := { m with conn := c }) hno (.failed .flush _) htakes fun _ _ => rfl

theorem startHandshake_tried (m : StreamManager) :
    m.Tried .startHandshake (m.startHandshake.map fun _ => .done) := by
  unfold startHandshake sendHello
  split_ifs with hest hrole hinit hwait
  · refine .silent (fun f e hbegins => ?_) (.ready (.inr hest)) m.conn.takes_nothing (by simp)
    cases hbegins with
    | hello _ hstate => exact absurd (hest.symm.trans hstate) (by decide)
  · exact absurd hrole hinit
  · have hstate : m.handshakeState = .AwaitingWelcome := hwait.resolve_right hest
    have hno : ∀ f e, ¬ m.endpoint.Begins .startHandshake f e := by
      intro f e hbegins
      cases hbegins with
      | hello _ hstate' => exact absurd (hstate.symm.trans hstate') (by decide)
    have hacts := Acts.waits (e := m.endpoint) hrole hstate
    simp only [Outcome.andThen]
    unfold flush withConn
    rcases m.conn.flush_cases with ⟨-, heq⟩ | ⟨-, -, c, heq, -, htakes⟩ | ⟨-, -, err, c, heq, htakes⟩
    · rw [heq]
      exact .silent hno hacts m.conn.takes_nothing fun _ _ => rfl
    · rw [heq]
      exact .silent (n := { m with conn := c }) hno hacts htakes fun _ _ => rfl
    · rw [heq]
      exact .silent (n := { m with conn := c }) hno (.failed .startHandshake _) htakes fun _ _ => rfl
  · have hstate : m.handshakeState = .AwaitingHello := by
      cases hs : m.handshakeState <;> simp_all
    have hbegins := Begins.hello (e := m.endpoint) hrole hstate
    have hgives := sendFrame_gives m helloFrame
    unfold helloFrame at hgives
    generalize m.sendFrame (Frame.empty .Hello FLAG_CONTROL 0) = o at hgives
    cases hgives with
    | refused err hfits => exact .stuck hbegins (fun hgoes => hfits hgoes.1) (.inl rfl)
    | taken r conn hfits htakes hok hbuf =>
      cases r with
      | error err =>
        refine .stuck (n := { m with conn }) hbegins (fun hgoes => ?_) (.inr ⟨hfits, htakes⟩)
        have := hok.mpr hgoes.2
        cases this
      | ok =>
        -- The write buffer is empty, so the second flush does nothing.
        have hflush : ∀ st, ({ m with conn, handshakeState := st } : StreamManager).flush =
            (.ok (), { m with conn, handshakeState := st }) := by
          intro st
          simp [flush, withConn, Connection.flush, hbuf trivial rfl]
        simp only [Outcome.andThen, hflush]
        exact .gone (n := { m with conn, handshakeState := .AwaitingWelcome }) hbegins ⟨hfits, hok.mp rfl⟩
          (.hello hrole hstate) htakes
  · refine .silent (fun f e hbegins => ?_) (.ready (.inl ?_)) m.conn.takes_nothing (by simp)
    · cases hbegins
      contradiction
    · show m.role = .Acceptor
      cases hr : m.role <;> simp_all

/-- Every call goes as `Tried` says, whatever the socket does. -/
theorem perform_tried (m : StreamManager) (c : Call) : m.Tried c (m.perform c) := by
  cases c with
  | startHandshake => exact startHandshake_tried m
  | openStream => exact openStream_tried m
  | sendData s payload => exact sendData_tried m s payload
  | closeStream s => exact closeStream_tried m s
  | resetStream s => exact resetStream_tried m s
  | recvData s => exact recvData_tried m s
  | sendPing payload => exact sendPing_tried m payload
  | flush => exact flush_tried m

/-! ## Inbound frames -/

theorem sendFrame_outs (m : StreamManager) (g : Frame) :
    (∃ conn, m.sendFrame g = (.ok (), { m with conn }) ∧ m.conn.Takes g.wire conn) ∨
    ∃ err conn outs, m.sendFrame g = (.error err, { m with conn }) ∧ (outs = [] ∨ outs = [g]) ∧
      m.conn.Takes (outs.flatMap Frame.wire) conn := by
  have hgives := m.sendFrame_gives g
  generalize m.sendFrame g = o at hgives
  cases hgives with
  | refused err => exact .inr ⟨err, m.conn, [], rfl, .inl rfl, m.conn.takes_nothing⟩
  | taken r conn _ htakes =>
    cases r with
    | ok => exact .inl ⟨conn, rfl, htakes⟩
    | error err => exact .inr ⟨err, conn, [g], rfl, .inr rfl, by simpa using htakes⟩

/-- How the dispatch of a frame can go: as while writes succeed, or the reply to it is not sent and
the endpoint stays as it is. -/
inductive Met (m : StreamManager) (f : Frame) : Outcome StreamManager Unit → Prop
  | received {r : Except TransportError Unit} {outs : List Frame} {m' : StreamManager} :
      m.endpoint.Receives f r outs m'.endpoint → (∀ g ∈ outs, g.Valid) →
      m.conn.Takes (outs.flatMap Frame.wire) m'.conn → Met m f (r, m')
  | unanswered (err : TransportError) (conn : Connection) {outs : List Frame} :
      (∀ g ∈ outs, g.Valid ∧ g.header.frameType.isStream = false) →
      m.conn.Takes (outs.flatMap Frame.wire) conn → Met m f (.error err, { m with conn })

variable {f : Frame}

theorem met_silent {r : Except TransportError Unit} {e : Endpoint} (hrec : m.endpoint.Receives f r [] e)
    {m' : StreamManager} (he : m'.endpoint = e) (hconn : m'.conn = m.conn) : m.Met f (r, m') :=
  .received (he ▸ hrec) (by simp) (hconn ▸ m.conn.takes_nothing)

theorem met_reply {g : Frame} {k : StreamManager → StreamManager} (hv : g.Valid)
    (hg : g.header.frameType.isStream = false)
    (hrec : ∀ conn, m.endpoint.Receives f (.ok ()) [g] (k { m with conn }).endpoint)
    (hfin : ∀ m, (k m).conn = m.conn) :
    m.Met f ((m.sendFrame g).andThen fun _ m => (.ok (), k m)) := by
  rcases m.sendFrame_outs g with ⟨conn, heq, htakes⟩ | ⟨err, conn, outs, heq, houts, htakes⟩
  · rw [heq]
    refine .received (hrec conn) (by simpa using hv) ?_
    rw [hfin]
    simpa using htakes
  · rw [heq]
    refine .unanswered err conn (fun g' hg' => ?_) htakes
    rcases houts with rfl | rfl
    · simp at hg'
    · rw [List.mem_singleton.mp hg']
      exact ⟨hv, hg⟩

theorem handleHello_met (ht : f.header.frameType = .Hello) : m.Met f (m.handleHello f) := by
  unfold handleHello
  split_ifs with hid hrole hstate
  · exact met_silent (.badHello _ ht fun hacc => hid hacc.1) rfl rfl
  · exact met_silent (.badHello _ ht fun hacc => hrole hacc.2.1) rfl rfl
  · exact met_silent (.badHello _ ht fun hacc => hstate hacc.2.2) rfl rfl
  · have hstate' : m.handshakeState = .AwaitingHello := not_not.mp hstate
    rw [sendWelcome, if_neg hrole, if_neg (by rw [hstate']; decide)]
    exact met_reply (k := fun m => { m with handshakeState := .Established }) welcomeFrame_valid rfl
      (fun _ => .helloed ht ⟨not_not.mp hid, not_not.mp hrole, hstate'⟩) fun _ => rfl

theorem handleWelcome_met (ht : f.header.frameType = .Welcome) : m.Met f (m.handleWelcome f) := by
  unfold handleWelcome
  split_ifs with hid hrole hstate
  · exact met_silent (.badWelcome _ ht fun hacc => hid hacc.1) rfl rfl
  · exact met_silent (.badWelcome _ ht fun hacc => hrole hacc.2.1) rfl rfl
  · exact met_silent (.badWelcome _ ht fun hacc => hstate hacc.2.2) rfl rfl
  · exact met_silent (.welcomed ht ⟨not_not.mp hid, not_not.mp hrole, not_not.mp hstate⟩) rfl rfl

theorem handleSettings_met (ht : f.header.frameType = .Settings) : m.Met f (m.handleSettings f) := by
  unfold handleSettings
  split_ifs
  · exact met_silent (.settings _ ht) rfl rfl
  · exact met_silent (.settings _ ht) rfl rfl

theorem sendPong_met (hv : f.Valid) (ht : f.header.frameType = .Ping) : m.Met f (m.sendPong f.payload) := by
  have heq : m.sendPong f.payload = (m.sendFrame (pongFrame f.payload)).andThen fun _ m => (.ok (), id m) := by
    show m.sendFrame (pongFrame f.payload) = _
    obtain ⟨r, m'⟩ := m.sendFrame (pongFrame f.payload)
    cases r <;> rfl
  rw [heq]
  exact met_reply (pongFrame_valid hv.length_le) rfl (fun _ => .pinged ht) fun _ => rfl

theorem early_met (hest : m.handshakeState ≠ .Established) (ht : f.header.frameType.isStream) :
    m.Met f m.tooEarly := by
  unfold tooEarly
  by_cases hrole : m.role = .Acceptor
  · rw [if_pos hrole]
    have hreject : ∀ g ∈ [rejectFrame], g.Valid ∧ g.header.frameType.isStream = false := by
      intro g hg
      rw [List.mem_singleton.mp hg]
      exact ⟨rejectFrame_valid, rfl⟩
    rcases m.sendFrame_outs rejectFrame with ⟨conn, heq, htakes⟩ | ⟨err, conn, outs, heq, houts, htakes⟩
    · rw [heq]
      exact .unanswered _ conn hreject (by simpa using htakes)
    · rw [heq]
      refine .unanswered _ conn (fun g hg => ?_) htakes
      rcases houts with rfl | rfl
      · simp at hg
      · exact hreject g hg
  · have hearly := Receives.early (e := m.endpoint) (f := f) hest ht
    rw [if_neg (show m.endpoint.role ≠ .Acceptor from hrole)] at hearly
    rw [if_neg hrole]
    exact met_silent hearly rfl rfl

theorem dispatch_met (hv : f.Valid) : m.Met f (m.dispatch f) := by
  apply dispatch_arms
  · exact early_met
  · exact fun hest ht => met_silent (.stream hest ht) rfl rfl
  · exact handleHello_met
  · exact handleWelcome_met
  · exact handleSettings_met
  · exact sendPong_met hv
  · exact fun hf => met_silent (.ponged hf) rfl rfl
  · exact fun hf => met_silent (.told _ hf) rfl rfl

end StreamManager

/-! ## Steps -/

/-- A step of an endpoint whose writes may fail, with the frames that went into the write buffer. -/
inductive Endpoint.Tries (e : Endpoint) : Event → List Frame → Endpoint → Prop
  | step {ev : Event} {outs : List Frame} {e' : Endpoint} : e.Step ev outs e' → Tries e ev outs e'
  | stuck {c : Call} {f : Frame} {outs : List Frame} {e' : Endpoint} (err : TransportError) :
      e.Begins c f e' → outs = [] ∨ outs = [f] → Tries e (.called c (.error err)) outs e'
  | unanswered {outs : List Frame} (err : TransportError) : (∀ f ∈ outs, f.header.frameType.isStream = false) →
      Tries e (.received (some (.error err))) outs e

namespace Endpoint

variable {e e' : Endpoint} {c : Call} {f : Frame}

theorem Begins.valid (h : e.Begins c f e') {conn : Connection} (hfits : conn.Fits f) : f.Valid := by
  cases h with
  | hello => exact helloFrame_valid
  | opened => exact openFrame_valid _
  | sent _ _ hle => exact dataFrame_valid _ hle
  | closed => exact closeFrame_valid _
  | reset => exact resetFrame_valid _
  | took => exact windowFrame_valid _ _
  | pinged payload =>
    refine pingFrame_valid ?_
    have hlen := hfits.2
    rw [wire_length] at hlen
    simp only [pingFrame, Frame.new, MAX_BUFFER_SIZE, HEADER_SIZE, MAX_FRAME_SIZE] at hlen ⊢
    omega

end Endpoint

namespace StreamManager

variable {m m' : StreamManager} {ev : Event}

/-- The frames that went into the write buffer in a step. -/
def emits (m m' : StreamManager) : List Frame := (trnc.parse (m.conn.took m'.conn)).1

theorem emits_eq {outs : List Frame} (hv : ∀ f ∈ outs, f.Valid)
    (htakes : m.conn.Takes (outs.flatMap Frame.wire) m'.conn) : m.emits m' = outs := by
  rw [emits, htakes.took_eq, parse_wires hv]

theorem Step.tries (h : m.Step ev m') : m.endpoint.Tries ev (m.emits m') m'.endpoint ∧
    (∀ f ∈ m.emits m', f.Valid) ∧ m.conn.Takes ((m.emits m').flatMap Frame.wire) m'.conn := by
  suffices hex : ∃ outs, m.endpoint.Tries ev outs m'.endpoint ∧ (∀ f ∈ outs, f.Valid) ∧
      m.conn.Takes (outs.flatMap Frame.wire) m'.conn by
    obtain ⟨outs, htries, hv, htakes⟩ := hex
    rw [emits_eq hv htakes]
    exact ⟨htries, hv, htakes⟩
  cases h with
  | call c =>
    have htried := m.perform_tried c
    generalize m.perform c = o at htried
    cases htried with
    | silent _ hacts htakes _ => exact ⟨[], .step (.call hacts), by simp, htakes⟩
    | gone hbegins hgoes hacts htakes =>
      exact ⟨_, .step (.call hacts), by simpa using hbegins.valid hgoes.1, by simpa using htakes⟩
    | stuck hbegins _ hconn =>
      rcases hconn with hconn | ⟨hfits, htakes⟩
      · exact ⟨[], .stuck _ hbegins (.inl rfl), by simp, hconn ▸ m.conn.takes_nothing⟩
      · exact ⟨_, .stuck _ hbegins (.inr rfl), by simpa using hbegins.valid hfits, by simpa using htakes⟩
  | @recv reads r _ hrecv =>
    obtain ⟨hvalid, hstream, hbuffer⟩ := m.conn.recvFrame_frame reads
    generalize hp : m.conn.recvFrame reads = p at hvalid hstream hbuffer
    obtain ⟨r', ⟨stream, readBuffer, writeBuffer⟩, rest⟩ := p
    obtain rfl : stream = m.conn.stream := hstream
    obtain rfl : writeBuffer = m.conn.writeBuffer := hbuffer
    have hquiet : m.conn.Takes [] { m.conn with readBuffer } := .buffered 0 (by simp) (by simp) fun _ => rfl
    match r' with
    | none =>
      rw [recvFrame_none hp] at hrecv
      obtain ⟨rfl, rfl, -⟩ := by simpa only [Prod.mk.injEq] using hrecv
      exact ⟨[], .step (.noFrame none), by simp, hquiet⟩
    | some (.error err) =>
      rw [recvFrame_error hp] at hrecv
      obtain ⟨rfl, rfl, -⟩ := by simpa only [Prod.mk.injEq] using hrecv
      exact ⟨[], .step (.noFrame (some err)), by simp, hquiet⟩
    | some (.ok f) =>
      rw [recvFrame_some hp] at hrecv
      obtain ⟨rfl, rfl, -⟩ := by simpa only [Prod.mk.injEq] using hrecv
      have hmet := dispatch_met (m := { m with conn := { m.conn with readBuffer } }) (hvalid f rfl)
      generalize dispatch _ f = o at hmet
      cases hmet with
      | received hrec hv htakes => exact ⟨_, .step (.frame (hvalid f rfl) hrec), hv, htakes.of_read⟩
      | unanswered err conn houts htakes =>
        exact ⟨_, .unanswered err fun g hg => (houts g hg).2, fun g hg => (houts g hg).1, htakes.of_read⟩

theorem Sound.emits_eq (hm : m.Sound) (h : m.Step ev m') : m'.emitted = m.emitted ++ m.emits m' := by
  obtain ⟨-, hv, htakes⟩ := h.tries
  obtain ⟨hm', outs, -, hemit⟩ := hm.step h
  have hbytes : m'.conn.sentBytes = (m.emitted ++ m.emits m').flatMap Frame.wire := by
    rw [htakes.sentBytes_eq hm.settled.reliable, hm.sentBytes_eq, List.flatMap_append]
  rw [emitted, hbytes, parse_wires]
  intro f hf
  rcases List.mem_append.mp hf with hf | hf
  · exact hm.valid f hf
  · exact hv f hf

/-- A manager on a fresh connection whose writes fail as `faults` says. -/
def overFaults (faults : List (Option WriteFault)) (role : Role) : StreamManager := .new (.new ⟨[], faults⟩) role

theorem run_overFaults {role : Role} {ls : List Event} {m : StreamManager} (h : Run Step (fresh role) ls m) :
    Run Step (overFaults [] role) ls m := h

end StreamManager

end TrenchDb.Transport
