import TrenchDb.Transport.Codec
import TrenchDb.Transport.Manager

/-!
# The send path

While writes succeed, a frame that is buffered or sent either goes behind everything
sent before, or the connection stays as it is.
-/

namespace TrenchDb.Transport

namespace Connection

/-- All bytes ever meant for the peer: those written, then those still buffered. -/
def sentBytes (c : Connection) : List UInt8 := c.stream.written ++ c.writeBuffer

/-- Writes succeed, and the write buffer is below the flush threshold. -/
structure Settled (c : Connection) : Prop where
  reliable : c.stream.faults = []
  low : c.writeBuffer.length < FLUSH_THRESHOLD

/-- `c'` is `c` with more bytes for the peer. -/
structure Sends (c : Connection) (bytes : List UInt8) (c' : Connection) : Prop where
  settled : c'.Settled
  sentBytes_eq : c'.sentBytes = c.sentBytes ++ bytes
  readBuffer_eq : c'.readBuffer = c.readBuffer
  written_le : c.stream.written.length ≤ c'.stream.written.length

theorem settled_new : (Connection.new ⟨[], []⟩).Settled := ⟨rfl, by decide⟩

theorem Settled.sends_nothing {c : Connection} (h : c.Settled) : c.Sends [] c :=
  ⟨h, by simp, rfl, le_rfl⟩

theorem Settled.of_read {c : Connection} (h : c.Settled) (buffer : List UInt8) :
    ({ c with readBuffer := buffer } : Connection).Settled := ⟨h.reliable, h.low⟩

/-- `c` after a flush. -/
def flushed (c : Connection) : Connection :=
  { c with stream := ⟨c.sentBytes, []⟩, writeBuffer := [] }

theorem flush_eq {c : Connection} (h : c.stream.faults = []) : c.flush = (.ok (), c.flushed) := by
  obtain ⟨⟨written, faults⟩, readBuffer, writeBuffer⟩ := c
  obtain rfl : faults = [] := h
  cases writeBuffer <;> simp [flush, flushed, sentBytes, Socket.writeAll, Socket.flush]

theorem flushed_settled (c : Connection) : c.flushed.Settled := ⟨rfl, by simp [flushed, FLUSH_THRESHOLD]⟩

theorem sends_flushed (c : Connection) : c.Sends [] c.flushed := by
  refine ⟨c.flushed_settled, ?_, rfl, ?_⟩
  · simp [flushed, sentBytes]
  · simp [flushed, sentBytes]

theorem Sends.flushed {c c' : Connection} {bytes : List UInt8} (h : c.Sends bytes c') :
    c.Sends bytes c'.flushed := by
  refine ⟨c'.flushed_settled, ?_, h.readBuffer_eq, ?_⟩
  · rw [← h.sentBytes_eq]; simp [Connection.flushed, sentBytes]
  · have := h.written_le
    simp only [Connection.flushed, sentBytes, List.length_append]; omega

end Connection

/-! ## Frames that can be sent -/

/-- The header tells the length of the payload. -/
def Frame.Fitted (f : Frame) : Prop := f.payload.length = f.header.payloadLength.toNat

/-- Small enough for every write buffer that was not flushed yet. -/
def Frame.Small (f : Frame) : Prop := FLUSH_THRESHOLD + f.wire.length ≤ MAX_BUFFER_SIZE

theorem new_fitted {t : Frametype} {flags : UInt16} {s : UInt32} {payload : List UInt8}
    (h : payload.length < 2 ^ 32) : (Frame.new t flags s payload).Fitted := by
  simp only [Frame.Fitted, Frame.new, Header.new]
  rw [UInt32.toNat_ofNat_of_lt' h]

theorem new_small {t : Frametype} {flags : UInt16} {s : UInt32} {payload : List UInt8}
    (h : payload.length ≤ 229360) : (Frame.new t flags s payload).Small := by
  simp only [Frame.Small, wire_length, Frame.new, FLUSH_THRESHOLD, HEADER_SIZE, MAX_BUFFER_SIZE]
  omega

theorem empty_fitted (t : Frametype) (flags : UInt16) (s : UInt32) : (Frame.empty t flags s).Fitted :=
  new_fitted (by simp)

theorem empty_small (t : Frametype) (flags : UInt16) (s : UInt32) : (Frame.empty t flags s).Small :=
  new_small (by simp)

theorem encode_of_fitted {f : Frame} (h : f.Fitted) : encode f = .ok f.wire := by
  unfold Frame.Fitted at h
  simp only [encode, h, ne_eq, not_true_eq_false, if_false]

theorem Frame.Valid.of_fitted {f : Frame} (h : f.Fitted) (hv : f.header.validate = .ok ()) : f.Valid :=
  ⟨hv, h⟩

namespace Connection

/-! ## Buffering and sending -/

theorem bufferFrame_ok {c : Connection} {f : Frame} (hf : f.Fitted)
    (h : c.writeBuffer.length + f.wire.length ≤ MAX_BUFFER_SIZE) :
    c.bufferFrame f = (.ok (), { c with writeBuffer := c.writeBuffer ++ f.wire }) := by
  simp only [bufferFrame, encode_of_fitted hf, if_neg (Nat.not_lt.mpr h)]

theorem bufferFrame_overflow {c : Connection} {f : Frame} (hf : f.Fitted)
    (h : MAX_BUFFER_SIZE < c.writeBuffer.length + f.wire.length) :
    c.bufferFrame f = (.error .BufferOverflow, c) := by
  simp only [bufferFrame, encode_of_fitted hf, if_pos h]

theorem bufferFrame_unfitted {c : Connection} {f : Frame} (hf : ¬ f.Fitted) :
    ∃ e, c.bufferFrame f = (.error e, c) := by
  simp only [bufferFrame, encode, if_pos (show f.payload.length ≠ f.header.payloadLength.toNat from hf)]
  exact ⟨_, rfl⟩

theorem bufferFrame_cases (c : Connection) (f : Frame) :
    (f.Fitted ∧ c.writeBuffer.length + f.wire.length ≤ MAX_BUFFER_SIZE ∧
      c.bufferFrame f = (.ok (), { c with writeBuffer := c.writeBuffer ++ f.wire })) ∨
    (f.Fitted ∧ MAX_BUFFER_SIZE < c.writeBuffer.length + f.wire.length ∧
      c.bufferFrame f = (.error .BufferOverflow, c)) ∨
    (¬ f.Fitted ∧ ∃ e, c.bufferFrame f = (.error e, c)) := by
  by_cases hf : f.Fitted
  · rcases Nat.lt_or_ge MAX_BUFFER_SIZE (c.writeBuffer.length + f.wire.length) with h | h
    · exact .inr (.inl ⟨hf, h, bufferFrame_overflow hf h⟩)
    · exact .inl ⟨hf, h, bufferFrame_ok hf h⟩
  · exact .inr (.inr ⟨hf, bufferFrame_unfitted hf⟩)

theorem sends_buffered {c : Connection} {f : Frame} (h : c.Settled)
    (hlow : (c.writeBuffer ++ f.wire).length < FLUSH_THRESHOLD) :
    c.Sends f.wire { c with writeBuffer := c.writeBuffer ++ f.wire } :=
  ⟨⟨h.reliable, hlow⟩, by simp [sentBytes], rfl, le_rfl⟩

theorem sends_buffered_flushed {c : Connection} (f : Frame) :
    c.Sends f.wire ({ c with writeBuffer := c.writeBuffer ++ f.wire } : Connection).flushed := by
  refine ⟨flushed_settled _, ?_, rfl, ?_⟩
  · simp [flushed, sentBytes]
  · simp [flushed, sentBytes]

theorem sendFrame_cases {c : Connection} (h : c.Settled) (f : Frame) :
    (f.Fitted ∧ f.wire.length ≤ MAX_BUFFER_SIZE ∧
      ∃ c', c.sendFrame f = (.ok (), c') ∧ c.Sends f.wire c' ∧ c'.writeBuffer = []) ∨
    (f.Fitted ∧ ¬ f.Small ∧ c.sendFrame f = (.error .BufferOverflow, c)) ∨
    (¬ f.Fitted ∧ ∃ e, c.sendFrame f = (.error e, c)) := by
  have hlow := h.low
  rcases c.bufferFrame_cases f with ⟨hf, hle, heq⟩ | ⟨hf, hbig, heq⟩ | ⟨hf, e, heq⟩
  · refine .inl ⟨hf, by omega, _, ?_, sends_buffered_flushed f, rfl⟩
    rw [sendFrame, heq]
    exact flush_eq h.reliable
  · refine .inr (.inl ⟨hf, ?_, ?_⟩)
    · unfold Frame.Small; omega
    · rw [sendFrame, heq]; rfl
  · exact .inr (.inr ⟨hf, e, by rw [sendFrame, heq]; rfl⟩)

theorem sendFrame_small {c : Connection} (h : c.Settled) {f : Frame} (hf : f.Fitted) (hs : f.Small) :
    ∃ c', c.sendFrame f = (.ok (), c') ∧ c.Sends f.wire c' ∧ c'.writeBuffer = [] := by
  rcases c.sendFrame_cases h f with ⟨-, -, h⟩ | ⟨-, h, -⟩ | ⟨h, -⟩
  · exact h
  · exact absurd hs h
  · exact absurd hf h

end Connection

namespace StreamManager

theorem flush_eq {m : StreamManager} (h : m.conn.stream.faults = []) :
    m.flush = (.ok (), { m with conn := m.conn.flushed }) := by
  rw [flush, withConn, Connection.flush_eq h]

theorem bufferAndMaybeFlush_fits {m : StreamManager} (h : m.conn.Settled) {f : Frame} (hf : f.Fitted)
    (hle : m.conn.writeBuffer.length + f.wire.length ≤ MAX_BUFFER_SIZE) :
    ∃ c', m.bufferAndMaybeFlush f = (.ok (), { m with conn := c' }) ∧ m.conn.Sends f.wire c' := by
  unfold bufferAndMaybeFlush
  simp only [Connection.bufferFrame_ok hf hle, withConn, Outcome.andThen]
  split_ifs with hfull
  · exact ⟨_, flush_eq h.reliable, Connection.sends_buffered_flushed f⟩
  · exact ⟨_, rfl, Connection.sends_buffered h (by omega)⟩

theorem bufferAndMaybeFlush_cases {m : StreamManager} (h : m.conn.Settled) {f : Frame} (hf : f.Fitted) :
    (∃ c', m.bufferAndMaybeFlush f = (.ok (), { m with conn := c' }) ∧ m.conn.Sends f.wire c') ∨
    (¬ f.Small ∧ m.bufferAndMaybeFlush f = (.error .BufferOverflow, m)) := by
  rcases Nat.lt_or_ge MAX_BUFFER_SIZE (m.conn.writeBuffer.length + f.wire.length) with hbig | hle
  · have hlow := h.low
    refine .inr ⟨?_, ?_⟩
    · unfold Frame.Small; omega
    · simp only [bufferAndMaybeFlush, Connection.bufferFrame_overflow hf hbig, withConn, Outcome.andThen]
  · exact .inl (bufferAndMaybeFlush_fits h hf hle)

theorem bufferAndMaybeFlush_small {m : StreamManager} (h : m.conn.Settled) {f : Frame} (hf : f.Fitted)
    (hs : f.Small) :
    ∃ c', m.bufferAndMaybeFlush f = (.ok (), { m with conn := c' }) ∧ m.conn.Sends f.wire c' := by
  rcases bufferAndMaybeFlush_cases h hf with h | ⟨h, -⟩
  · exact h
  · exact absurd hs h

theorem whenEstablished_true {α : Type} {m : StreamManager} (h : m.handshakeState = .Established)
    (k : Outcome StreamManager α) : m.whenEstablished k = k := by
  simp [whenEstablished, ensureHandshakeComplete, h]

theorem whenEstablished_false {α : Type} {m : StreamManager} (h : m.handshakeState ≠ .Established)
    (k : Outcome StreamManager α) :
    m.whenEstablished k = (.error (.InvalidFrame "connection handshake is not complete"), m) := by
  simp [whenEstablished, ensureHandshakeComplete, h]

end StreamManager

end TrenchDb.Transport
