import TrenchDb.Transport.Faults

/-!
# Sizes that do not fit

A `Ping` may be larger than the write buffer that its `Pong` has to go through, and the message
of an `Error` frame larger than its 16-bit length field.
-/

open TrenchDb.Lib.BigEndian TrenchDb.Lib.Lts

namespace TrenchDb.Transport

/-! ## Answers to a `Ping` -/

namespace StreamManager

variable {m : StreamManager} {f : Frame} {reads rest : List Read} {conn : Connection}

/-- A `recv_frame` call on `m` returned the `Ping` `f`, and has written what was buffered and then
one `Pong` with its payload. -/
structure AnswersPing (m : StreamManager) (f : Frame)
    (o : Option (Except TransportError Frame) × StreamManager × List Read) : Prop where
  result : o.1 = some (.ok f)
  written : o.2.1.conn.stream.written = m.conn.stream.written ++ m.conn.writeBuffer ++ (pongFrame f.payload).wire
  flushed : o.2.1.conn.writeBuffer = []

theorem dispatch_ping (hf : f.header.frameType = .Ping) : m.dispatch f = m.sendFrame (pongFrame f.payload) := by
  unfold dispatch dispatchHandshake dispatchEstablished sendPong
  split_ifs <;> simp only [hf] <;> rfl

theorem recvFrame_ping (hrecv : m.conn.recvFrame reads = (some (.ok f), conn, rest))
    (hf : f.header.frameType = .Ping) :
    m.recvFrame reads = (some (({ m with conn }.sendFrame (pongFrame f.payload)).1.map fun _ => f),
      ({ m with conn }.sendFrame (pongFrame f.payload)).2, rest) := by
  rw [recvFrame_some hrecv, dispatch_ping hf]

theorem fits_pong (c : Connection) (hv : f.Valid) : c.Fits (pongFrame f.payload) ↔
    c.writeBuffer.length + HEADER_SIZE + f.payload.length ≤ MAX_BUFFER_SIZE := by
  unfold Connection.Fits
  rw [wire_length, ← Nat.add_assoc]
  exact and_iff_right (pongFrame_valid hv.length_le).length_eq

/-- While its writes succeed, `recv_frame` answers a `Ping` exactly when there is room for the `Pong`
in the write buffer. -/
theorem ping_answered (hrecv : m.conn.recvFrame reads = (some (.ok f), conn, rest))
    (hf : f.header.frameType = .Ping) (hready : m.conn.stream.Ready) :
    m.AnswersPing f (m.recvFrame reads) ↔
      m.conn.writeBuffer.length + HEADER_SIZE + f.payload.length ≤ MAX_BUFFER_SIZE := by
  obtain ⟨hvalid, hstream, hbuffer⟩ := m.conn.recvFrame_frame reads
  rw [hrecv] at hvalid hstream hbuffer
  rw [recvFrame_ping hrecv hf, ← hbuffer, ← fits_pong conn (hvalid f rfl)]
  have hgives := sendFrame_gives { m with conn } (pongFrame f.payload)
  generalize sendFrame { m with conn } (pongFrame f.payload) = o at hgives
  cases hgives with
  | refused err hfits => exact iff_of_false (fun hans => by cases hans.result) hfits
  | taken r conn' hfits htakes hok hflushed =>
    obtain rfl := hok.mpr fun _ => show conn.stream.Ready from hstream ▸ hready
    have hempty := hflushed trivial rfl
    refine iff_of_true ⟨rfl, ?_, hempty⟩ hfits
    rw [← hstream, ← hbuffer]
    cases htakes with
    | buffered n hbuf =>
      have hlen := congrArg List.length (hbuf.symm.trans hempty)
      simp [HEADER_SIZE] at hlen
    | flushed _ hwritten => simpa using hwritten

theorem ping_answered_early :
    (fresh .Acceptor).AnswersPing (pingFrame [1, 2]) ((fresh .Acceptor).recvFrame [.ok (pingFrame [1, 2]).wire]) :=
  (ping_answered ((fresh .Acceptor).conn.recvFrame_wire rfl (pingFrame_valid (by decide))) rfl
    (by unfold Socket.Ready; decide)).mpr (by decide)

theorem not_answersPing (hrecv : m.conn.recvFrame reads = (some (.ok f), conn, rest))
    (hf : f.header.frameType = .Ping) (hfits : ¬ conn.Fits (pongFrame f.payload)) :
    ¬ m.AnswersPing f (m.recvFrame reads) := by
  intro hans
  have hresult := hans.result
  rw [recvFrame_ping hrecv hf] at hresult
  have hgives := sendFrame_gives { m with conn } (pongFrame f.payload)
  generalize sendFrame { m with conn } (pongFrame f.payload) = o at hgives hresult
  cases hgives with
  | refused err => cases hresult
  | taken _ _ hfits' => exact hfits hfits'

theorem ping_unanswered : ¬ ∀ role ls m, Run Step (fresh role) ls m → ∀ reads f conn rest,
    m.conn.recvFrame reads = (some (.ok f), conn, rest) → f.header.frameType = .Ping →
    m.AnswersPing f (m.recvFrame reads) := by
  intro h
  obtain ⟨payload, hlen⟩ : ∃ payload : List UInt8, payload.length = 262129 :=
    ⟨List.replicate 262129 0, List.length_replicate⟩
  have hvalid : (pingFrame payload).Valid := pingFrame_valid (by rw [hlen]; decide)
  have hrecv := (fresh .Acceptor).conn.recvFrame_wire rfl hvalid
  refine not_answersPing hrecv rfl ?_ (h .Acceptor [] _ .nil _ _ _ _ hrecv rfl)
  rw [fits_pong _ hvalid, show (pingFrame payload).payload.length = 262129 from hlen]
  decide

end StreamManager

/-! ## The payload of an `Error` frame -/

theorem fromU16_asU16 (code : ErrorCode) : ErrorCode.fromU16 code.asU16 = some code := by
  cases code <;> rfl

theorem encode_length (p : ErrorPayload) : p.encode.length = 8 + (asBytes p.message).length := by
  simp only [ErrorPayload.encode, List.length_append, toBE_length]

theorem encode_fields (p : ErrorPayload) :
    p.encode.take 2 = toBE 2 p.errorCode.asU16.toNat ∧ (p.encode.drop 2).take 4 = toBE 4 p.streamId.toNat ∧
    (p.encode.drop 6).take 2 = toBE 2 (UInt16.ofNat (asBytes p.message).length).toNat ∧
    p.encode.drop 8 = asBytes p.message := by
  unfold ErrorPayload.encode
  refine ⟨?_, ?_, ?_, List.drop_left' (by simp)⟩
  · simp only [List.append_assoc]
    rw [List.take_left' (toBE_length _ _)]
  · simp only [List.append_assoc]
    rw [List.drop_left' (toBE_length _ _), List.take_left' (toBE_length _ _)]
  · rw [List.append_assoc, List.drop_left' (by simp), List.take_left' (toBE_length _ _)]

/-- The payload of an `Error` frame is decoded to what was encoded exactly when the message is
shorter than 2^16 bytes. -/
theorem error_payload_round_trip (p : ErrorPayload) :
    ErrorPayload.decode p.encode = .ok p ↔ (asBytes p.message).length < 2 ^ 16 := by
  obtain ⟨hcode, hid, hlen, hmessage⟩ := encode_fields p
  have hmod : ofBE (toBE 2 (UInt16.ofNat (asBytes p.message).length).toNat) = (asBytes p.message).length % 2 ^ 16 := by
    rw [ofBE_toBE_of_lt (by have := (UInt16.ofNat (asBytes p.message).length).toNat_lt; omega), UInt16.toNat_ofNat']
  unfold ErrorPayload.decode
  simp only [encode_length, hcode, hid, hlen, hmessage, hmod, u16_ofBE_toBE, u32_ofBE_toBE, fromU16_asU16,
    fromUtf8_eq_some.mpr rfl, Option.getD_some]
  rw [if_neg (by omega)]
  split_ifs with hne
  · simp only [false_iff]
    omega
  · simp only [true_iff]
    omega

theorem error_payload_not_round_trip : ¬ ∀ p : ErrorPayload, ErrorPayload.decode p.encode = .ok p := by
  intro h
  have hdecode := h { errorCode := .Unknown, streamId := 0, message := String.ofList (List.replicate 65536 'a') }
  have hlen : (asBytes (String.ofList (List.replicate 65536 'a'))).length = 65536 := by
    rw [asBytes_toList, String.toList_ofList, List.flatMap_replicate, List.length_flatten, List.map_replicate,
      List.sum_replicate_nat]
    rfl
  have hmod : ofBE (toBE 2 (UInt16.ofNat 65536).toNat) = 0 := by decide
  unfold ErrorPayload.decode at hdecode
  simp only [encode_length, (encode_fields _).2.2.1, hlen, hmod] at hdecode
  rw [if_neg (by decide), if_pos (by decide)] at hdecode
  cases hdecode

end TrenchDb.Transport
