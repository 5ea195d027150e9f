import TrenchDb.Transport.Codec
import TrenchDb.Transport.Connection

/-!
# Chunking does not matter

`Connection::recv_frame` sees a byte stream in arbitrary reads. Its results are
those of decoding the whole stream from the front.
-/

open TrenchDb.Lib.BigEndian TrenchDb.Lib.Incremental

namespace TrenchDb.Transport

/-! ## One call -/

/-- The guard on the read buffer never fires: an undecided buffer holds less than one frame. -/
theorem readBuffer_guard {buffer : List UInt8} (h : decode buffer = .error .NeedMoreData) :
    ¬ MAX_READ_BUFFER_SIZE ≤ buffer.length := by
  have := length_of_needMoreData h
  unfold MAX_READ_BUFFER_SIZE
  omega

theorem recvFrame_ok {c : Connection} {reads : List Read} {f : Frame} {n : Nat}
    (h : decode c.readBuffer = .ok (f, n)) :
    c.recvFrame reads = (some (.ok f), { c with readBuffer := c.readBuffer.drop n }, reads) := by
  unfold Connection.recvFrame; rw [h]

theorem recvFrame_error {c : Connection} {reads : List Read} {e : TransportError}
    (h : decode c.readBuffer = .error e) (he : e ≠ .NeedMoreData) :
    c.recvFrame reads = (some (.error e), c, reads) := by
  unfold Connection.recvFrame; rw [h]
  cases e <;> first | rfl | exact absurd rfl he

theorem recvFrame_nil {c : Connection} (h : decode c.readBuffer = .error .NeedMoreData) :
    c.recvFrame [] = (none, c, []) := by
  unfold Connection.recvFrame; rw [h]
  simp only [if_neg (readBuffer_guard h)]

theorem recvFrame_eof {c : Connection} {reads : List Read}
    (h : decode c.readBuffer = .error .NeedMoreData) :
    c.recvFrame (.ok [] :: reads) = (some (.error .ConnectionClosed), c, reads) := by
  unfold Connection.recvFrame; rw [h]
  simp only [if_neg (readBuffer_guard h)]

theorem recvFrame_ioError {c : Connection} {reads : List Read} {e : String}
    (h : decode c.readBuffer = .error .NeedMoreData) :
    c.recvFrame (.error e :: reads) = (some (.error (.Io e)), c, reads) := by
  unfold Connection.recvFrame; rw [h]
  simp only [if_neg (readBuffer_guard h)]

theorem recvFrame_bytes {c : Connection} {reads : List Read} {bytes : List UInt8}
    (h : decode c.readBuffer = .error .NeedMoreData) (hne : bytes ≠ []) :
    c.recvFrame (.ok bytes :: reads) =
      { c with readBuffer := c.readBuffer ++ bytes }.recvFrame reads := by
  conv_lhs => unfold Connection.recvFrame
  rw [h]
  simp only [if_neg (readBuffer_guard h)]

theorem recvFrame_pull (c : Connection) (chunks : List (List UInt8)) (hne : ∀ bytes ∈ chunks, bytes ≠ [])
    (tail : List Read) : c.recvFrame (chunks.map .ok ++ tail) =
      match trnc.pull c.readBuffer chunks with
      | (.item f n, buf, cs) => (some (.ok f), { c with readBuffer := buf.drop n }, cs.map .ok ++ tail)
      | (.bad e, buf, cs) => (some (.error e), { c with readBuffer := buf }, cs.map .ok ++ tail)
      | (.more, buf, _) => { c with readBuffer := buf }.recvFrame tail := by
  induction chunks generalizing c with
  | nil =>
    cases hv : verdict c.readBuffer with
    | more => rw [trnc.pull_nil hv]; rfl
    | item f n =>
      rw [trnc.pull_decided [] (by rw [show trnc.verdict _ = _ from hv]; simp)]
      simp only [show trnc.verdict c.readBuffer = _ from hv, recvFrame_ok (verdict_item.mp hv)]
    | bad e =>
      rw [trnc.pull_decided [] (by rw [show trnc.verdict _ = _ from hv]; simp)]
      have hb := verdict_bad.mp hv
      simp only [show trnc.verdict c.readBuffer = _ from hv, recvFrame_error hb.1 hb.2]
  | cons bytes chunks ih =>
    cases hv : verdict c.readBuffer with
    | more =>
      rw [trnc.pull_cons bytes chunks hv, List.map_cons, List.cons_append,
        recvFrame_bytes (verdict_more.mp hv) (hne bytes List.mem_cons_self),
        ih _ fun b hb => hne b (List.mem_cons_of_mem _ hb)]
    | item f n =>
      rw [trnc.pull_decided _ (by rw [show trnc.verdict _ = _ from hv]; simp)]
      simp only [show trnc.verdict c.readBuffer = _ from hv, recvFrame_ok (verdict_item.mp hv)]
    | bad e =>
      rw [trnc.pull_decided _ (by rw [show trnc.verdict _ = _ from hv]; simp)]
      have hb := verdict_bad.mp hv
      simp only [show trnc.verdict c.readBuffer = _ from hv, recvFrame_error hb.1 hb.2]

/-! ## Whole streams -/

/-- The results of `n` `recv_frame` calls, up to and including the first error. -/
def recvFrames : Nat → Connection → List Read → List (Except TransportError Frame)
  | 0, _, _ => []
  | n + 1, c, reads =>
    match c.recvFrame reads with
    | (some (.ok frame), c, reads) => .ok frame :: recvFrames n c reads
    | (some (.error e), _, _) => [.error e]
    | (none, _, _) => []

/-- A byte stream decoded from the front: its frames, then the error of the first malformed
header, or `ConnectionClosed` when an incomplete frame or nothing is left. -/
def decodeStream (bytes : List UInt8) : List (Except TransportError Frame) :=
  (trnc.parse bytes).1.map .ok ++
    [match (trnc.parse bytes).2 with
    | .ok _ => .error .ConnectionClosed
    | .error e => .error e]

/-- The payload length that the header at the front of `buffer` declares. -/
def declaredLength (buffer : List UInt8) : Nat := (headerAt buffer .Data).payloadLength.toNat

theorem decodeStream_item {bytes : List UInt8} {f : Frame} {n : Nat} (h : trnc.verdict bytes = .item f n) :
    decodeStream bytes = .ok f :: decodeStream (bytes.drop n) := by
  rw [decodeStream, trnc.parse_item h]; rfl

theorem decodeStream_more {bytes : List UInt8} (h : trnc.verdict bytes = .more) :
    decodeStream bytes = [.error .ConnectionClosed] := by
  rw [decodeStream, trnc.parse_more h]; rfl

theorem decodeStream_bad {bytes : List UInt8} {e : TransportError} (h : trnc.verdict bytes = .bad e) :
    decodeStream bytes = [.error e] := by
  rw [decodeStream, trnc.parse_bad h]; rfl

theorem recvFrames_chunks (n : Nat) (c : Connection) (chunks : List (List UInt8))
    (hne : ∀ bytes ∈ chunks, bytes ≠ []) :
    recvFrames n c (chunks.map .ok ++ [.ok []]) = (decodeStream (c.readBuffer ++ chunks.flatten)).take n := by
  induction n generalizing c chunks with
  | zero => rfl
  | succ n ih =>
    have hverdict := trnc.pull_verdict c.readBuffer chunks
    have hbytes := trnc.pull_bytes c.readBuffer chunks
    have hbuffer := trnc.pull_buffer c.readBuffer chunks
    have hsub : ∀ bytes ∈ (trnc.pull c.readBuffer chunks).2.2, bytes ≠ [] := by
      intro bytes hmem
      exact hne bytes ((trnc.pull_suffix c.readBuffer chunks).subset hmem)
    rw [recvFrames, recvFrame_pull c chunks hne]
    generalize trnc.pull c.readBuffer chunks = p at hverdict hbytes hbuffer hsub
    obtain ⟨v, buf, cs⟩ := p
    dsimp only at hverdict hbytes hbuffer hsub
    rw [← hbytes]
    cases v with
    | item f k =>
      obtain ⟨-, hle⟩ := trnc.item_bound hbuffer
      dsimp only
      rw [ih _ cs hsub, decodeStream_item (trnc.item_stable cs.flatten hbuffer), List.take_succ_cons,
        List.drop_append_of_le_length hle]
    | bad e =>
      dsimp only
      rw [decodeStream_bad (trnc.bad_stable cs.flatten hbuffer), List.take_succ_cons, List.take_nil]
    | more =>
      dsimp only
      have hrest := decodeStream_more (hbytes ▸ hverdict.symm)
      rw [recvFrame_eof (c := { c with readBuffer := buf }) (verdict_more.mp hbuffer), hrest,
        List.take_succ_cons, List.take_nil]

theorem frameTooLarge_of_decode {buffer : List UInt8} {size max : Nat}
    (h : decode buffer = .error (.FrameTooLarge size max)) :
    HEADER_SIZE ≤ buffer.length ∧ size = declaredLength buffer ∧ MAX_FRAME_SIZE < size := by
  cases h ▸ decode_decoded buffer with
  | invalid hlen _ hval =>
    unfold Header.validate at hval
    split_ifs at hval with _ _ hsize
    all_goals simp only [Except.error.injEq, TransportError.FrameTooLarge.injEq, reduceCtorEq] at hval
    obtain ⟨rfl, -⟩ := hval
    exact ⟨hlen, rfl, hsize⟩

/-- However a finite byte stream is cut into non-empty reads, the results of repeated
`recv_frame` calls are those of decoding it as a whole; `FrameTooLarge` among them means
that a header declares too much, since the read-buffer guard never fires. -/
theorem recv_frame_chunking (stream : Socket) (bytes : List UInt8) (chunks : List (List UInt8))
    (hcut : chunks.flatten = bytes) (hne : ∀ chunk ∈ chunks, chunk ≠ []) (n : Nat) :
    recvFrames n (Connection.new stream) (chunks.map .ok ++ [.ok []]) = (decodeStream bytes).take n ∧
    (∀ size max, .error (.FrameTooLarge size max) ∈
        recvFrames n (Connection.new stream) (chunks.map .ok ++ [.ok []]) →
      ∃ k, HEADER_SIZE ≤ (bytes.drop k).length ∧ size = declaredLength (bytes.drop k) ∧
        MAX_FRAME_SIZE < size) ∧
    (∀ buffer, decode buffer = .error .NeedMoreData → buffer.length < MAX_READ_BUFFER_SIZE) := by
  have hall : recvFrames n (Connection.new stream) (chunks.map .ok ++ [.ok []]) =
      (decodeStream bytes).take n := by
    rw [recvFrames_chunks n _ chunks hne, ← hcut]; rfl
  refine ⟨hall, ?_, fun buffer h => not_le.mp (readBuffer_guard h)⟩
  intro size max hmem
  rw [hall] at hmem
  have herr : (trnc.parse bytes).2 = .error (.FrameTooLarge size max) := by
    have hin := List.mem_of_mem_take hmem
    unfold decodeStream at hin
    rw [List.mem_append, List.mem_singleton] at hin
    rcases hin with hin | hin
    · simp at hin
    · split at hin
      · simp at hin
      next e he => rw [he, Except.error.inj hin]
  obtain ⟨k, hk⟩ := trnc.parse_error herr
  exact ⟨k, frameTooLarge_of_decode (verdict_bad.mp hk).1⟩

theorem recv_frame_chunking_ping :
    recvFrames 3 (Connection.new ⟨[], []⟩)
        ([[0x54, 0x52, 0x4E], [0x43, 1, 0, 4, 0, 0, 0, 0, 0, 0, 0, 1, 5, 9, 0x54]].map .ok ++ [.ok []]) =
      [.ok (Frame.new .Ping FLAG_CONTROL 0 [9]), .error .ConnectionClosed] :=
  (recv_frame_chunking ⟨[], []⟩ _ [[0x54, 0x52, 0x4E], [0x43, 1, 0, 4, 0, 0, 0, 0, 0, 0, 0, 1, 5, 9, 0x54]]
    rfl (by decide) 3).1.trans (by decide)

end TrenchDb.Transport
