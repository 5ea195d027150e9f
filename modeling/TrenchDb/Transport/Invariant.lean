import TrenchDb.Transport.Flow
import TrenchDb.Transport.GracefulClose

/-!
# Between two calls

What holds of the stream map, the id counter and the write buffer after every call, and
how the receive window of a stream is kept, against any peer.
-/

open TrenchDb.Lib.Lts

namespace TrenchDb.Transport

/-! ## How a stream changes -/

/-- How a step changes a stream that stays in the map under the key `k`. -/
inductive Stream.Change (k : UInt32) (stream : Stream) : Event → Stream → Prop
  | same (ev : Event) : Change k stream ev stream
  | spent {ev : Event} (byteCount : Nat) : Change k stream ev (stream.consumeSendWindow byteCount)
  | credited {ev : Event} (increment : UInt32) : Change k stream ev (stream.applyWindowIncrement increment)
  | arrived {f : Frame} : f.header.frameType = .Data → f.header.streamId = k →
      Change k stream (.received (some (.ok f))) (stream.pushRecv f.payload)
  | took {ev : Event} {payload : List UInt8} {rest : Stream} : stream.popRecv = (some payload, rest) →
      Change k stream ev rest
  | closedHere {ev : Event} : stream.onLocalClose.state ≠ .Closed → Change k stream ev stream.onLocalClose
  | closedThere {ev : Event} : stream.onRemoteClose.state ≠ .Closed → Change k stream ev stream.onRemoteClose

namespace Endpoint

variable {e e' : Endpoint} {k : UInt32} {ev : Event} {stream' : Stream}

/-- The stream under the key `k` is new, or it was there before. -/
def Keeps (e : Endpoint) (k : UInt32) (ev : Event) (stream' : Stream) : Prop :=
  stream' = Stream.new k ∨ ∃ stream, e.streams.lookup k = some stream ∧ stream.Change k ev stream'

theorem keeps_same (hlook : e.streams.lookup k = some stream') : e.Keeps k ev stream' :=
  .inr ⟨stream', hlook, .same ev⟩

theorem keeps_new {j : UInt32} (hlook : (e.put j (Stream.new j)).streams.lookup k = some stream') :
    e.Keeps k ev stream' := by
  rw [put_lookup] at hlook
  split_ifs at hlook with hjk
  · subst hjk
    exact .inl (Option.some.inj hlook).symm
  · exact keeps_same hlook

theorem keeps_put {j : UInt32} {stream stream₁ : Stream} (hheld : e.streams.lookup j = some stream)
    (hchange : stream.Change j ev stream₁) (hlook : (e.put j stream₁).streams.lookup k = some stream') :
    e.Keeps k ev stream' := by
  rw [put_lookup] at hlook
  split_ifs at hlook with hjk
  · subst hjk
    obtain rfl := Option.some.inj hlook
    exact .inr ⟨stream, hheld, hchange⟩
  · exact keeps_same hlook

theorem keeps_drop {j : UInt32} (hlook : (e.drop j).streams.lookup k = some stream') : e.Keeps k ev stream' := by
  rw [drop_lookup] at hlook
  split_ifs at hlook
  exact keeps_same hlook

theorem Acts.keeps {c : Call} {reply : Reply} {outs : List Frame} (h : e.Acts c reply outs e')
    (hlook : e'.streams.lookup k = some stream') : e.Keeps k (.called c reply) stream' := by
  cases h with
  | failed | hello | waits | ready | nothing | empty | pinged | flushed => exact keeps_same hlook
  | opened => exact keeps_new hlook
  | sent _ _ _ hheld _ _ => exact keeps_put hheld (.spent _) hlook
  | overflowed _ hheld _ _ _ => exact keeps_put hheld (.spent _) hlook
  | closed _ hheld _ =>
    unfold afterClose at hlook
    split_ifs at hlook with hnow
    · exact keeps_drop hlook
    · exact keeps_put hheld (.closedHere hnow) hlook
  | reset => exact keeps_drop hlook
  | took _ hheld hpop => exact keeps_put hheld (.took hpop) hlook

theorem Heard.keeps {f : Frame} (h : Heard e f e') (hlook : e'.streams.lookup k = some stream') :
    e.Keeps k (.received (some (.ok f))) stream' := by
  cases h with
  | opens => exact keeps_new hlook
  | data hf hheld => exact keeps_put hheld (.arrived hf rfl) hlook
  | close _ hheld hnow => exact keeps_put hheld (.closedThere hnow) hlook
  | closed | reset => exact keeps_drop hlook
  | window _ _ hheld => exact keeps_put hheld (.credited _) hlook

theorem Receives.keeps {f : Frame} {r : Except TransportError Unit} {outs : List Frame}
    (h : e.Receives f r outs e') (hlook : e'.streams.lookup k = some stream') :
    e.Keeps k (.received (some (r.map fun _ => f))) stream' := by
  cases h with
  | stream _ ht =>
    rcases onStream_heard (e := e) ht with ⟨err, heq⟩ | ⟨hok, hheard⟩
    · rw [heq] at hlook
      exact keeps_same hlook
    · rw [hok]
      exact hheard.keeps hlook
  | early | helloed | badHello | welcomed | badWelcome | settings | told | pinged | pongless | ponged =>
    exact keeps_same hlook

theorem Step.keeps {outs : List Frame} (h : e.Step ev outs e') (hlook : e'.streams.lookup k = some stream') :
    e.Keeps k ev stream' := by
  cases h with
  | call hacts => exact hacts.keeps hlook
  | frame _ hrec => exact hrec.keeps hlook
  | noFrame => exact keeps_same hlook

end Endpoint

/-! ## The invariant of the map -/

/-- What holds of the stream in the map under the key `k`. -/
structure Stream.Live (k : UInt32) (stream : Stream) : Prop where
  id_eq : stream.id = k
  state_mem : stream.state ∈ [StreamState.Open, .HalfClosedLocal, .HalfClosedRemote]
  sendWindow_nonneg : 0 ≤ stream.sendWindow
  recvWindow_nonneg : 0 ≤ stream.recvWindow

theorem Stream.live_new (k : UInt32) : (Stream.new k).Live k := by
  refine ⟨rfl, by simp [new], ?_, ?_⟩
  · exact show (0 : Int) ≤ DEFAULT_WINDOW by decide
  · exact show (0 : Int) ≤ DEFAULT_WINDOW by decide

theorem Stream.Live.change {k : UInt32} {ev : Event} {stream stream' : Stream} (h : stream.Live k)
    (hchange : stream.Change k ev stream') : stream'.Live k := by
  obtain ⟨hid, hstate, hsend, hrecv⟩ := h
  cases hchange with
  | same => exact ⟨hid, hstate, hsend, hrecv⟩
  | spent byteCount =>
    refine ⟨hid, hstate, ?_, hrecv⟩
    simp only [consumeSendWindow]
    split_ifs <;> omega
  | credited increment =>
    refine ⟨hid, hstate, ?_, hrecv⟩
    simp only [applyWindowIncrement, I64_MAX]
    omega
  | arrived =>
    refine ⟨hid, hstate, hsend, ?_⟩
    simp only [pushRecv]
    split_ifs <;> omega
  | took hpop =>
    obtain ⟨-, hrest⟩ := popRecv_some hpop
    rw [hrest]
    exact ⟨hid, hstate, hsend, show (0 : Int) ≤ _ by dsimp only; omega⟩
  | closedHere hnow =>
    refine ⟨hid, ?_, hsend, hrecv⟩
    revert hnow hstate
    simp only [onLocalClose]
    cases stream.state <;> simp
  | closedThere hnow =>
    refine ⟨hid, ?_, hsend, hrecv⟩
    revert hnow hstate
    simp only [onRemoteClose]
    cases stream.state <;> simp

namespace StreamManager

variable {role : Role} {ls : List Event} {m m' : StreamManager} {ev : Event}

/-- What holds of a manager after every call. -/
structure Invariant (m : StreamManager) : Prop where
  live : ∀ k stream, m.streams.lookup k = some stream → stream.Live k
  below : ∀ k ∈ m.streams, k % 2 = firstLocalId m.role % 2 → k < m.nextLocalId
  low : m.conn.writeBuffer.length < FLUSH_THRESHOLD

theorem firstLocalId_mod (role : Role) : firstLocalId role % 2 = expectedParity role.peer := by
  cases role <;> rfl

theorem live_of_run (h : Run Step (fresh role) ls m) :
    ∀ k stream, m.streams.lookup k = some stream → stream.Live k := by
  induction h with
  | nil => intro k stream hlook; simp [fresh, new] at hlook
  | snoc hrun hstep ih =>
    obtain ⟨-, outs, hend, -⟩ := (sound_of_run hrun).step hstep
    intro k stream' hlook
    rcases hend.keeps hlook with rfl | ⟨stream, hheld, hchange⟩
    · exact Stream.live_new k
    · exact (ih k stream hheld).change hchange

/-- The invariant of the stream map, the id counter and the write buffer. -/
theorem invariant_of_run (h : Run Step (fresh role) ls m) : m.Invariant := by
  have htidy := tidy_of_run h
  refine ⟨live_of_run h, fun k hmem hpar => ?_, (sound_of_run h).settled.low⟩
  obtain ⟨stream, hlook⟩ := Finmap.mem_iff.mp hmem
  rw [firstLocalId_mod] at hpar
  exact htidy.below k stream hlook (opener_eq_iff.mpr hpar)

theorem invariant_unread : ((fresh .Acceptor).play unread).2.Invariant ∧
    ((fresh .Acceptor).play unread).2.streamCount = 1 :=
  ⟨invariant_of_run (unread_run.mono fun _ _ _ hs => hs.1), by decide +kernel⟩

end StreamManager

/-! ## The receive window -/

/-- The receive window and the unread payloads add up to what the peer was granted. -/
structure Stream.Granted (stream : Stream) : Prop where
  total : stream.recvWindow + bytes stream.recvQueue = DEFAULT_WINDOW
  nonneg : 0 ≤ stream.recvWindow

theorem Stream.granted_new (k : UInt32) : (Stream.new k).Granted :=
  ⟨rfl, show (0 : Int) ≤ DEFAULT_WINDOW by decide⟩

theorem Stream.Granted.pushRecv {stream : Stream} (h : stream.Granted) {payload : List UInt8}
    (hle : (payload.length : Int) ≤ stream.recvWindow) : (stream.pushRecv payload).Granted := by
  have htotal := h.total
  refine ⟨?_, ?_⟩ <;> simp only [Stream.pushRecv, bytes_append, bytes_cons, bytes_nil] <;> split_ifs <;> omega

theorem Stream.Granted.overrun {stream : Stream} (h : stream.Granted) {payload : List UInt8}
    (hlt : stream.recvWindow < payload.length) : ¬ (stream.pushRecv payload).Granted := by
  rintro ⟨htotal', -⟩
  have htotal := h.total
  simp only [Stream.pushRecv, bytes_append, bytes_cons, bytes_nil] at htotal'
  split_ifs at htotal' <;> omega

theorem Stream.Granted.popRecv {stream rest : Stream} {payload : List UInt8} (h : stream.Granted)
    (hpop : stream.popRecv = (some payload, rest)) : rest.Granted := by
  obtain ⟨htotal, hnonneg⟩ := h
  obtain ⟨hqueue, hrest⟩ := popRecv_some hpop
  rw [hqueue, bytes_cons] at htotal
  have hwindow : rest.recvWindow = stream.recvWindow + payload.length := by rw [hrest]
  exact ⟨by omega, by omega⟩

namespace StreamManager

variable {role : Role} {ls : List Event} {m m' : StreamManager} {ev : Event}

/-- No stream holds more unread bytes than were granted. -/
def Enforced (m : StreamManager) : Prop :=
  ∀ k stream, m.streams.lookup k = some stream → stream.Granted

/-- A `Data` frame is taken whose payload is above the receive window of its stream. -/
def Overruns (m : StreamManager) : Event → Bool
  | .received (some (.ok f)) =>
    match m.streams.lookup f.header.streamId with
    | none => false
    | some stream => f.header.frameType = .Data && stream.recvWindow < f.payload.length
  | _ => false

/-- A step in which the peer stays within the receive windows. -/
def WithinStep (m : StreamManager) (ev : Event) (m' : StreamManager) : Prop := m.Step ev m' ∧ ¬ m.Overruns ev

theorem overruns_iff {f : Frame} {stream : Stream} (hf : f.header.frameType = .Data)
    (hheld : m.streams.lookup f.header.streamId = some stream) :
    m.Overruns (.received (some (.ok f))) ↔ stream.recvWindow < f.payload.length := by
  simp [Overruns, hheld, hf]

theorem Enforced.step {outs : List Frame} (h : m.Enforced) (hstep : m.endpoint.Step ev outs m'.endpoint)
    (hwithin : ¬ m.Overruns ev) : m'.Enforced := by
  intro k stream' hlook
  rcases hstep.keeps hlook with rfl | ⟨stream, hheld, hchange⟩
  · exact Stream.granted_new k
  · have hgranted := h k stream hheld
    cases hchange with
    | arrived hf hid =>
      subst hid
      rw [overruns_iff hf hheld] at hwithin
      exact hgranted.pushRecv (Int.not_lt.mp hwithin)
    | took hpop => exact hgranted.popRecv hpop
    | same | spent | credited | closedHere | closedThere => exact ⟨hgranted.total, hgranted.nonneg⟩

theorem Enforced.broken {outs : List Frame} (h : m.Enforced) (hstep : m.endpoint.Step ev outs m'.endpoint)
    (hover : m.Overruns ev) : ¬ m'.Enforced := by
  intro h'
  unfold Overruns at hover
  split at hover
  next f =>
    split at hover
    · cases hover
    next stream hheld =>
      simp only [Bool.and_eq_true, decide_eq_true_eq] at hover
      obtain ⟨hf, hlt⟩ := hover
      -- The frame is queued on the stream, whatever its size.
      generalize he : m'.endpoint = e' at hstep
      cases hstep.heard (by rw [hf]; rfl) with
      | opens hty | close hty | closed hty | reset hty | window _ hty => rw [hf] at hty; cases hty
      | data _ hheld' =>
        obtain rfl := Option.some.inj (hheld.symm.trans hheld')
        have hlook : m'.streams.lookup f.header.streamId = some (stream.pushRecv f.payload) := by
          rw [show m'.streams = m'.endpoint.streams from rfl, he]
          exact Finmap.lookup_insert _
        exact (h _ _ hheld).overrun hlt (h' _ _ hlook)
  · cases hover

theorem enforced_of_run (h : Run WithinStep (fresh role) ls m) : m.Enforced := by
  induction h with
  | nil => intro k stream hlook; simp [fresh, new] at hlook
  | snoc hrun hstep ih =>
    obtain ⟨-, outs, hend, -⟩ := (sound_of_run (hrun.mono fun _ _ _ hs => hs.1)).step hstep.1
    exact ih.step hend hstep.2

/-- While the peer stays within the receive windows, each window and the unread payloads of its
stream add up to what was granted; and the first frame above a window breaks this. -/
theorem recv_window_enforced (h : Run WithinStep (fresh role) ls m) :
    m.Enforced ∧ ∀ ev m', m.Step ev m' → (m'.Enforced ↔ ¬ m.Overruns ev) := by
  have henforced := enforced_of_run h
  refine ⟨henforced, fun ev m' hstep => ?_⟩
  obtain ⟨-, outs, hend, -⟩ := (sound_of_run (h.mono fun _ _ _ hs => hs.1)).step hstep
  exact ⟨fun h' hover => henforced.broken hend hover h', henforced.step hend⟩

theorem recv_window_enforced_unread :
    ((fresh .Acceptor).play unread).2.Enforced ∧ acceptedOn 1 ((fresh .Acceptor).play unread).1 = [[7]] :=
  ⟨(recv_window_enforced (avoids_run Overruns (by decide +kernel))).1, by decide +kernel⟩

theorem dispatch_data {k : UInt32} (stream : Stream) {payload : List UInt8}
    (hest : m.handshakeState = .Established) (hheld : m.streams.lookup k = some stream)
    (hcan : stream.state.canReceive) : m.dispatch (dataFrame k payload) =
      (.ok (), { m with streams := m.streams.insert k (stream.pushRecv payload) }) := by
  simp [dispatch, hest, dispatchEstablished, withStreams, handleData, hheld, hcan]

/-- A peer opens stream 1. -/
def opening : List Act := [.frame helloFrame, .frame (openFrame 1)]

/-- One `Data` frame of 65,537 bytes on a fresh stream is queued. -/
theorem recv_window_overrun : ¬ ∀ role ls m, Run Step (fresh role) ls m → m.Enforced := by
  intro h
  have hrun : Run Step (fresh .Acceptor) _ ((fresh .Acceptor).play opening).2 :=
    played_run (by decide +kernel)
  have hvalid : (dataFrame 1 (List.replicate 65537 0)).Valid :=
    dataFrame_valid 1 (by rw [List.length_replicate]; decide)
  have hstep := Step.arrives (m := ((fresh .Acceptor).play opening).2) (by decide +kernel) hvalid
  rw [dispatch_data (Stream.new 1) (by decide +kernel) (by decide +kernel) rfl] at hstep
  have hgranted := h .Acceptor _ _ (hrun.snoc hstep) 1 _ (Finmap.lookup_insert _)
  have hlt : (Stream.new 1).recvWindow < (List.replicate 65537 (0 : UInt8)).length := by
    rw [List.length_replicate]
    decide
  exact (Stream.granted_new 1).overrun hlt hgranted


end StreamManager

end TrenchDb.Transport
