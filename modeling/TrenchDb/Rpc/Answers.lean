import TrenchDb.Rpc.Encoding
import TrenchDb.Rpc.Server

/-!
# One execution, one answer

The server against any client: which of the requests that it executes are answered with one `Data`
frame and one `Close` on their stream.
-/

open TrenchDb.Lib.Lts TrenchDb.Transport

namespace TrenchDb.Rpc

/-! ## The server and its executions -/

/-- The stream and the encoded response of a request that a step of `run` executes. -/
def Serving.executes : Serving → Serving → List (UInt32 × List UInt8)
  | .reading _, .responding s payload => [(s, payload)]
  | _, _ => []

/-- The server with its manager, and the requests executed so far. -/
structure Service (σ : Type) where
  manager : StreamManager
  server : Server σ
  executed : List (UInt32 × List UInt8)

/-- The frames that answer an executed request. -/
def answer (x : UInt32 × List UInt8) : List Frame := [dataFrame x.1 x.2, closeFrame x.1]

def isAnswer (f : Frame) : Bool := f.header.frameType = .Data ∨ f.header.frameType = .Close

namespace Service

variable {σ : Type}

def start (store : σ) : Service σ := ⟨.fresh .Acceptor, .start store, []⟩

/-- `w` with another manager and server, after one of its steps. -/
def next (w : Service σ) (m : StreamManager) (v : Server σ) : Service σ :=
  ⟨m, v, w.executed ++ w.server.phase.executes v.phase⟩

/-- The server makes its call, or its `recv_frame` call uses the reads it is given. The client may send any
bytes. -/
inductive Step (b : Envelopes) (a : Actions σ) (w : Service σ) : Event → Service σ → Prop
  | call {c : Call} : w.server.demand = .call c →
      Step b a w (.called c (w.manager.perform c).1)
        (w.next (w.manager.perform c).2 (w.server.replied b a (w.manager.perform c).1))
  | recv {reads : List Read} {r : Option (Except TransportError Frame)} {m : StreamManager} :
      w.server.demand = .recvFrame → w.manager.recvFrame reads = (r, m, []) →
      Step b a w (.received r) (w.next m ((Server.run b a).heard w.server r))

/-- The answers sent so far. -/
def answers (w : Service σ) : List Frame := w.manager.emitted.filter isAnswer

/-- Each executed request has its answer, and a server that goes on has written all of them. -/
structure Complete (w : Service σ) : Prop where
  answered : w.answers = w.executed.flatMap answer
  written : (∀ r, w.server.phase ≠ .stopped r) → w.manager.conn.writeBuffer = []

/-- The request that the server executes next, by its stream and the encoded response. -/
def upcoming (b : Envelopes) (a : Actions σ) (w : Service σ) : Option (UInt32 × List UInt8) :=
  match w.server.phase with
  | .reading s =>
    match (w.manager.streams.lookup s).bind fun stream => stream.recvQueue.head? with
    | none => none
    | some payload =>
      match (w.server.handle b a s payload).phase with
      | .responding s payload => some (s, payload)
      | _ => none
  | _ => none

/-- A response that can be sent on `s`, behind the `Window` frame for the request. -/
structure Answerable (m : StreamManager) (s : UInt32) (payload : List UInt8) : Prop where
  nonempty : payload ≠ []
  fits : HEADER_SIZE + 4 + (dataFrame s payload).wire.length ≤ MAX_BUFFER_SIZE
  writable : ∃ stream, m.streams.lookup s = some stream ∧ stream.state.canSend ∧
    (payload.length : Int) ≤ stream.sendWindow

/-- A step that executes no request with a response that cannot be sent. -/
def CarefulStep (b : Envelopes) (a : Actions σ) (w : Service σ) (ev : Event) (w' : Service σ) : Prop :=
  w.Step b a ev w' ∧ ∀ x, w.upcoming b a = some x → Answerable w.manager x.1 x.2

end Service

/-! ## Frames that are no answers -/

theorem not_isAnswer_of_received {e e' : Endpoint} {r : Option (Except TransportError Frame)} {outs : List Frame}
    (h : e.Step (.received r) outs e') : outs.filter isAnswer = [] := by
  generalize hev : Event.received r = ev at h
  cases h with
  | call => cases hev
  | noFrame => rfl
  | frame _ hrec =>
    cases hrec with
    | early => split_ifs <;> rfl
    | stream | helloed | badHello | welcomed | badWelcome | settings | told | pinged | pongless | ponged => rfl

theorem not_isAnswer_of_recvData {e e' : Endpoint} {s : UInt32} {reply : Reply} {outs : List Frame}
    (h : e.Acts (.recvData s) reply outs e') : outs.filter isAnswer = [] := by
  cases h with
  | failed | empty => rfl
  | took => unfold Endpoint.credit; split_ifs <;> rfl

namespace Service

variable {σ : Type} {b : Envelopes} {a : Actions σ} {w w' : Service σ} {ev : Event} {s : UInt32}
  {payload : List UInt8} {m : StreamManager}

/-! ## What each phase needs -/

/-- `send_data(s, payload)` succeeds. -/
structure Sendable (m : StreamManager) (s : UInt32) (payload : List UInt8) : Prop where
  established : m.handshakeState = .Established
  nonempty : payload ≠ []
  fits : m.conn.writeBuffer.length + (dataFrame s payload).wire.length ≤ MAX_BUFFER_SIZE
  writable : ∃ stream, m.streams.lookup s = some stream ∧ stream.state.canSend ∧
    (payload.length : Int) ≤ stream.sendWindow

/-- `close_stream(s)` succeeds. -/
structure Closable (m : StreamManager) (s : UInt32) : Prop where
  established : m.handshakeState = .Established
  held : ∃ stream, m.streams.lookup s = some stream ∧ ¬ stream.state.isClosed

theorem Sendable.length_le (h : Sendable m s payload) : payload.length ≤ MAX_FRAME_SIZE := by
  have hfits := h.fits
  rw [wire_length, dataFrame_payload] at hfits
  unfold MAX_BUFFER_SIZE at hfits
  unfold MAX_FRAME_SIZE
  omega

theorem Sendable.sends (h : Sendable m s payload) (hs : m.conn.Settled) :
    ∃ m', m.perform (.sendData s payload) = (.ok .done, m') ∧ Closable m' s ∧
      m.conn.Sends (dataFrame s payload).wire m'.conn := by
  obtain ⟨stream, hheld, hcan, hwin⟩ := h.writable
  obtain ⟨c, hbuf, hsends⟩ := StreamManager.bufferAndMaybeFlush_fits
    (m := { m with streams := m.streams.insert s (stream.consumeSendWindow payload.length) }) hs
    (dataFrame_valid s h.length_le).length_eq h.fits
  refine ⟨{ m with conn := c, streams := m.streams.insert s (stream.consumeSendWindow payload.length) }, ?_,
    ⟨h.established, _, Finmap.lookup_insert _, ?_⟩, hsends⟩
  · rw [StreamManager.perform, StreamManager.sendData_eq h.established h.nonempty h.length_le hheld hcan hwin, hbuf]
    rfl
  · show ¬ stream.state.isClosed
    revert hcan
    cases stream.state <;> simp [StreamState.canSend, StreamState.isClosed]

theorem Closable.closes (h : Closable m s) (hs : m.conn.Settled) :
    ∃ m', m.perform (.closeStream s) = (.ok .done, m') ∧ m.conn.Sends (closeFrame s).wire m'.conn := by
  obtain ⟨stream, hheld, hopen⟩ := h.held
  obtain ⟨c, heq, hsends⟩ := StreamManager.closeStream_ok hs h.established hheld hopen
  exact ⟨_, by rw [StreamManager.perform, heq]; rfl, hsends⟩

/-- What the manager must be ready for in each phase. -/
def Ready (m : StreamManager) : Serving → Prop
  | .listening | .reading _ => m.conn.writeBuffer = []
  | .responding s payload => Sendable m s payload
  | .closing s => Closable m s
  | .flushing | .stopped _ => True

/-- The answers that are executed and not yet sent. -/
def owed : Serving → List Frame
  | .responding s payload => answer (s, payload)
  | .closing s => [closeFrame s]
  | _ => []

/-- Each executed request has its answer or is about to get it. -/
structure Balanced (w : Service σ) : Prop where
  sound : w.manager.Sound
  ready : Ready w.manager w.server.phase
  balance : w.answers ++ owed w.server.phase = w.executed.flatMap answer

theorem balanced_start (store : σ) : Balanced (start store) :=
  ⟨StreamManager.fresh_sound .Acceptor, rfl, by simp [start, answers, StreamManager.fresh_emitted, owed, Server.start]⟩

/-! ## One step -/

theorem Step.phase_cases (h : w.Step b a ev w') :
    (w.server.phase = .listening ∧ ∃ reads r m, ev = .received r ∧ w.manager.recvFrame reads = (r, m, []) ∧
      w' = w.next m ((Server.run b a).heard w.server r)) ∨
    (∃ c, w.server.demand = .call c ∧ ev = .called c (w.manager.perform c).1 ∧
      w' = w.next (w.manager.perform c).2 (w.server.replied b a (w.manager.perform c).1)) := by
  cases h with
  | call hd => exact .inr ⟨_, hd, rfl, rfl⟩
  | @recv reads r m hd hrecv =>
    refine .inl ⟨?_, reads, r, m, rfl, hrecv, rfl⟩
    unfold Server.demand at hd
    cases hp : w.server.phase <;> simp_all

theorem received_phase (v : Server σ) (hp : v.phase = .listening) (r : Option (Except TransportError Frame)) :
    ((Server.run b a).heard v r).phase = .listening ∨ (∃ s, ((Server.run b a).heard v r).phase = .reading s) ∨
      ∃ e, ((Server.run b a).heard v r).phase = .stopped e := by
  unfold Program.heard
  split
  · exact .inl hp
  · unfold Server.run Server.received
    dsimp only
    split
    · exact .inr (.inr ⟨_, rfl⟩)
    · exact .inr (.inr ⟨_, rfl⟩)
    · split
      · exact .inr (.inl ⟨_, rfl⟩)
      · split
        · exact .inr (.inr ⟨_, rfl⟩)
        · exact .inr (.inr ⟨_, rfl⟩)
      · exact .inl hp

theorem handled_phase (v : Server σ) (s : UInt32) (payload : List UInt8) :
    (payload = [] ∧ (v.handle b a s payload).phase = .listening) ∨
    (payload ≠ [] ∧ ((∃ e, (v.handle b a s payload).phase = .stopped e) ∨
      ∃ response, (v.handle b a s payload).phase = .responding s response)) := by
  unfold Server.handle
  split_ifs with hempty
  · exact .inl ⟨hempty, rfl⟩
  · refine .inr ⟨hempty, ?_⟩
    split
    · exact .inl ⟨_, rfl⟩
    · split
      · exact .inl ⟨_, rfl⟩
      · exact .inr ⟨_, rfl⟩

theorem Balanced.listens (h : Balanced w) (hp : w.server.phase = .listening) {reads : List Read}
    {r : Option (Except TransportError Frame)} (hrecv : w.manager.recvFrame reads = (r, m, [])) :
    Balanced (w.next m ((Server.run b a).heard w.server r)) := by
  have hempty : w.manager.conn.writeBuffer = [] := by simpa [hp, Ready] using h.ready
  have hempty' : m.conn.writeBuffer = [] := by
    simpa [hrecv] using StreamManager.recvFrame_empty h.sound.settled hempty reads
  obtain ⟨hsound, outs, hend, hemit⟩ := h.sound.step (.recv hrecv)
  have hsame : m.emitted.filter isAnswer = w.answers := by
    rw [hemit, List.filter_append, not_isAnswer_of_received hend, List.append_nil]
    rfl
  have hbalance := h.balance
  simp only [hp, owed, List.append_nil] at hbalance
  rcases received_phase (b := b) (a := a) w.server hp r with hp' | ⟨s, hp'⟩ | ⟨e, hp'⟩
  all_goals
    refine ⟨hsound, ?_, ?_⟩
    · simp only [next, hp', Ready, hempty']
    · simp only [next, hp, hp', owed, Serving.executes, List.append_nil]
      exact hsame.trans hbalance

theorem replied_reading {v : Server σ} (hp : v.phase = .reading s) (payload : Option (List UInt8)) :
    v.replied b a (.ok (.data payload)) = v.handle b a s (payload.getD []) := by
  unfold Server.replied
  simp only [hp]

theorem buffer_le {c c' : Connection} {bytes : List UInt8} (h : c.Sends bytes c') :
    c'.writeBuffer.length ≤ c.writeBuffer.length + bytes.length := by
  have hlen := congrArg List.length h.sentBytes_eq
  have hle := h.written_le
  simp only [Connection.sentBytes, List.length_append] at hlen
  omega

theorem credit_length (s : UInt32) (stream : Stream) (payload : List UInt8) :
    ((Endpoint.credit s stream payload).flatMap Frame.wire).length ≤ HEADER_SIZE + 4 := by
  unfold Endpoint.credit
  split_ifs
  · simp [wire_length]
  · simp

theorem upcoming_eq (hp : w.server.phase = .reading s) {stream : Stream}
    (hheld : w.manager.streams.lookup s = some stream) (hhead : stream.recvQueue.head? = some payload)
    {response : List UInt8} (hhandle : (w.server.handle b a s payload).phase = .responding s response) :
    w.upcoming b a = some (s, response) := by
  simp only [upcoming, hp, hheld, Option.bind_some, hhead, hhandle]

theorem Balanced.reads (h : Balanced w) (hp : w.server.phase = .reading s)
    (hcareful : ∀ x, w.upcoming b a = some x → Answerable w.manager x.1 x.2) :
    Balanced (w.next (w.manager.perform (.recvData s)).2
      (w.server.replied b a (w.manager.perform (.recvData s)).1)) := by
  have hempty : w.manager.conn.writeBuffer = [] := by simpa only [hp, Ready] using h.ready
  obtain ⟨outs, hacts, hsends, hv⟩ := StreamManager.perform_acts h.sound.settled (.recvData s)
  generalize w.manager.perform (.recvData s) = o at hacts hsends
  obtain ⟨reply, m⟩ := o
  obtain ⟨hsound, hemit⟩ := h.sound.sends hv hsends
  have hsame : m.emitted.filter isAnswer = w.answers := by
    rw [hemit, List.filter_append, not_isAnswer_of_recvData hacts, List.append_nil]
    rfl
  have hbuffer := buffer_le hsends
  rw [hempty, List.length_nil, Nat.zero_add] at hbuffer
  have hbalance := h.balance
  simp only [hp, owed, List.append_nil] at hbalance
  have hnext : ∀ v : Server σ, Ready m v.phase →
      owed v.phase = (Serving.executes (.reading s) v.phase).flatMap answer → Balanced (w.next m v) := by
    intro v hready howed
    refine ⟨hsound, hready, ?_⟩
    show m.emitted.filter isAnswer ++ owed v.phase = (w.executed ++ w.server.phase.executes v.phase).flatMap answer
    rw [hsame, hbalance, List.flatMap_append, howed, hp]
  have hlisten : ∀ v : Server σ, outs = [] → v.phase = .listening → Balanced (w.next m v) := by
    intro v houts hv
    rw [houts] at hbuffer
    refine hnext v ?_ (by rw [hv]; rfl)
    rw [hv]
    exact List.length_eq_zero_iff.mp (Nat.le_zero.mp hbuffer)
  generalize he : m.endpoint = e' at hacts
  cases hacts with
  | failed => exact hnext _ trivial rfl
  | empty =>
    rw [replied_reading hp]
    exact hlisten _ rfl rfl
  | @took _ stream rest payload hest hheld hpop =>
    rw [replied_reading hp, Option.getD_some]
    obtain ⟨hqueue, hrest⟩ := Stream.popRecv_some hpop
    rcases handled_phase (b := b) (a := a) w.server s payload with ⟨rfl, hv⟩ | ⟨hne, ⟨e, hv⟩ | ⟨response, hv⟩⟩
    · exact hlisten _ (by simp [Endpoint.credit]) hv
    · exact hnext _ (by rw [hv]; trivial) (by rw [hv]; rfl)
    · have hans := hcareful _ (upcoming_eq hp hheld (by rw [hqueue]; rfl) hv)
      obtain ⟨stream', hheld', hcan, hwin⟩ := hans.writable
      obtain rfl := Option.some.inj (hheld.symm.trans hheld')
      refine hnext _ ?_ (by rw [hv]; simp [owed, Serving.executes])
      rw [hv]
      refine ⟨(congrArg Endpoint.handshakeState he).trans hest, hans.nonempty, ?_, rest, ?_, ?_, ?_⟩
      · have hlen := credit_length s stream payload
        exact (Nat.add_le_add_right (hbuffer.trans hlen) _).trans hans.fits
      · have hstreams : m.streams = _ := congrArg Endpoint.streams he
        rw [hstreams]
        exact Finmap.lookup_insert _
      · rw [hrest]
        exact hcan
      · rw [hrest]
        exact hwin

theorem Balanced.sendsAnswer (h : Balanced w) (hp : w.server.phase = .responding s payload) :
    let o := w.manager.perform (.sendData s payload)
    Balanced (w.next o.2 (w.server.replied b a o.1)) ∧ (w.server.replied b a o.1).phase = .closing s := by
  have hready : Sendable w.manager s payload := by simpa only [hp, Ready] using h.ready
  obtain ⟨m, heq, hclosable, hsends⟩ := hready.sends h.sound.settled
  have hvalid : ∀ f ∈ [dataFrame s payload], f.Valid := by simpa using dataFrame_valid s hready.length_le
  obtain ⟨hsound, hemit⟩ := h.sound.sends hvalid (by simpa using hsends)
  have hphase : (w.server.replied b a (.ok .done)).phase = .closing s := by
    unfold Server.replied
    simp only [hp]
  have hbalance := h.balance
  simp only [hp, owed, answer] at hbalance
  rw [heq]
  refine ⟨⟨hsound, by simp only [next, hphase, Ready, hclosable], ?_⟩, hphase⟩
  simp only [answers, next, hemit, hphase, hp, owed, Serving.executes, List.append_nil, List.filter_append]
  simpa [answers, isAnswer] using hbalance

theorem Balanced.closesStream (h : Balanced w) (hp : w.server.phase = .closing s) :
    let o := w.manager.perform (.closeStream s)
    Balanced (w.next o.2 (w.server.replied b a o.1)) ∧ (w.server.replied b a o.1).phase = .flushing := by
  have hready : Closable w.manager s := by simpa only [hp, Ready] using h.ready
  obtain ⟨m, heq, hsends⟩ := hready.closes h.sound.settled
  have hvalid : ∀ f ∈ [closeFrame s], f.Valid := by simpa using closeFrame_valid s
  obtain ⟨hsound, hemit⟩ := h.sound.sends hvalid (by simpa using hsends)
  have hphase : (w.server.replied b a (.ok .done)).phase = .flushing := by
    unfold Server.replied
    simp only [hp]
  have hbalance := h.balance
  simp only [hp, owed] at hbalance
  rw [heq]
  refine ⟨⟨hsound, by simp only [next, hphase, Ready], ?_⟩, hphase⟩
  simp only [answers, next, hemit, hphase, hp, owed, Serving.executes, List.append_nil, List.filter_append]
  simpa [answers, isAnswer] using hbalance

theorem Balanced.flushes (h : Balanced w) (hp : w.server.phase = .flushing) :
    let o := w.manager.perform .flush
    Balanced (w.next o.2 (w.server.replied b a o.1)) ∧ (w.server.replied b a o.1).phase = .listening := by
  have heq : w.manager.perform .flush = (.ok .done, { w.manager with conn := w.manager.conn.flushed }) := by
    rw [StreamManager.perform, StreamManager.flush_eq h.sound.settled.reliable]
    rfl
  obtain ⟨hsound, hemit⟩ := @StreamManager.Sound.sends w.manager { w.manager with conn := w.manager.conn.flushed } []
    h.sound (by simp) (Connection.sends_flushed _)
  have hphase : (w.server.replied b a (.ok .done)).phase = .listening := by
    unfold Server.replied
    simp only [hp]
  have hbalance := h.balance
  simp only [hp, owed, List.append_nil] at hbalance
  rw [heq]
  refine ⟨⟨hsound, by simp only [next, hphase, Ready, Connection.flushed], ?_⟩, hphase⟩
  simp only [next, hphase, hp, owed, Serving.executes, List.append_nil, answers, hemit]
  exact hbalance

/-! ## Runs -/

theorem Balanced.step (h : Balanced w) (hstep : CarefulStep b a w ev w') : Balanced w' := by
  obtain ⟨hstep, hcareful⟩ := hstep
  rcases hstep.phase_cases with ⟨hp, reads, r, m, -, hrecv, rfl⟩ | ⟨c, hd, -, rfl⟩
  · exact h.listens hp hrecv
  · unfold Server.demand at hd
    cases hp : w.server.phase with
    | listening | stopped => rw [hp] at hd; cases hd
    | reading => rw [hp] at hd; cases hd; exact h.reads hp hcareful
    | responding => rw [hp] at hd; cases hd; exact (h.sendsAnswer hp).1
    | closing => rw [hp] at hd; cases hd; exact (h.closesStream hp).1
    | flushing => rw [hp] at hd; cases hd; exact (h.flushes hp).1

/-- A step of the server with its client, whatever it is. -/
def Moves (b : Envelopes) (a : Actions σ) (w w' : Service σ) : Prop := ∃ ev, w.Step b a ev w'

theorem inevitably_call {P : Service σ → Prop} {c : Call} (hd : w.server.demand = .call c)
    (h : Inevitably (Moves b a) P
      (w.next (w.manager.perform c).2 (w.server.replied b a (w.manager.perform c).1))) :
    Inevitably (Moves b a) P w := by
  refine .next ⟨_, _, .call hd⟩ ?_
  rintro w' ⟨ev, hstep⟩
  rcases hstep.phase_cases with ⟨hp, -⟩ | ⟨c', hd', -, rfl⟩
  · unfold Server.demand at hd
    rw [hp] at hd
    cases hd
  · obtain rfl := Demand.call.inj (hd.symm.trans hd')
    exact h

theorem Balanced.complete (h : Balanced w) (howed : owed w.server.phase = [])
    (hempty : (∀ r, w.server.phase ≠ .stopped r) → w.manager.conn.writeBuffer = []) : Complete w := by
  refine ⟨?_, hempty⟩
  have hbalance := h.balance
  rwa [howed, List.append_nil] at hbalance

theorem Balanced.listening_completes (h : Balanced w) (hp : w.server.phase = .listening) :
    Inevitably (Moves b a) Complete w :=
  .now (h.complete (by rw [hp]; rfl) fun _ => by simpa only [hp, Ready] using h.ready)

theorem Balanced.flushing_completes (h : Balanced w) (hp : w.server.phase = .flushing) :
    Inevitably (Moves b a) Complete w := by
  obtain ⟨hnext, hp'⟩ := h.flushes (b := b) (a := a) hp
  exact inevitably_call (by simp only [Server.demand, hp]) (hnext.listening_completes hp')

theorem Balanced.closing_completes (h : Balanced w) (hp : w.server.phase = .closing s) :
    Inevitably (Moves b a) Complete w := by
  obtain ⟨hnext, hp'⟩ := h.closesStream (b := b) (a := a) hp
  exact inevitably_call (by simp only [Server.demand, hp]) (hnext.flushing_completes hp')

theorem Balanced.responding_completes (h : Balanced w) (hp : w.server.phase = .responding s payload) :
    Inevitably (Moves b a) Complete w := by
  obtain ⟨hnext, hp'⟩ := h.sendsAnswer (b := b) (a := a) hp
  exact inevitably_call (by simp only [Server.demand, hp]) (hnext.closing_completes hp')

theorem Balanced.completes (h : Balanced w) : Inevitably (Moves b a) Complete w := by
  cases hp : w.server.phase with
  | listening => exact h.listening_completes hp
  | reading =>
    exact .now (h.complete (by rw [hp]; rfl) fun _ => by simpa only [hp, Ready] using h.ready)
  | responding => exact h.responding_completes hp
  | closing => exact h.closing_completes hp
  | flushing => exact h.flushing_completes hp
  | stopped r => exact .now (h.complete (by rw [hp]; rfl) fun hne => absurd rfl (hp ▸ hne r))

/-- While no request is executed whose response cannot be sent on its stream, every request executed
gets exactly one `Data` frame and one `Close`. -/
theorem executed_answered {store : σ} {ls : List Event} (h : Run (CarefulStep b a) (start store) ls w) :
    Inevitably (Moves b a) Complete w := by
  have hbalanced : Balanced w :=
    h.invariant (P := fun _ w => Balanced w) (balanced_start store) fun _ _ _ _ hw hstep => hw.step hstep
  exact hbalanced.completes

/-! ### Runs that can be computed -/

instance (m : StreamManager) (s : UInt32) (payload : List UInt8) : Decidable (Answerable m s payload) :=
  decidable_of_iff (payload ≠ [] ∧ HEADER_SIZE + 4 + (dataFrame s payload).wire.length ≤ MAX_BUFFER_SIZE ∧
      ∃ stream ∈ m.streams.lookup s, stream.state.canSend ∧ (payload.length : Int) ≤ stream.sendWindow)
    ⟨fun ⟨hne, hfits, stream, hheld, hwritable⟩ => ⟨hne, hfits, stream, hheld, hwritable⟩,
      fun ⟨hne, hfits, stream, hheld, hwritable⟩ => ⟨hne, hfits, stream, hheld, hwritable⟩⟩

/-- The next step, with these reads if the server waits for a frame. -/
def advance (b : Envelopes) (a : Actions σ) (w : Service σ) (reads : List Read) : Event × Service σ :=
  match w.server.demand with
  | .call c => (.called c (w.manager.perform c).1,
      w.next (w.manager.perform c).2 (w.server.replied b a (w.manager.perform c).1))
  | _ => (.received (w.manager.recvFrame reads).1,
      w.next (w.manager.recvFrame reads).2.1 ((Server.run b a).heard w.server (w.manager.recvFrame reads).1))

/-- The next step is there and uses all reads. -/
def advances (w : Service σ) (reads : List Read) : Bool :=
  match w.server.demand with
  | .call _ => true
  | .recvFrame => (w.manager.recvFrame reads).2.2.isEmpty
  | _ => false

def play (b : Envelopes) (a : Actions σ) : Service σ → List (List Read) → List Event × Service σ
  | w, [] => ([], w)
  | w, reads :: script =>
    ((w.advance b a reads).1 :: (play b a (w.advance b a reads).2 script).1,
      (play b a (w.advance b a reads).2 script).2)

/-- The script can be played, by careful steps if `strict`. -/
def plays (b : Envelopes) (a : Actions σ) (strict : Bool) : Service σ → List (List Read) → Bool
  | _, [] => true
  | w, reads :: script =>
    w.advances reads &&
      (!strict || (w.upcoming b a).all fun x => Answerable w.manager x.1 x.2) &&
      plays b a strict (w.advance b a reads).2 script

theorem advance_step {reads : List Read} (h : w.advances reads) :
    w.Step b a (w.advance b a reads).1 (w.advance b a reads).2 := by
  unfold advances at h
  unfold advance
  split at h
  next c hd =>
    rw [hd]
    exact .call hd
  next hd =>
    rw [hd]
    exact .recv hd (Prod.ext rfl (Prod.ext rfl (List.isEmpty_iff.mp h)))
  · cases h

theorem plays_run (strict : Bool) {script : List (List Read)} (h : plays b a strict w script) :
    Run (fun w ev w' => w.Step b a ev w' ∧ (strict → ∀ x, w.upcoming b a = some x → Answerable w.manager x.1 x.2))
      w (w.play b a script).1 (w.play b a script).2 := by
  induction script generalizing w with
  | nil => exact .nil
  | cons reads script ih =>
    simp only [plays, Bool.and_eq_true] at h
    refine .cons ⟨advance_step h.1.1, fun hstrict x hx => ?_⟩ (ih h.2)
    simpa [hstrict, hx] using h.1.2

/-- The client sends a request on stream 1, and the server executes it. -/
def executing : List (List Read) :=
  [[.ok helloFrame.wire], [.ok (openFrame 1).wire],
    [.ok (dataFrame 1 (prefixed.request.byteSerialize ping)).wire], []]

theorem executed_answered_ping :
    Inevitably (Moves prefixed echo) Complete ((start ()).play prefixed echo executing).2 ∧
      ((start ()).play prefixed echo executing).2.executed = [(1, prefixed.response.byteSerialize pong)] :=
  ⟨executed_answered ((plays_run true (by decide +kernel)).mono fun _ _ _ hs => ⟨hs.1, hs.2 rfl⟩),
    by decide +kernel⟩

/-- After the answer, the client sends the request once more on the same stream. -/
def repeating : List (List Read) :=
  executing ++ [[], [], [], [.ok (dataFrame 1 (prefixed.request.byteSerialize ping)).wire], [], []]

/-- The second request is executed, and `send_data` fails: the stream was closed with the first answer. -/
theorem executed_unanswered : ¬ ∀ (b : Envelopes) (a : Actions Unit) ls w, b.RoundTrip →
    Run (Step b a) (start ()) ls w → Inevitably (Moves b a) Complete w := by
  intro h
  have hrun : Run (Step prefixed echo) (start ()) _ ((start ()).play prefixed echo repeating).2 :=
    (plays_run false (by decide +kernel)).mono fun _ _ _ hs => hs.1
  have hstopped : ((start ()).play prefixed echo repeating).2.server.demand = .gone := by decide +kernel
  cases h prefixed echo _ _ prefixed_roundTrip hrun with
  | now hcomplete =>
    have hanswered := hcomplete.answered
    revert hanswered
    decide +kernel
  | next hexists =>
    obtain ⟨w', ev, hstep⟩ := hexists
    cases hstep with
    | call hd => rw [hstopped] at hd; cases hd
    | recv hd => rw [hstopped] at hd; cases hd

end Service

end TrenchDb.Rpc
