import TrenchDb.Rpc.Matching

/-!
# One connection, several `send_message` calls

Each `send_message` call makes a new manager on the socket of the call before. The server keeps its
manager, for which the handshake is over.
-/

open TrenchDb.Lib.Channels TrenchDb.Lib.Lts TrenchDb.Transport

namespace TrenchDb.Rpc

variable {σ : Type} {b : Envelopes} {a : Actions σ} {store store' last : σ} {request : RequestEnvelope}
  {response : ResponseEnvelope} {rest requests : List RequestEnvelope} {responses : List ResponseEnvelope}
  {s s' : Session (Parties σ)}

/-! ## The next call -/

/-- The client calls `send_message` again: a new manager on the same socket. What the old one had read
or not yet written is gone. -/
def reclaim (s : Session (Parties σ)) : Session (Parties σ) :=
  s.next .Initiator (.new (.new (s.link.mgr .Initiator).conn.stream) .Initiator) 0 (clientOf s).callAgain

inductive Reuses (b : Envelopes) (a : Actions σ) (s : Session (Parties σ)) : Session (Parties σ) → Prop
  | step {l : Role × Event} {s' : Session (Parties σ)} :
      Session.Step (programs (Client.sendMessage b) b a) s l s' → Reuses b a s s'
  | again : (clientOf s).phase = .reclaimed → Reuses b a s (reclaim s)

/-! ## The first call -/

/-- What holds of the client during the first call. -/
structure FirstCall (b : Envelopes) (response : ResponseEnvelope) (n : Node (Endpoint × Client) Frame) : Prop where
  running : n.state.2.demand b ≠ .gone
  reclaimed : n.state.2.phase = .reclaimed → n.state.2.results = [.ok response]

theorem first_call (rest : List RequestEnvelope) (hround : b.RoundTrip) (hreq : Fits (b.request.byteSerialize request))
    (hresp : Fits (b.response.byteSerialize response))
    (hhandle : a.handleRequest request store = (.ok response, store')) :
    ∃ stream sentC f g, Passes (Client.sendMessage b) b a (FirstCall b response)
      (fun n => n.state.2.demand ≠ .gone) (clientStart (Client.connect (request :: rest))) (serverStart store)
      ⟨(clientEnd 3 ((∅ : Streams).insert 1 stream), ⟨rest, [.ok response], .reclaimed⟩), sentC, 3⟩
      ⟨(serverEnd ∅, ⟨.listening, store', [(request, response)]⟩), [welcomeFrame, f, g, closeFrame 1],
        sentC.length⟩ := by
  have hserves : ∀ (store : σ) handled bound, Serves (fun n => n.state.2.demand ≠ .gone) store handled bound := by
    intro store handled bound e phase sent taken hrunning _
    cases phase with
    | stopped r => exact absurd rfl (hrunning r)
    | _ => exact nofun
  have hthrough : Throughout (FirstCall b response) (Client.connect (request :: rest)).proceed := by
    intro e x sent taken _
    cases x <;> exact ⟨nofun, nofun⟩
  have hdelivered : Client.sendMessageDelivered b ((Client.connect (request :: rest)).proceed.at (.waiting 1))
      (b.response.byteSerialize response) = ⟨rest, [.ok response], .reclaimed⟩ := by
    rw [Client.sendMessageDelivered, hround.response response hresp.lt]
    rfl
  have hlast : ∀ stream sent, FirstCall b response ⟨(clientEnd (1 + 2) ((∅ : Streams).insert 1 stream),
      Client.sendMessageDelivered b ((Client.connect (request :: rest)).proceed.at (.waiting 1))
        (b.response.byteSerialize response)), sent, 1 + ([] : List Frame).length + 2⟩ := by
    intro stream sent
    rw [hdelivered]
    exact ⟨nofun, fun _ => rfl⟩
  have hbetween : Between 1 ∅ [] [welcomeFrame] 1 := ⟨rfl, .nothing, rfl, rfl⟩
  obtain ⟨stream, f, g, outs, -, hpass⟩ := exchange Client.sendMessageRefusals [helloFrame] hround hthrough
    (hserves store [] _) (hserves store' _ _) rfl hbetween (by decide) hreq hresp hhandle hlast
  rw [hdelivered] at hpass
  have hgreets : Passes (Client.sendMessage b) b a (FirstCall b response) (fun n => n.state.2.demand ≠ .gone)
      (clientStart (Client.connect (request :: rest))) (serverStart store) _ _ :=
    greets rfl (fun e phase sent taken _ hphase => by rcases hphase with rfl | rfl <;> exact ⟨nofun, nofun⟩)
      (hserves store [] 1) hpass.start.1
  exact ⟨stream, _, f, g, hgreets.trans hpass⟩

/-- The session is in its first call. -/
abbrev InFirst (b : Envelopes) (a : Actions σ) (response : ResponseEnvelope) :
    Session.Config (Parties σ) → Nat → Session (Parties σ) → Session.Config (Parties σ) → Prop :=
  Session.Within (programs (Client.sendMessage b) b a) quiet
    (both (FirstCall b response) fun n => n.state.2.demand ≠ .gone)

theorem InFirst.open {f c : Session.Config (Parties σ)} {k : Nat} (h : InFirst b a response f k s c) (x : Role) :
    (programs (Client.sendMessage b) b a x).demand (s.progs x) ≠ .gone := by
  cases x with
  | Initiator => exact FirstCall.running (h.holds .Initiator)
  | Acceptor => exact h.holds .Acceptor

/-- The first call has returned, and the server waits. What is left on the way to the client is of the
last frame of the first call. -/
structure AfterFirst (rest : List RequestEnvelope) (response : ResponseEnvelope) (s : Session (Parties σ)) : Prop where
  client : clientOf s = ⟨rest, [.ok response], .reclaimed⟩
  listening : (serverOf s).phase = .listening
  reliable : (s.link.mgr .Initiator).conn.stream.faults = []
  leftover : s.link.flight .Initiator <:+ (closeFrame 1).wire
  established : (s.link.mgr .Acceptor).handshakeState = .Established
  role : (s.link.mgr .Acceptor).role = .Acceptor
  unread : (s.link.mgr .Acceptor).conn.readBuffer = []
  quiet : s.link.flight .Acceptor = []
  taken_le : s.link.taken .Acceptor ≤ (s.link.mgr .Initiator).conn.stream.written.length

theorem first_call_returns (rest : List RequestEnvelope) (hround : b.RoundTrip)
    (hreq : Fits (b.request.byteSerialize request))
    (hresp : Fits (b.response.byteSerialize response))
    (hhandle : a.handleRequest request store = (.ok response, store')) :
    ∃ f k c, Session.Ends (programs (Client.sendMessage b) b a) f ∧
      InFirst b a response f k (opened (Client.connect (request :: rest)) store) c ∧
      ∀ s, InFirst b a response f 0 s f → AfterFirst rest response s := by
  obtain ⟨stream, sentC, f, g, k, hpath⟩ := first_call rest hround hreq hresp hhandle
  refine ⟨_, k, _, ends_pair (.inr (.inl rfl)) (.inr (.inr ⟨rfl, List.drop_length⟩)), opened_within hpath,
    fun s h => ?_⟩
  have hprogs := h.tracks.progs_eq
  have hrep := h.tracks.rep
  have hclient : clientOf s = ⟨rest, [.ok response], .reclaimed⟩ := (hprogs .Initiator).symm
  have hserver : serverOf s = ⟨.listening, store', [(request, response)]⟩ := (hprogs .Acceptor).symm
  have hend : serverEnd ∅ = (s.link.mgr .Acceptor).endpoint := hrep.ends_eq .Acceptor
  have hempty : s.link.pending .Acceptor = [] := by
    rw [hrep.pending_eq]
    exact congrArg (List.flatMap Frame.wire) (@List.drop_length _ sentC)
  have hclose : s.link.pending .Initiator = (closeFrame 1).wire := by
    rw [hrep.pending_eq]
    exact List.append_nil _
  have hwritten : (s.link.mgr .Acceptor).conn.writeBuffer = [] :=
    h.flushed .Acceptor (.inl (by rw [show s.progs .Acceptor = serverOf s from rfl, hserver]))
  rw [Link.pending, List.append_assoc, List.append_eq_nil_iff] at hempty
  rw [Link.pending, show Role.peer .Initiator = .Acceptor from rfl, hwritten, List.append_nil] at hclose
  exact
    { client := hclient
      listening := by rw [hserver]
      reliable := (hrep.settled .Initiator).reliable
      leftover := ⟨_, hclose⟩
      established := (congrArg Endpoint.handshakeState hend).symm
      role := (congrArg Endpoint.role hend).symm
      unread := hempty.1
      quiet := (List.append_eq_nil_iff.mp hempty.2).1
      taken_le := hrep.taken_le .Acceptor }

/-! ## Leftovers of the first call -/

theorem verdict_leftover {id : UInt32} {front leftover : List UInt8} (hfront : front <+: leftover)
    (hleftover : leftover <:+ (closeFrame id).wire) :
    trnc.verdict front = .more ∨ trnc.verdict front = .item (closeFrame id) HEADER_SIZE := by
  have hwire : (closeFrame id).wire.length = HEADER_SIZE := wire_length _
  by_cases hlen : front.length < HEADER_SIZE
  · exact .inl (verdict_more.mpr (by rw [decode, if_pos hlen]))
  · have h1 := hfront.length_le
    have h2 := hleftover.length_le
    obtain rfl := hfront.eq_of_length (by omega)
    obtain rfl := hleftover.eq_of_length (by omega)
    have hitem : trnc.verdict ((closeFrame id).wire ++ []) = _ := trnc_encodes (closeFrame_valid id) []
    rw [List.append_nil, hwire] at hitem
    exact .inr hitem

theorem recvFrame_leftover {m m' : StreamManager} {id : UInt32} {chunks : List (List UInt8)} {rest : List UInt8}
    {r : Option (Except TransportError Frame)} (hstate : m.handshakeState = .AwaitingWelcome)
    (hne : ∀ chunk ∈ chunks, chunk ≠ [])
    (hleftover : m.conn.readBuffer ++ (chunks.flatten ++ rest) <:+ (closeFrame id).wire)
    (hrecv : m.recvFrame (chunks.map .ok) = (r, m', [])) :
    r = none ∧ m' = { m with conn := { m.conn with readBuffer := m.conn.readBuffer ++ chunks.flatten } } ∨
    ∃ e, r = some (.error e) := by
  have hpull := recvFrame_pull m.conn chunks hne []
  have hverdict := trnc.pull_verdict m.conn.readBuffer chunks
  have hbytes := trnc.pull_bytes m.conn.readBuffer chunks
  have hmore := @Lib.Incremental.Decoder.pull_more _ _ _ trnc m.conn.readBuffer chunks
  generalize trnc.pull m.conn.readBuffer chunks = p at hpull hverdict hbytes hmore
  obtain ⟨v, buffer, cs⟩ := p
  dsimp only at hverdict hbytes hmore
  rw [List.append_nil, hverdict] at hpull
  rcases verdict_leftover (List.prefix_append (m.conn.readBuffer ++ chunks.flatten) rest)
    (by rwa [List.append_assoc]) with hv | hv
  · obtain rfl := hmore (hverdict.trans hv)
    rw [List.flatten_nil, List.append_nil] at hbytes
    subst hbytes
    rw [hv] at hpull
    dsimp only at hpull
    rw [recvFrame_nil (by exact verdict_more.mp hv)] at hpull
    rw [StreamManager.recvFrame_none hpull] at hrecv
    obtain ⟨hr, hm, -⟩ := Prod.mk.inj hrecv |>.imp_right Prod.mk.inj
    exact .inl ⟨hr.symm, hm.symm⟩
  · rw [hv] at hpull
    dsimp only at hpull
    rw [StreamManager.recvFrame_some hpull] at hrecv
    have hdispatch : ∀ conn, ∃ e m', ({ m with conn } : StreamManager).dispatch (closeFrame id) = (.error e, m') := by
      intro conn
      rw [StreamManager.dispatch, if_pos (by simp [hstate])]
      exact ⟨_, _, rfl⟩
    obtain ⟨e, m'', hd⟩ := hdispatch _
    rw [hd] at hrecv
    exact .inr ⟨e, (Prod.mk.inj hrecv).1.symm⟩

/-! ## The second call -/

/-- The server has stopped, and the client has no response to its second request, and gets none. -/
structure Stranded (b : Envelopes) (s : Session (Parties σ)) : Prop where
  stopped : (serverOf s).demand = .gone
  results : (clientOf s).results.length ≤ 1
  client : (clientOf s).demand b = .gone ∨ (clientOf s).phase = .awaiting ∧
    (s.link.mgr .Initiator).handshakeState = .AwaitingWelcome ∧
    (s.link.mgr .Initiator).conn.readBuffer ++ s.link.flight .Initiator <:+ (closeFrame 1).wire

theorem Stranded.step (h : Stranded b s) (hstep : Reuses b a s s') : Stranded b s' := by
  obtain ⟨hstopped, hresults, hclient⟩ := h
  cases hstep with
  | again hphase =>
    exfalso
    rcases hclient with hgone | ⟨hawaiting, -⟩
    · rw [Client.demand, hphase] at hgone
      cases hgone
    · rw [hphase] at hawaiting
      cases hawaiting
  | @step l _ hstep =>
    have hserver : serverOf s' = serverOf s := hstep.gone hstopped
    rcases hclient with hgone | ⟨hawaiting, hstate, hleftover⟩
    · have hsame : clientOf s' = clientOf s := hstep.gone hgone
      exact ⟨by rw [hserver, hstopped], by rw [hsame]; exact hresults, .inl (by rw [hsame, hgone])⟩
    · have hdemand : (clientOf s).demand b = .recvFrame := by rw [Client.demand, hawaiting]
      have hfails : ∀ {e m n}, s' = s.next .Initiator m n ((clientOf s).fail e) → Stranded b s' := by
        rintro e m n rfl
        have hclient : clientOf (s.next .Initiator m n ((clientOf s).fail e)) = (clientOf s).fail e :=
          Session.next_progs
        exact ⟨by rw [hserver, hstopped], by rw [hclient]; exact hresults, .inl (by rw [hclient]; rfl)⟩
      cases hstep with
      | @call x _ hd =>
        cases x with
        | Initiator => cases hdemand.symm.trans hd
        | Acceptor => cases hstopped.symm.trans hd
      | @recv x chunks rest r m hd hne hflight hrecv _ =>
        cases x with
        | Acceptor => cases hstopped.symm.trans hd
        | Initiator =>
          rw [hflight] at hleftover
          rcases recvFrame_leftover hstate hne hleftover hrecv with ⟨rfl, rfl⟩ | ⟨e, rfl⟩
          · generalize hs' : s.next .Initiator _ chunks.flatten.length _ = s' at hserver
            have hclient : clientOf s' = clientOf s := hs' ▸ Session.next_progs
            have hmgr : s'.link.mgr .Initiator = { s.link.mgr .Initiator with
                conn := { (s.link.mgr .Initiator).conn with
                  readBuffer := (s.link.mgr .Initiator).conn.readBuffer ++ chunks.flatten } } :=
              hs' ▸ Session.next_mgr
            have hrest : s'.link.flight .Initiator = rest := by
              rw [← hs', Session.next_flight, hflight, List.drop_left]
            refine ⟨by rw [hserver, hstopped], by rw [hclient]; exact hresults, .inr ⟨?_, ?_, ?_⟩⟩
            · rw [hclient, hawaiting]
            · rw [hmgr, ← hstate]
            · rw [hmgr, hrest, List.append_assoc]
              exact hleftover
          · exact hfails rfl
      | @hangup x read r m hd _ hread hrecv =>
        cases x with
        | Acceptor => cases hstopped.symm.trans hd
        | Initiator =>
          obtain ⟨e, rfl⟩ := Session.hangup_error (hread.imp_left And.left) hrecv
          exact hfails rfl

theorem reclaim_mgr : (reclaim s).link.mgr .Initiator =
    .new (.new (s.link.mgr .Initiator).conn.stream) .Initiator := Session.next_mgr

theorem hello_again {stream : Socket} (h : stream.faults = []) :
    ∃ m, (StreamManager.new (.new stream) .Initiator).perform .startHandshake = (.ok .done, m) ∧
      m.handshakeState = .AwaitingWelcome ∧ m.conn.readBuffer = [] ∧
      m.conn.stream.written = stream.written ++ helloFrame.wire := by
  obtain ⟨conn, hhello, hsends, hflushed⟩ := StreamManager.startHandshake_hello
    (m := .new (.new stream) .Initiator) ⟨h, by simp [StreamManager.new, Connection.new, FLUSH_THRESHOLD]⟩ rfl rfl
  refine ⟨_, congrArg (Outcome.map _) hhello, rfl, hsends.readBuffer_eq, ?_⟩
  have := hsends.sentBytes_eq
  simpa [Connection.sentBytes, hflushed, StreamManager.new, Connection.new] using this

theorem hello_refused {m : StreamManager} (hrole : m.role = .Acceptor) (hest : m.handshakeState = .Established)
    (hunread : m.conn.readBuffer = []) : m.recvFrame [.ok helloFrame.wire] =
      (some (.error (.InvalidFrame "unexpected Hello frame")), m, []) := by
  have hwait : decode m.conn.readBuffer = .error .NeedMoreData := by rw [hunread]; rfl
  have hdecode : decode (m.conn.readBuffer ++ helloFrame.wire) = .ok (helloFrame, helloFrame.wire.length) := by
    rw [hunread, List.nil_append]
    have := decode_wire helloFrame_valid []
    rwa [List.append_nil] at this
  have hconn : m.conn.recvFrame [.ok helloFrame.wire] = (some (.ok helloFrame), m.conn, []) := by
    rw [recvFrame_bytes hwait (by decide), recvFrame_ok (by exact hdecode)]
    simp only [hunread, List.nil_append, List.drop_length]
    rw [← hunread]
  have hdispatch : m.dispatch helloFrame = (.error (.InvalidFrame "unexpected Hello frame"), m) := by
    have hid : helloFrame.header.streamId = 0 := rfl
    simp [StreamManager.dispatch, StreamManager.dispatchEstablished, StreamManager.handleHello, hest, hrole, hid]
  rw [StreamManager.recvFrame_some hconn, show ({ m with conn := m.conn } : StreamManager) = m from rfl, hdispatch]
  rfl

/-- The second call starts with `Hello`, and the server, for which the handshake is over, stops. -/
theorem second_call {next : RequestEnvelope} (h : AfterFirst (next :: rest) response s) :
    ∃ s', Relation.ReflTransGen (Reuses b a) s s' ∧ Stranded b s' := by
  have hreclaim : Reuses b a s (reclaim s) := .again (by rw [h.client])
  have hclient : clientOf (reclaim s) = ⟨next :: rest, [.ok response], .greeting⟩ := by
    rw [show clientOf (reclaim s) = (clientOf s).callAgain from Session.next_progs, h.client]
    rfl
  obtain ⟨m, hhello, hstate, hread, hwritten⟩ := hello_again h.reliable
  -- `start_handshake` of the new manager.
  have hcall := Session.Step.call (P := programs (Client.sendMessage b) b a) (s := reclaim s) .Initiator
    (c := .startHandshake) (by rw [show (reclaim s).progs .Initiator = _ from hclient]; rfl)
  rw [reclaim_mgr, hhello, show (reclaim s).progs .Initiator = _ from hclient] at hcall
  obtain ⟨s₂, hs₂⟩ : ∃ s₂, s₂ = (reclaim s).next .Initiator m 0 ⟨next :: rest, [.ok response], .awaiting⟩ := ⟨_, rfl⟩
  have hcall₂ : Reuses b a (reclaim s) s₂ := hs₂ ▸ .step hcall
  have hclient₂ : clientOf s₂ = ⟨next :: rest, [.ok response], .awaiting⟩ := hs₂ ▸ Session.next_progs
  have hserver₂ : serverOf s₂ = serverOf s := by
    rw [hs₂]
    exact (Session.next_progs_of_ne (Role.peer_ne .Initiator)).trans
      (Session.next_progs_of_ne (Role.peer_ne .Initiator))
  have hmgr₂ : s₂.link.mgr .Acceptor = s.link.mgr .Acceptor := by
    rw [hs₂]
    exact (Session.next_mgr_of_ne (Role.peer_ne .Initiator)).trans
      (Session.next_mgr_of_ne (Role.peer_ne .Initiator))
  have hown₂ : s₂.link.mgr .Initiator = m := by
    rw [hs₂]
    exact Session.next_mgr
  have htaken₂ : ∀ y, s₂.link.taken y = s.link.taken y := by
    intro y
    rw [hs₂]
    exact Session.next_taken.trans Session.next_taken
  have hflight₂ : s₂.link.flight .Acceptor = helloFrame.wire := by
    have hquiet : (s.link.mgr .Initiator).conn.stream.written.drop (s.link.taken .Acceptor) = [] := h.quiet
    show (s₂.link.mgr .Initiator).conn.stream.written.drop (s₂.link.taken .Acceptor) = _
    rw [hown₂, htaken₂, hwritten, List.drop_append_of_le_length h.taken_le, hquiet, List.nil_append]
  -- The server reads it.
  have hrecv := hello_refused (hmgr₂ ▸ h.role) (hmgr₂ ▸ h.established) (hmgr₂ ▸ h.unread)
  have hstop := Session.Step.recv (P := programs (Client.sendMessage b) b a) (s := s₂) .Acceptor
    (by show (serverOf s₂).demand = _; rw [hserver₂, Server.demand, h.listening])
    (show ∀ chunk ∈ [helloFrame.wire], chunk ≠ [] by simp; decide)
    (show _ = _ ++ [] by simp [hflight₂]) hrecv nofun
  generalize hs₃ : s₂.next .Acceptor (s₂.link.mgr .Acceptor) _ _ = s₃ at hstop
  have hclient₃ : clientOf s₃ = ⟨next :: rest, [.ok response], .awaiting⟩ := by
    rw [← hclient₂, ← hs₃]
    exact Session.next_progs_of_ne (Role.peer_ne .Acceptor)
  have hown₃ : s₃.link.mgr .Initiator = m := by
    rw [← hown₂, ← hs₃]
    exact Session.next_mgr_of_ne (Role.peer_ne .Acceptor)
  have hflight₃ : s₃.link.flight .Initiator = s.link.flight .Initiator := by
    rw [← hs₃]
    refine Session.next_flight_peer.trans ?_
    rw [htaken₂, hmgr₂]
    rfl
  refine ⟨s₃, .tail (.tail (.single hreclaim) hcall₂) (.step hstop), ?_, ?_, .inr ⟨?_, ?_, ?_⟩⟩
  · have hserver₃ : serverOf s₃ = (serverOf s₂).received (.error (.InvalidFrame "unexpected Hello frame")) :=
      hs₃ ▸ Session.next_progs
    rw [hserver₃]
    rfl
  · rw [hclient₃, List.length_singleton]
  · rw [hclient₃]
  · rw [hown₃, hstate]
  · rw [hown₃, hflight₃, hread, List.nil_append]
    exact h.leftover

/-! ## All sequences of calls -/

theorem replied_results (c : Client) (reply : Reply) : (c.replied reply).results = c.results := by
  rcases reply with e | answer
  · rfl
  · unfold Client.replied
    cases c.phase <;> rfl

theorem received_results (c : Client) (r : Except TransportError Frame) :
    c.results.length ≤ ((Client.sendMessage b).received c r).results.length := by
  rcases r with e | frame
  · exact le_rfl
  · rcases hp : c.phase with _ | _ | x | _ | _ | _ <;>
      simp only [Client.sendMessage, Client.program, Client.received, hp]
    case awaiting =>
      split_ifs
      · exact le_rfl
      · exact le_rfl
    case exchanging =>
      cases x with
      | waiting id =>
        dsimp only
        rcases Exchange.received Client.sendMessageRefusals id frame with e | _ | payload
        · exact le_rfl
        · exact le_rfl
        · simp [Client.sendMessageDelivered]
      | _ => exact le_rfl
    all_goals exact le_rfl

theorem Reuses.results_le (h : Reuses b a s s') : (clientOf s).results.length ≤ (clientOf s').results.length := by
  cases h with
  | again =>
    rw [show clientOf (reclaim s) = (clientOf s).callAgain from Session.next_progs]
    rfl
  | step hstep =>
    have hother : ∀ {m n p}, (clientOf s).results.length ≤ (clientOf (s.next .Acceptor m n p)).results.length := by
      intro m n p
      rw [show clientOf (s.next .Acceptor m n p) = clientOf s from Session.next_progs_of_ne (Role.peer_ne .Acceptor)]
    have hown : ∀ {m n} {p : Client}, (clientOf s).results.length ≤ p.results.length →
        (clientOf s).results.length ≤ (clientOf (s.next .Initiator m n p)).results.length := by
      intro m n p hle
      rwa [show clientOf (s.next .Initiator m n p) = p from Session.next_progs]
    have hheard : ∀ r, (clientOf s).results.length ≤
        (Program.heard (Client.sendMessage b) (clientOf s) r).results.length := by
      rintro (_ | r)
      · exact le_rfl
      · exact received_results _ r
    cases hstep with
    | call x =>
      cases x with
      | Acceptor => exact hother
      | Initiator => exact hown (congrArg List.length (replied_results _ _)).ge
    | @recv x _ _ r | @hangup x _ r =>
      cases x with
      | Acceptor => exact hother
      | Initiator => exact hown (hheard r)

theorem reclaim_opened : reclaim (opened (Client.buildStream (request :: rest)) store) =
    opened (Client.connect (request :: rest)) store := by
  have hlink : Link.init.set .Initiator (StreamManager.fresh .Initiator) 0 = Link.init := by
    simp [Link.set, Link.init]
  have hprogs : Function.update (opened (Client.buildStream (request :: rest)) store).progs .Initiator
      (Client.buildStream (request :: rest)).callAgain = (opened (Client.connect (request :: rest)) store).progs := by
    funext x
    cases x <;> rfl
  calc reclaim (opened (Client.buildStream (request :: rest)) store)
      = ⟨Link.init.set .Initiator (StreamManager.fresh .Initiator) 0, Function.update
          (opened (Client.buildStream (request :: rest)) store).progs .Initiator
          (Client.buildStream (request :: rest)).callAgain⟩ := rfl
    _ = opened (Client.connect (request :: rest)) store := by rw [hlink, hprogs]; rfl

theorem opened_begins (h : Reuses b a (opened (Client.buildStream requests) store) s) :
    s = reclaim (opened (Client.buildStream requests) store) := by
  cases h with
  | again => rfl
  | step hstep =>
    exfalso
    cases hstep with
    | call x hd => cases x <;> cases hd
    | @recv x chunks rest r m hd hne hflight hrecv hsome =>
      cases x with
      | Initiator => cases hd
      | Acceptor =>
        have hnil : chunks = [] := by
          rcases chunks with _ | ⟨chunk, chunks⟩
          · rfl
          · have hchunk := hne chunk List.mem_cons_self
            have hbytes : ([] : List UInt8) = (chunk ++ chunks.flatten) ++ rest := hflight
            simp [hchunk] at hbytes
        subst hnil
        have hwaits : (StreamManager.fresh .Acceptor).recvFrame [] = (none, _, []) :=
          StreamManager.recvFrame_none (recvFrame_nil rfl)
        exact hsome (Prod.mk.inj (hrecv.symm.trans hwaits)).1 rfl
    | hangup x hd hgone =>
      cases x with
      | Initiator => cases hd
      | Acceptor => cases hgone

theorem first_inevitable (hround : b.RoundTrip) (hreq : Fits (b.request.byteSerialize request))
    (hresp : Fits (b.response.byteSerialize response))
    (hhandle : a.handleRequest request store = (.ok response, store')) :
    Inevitably (Reuses b a) (fun s => (clientOf s).results = [.ok response])
      (opened (Client.connect (request :: rest)) store) := by
  obtain ⟨f, k, c, hf, hstart, hdone⟩ := first_call_returns rest hround hreq hresp hhandle
  have hfirst : Inevitably (fun s s' => ∃ l, Session.Step (programs (Client.sendMessage b) b a) s l s')
      (fun s => (clientOf s).results = [.ok response]) (opened (Client.connect (request :: rest)) store) :=
    hstart.inevitable programs_polite hf (fun k s c x h hgone => absurd hgone (InFirst.open h x)) fun s h => by
      rw [(hdone s h).client]
  refine hfirst.agree (fun s => ∃ k c, InFirst b a response f k s c) ⟨k, c, hstart⟩ ?_ ?_
  · rintro s s' ⟨k, c, h⟩ ⟨l, hstep⟩
    rcases Session.Within.step programs_polite hf h hstep with ⟨k', c', -, -, h'⟩ | ⟨-, h', -⟩ | ⟨hgone, -⟩
    · exact ⟨k', c', h'⟩
    · exact ⟨k, c, h'⟩
    · exact absurd hgone (InFirst.open h _)
  · rintro s s' ⟨k, c, h⟩ hnot
    refine ⟨fun hstep => ?_, fun ⟨l, hstep⟩ => .step hstep⟩
    cases hstep with
    | step hstep => exact ⟨_, hstep⟩
    | again hphase => exact absurd (FirstCall.reclaimed (h.holds .Initiator) hphase) hnot

theorem second_fails {next : RequestEnvelope} (hround : b.RoundTrip) (hreq : Fits (b.request.byteSerialize request))
    (hresp : Fits (b.response.byteSerialize response))
    (hhandle : a.handleRequest request store = (.ok response, store')) :
    ¬ Inevitably (Reuses b a) (fun s => 1 < (clientOf s).results.length)
      (opened (Client.buildStream (request :: next :: rest)) store) := by
  intro hgoal
  obtain ⟨f, k, c, hf, hstart, hdone⟩ := first_call_returns (next :: rest) hround hreq hresp hhandle
  have hfirst : Inevitably (fun s s' => ∃ l, Session.Step (programs (Client.sendMessage b) b a) s l s')
      (AfterFirst (next :: rest) response) (opened (Client.connect (request :: next :: rest)) store) :=
    hstart.inevitable programs_polite hf (fun k s c x h hgone => absurd hgone (InFirst.open h x)) hdone
  obtain ⟨s₁, hreach, hafter⟩ := hfirst.reachable
  obtain ⟨s₂, hagain, hstranded⟩ := second_call (b := b) (a := a) hafter
  have hbegin : Reuses b a (opened (Client.buildStream (request :: next :: rest)) store)
      (opened (Client.connect (request :: next :: rest)) store) := by
    rw [← reclaim_opened]
    exact .again rfl
  have hsteps : Relation.ReflTransGen (Reuses b a) (opened (Client.connect (request :: next :: rest)) store) s₁ :=
    Relation.ReflTransGen.mono (fun _ _ ⟨_, hstep⟩ => .step hstep) _ _ hreach
  have hlater := hgoal.later (fun s s' hs hstep => hs.trans_le hstep.results_le) ((hsteps.head hbegin).trans hagain)
  refine not_inevitably (Stranded b) hstranded (fun _ _ h hstep => h.step hstep) (fun s h hs => ?_) hlater
  exact absurd h.results (not_le.mpr hs)

/-- Successive `send_message` calls on one connection all return their responses, in every order of the
steps, if and only if there is at most one. -/
theorem send_message_reuse (hround : b.RoundTrip) (hserved : a.Served store requests responses last)
    (hrequests : ∀ request ∈ requests, Fits (b.request.byteSerialize request))
    (hresponses : ∀ response ∈ responses, Fits (b.response.byteSerialize response)) :
    Inevitably (Reuses b a) (fun s => (clientOf s).results = responses.map .ok)
      (opened (Client.buildStream requests) store) ↔ requests.length ≤ 1 := by
  cases hserved with
  | nil => exact ⟨fun _ => Nat.zero_le _, fun _ => .now rfl⟩
  | @cons _ _ _ request response requests responses hhandle hserved =>
    have hreq := hrequests request List.mem_cons_self
    have hresp := hresponses response List.mem_cons_self
    cases hserved with
    | nil =>
      refine ⟨fun _ => le_rfl, fun _ => .next ⟨_, .again rfl⟩ fun s hstep => ?_⟩
      rw [opened_begins hstep, reclaim_opened]
      exact first_inevitable hround hreq hresp hhandle
    | cons =>
      refine ⟨fun hgoal => absurd (hgoal.mono fun s hs => ?_) (second_fails hround hreq hresp hhandle), fun hle => ?_⟩
      · simp [hs]
      · simp at hle

theorem send_message_reuse_ping :
    Inevitably (Reuses prefixed echo) (fun s => (clientOf s).results = (List.replicate 1 pong).map .ok)
      (opened (Client.buildStream (List.replicate 1 ping)) ()) ↔ (List.replicate 1 ping).length ≤ 1 :=
  send_message_reuse prefixed_roundTrip (echo_served 1) (fun _ h => List.eq_of_mem_replicate h ▸ ping_fits)
    fun _ h => List.eq_of_mem_replicate h ▸ pong_fits

theorem send_message_twice :
    prefixed.RoundTrip ∧ echo.Served () [ping, ping] [pong, pong] () ∧ Fits (prefixed.request.byteSerialize ping) ∧
    Fits (prefixed.response.byteSerialize pong) ∧
    ¬ Inevitably (Reuses prefixed echo) (fun s => (clientOf s).results = [.ok pong, .ok pong])
      (opened (Client.buildStream [ping, ping]) ()) := by
  refine ⟨prefixed_roundTrip, echo_served 2, ping_fits, pong_fits, fun hgoal => ?_⟩
  have hserved := echo_served 2
  cases hserved with
  | cons hhandle _ =>
    refine second_fails prefixed_roundTrip ping_fits pong_fits hhandle (hgoal.mono fun s hs => ?_)
    rw [hs]
    decide

end TrenchDb.Rpc
