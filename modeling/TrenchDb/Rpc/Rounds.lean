import TrenchDb.Rpc.Round

/-!
# Client and server together

One order of the moves of a client and the server: the handshake, and then request after request.
By `Session.Within` every other order comes to the same.
-/

open TrenchDb.Lib.Channels TrenchDb.Transport

namespace TrenchDb.Rpc

/-- The client is the initiator. -/
def Parties (σ : Type) : Role → Type
  | .Initiator => Client
  | .Acceptor => Server σ

section Configurations

variable {σ : Type}

def programs (client : Program Client) (b : Envelopes) (a : Actions σ) : ∀ x, Program (Parties σ x)
  | .Initiator => client
  | .Acceptor => Server.run b a

def pair (c : Node (Endpoint × Client) Frame) (v : Node (Endpoint × Server σ) Frame) : Session.Config (Parties σ)
  | .Initiator => c
  | .Acceptor => v

/-- A property of the client's node, and one of the server's. -/
def both (QC : Node (Endpoint × Client) Frame → Prop) (QS : Node (Endpoint × Server σ) Frame → Prop) :
    ∀ x, Node (Endpoint × Parties σ x) Frame → Prop
  | .Initiator => QC
  | .Acceptor => QS

variable {client : Program Client} {b : Envelopes} {a : Actions σ} {QC : Node (Endpoint × Client) Frame → Prop}
  {QS : Node (Endpoint × Server σ) Frame → Prop} {c c' c'' : Node (Endpoint × Client) Frame}
  {v v' v'' : Node (Endpoint × Server σ) Frame}

@[simp] theorem update_client : Function.update (pair c v) .Initiator c' = pair c' v := by
  funext x
  cases x <;> rfl

@[simp] theorem update_server : Function.update (pair c v) .Acceptor v' = pair c v' := by
  funext x
  cases x <;> rfl

/-- The network can go from one pair of nodes to another, and both have their property on the way. -/
def Passes (client : Program Client) (b : Envelopes) (a : Actions σ) (QC : Node (Endpoint × Client) Frame → Prop)
    (QS : Node (Endpoint × Server σ) Frame → Prop) (c : Node (Endpoint × Client) Frame)
    (v : Node (Endpoint × Server σ) Frame) (c' : Node (Endpoint × Client) Frame)
    (v' : Node (Endpoint × Server σ) Frame) : Prop :=
  ∃ k, (Session.network (programs client b a)).Path (both QC QS) k (pair c v) (pair c' v')

theorem Passes.trans (h : Passes client b a QC QS c v c' v') (h' : Passes client b a QC QS c' v' c'' v'') :
    Passes client b a QC QS c v c'' v'' := by
  obtain ⟨k, hk⟩ := h
  obtain ⟨k', hk'⟩ := h'
  exact ⟨_, hk.trans hk'⟩

theorem Passes.start (h : Passes client b a QC QS c v c' v') : QC c ∧ QS v := by
  obtain ⟨k, hk⟩ := h
  exact ⟨hk.start .Initiator, hk.start .Acceptor⟩

theorem Passes.mono {QC' : Node (Endpoint × Client) Frame → Prop} {QS' : Node (Endpoint × Server σ) Frame → Prop}
    (h : Passes client b a QC QS c v c' v') (hC : ∀ n, QC n → QC' n) (hS : ∀ n, QS n → QS' n) :
    Passes client b a QC' QS' c v c' v' := by
  obtain ⟨k, hk⟩ := h
  exact ⟨k, hk.mono fun x => by cases x; exacts [hC, hS]⟩

theorem Passes.sent_within (h : Passes client b a QC QS c v c' v') :
    Passes client b a (fun n => QC n ∧ n.sent <+: c'.sent) QS c v c' v' := by
  obtain ⟨k, hk⟩ := h
  exact ⟨k, hk.sent_within.mono fun x => by cases x; exacts [fun _ hn => hn, fun _ hn => hn.1]⟩

theorem passes_client (h : Node.Path (Session.move client) v.sent QC c c') (hv : QS v) :
    Passes client b a QC QS c v c' v := by
  have hpath := Network.path_of_node (N := Session.network (programs client b a)) (P := both QC QS) (i := .Initiator)
    (c := pair c v) h (Role.peer_ne .Initiator) (fun j hj => by cases j <;> first | exact absurd rfl hj | exact hv) rfl
  rwa [update_client] at hpath

theorem passes_server (h : Node.Path (Session.move (Server.run b a)) c.sent QS v v') (hc : QC c) :
    Passes client b a QC QS c v c v' := by
  have hpath := Network.path_of_node (N := Session.network (programs client b a)) (P := both QC QS) (i := .Acceptor)
    (c := pair c v) h (Role.peer_ne .Acceptor) (fun j hj => by cases j <;> first | exact absurd rfl hj | exact hc) rfl
  rwa [update_server] at hpath

end Configurations

/-! ## One exchange -/

section Exchange

variable {σ : Type} {b : Envelopes} {a : Actions σ} {r : Refusals} {delivered : Client → List UInt8 → Client}
  {QC : Node (Endpoint × Client) Frame → Prop} {QS : Node (Endpoint × Server σ) Frame → Prop} {c : Client}
  {store store' : σ} {handled : List (RequestEnvelope × ResponseEnvelope)} {request : RequestEnvelope}
  {response : ResponseEnvelope} {id : UInt32} {streams : Streams} {frames sentC sentS : List Frame} {takenC : Nat}

/-- Where an exchange begins: the server has taken all that the client sent, and the client all but
what is left of the exchange before. -/
structure Between (id : UInt32) (streams : Streams) (frames sentS : List Frame) (takenC : Nat) : Prop where
  odd : id % 2 = 1
  left : Left id streams frames
  inbox : sentS.drop takenC = frames
  taken : takenC + frames.length = sentS.length

theorem Between.more (h : Between id streams frames sentS takenC) (outs : List Frame) :
    (sentS ++ outs).drop takenC = frames ++ outs := by
  have := h.taken
  rw [List.drop_append_of_le_length (by omega), h.inbox]

theorem Between.next (h : Between id streams frames sentS takenC) (hid : id.toNat + 2 < 2 ^ 32) {stream : Stream}
    (hstate : stream.state = .HalfClosedLocal) (f g : Frame) :
    Between (id + 2) ((∅ : Streams).insert id stream) [closeFrame id] (sentS ++ [f, g, closeFrame id])
      (takenC + frames.length + 2) := by
  have hadd := toNat_add_two hid
  have htaken := h.taken
  refine ⟨(add_two_mod_two hid).trans h.odd, .closing ?_ hstate, ?_, ?_⟩
  · intro heq
    rw [← heq] at hadd
    omega
  · rw [h.taken, List.drop_append]
    simp
  · simp only [List.length_append, List.length_cons, List.length_nil]
    omega

theorem exchange_asks (hQC : Throughout QC c)
    (hQS : QS ⟨(serverEnd ∅, ⟨.listening, store, handled⟩), sentS, sentC.length⟩)
    (hc : c.todo.head? = some request) (h : Between id streams frames sentS takenC) (hid : id.toNat + 2 < 2 ^ 32)
    (hfits : Fits (b.request.byteSerialize request)) :
    Passes (Client.program b r delivered) b a QC QS
      ⟨(clientEnd id streams, c.at .opening), sentC, takenC⟩
      ⟨(serverEnd ∅, ⟨.listening, store, handled⟩), sentS, sentC.length⟩
      ⟨(clientEnd (id + 2) (streams.insert id (asked id (b.request.byteSerialize request))), c.at (.waiting id)),
        sentC ++ [openFrame id, dataFrame id (b.request.byteSerialize request), closeFrame id], takenC⟩
      ⟨(serverEnd ∅, ⟨.listening, store, handled⟩), sentS, sentC.length⟩ :=
  passes_client (client_asks hQC hc h.left.card_le hid hfits) hQS

theorem exchange (r : Refusals) (sentC : List Frame) (hround : b.RoundTrip) (hQC : Throughout QC c)
    (hQS : Serves QS store handled sentS.length)
    (hQS' : Serves QS store' (handled ++ [(request, response)]) (sentS.length + 3))
    (hc : c.todo.head? = some request) (h : Between id streams frames sentS takenC) (hid : id.toNat + 2 < 2 ^ 32)
    (hreq : Fits (b.request.byteSerialize request)) (hresp : Fits (b.response.byteSerialize response))
    (hhandle : a.handleRequest request store = (.ok response, store'))
    (hlast : ∀ stream sent, QC ⟨(clientEnd (id + 2) ((∅ : Streams).insert id stream),
      delivered (c.at (.waiting id)) (b.response.byteSerialize response)), sent, takenC + frames.length + 2⟩) :
    ∃ stream f g outs, stream.state = .HalfClosedLocal ∧ Passes (Client.program b r delivered) b a QC QS
      ⟨(clientEnd id streams, c.at .opening), sentC, takenC⟩
      ⟨(serverEnd ∅, ⟨.listening, store, handled⟩), sentS, sentC.length⟩
      ⟨(clientEnd (id + 2) ((∅ : Streams).insert id stream),
        delivered (c.at (.waiting id)) (b.response.byteSerialize response)), sentC ++ outs, takenC + frames.length + 2⟩
      ⟨(serverEnd ∅, ⟨.listening, store', handled ++ [(request, response)]⟩), sentS ++ [f, g, closeFrame id],
        (sentC ++ outs).length⟩ := by
  have hcard : ∀ stream, (clientEnd (id + 2) (streams.insert id stream)).streams.keys.card ≤ 2 := by
    intro stream
    have h1 := card_insert_le streams id stream
    have h2 := h.left.card_le
    simp only [clientEnd]
    omega
  have hdrop : (sentC ++ [openFrame id, dataFrame id (b.request.byteSerialize request), closeFrame id]).drop
      sentC.length = [openFrame id, dataFrame id (b.request.byteSerialize request), closeFrame id] := List.drop_left
  have hserve := server_reads hround hQS h.odd hreq hdrop hhandle (server_answers
    (v := ⟨.listening, store', handled ++ [(request, response)]⟩) (by simpa using hQS') hresp rfl rfl
    (drop_succ (drop_succ hdrop)))
  simp only [List.append_assoc, List.cons_append, List.nil_append] at hserve
  rw [show sentC.length + 2 + 1 = (sentC ++ [openFrame id, dataFrame id (b.request.byteSerialize request),
    closeFrame id]).length by simp] at hserve
  have hinbox := h.more [windowFrame id (b.request.byteSerialize request).length,
    dataFrame id (b.response.byteSerialize response), closeFrame id]
  have hgets : (sentS ++ [windowFrame id (b.request.byteSerialize request).length,
      dataFrame id (b.response.byteSerialize response), closeFrame id]).drop (takenC + frames.length) =
      [windowFrame id (b.request.byteSerialize request).length,
        dataFrame id (b.response.byteSerialize response), closeFrame id] := by
    rw [← List.drop_drop, hinbox, List.drop_left]
  refine ⟨_, _, _, _, answered_state (asked id (b.request.byteSerialize request))
      (b.request.byteSerialize request).length (b.response.byteSerialize response),
    (exchange_asks hQC (hQS _ .listening _ _ (by simp) le_rfl) hc h hid hreq).trans
      ((passes_server hserve (hQC _ _ _ _ (hcard _))).trans
        (passes_client (client_tidies hQC h.left hinbox (client_gets hQC rfl hgets (hlast _ _))) ?_))⟩
  exact hQS' _ .listening _ _ (by simp) (by simp)

end Exchange

/-! ## The handshake -/

section Greeting

variable {σ : Type} {b : Envelopes} {a : Actions σ} {r : Refusals} {delivered : Client → List UInt8 → Client}
  {QC : Node (Endpoint × Client) Frame → Prop} {QS : Node (Endpoint × Server σ) Frame → Prop}

/-- The nodes before anything was sent. -/
def clientStart (c : Client) : Node (Endpoint × Client) Frame := ⟨(Endpoint.new .Initiator, c), [], 0⟩
def serverStart (store : σ) : Node (Endpoint × Server σ) Frame := ⟨(Endpoint.new .Acceptor, Server.start store), [], 0⟩

theorem greets {c : Client} {store : σ} (hphase : c.phase = .greeting)
    (hQC : ∀ e phase sent taken, e.streams = ∅ → phase = .greeting ∨ phase = .awaiting →
      QC ⟨(e, { c with phase }), sent, taken⟩)
    (hQS : Serves QS store [] 1) (hlast : QC ⟨(clientEnd 1 ∅, c.proceed), [helloFrame], 1⟩) :
    Passes (Client.program b r delivered) b a QC QS (clientStart c) (serverStart store)
      ⟨(clientEnd 1 ∅, c.proceed), [helloFrame], 1⟩
      ⟨(serverEnd ∅, Server.start store), [welcomeFrame], [helloFrame].length⟩ := by
  obtain ⟨todo, results, phase⟩ := c
  obtain rfl : phase = .greeting := hphase
  have hserver : ∀ e sent taken, sent.length ≤ 1 → QS ⟨(e, Server.start store), sent, taken⟩ :=
    fun e sent taken hlen => hQS e .listening sent taken (by simp) hlen
  have hhello : Node.Path (Session.move (Client.program b r delivered)) [] QC (clientStart ⟨todo, results, .greeting⟩)
      ⟨(⟨.Initiator, .AwaitingWelcome, 1, ∅⟩, ⟨todo, results, .awaiting⟩), [helloFrame], 0⟩ :=
    .head (hQC _ .greeting _ _ rfl (.inl rfl)) (Session.step_call (P := Client.program b r delivered) rfl rfl)
      (.refl (hQC _ .awaiting _ _ rfl (.inr rfl)))
  have hwelcome : Node.Path (Session.move (Server.run b a)) [helloFrame] QS (serverStart store)
      ⟨(serverEnd ∅, Server.start store), [welcomeFrame], 1⟩ :=
    .head (hserver _ _ _ (by simp)) (Session.step_recv (P := Server.run b a) rfl rfl rfl)
      (.refl (hserver _ _ _ (by simp)))
  have hready : Node.Path (Session.move (Client.program b r delivered)) [welcomeFrame] QC
      ⟨(⟨.Initiator, .AwaitingWelcome, 1, ∅⟩, ⟨todo, results, .awaiting⟩), [helloFrame], 0⟩
      ⟨(clientEnd 1 ∅, Client.proceed ⟨todo, results, .greeting⟩), [helloFrame], 1⟩ :=
    .head (hQC _ .awaiting _ _ rfl (.inr rfl)) (Session.step_recv (P := Client.program b r delivered) rfl rfl rfl)
      (.refl hlast)
  exact (passes_client hhello (hserver _ _ _ (by simp))).trans
    ((passes_server hwelcome (hQC _ .awaiting _ _ rfl (.inr rfl))).trans
      (passes_client hready (hserver _ _ _ (by simp))))

end Greeting

/-! ## Request after request -/

section Requests

variable {σ : Type} {b : Envelopes} {a : Actions σ}

/-- What holds of the client at all times, if these are the responses. -/
structure GoodClient (expected : List ResponseEnvelope) (n : Node (Endpoint × Client) Frame) : Prop where
  card_le : n.state.1.streams.keys.card ≤ 2
  results : n.state.2.results <+: expected.map .ok
  unfailed : ∀ e, n.state.2.phase ≠ .failed e
  finished : n.state.2.phase = .finished →
    n.state.2.results = expected.map .ok ∧ 3 * expected.length ≤ n.taken

/-- What holds of the server at all times. -/
structure GoodServer (requests : List RequestEnvelope) (expected : List ResponseEnvelope) (last : σ)
    (n : Node (Endpoint × Server σ) Frame) : Prop where
  running : ∀ r, n.state.2.phase ≠ .stopped r
  sent_le : n.sent.length ≤ 1 + 3 * n.state.2.handled.length
  handled : n.state.2.handled <+: requests.zip expected
  store : n.state.2.handled = requests.zip expected → n.state.2.store = last

theorem Left.length_le {id : UInt32} {streams : Streams} {frames : List Frame} (h : Left id streams frames) :
    frames.length ≤ 1 := by
  cases h <;> simp

/-- A client that is about to send the next request, or has finished. -/
def Client.ready (todo : List RequestEnvelope) (got : List ResponseEnvelope) : Client :=
  Client.proceed ⟨todo, got.map .ok, .greeting⟩

theorem delivered_ready (hround : b.RoundTrip) {response : ResponseEnvelope}
    (hfits : Fits (b.response.byteSerialize response)) (request : RequestEnvelope) (todo : List RequestEnvelope)
    (got : List ResponseEnvelope) (id : UInt32) :
    Client.sendRequestDelivered b ((Client.ready (request :: todo) got).at (.waiting id))
        (b.response.byteSerialize response) = Client.ready todo (got ++ [response]) := by
  rw [Client.sendRequestDelivered, hround.response response hfits.lt, Client.ready, Client.ready, List.map_append]
  rfl

variable {store last : σ} {todo done requests : List RequestEnvelope} {coming got expected : List ResponseEnvelope}

theorem Throughout.good {c : Client} (hexpected : c.results <+: expected.map .ok) :
    Throughout (GoodClient expected) c :=
  fun _ _ _ _ hcard => ⟨hcard, hexpected, nofun, nofun⟩

theorem map_ok_append (hexpected : expected = got ++ coming) :
    got.map (Except.ok (ε := ClientError)) <+: expected.map .ok := by
  rw [hexpected, List.map_append]
  exact List.prefix_append _ _

theorem goodClient_ready {e : Endpoint} {sent : List Frame} {taken : Nat} {rest : List RequestEnvelope}
    (hserved : a.Served store todo coming last) (hexpected : expected = got ++ coming)
    (hcard : e.streams.keys.card ≤ 2) (htaken : 3 * got.length ≤ taken) :
    GoodClient expected ⟨(e, Client.ready (todo ++ rest) got), sent, taken⟩ := by
  have hprefix := map_ok_append hexpected
  cases hserved with
  | nil =>
    rw [List.append_nil] at hexpected
    subst hexpected
    cases rest with
    | nil => exact ⟨hcard, hprefix, nofun, fun _ => ⟨rfl, htaken⟩⟩
    | cons => exact ⟨hcard, hprefix, nofun, nofun⟩
  | cons => exact ⟨hcard, hprefix, nofun, nofun⟩

theorem Serves.good {bound : Nat} (hserved : a.Served store todo coming last) (hrequests : requests = done ++ todo)
    (hexpected : expected = got ++ coming) (hlen : done.length = got.length) (hbound : bound ≤ 1 + 3 * got.length) :
    Serves (GoodServer requests expected last) store (done.zip got) bound := by
  intro e phase sent taken hrunning hsent
  have hzip : requests.zip expected = done.zip got ++ todo.zip coming := by
    rw [hrequests, hexpected, List.zip_append hlen]
  refine ⟨hrunning, ?_, ?_, fun hall => ?_⟩
  · simp only [List.length_zip, hlen, min_self]
    omega
  · rw [hzip]
    exact List.prefix_append _ _
  · replace hall : done.zip got = requests.zip expected := hall
    rw [hzip, List.self_eq_append_right] at hall
    cases hserved with
    | nil => rfl
    | cons => cases hall

theorem requests_pass (rest : List RequestEnvelope) (sentC : List Frame) (hround : b.RoundTrip)
    (hserved : a.Served store todo coming last)
    (htodo : ∀ request ∈ todo, Fits (b.request.byteSerialize request))
    (hcoming : ∀ response ∈ coming, Fits (b.response.byteSerialize response)) (hrequests : requests = done ++ todo)
    (hexpected : expected = got ++ coming) (hlen : done.length = got.length) {id : UInt32} {streams : Streams}
    {frames sentS : List Frame} {takenC : Nat} (h : Between id streams frames sentS takenC)
    (hsent : sentS.length = 1 + 3 * got.length) (hid : id.toNat + 2 * todo.length < 2 ^ 32) :
    ∃ id' streams' frames' sentC' sentS' takenC',
      Between id' streams' frames' sentS' takenC' ∧ id'.toNat = id.toNat + 2 * todo.length ∧
      Passes (Client.sendRequest b) b a (GoodClient expected) (GoodServer requests expected last)
        ⟨(clientEnd id streams, Client.ready (todo ++ rest) got), sentC, takenC⟩
        ⟨(serverEnd ∅, ⟨.listening, store, done.zip got⟩), sentS, sentC.length⟩
        ⟨(clientEnd id' streams', Client.ready rest expected), sentC', takenC'⟩
        ⟨(serverEnd ∅, ⟨.listening, last, requests.zip expected⟩), sentS', sentC'.length⟩ := by
  induction hserved generalizing done got id streams frames sentC sentS takenC with
  | nil store =>
    have hcard := h.left.card_le
    have htaken : 3 * got.length ≤ takenC := by
      have h1 := h.taken
      have h2 := h.left.length_le
      omega
    have hc : GoodClient expected ⟨(clientEnd id streams, Client.ready ([] ++ rest) got), sentC, takenC⟩ :=
      goodClient_ready (.nil (a := a) store) hexpected (by simp only [clientEnd]; omega) htaken
    have hs := Serves.good (.nil (a := a) store) hrequests hexpected hlen le_rfl (serverEnd ∅) .listening sentS
      sentC.length (by simp) hsent.le
    rw [List.append_nil] at hrequests hexpected
    subst hrequests hexpected
    exact ⟨id, streams, frames, sentC, sentS, takenC, h, rfl, 0, .refl fun x => by cases x; exacts [hc, hs]⟩
  | @cons store store' last request response todo coming hhandle hserved ih =>
    have hexpected' : expected = (got ++ [response]) ++ coming := by simpa using hexpected
    have hrequests' : requests = (done ++ [request]) ++ todo := by simpa using hrequests
    have hlen' : (done ++ [request]).length = (got ++ [response]).length := by simp [hlen]
    have hzip : (done ++ [request]).zip (got ++ [response]) = done.zip got ++ [(request, response)] := by
      rw [List.zip_append hlen]
      rfl
    have hresp := hcoming response List.mem_cons_self
    rw [List.length_cons] at hid
    have hid' : id.toNat + 2 < 2 ^ 32 := by omega
    have hbound : sentS.length + 3 ≤ 1 + 3 * (got ++ [response]).length := by
      rw [hsent, List.length_append, List.length_singleton]
      omega
    have hserves := Serves.good hserved hrequests' hexpected' hlen' hbound
    rw [hzip] at hserves
    have hnext : ∀ stream sent, GoodClient expected ⟨(clientEnd (id + 2) ((∅ : Streams).insert id stream),
        Client.sendRequestDelivered b ((Client.ready (request :: (todo ++ rest)) got).at (.waiting id))
          (b.response.byteSerialize response)), sent, takenC + frames.length + 2⟩ := by
      intro stream sent
      rw [delivered_ready hround hresp]
      refine goodClient_ready hserved hexpected' ((card_insert_empty id stream).trans (by decide)) ?_
      have := h.taken
      rw [List.length_append, List.length_singleton]
      omega
    obtain ⟨stream, f, g, outs, hstate, hpass⟩ := exchange Client.sendRequestRefusals sentC hround
      (Throughout.good (map_ok_append hexpected))
      (Serves.good (.cons hhandle hserved) hrequests hexpected hlen hsent.le)
      hserves rfl h hid' (htodo request List.mem_cons_self) hresp hhandle hnext
    obtain ⟨id', streams', frames', sentC', sentS', takenC', h', hadd, hrest⟩ := ih (sentC ++ outs)
      (fun q hq => htodo q (List.mem_cons_of_mem _ hq)) (fun q hq => hcoming q (List.mem_cons_of_mem _ hq))
      hrequests' hexpected' hlen' (h.next hid' hstate f g) (by simp [hsent]; omega)
      (by rw [toNat_add_two hid']; omega)
    rw [delivered_ready hround hresp] at hpass
    rw [hzip] at hrest
    rw [toNat_add_two hid'] at hadd
    exact ⟨id', streams', frames', sentC', sentS', takenC', h', by rw [hadd, List.length_cons]; omega,
      hpass.trans hrest⟩

end Requests

end TrenchDb.Rpc
