import TrenchDb.Rpc.Matching

/-!
# Requests of which one may be refused

A handler that fails makes `run` return. The client is told only that the connection is gone.
-/

open TrenchDb.Lib.Channels TrenchDb.Lib.Lts TrenchDb.Transport

namespace TrenchDb.Rpc

/-! ## What the handlers do -/

/-- The responses to requests that come one after another, up to the first that is refused. -/
structure Conversation (σ : Type) where
  responses : List ResponseEnvelope
  refusal : Option TransportError
  store : σ

namespace Conversation

variable {σ : Type}

def reply (response : ResponseEnvelope) (o : Conversation σ) : Conversation σ :=
  { o with responses := response :: o.responses }

def refuse (e : TransportError) (store : σ) : Conversation σ := { responses := [], refusal := some e, store }

end Conversation

namespace Actions

variable {σ : Type} (a : Actions σ)

def converse : List RequestEnvelope → σ → Conversation σ
  | [], store => { responses := [], refusal := none, store }
  | request :: requests, store =>
    match a.handleRequest request store with
    | (.error e, store) => .refuse e store
    | (.ok response, store) => (converse requests store).reply response

variable {a} {store store' : σ} {request : RequestEnvelope} {response : ResponseEnvelope} {e : TransportError}

theorem converse_ok (requests : List RequestEnvelope) (h : a.handleRequest request store = (.ok response, store')) :
    a.converse (request :: requests) store = (a.converse requests store').reply response := by rw [converse, h]

theorem converse_error (requests : List RequestEnvelope) (h : a.handleRequest request store = (.error e, store')) :
    a.converse (request :: requests) store = .refuse e store' := by rw [converse, h]

theorem converse_cases (a : Actions σ) (requests : List RequestEnvelope) (store : σ) :
    (∃ responses last, a.Served store requests responses last ∧
      a.converse requests store = { responses, refusal := none, store := last }) ∨
    ∃ done request rest got mid e last, requests = done ++ request :: rest ∧ a.Served store done got mid ∧
      a.handleRequest request mid = (.error e, last) ∧
      a.converse requests store = { responses := got, refusal := some e, store := last } := by
  induction requests generalizing store with
  | nil => exact .inl ⟨[], store, .nil store, rfl⟩
  | cons request requests ih =>
    rcases hhandle : a.handleRequest request store with ⟨e | response, store'⟩
    · exact .inr ⟨[], request, requests, [], store, e, store', rfl, .nil store, hhandle,
        converse_error requests hhandle⟩
    · rcases ih store' with ⟨responses, last, hserved, heq⟩ |
        ⟨done, request', rest, got, mid, e, last, rfl, hserved, hrefused, heq⟩
      · refine .inl ⟨response :: responses, last, .cons hhandle hserved, ?_⟩
        rw [converse_ok requests hhandle, heq]
        rfl
      · refine .inr ⟨request :: done, request', rest, response :: got, mid, e, last, rfl, .cons hhandle hserved,
          hrefused, ?_⟩
        rw [converse_ok _ hhandle, heq]
        rfl

end Actions

/-! ## The refused request -/

section Refused

variable {σ : Type} {b : Envelopes} {a : Actions σ} {r : Refusals} {delivered : Client → List UInt8 → Client}
  {QC : Node (Endpoint × Client) Frame → Prop} {QS : Node (Endpoint × Server σ) Frame → Prop} {c : Client}
  {store store' : σ} {handled : List (RequestEnvelope × ResponseEnvelope)} {request : RequestEnvelope}
  {e : TransportError} {id : UInt32} {streams : Streams} {frames sentC sentS : List Frame} {takenC : Nat}

/-- The server stops at a request that it refuses, and the client waits for the response. -/
structure Hanging (e : TransportError) (store : σ) (handled : List (RequestEnvelope × ResponseEnvelope)) (n : Nat)
    (f : Session.Config (Parties σ)) : Prop where
  server : (f .Acceptor).state.2 = { phase := .stopped (.error e), store, handled }
  taken : n < (f .Acceptor).taken
  client : ∃ s, (Client.phase (f .Initiator).state.2) = .exchanging (.waiting s)

theorem exchange_refused (hround : b.RoundTrip) (hQC : Stays QC c) (hQS : ∀ e phase sent taken,
      QS ⟨(e, ⟨phase, store, handled⟩), sent, taken⟩ ∧ QS ⟨(e, ⟨phase, store', handled⟩), sent, taken⟩)
    (hc : c.todo.head? = some request) (h : Between id streams frames sentS takenC) (hid : id.toNat + 2 < 2 ^ 32)
    (hreq : Fits (b.request.byteSerialize request)) (hhandle : a.handleRequest request store = (.error e, store')) :
    ∃ c' v', Passes (Client.program b r delivered) b a QC QS
        ⟨(clientEnd id streams, c.at .opening), sentC, takenC⟩
        ⟨(serverEnd ∅, ⟨.listening, store, handled⟩), sentS, sentC.length⟩ c' v' ∧
      Session.Ends (programs (Client.program b r delivered) b a) (pair c' v') ∧
      Hanging e store' handled sentC.length (pair c' v') := by
  have hdrop : (sentC ++ [openFrame id, dataFrame id (b.request.byteSerialize request), closeFrame id]).drop
      sentC.length = [openFrame id, dataFrame id (b.request.byteSerialize request), closeFrame id] := List.drop_left
  have hserves := server_refuses hround (fun e phase sent taken _ _ => (hQS e phase sent taken).1) h.odd hreq hdrop
    hhandle (hQS _ _ (sentS ++ [windowFrame id (b.request.byteSerialize request).length]) _).2
  have hgets : (sentS ++ [windowFrame id (b.request.byteSerialize request).length]).drop sentS.length =
      [windowFrame id (b.request.byteSerialize request).length] := List.drop_left
  refine ⟨_, _, (exchange_asks hQC.throughout (hQS _ _ _ _).1 hc h hid hreq).trans
    ((passes_server hserves (hQC _ _ _ _)).trans (passes_client (client_waits hQC h (h.more _)
      (client_regains hQC.throughout hgets (.refl (hQC _ _ _ _)))) (hQS _ _ _ _).2)),
    ends_pair (.inr (.inr ⟨rfl, by simp⟩)) (.inl rfl), rfl, ?_, id, rfl⟩
  show sentC.length < sentC.length + 2
  omega

end Refused

/-! ## The whole connection -/

section Connection

variable {σ : Type} {b : Envelopes} {a : Actions σ} {store mid last : σ} {request : RequestEnvelope}
  {done requests rest : List RequestEnvelope} {got : List ResponseEnvelope} {e : TransportError} {o : Conversation σ}
  {n k : Nat} {f c : Session.Config (Parties σ)} {s s' : Session (Parties σ)} {l : Role × Event}

/-- How the connection ends. The error of a refused request does not reach the client. -/
def Parting (refusal : Option TransportError) (s : Session (Parties σ)) : Prop :=
  match refusal with
  | none => (clientOf s).phase = .finished
  | some e => (serverOf s).phase = .stopped (.error e) ∧
      ∃ lost, Session.Lost lost ∧ (clientOf s).phase = .failed (.transport lost)

/-- The client has the responses of the conversation, and the store is as the handlers have left it. -/
structure Concluded (o : Conversation σ) (requests : List RequestEnvelope) (s : Session (Parties σ)) : Prop where
  results : (clientOf s).results = o.responses.map .ok
  handled : (serverOf s).handled = requests.zip o.responses
  store : (serverOf s).store = o.store
  parting : Parting o.refusal s

/-- What holds at all times: nothing but the responses of the conversation is returned, and no other request is
served; when the client ends, the conversation is concluded. -/
structure Underway (b : Envelopes) (o : Conversation σ) (requests : List RequestEnvelope)
    (s : Session (Parties σ)) : Prop where
  results : (clientOf s).results <+: o.responses.map .ok
  handled : (serverOf s).handled <+: requests.zip o.responses
  ended : (clientOf s).demand b = .gone → Concluded o requests s

theorem Concluded.underway (h : Concluded o requests s) : Underway b o requests s :=
  ⟨h.results ▸ List.prefix_rfl, h.handled ▸ List.prefix_rfl, fun _ => h⟩

/-- The client has the results before it sends more than `n` frames. -/
def ClientBefore (got : List ResponseEnvelope) (n : Nat) (node : Node (Endpoint × Client) Frame) : Prop :=
  node.state.2.results <+: got.map .ok ∧ (node.sent.length ≤ n ∨ node.state.2.results = got.map .ok)

def ServerBefore (done : List RequestEnvelope) (got : List ResponseEnvelope)
    (node : Node (Endpoint × Server σ) Frame) : Prop := node.state.2.handled <+: done.zip got

/-- A session on the way to a refused request. -/
structure OnRefusal (b : Envelopes) (a : Actions σ) (done : List RequestEnvelope) (got : List ResponseEnvelope)
    (e : TransportError) (last : σ) (n : Nat) (f : Session.Config (Parties σ)) (k : Nat) (s : Session (Parties σ))
    (c : Session.Config (Parties σ)) : Prop where
  within : Session.Within (programs (Client.sendRequest b) b a) quiet
    (both (ClientBefore got n) (ServerBefore done got)) f k s c
  hanging : Hanging e last (done.zip got) n f

namespace OnRefusal

theorem client (h : OnRefusal b a done got e last n f k s c) :
    ClientBefore got n ⟨((c .Initiator).state.1, clientOf s), (c .Initiator).sent, (c .Initiator).taken⟩ :=
  h.within.holds .Initiator

theorem server (h : OnRefusal b a done got e last n f k s c) :
    ServerBefore done got ⟨((c .Acceptor).state.1, serverOf s), (c .Acceptor).sent, (c .Acceptor).taken⟩ :=
  h.within.holds .Acceptor

theorem client_runs (h : OnRefusal b a done got e last n f k s c) : (clientOf s).demand b ≠ .gone := by
  intro hgone
  have hend : f .Initiator = c .Initiator := h.within.gone_end (x := .Initiator) hgone
  obtain ⟨id, hwaits⟩ := h.hanging.client
  rw [hend, h.within.tracks.progs_eq] at hwaits
  have hwaits' : (clientOf s).phase = .exchanging (.waiting id) := hwaits
  rw [Client.demand, hwaits'] at hgone
  cases hgone

theorem stopped (h : OnRefusal b a done got e last n f k s c) (hgone : (serverOf s).demand = .gone) :
    serverOf s = { phase := .stopped (.error e), store := last, handled := done.zip got } ∧
      (clientOf s).results = got.map .ok := by
  have hend : f .Acceptor = c .Acceptor := h.within.gone_end (x := .Acceptor) hgone
  have hserver := h.hanging.server
  have htaken := h.hanging.taken
  rw [hend] at hserver htaken
  rw [h.within.tracks.progs_eq] at hserver
  have hle : (c .Acceptor).taken ≤ (c .Initiator).sent.length := h.within.tracks.taken_le .Acceptor
  refine ⟨hserver, h.client.2.resolve_left fun hsent => ?_⟩
  dsimp only at hsent
  omega

theorem zip_refused (hlen : done.length = got.length) : (done ++ request :: rest).zip got = done.zip got := by
  calc _ = (done ++ request :: rest).zip (got ++ []) := by rw [List.append_nil]
    _ = done.zip got ++ (request :: rest).zip [] := List.zip_append hlen
    _ = _ := by rw [List.zip_nil_right, List.append_nil]

theorem underway (h : OnRefusal b a done got e last n f k s c) (hlen : done.length = got.length) :
    Underway b ⟨got, some e, last⟩ (done ++ request :: rest) s :=
  ⟨h.client.1, by rw [zip_refused hlen]; exact h.server, fun hgone => absurd hgone h.client_runs⟩

theorem told (h : OnRefusal b a done got e last n f k s c) (hlen : done.length = got.length) {m : StreamManager}
    {lost : TransportError} (hlost : Session.Lost lost) (hgone : (serverOf s).demand = .gone) :
    Concluded ⟨got, some e, last⟩ (done ++ request :: rest)
      (s.next .Initiator m 0 ((clientOf s).fail (.transport lost))) := by
  obtain ⟨hserver, hresults⟩ := h.stopped hgone
  have hclient' : clientOf (s.next .Initiator m 0 ((clientOf s).fail (.transport lost))) =
      (clientOf s).fail (.transport lost) := Session.next_progs
  have hserver' : serverOf (s.next .Initiator m 0 ((clientOf s).fail (.transport lost))) = serverOf s :=
    Session.next_progs_of_ne (Role.peer_ne .Initiator)
  refine ⟨?_, ?_, ?_, ?_, lost, hlost, ?_⟩
  · rw [hclient']
    exact hresults
  · rw [hserver', hserver, zip_refused hlen]
  · rw [hserver', hserver]
  · rw [hserver', hserver]
  · rw [hclient']
    rfl

theorem step (h : OnRefusal b a done got e last n f k s c) (hlen : done.length = got.length)
    (hf : Session.Ends (programs (Client.sendRequest b) b a) f)
    (hstep : Session.Step (programs (Client.sendRequest b) b a) s l s') :
    (∃ k c, OnRefusal b a done got e last n f k s' c) ∨
      Concluded ⟨got, some e, last⟩ (done ++ request :: rest) s' := by
  rcases h.within.step programs_polite hf hstep with
    ⟨k', c', -, -, h'⟩ | ⟨-, h', -⟩ | ⟨hgone, -, m, lost, hs', -, hlost⟩
  · exact .inl ⟨k', c', h', h.hanging⟩
  · exact .inl ⟨k, c, h', h.hanging⟩
  · obtain ⟨x, ev⟩ := l
    cases x with
    | Initiator => exact .inr (hs' ▸ h.told hlen hlost hgone)
    | Acceptor => exact absurd hgone h.client_runs

end OnRefusal

theorem Concluded.still (h : Concluded ⟨got, some e, last⟩ requests s) :
    ¬ Session.Step (programs (Client.sendRequest b) b a) s l s' := by
  obtain ⟨hserver, lost, -, hclient⟩ := h.parting
  have hgone : ∀ x, (programs (Client.sendRequest b) b a x).demand (s.progs x) = .gone := by
    intro x
    cases x with
    | Initiator =>
      show (clientOf s).demand b = .gone
      rw [Client.demand, hclient]
    | Acceptor =>
      show (serverOf s).demand = .gone
      rw [Server.demand, hserver]
  intro hstep
  cases hstep with
  | call x hd | recv x hd | hangup x hd =>
    rw [hgone x] at hd
    cases hd

theorem opened_onRefusal (rest : List RequestEnvelope) (hround : b.RoundTrip) (hserved : a.Served store done got mid)
    (hdone : ∀ request ∈ done, Fits (b.request.byteSerialize request))
    (hgot : ∀ response ∈ got, Fits (b.response.byteSerialize response))
    (hreq : Fits (b.request.byteSerialize request)) (hhandle : a.handleRequest request mid = (.error e, last))
    (hlen : done.length + 1 < 2 ^ 31) :
    ∃ n f k c, Session.Ends (programs (Client.sendRequest b) b a) f ∧ OnRefusal b a done got e last n f k
      (opened (Client.connect (done ++ request :: rest)) store) c := by
  obtain ⟨id, streams, frames, sentC, sentS, takenC, h, hid, hpass⟩ :=
    first_pass (request :: rest) hround hserved hdone hgot (by omega)
  have hbefore : Passes (Client.sendRequest b) b a (ClientBefore got sentC.length) (ServerBefore done got) _ _ _ _ :=
    hpass.sent_within.mono (fun _ hn => ⟨hn.1.results, .inl hn.2.length_le⟩) fun _ hn => hn.handled
  have hstays : Stays (ClientBefore got sentC.length) (Client.ready (request :: rest) got) :=
    fun _ _ _ _ => ⟨List.prefix_rfl, .inr rfl⟩
  have hkeeps : ∀ (x : Endpoint) (phase : Serving) (store : σ) (sent : List Frame) (taken : Nat),
      ServerBefore done got ⟨(x, ⟨phase, store, done.zip got⟩), sent, taken⟩ := fun _ _ _ _ _ => List.prefix_rfl
  obtain ⟨c', v', hrefused, hends, hhanging⟩ := exchange_refused hround hstays
    (fun x phase sent taken => ⟨hkeeps x phase _ sent taken, hkeeps x phase _ sent taken⟩) rfl h (by omega) hreq hhandle
  obtain ⟨k, hpath⟩ := hbefore.trans hrefused
  exact ⟨_, _, k, _, hends, opened_within hpath, hhanging⟩

theorem refused_concludes (rest : List RequestEnvelope) (hround : b.RoundTrip) (hserved : a.Served store done got mid)
    (hdone : ∀ request ∈ done, Fits (b.request.byteSerialize request))
    (hgot : ∀ response ∈ got, Fits (b.response.byteSerialize response))
    (hreq : Fits (b.request.byteSerialize request)) (hhandle : a.handleRequest request mid = (.error e, last))
    (hlen : done.length + 1 < 2 ^ 31) :
    Inevitably (Goes b a Client.sendRequestRefusals (Client.sendRequestDelivered b))
      (Concluded ⟨got, some e, last⟩ (done ++ request :: rest))
      (opened (Client.connect (done ++ request :: rest)) store) ∧
    ∀ ls s, Run (Session.Step (programs (Client.sendRequest b) b a))
        (opened (Client.connect (done ++ request :: rest)) store) ls s →
      Underway b ⟨got, some e, last⟩ (done ++ request :: rest) s := by
  obtain ⟨n, f, k, c, hf, hstart⟩ := opened_onRefusal rest hround hserved hdone hgot hreq hhandle hlen
  constructor
  · refine hstart.within.inevitable_told programs_polite hf (fun s h => .inr ⟨.Initiator, ?_, ?_⟩)
      fun k s c x m lost h _ hgone hlost => ?_
    · obtain ⟨id, hwaits⟩ := hstart.hanging.client
      rw [h.tracks.progs_eq] at hwaits
      show (clientOf s).demand b = .recvFrame
      rw [Client.demand, show (clientOf s).phase = _ from hwaits]
      rfl
    · have hserver := hstart.hanging.server
      rw [h.tracks.progs_eq] at hserver
      show (serverOf s).demand = .gone
      rw [show serverOf s = _ from hserver]
      rfl
    · have h' : OnRefusal b a done got e last n f k s c := ⟨h, hstart.hanging⟩
      cases x with
      | Initiator => exact h'.told hserved.length_eq hlost hgone
      | Acceptor => exact absurd hgone h'.client_runs
  · intro ls s hrun
    have hinv : (∃ k c, OnRefusal b a done got e last n f k s c) ∨
        Concluded ⟨got, some e, last⟩ (done ++ request :: rest) s := by
      refine hrun.invariant (P := fun _ s => (∃ k c, OnRefusal b a done got e last n f k s c) ∨
        Concluded ⟨got, some e, last⟩ (done ++ request :: rest) s) (.inl ⟨k, c, hstart⟩) ?_
      rintro ls s l s' (⟨k, c, h⟩ | h) hstep
      · exact h.step hserved.length_eq hf hstep
      · exact absurd hstep h.still
    rcases hinv with ⟨k, c, h⟩ | h
    · exact h.underway hserved.length_eq
    · exact h.underway

theorem Matched.concluded {responses : List ResponseEnvelope} (h : Matched requests responses last s) :
    Concluded ⟨responses, none, last⟩ requests s :=
  ⟨h.results, h.handled, h.store, h.finished⟩

theorem served_concludes {responses : List ResponseEnvelope} (hround : b.RoundTrip)
    (hserved : a.Served store requests responses last)
    (hrequests : ∀ request ∈ requests, Fits (b.request.byteSerialize request))
    (hresponses : ∀ response ∈ responses, Fits (b.response.byteSerialize response))
    (hlen : requests.length < 2 ^ 31) :
    Inevitably (Goes b a Client.sendRequestRefusals (Client.sendRequestDelivered b))
      (Concluded ⟨responses, none, last⟩ requests) (opened (Client.connect requests) store) ∧
    ∀ ls s, Run (Session.Step (programs (Client.sendRequest b) b a)) (opened (Client.connect requests) store) ls s →
      Underway b ⟨responses, none, last⟩ requests s := by
  refine ⟨(requests_succeed hround hserved hrequests hresponses hlen).mono fun _ h => h.concluded, fun ls s hrun => ?_⟩
  obtain ⟨f, k, c, hf, -, hstart⟩ := opened_onCourse hround hserved hrequests hresponses hlen
  have hinv : (∃ k c, OnCourse b a requests responses last f k s c) ∨ Parted requests responses last s := by
    refine hrun.invariant (P := fun _ s => (∃ k c, OnCourse b a requests responses last f k s c) ∨
      Parted requests responses last s) (.inl ⟨k, c, hstart⟩) ?_
    rintro ls s l s' (⟨k, c, h⟩ | h) hstep
    · exact (h.step hserved.length_eq hf hstep).imp id And.right
    · exact absurd hstep h.still
  rcases hinv with ⟨k, c, h⟩ | h
  · exact ⟨h.client.results, h.server.handled,
      fun hgone => (h.matched hserved.length_eq (h.finished_of_gone hgone)).concluded⟩
  · exact h.matched.concluded.underway

variable {ls : List (Role × Event)}

theorem conversation_holds (hround : b.RoundTrip)
    (hrequests : ∀ request ∈ requests, Fits (b.request.byteSerialize request))
    (hresponses : ∀ response ∈ (a.converse requests store).responses, Fits (b.response.byteSerialize response))
    (hlen : requests.length < 2 ^ 31) :
    Inevitably (Goes b a Client.sendRequestRefusals (Client.sendRequestDelivered b))
      (Concluded (a.converse requests store) requests) (opened (Client.connect requests) store) ∧
    ∀ ls s, Run (Session.Step (programs (Client.sendRequest b) b a)) (opened (Client.connect requests) store) ls s →
      Underway b (a.converse requests store) requests s := by
  rcases a.converse_cases requests store with ⟨responses, last, hserved, heq⟩ |
    ⟨done, request, rest, got, mid, e, last, rfl, hserved, hhandle, heq⟩
  · rw [heq] at hresponses ⊢
    exact served_concludes hround hserved hrequests hresponses hlen
  · rw [heq] at hresponses ⊢
    rw [List.length_append, List.length_cons] at hlen
    exact refused_concludes rest hround hserved (fun q hq => hrequests q (by simp [hq])) hresponses
      (hrequests request (by simp)) hhandle (by omega)

/-- Requests and responses that fit into a window, in every order of the steps: the client gets the responses of the
handlers up to the first that fails. Then the server is gone, with the store as that handler has left it, and the
client is told that the connection is lost, and nothing of the error. -/
theorem requests_concluded (hround : b.RoundTrip)
    (hrequests : ∀ request ∈ requests, Fits (b.request.byteSerialize request))
    (hresponses : ∀ response ∈ (a.converse requests store).responses, Fits (b.response.byteSerialize response))
    (hlen : requests.length < 2 ^ 31) :
    Inevitably (fun s s' => ∃ l, Session.Step (programs (Client.sendRequest b) b a) s l s')
      (Concluded (a.converse requests store) requests) (opened (Client.connect requests) store) ∧
    ∀ ls s, Run (Session.Step (programs (Client.sendRequest b) b a)) (opened (Client.connect requests) store) ls s →
      Underway b (a.converse requests store) requests s :=
  conversation_holds hround hrequests hresponses hlen

/-! ## One connection after another -/

/-- Connections to one server, each opened when the client of the one before has ended. -/
inductive Visits (b : Envelopes) (a : Actions σ) :
    σ → List (List RequestEnvelope) → List (List (Except ClientError ResponseEnvelope)) → σ → Prop
  | nil (store : σ) : Visits b a store [] [] store
  | cons {store last : σ} {requests : List RequestEnvelope} {visits : List (List RequestEnvelope)}
      {results : List (List (Except ClientError ResponseEnvelope))} {ls : List (Role × Event)}
      {s : Session (Parties σ)} :
      Run (Session.Step (programs (Client.sendRequest b) b a)) (opened (Client.connect requests) store) ls s →
      (clientOf s).demand b = .gone → Visits b a (serverOf s).store visits results last →
      Visits b a store (requests :: visits) ((clientOf s).results :: results) last

/-- The conversations of the connections. -/
def Actions.visit (a : Actions σ) : List (List RequestEnvelope) → σ → List (List ResponseEnvelope) × σ
  | [], store => ([], store)
  | requests :: visits, store =>
    ((a.converse requests store).responses :: (visit a visits (a.converse requests store).store).1,
      (visit a visits (a.converse requests store).store).2)

/-- What the requests of a connection need. -/
def Sendable (b : Envelopes) (requests : List RequestEnvelope) : Prop :=
  requests.length < 2 ^ 31 ∧ ∀ request ∈ requests, Fits (b.request.byteSerialize request)

instance (requests : List RequestEnvelope) : Decidable (Sendable b requests) := by
  unfold Sendable
  infer_instance

theorem Parting.gone {refusal : Option TransportError} (h : Parting refusal s) : (clientOf s).demand b = .gone := by
  cases refusal with
  | none => rw [Client.demand, show (clientOf s).phase = _ from h]
  | some e =>
    obtain ⟨-, lost, -, hfailed⟩ := h
    rw [Client.demand, hfailed]

variable {visits : List (List RequestEnvelope)}

theorem visits_exist (hround : b.RoundTrip) (hvisits : ∀ requests ∈ visits, Sendable b requests)
    (hresponses : ∀ responses ∈ (a.visit visits store).1, ∀ response ∈ responses,
      Fits (b.response.byteSerialize response)) :
    ∃ results last, Visits b a store visits results last := by
  induction visits generalizing store with
  | nil => exact ⟨[], store, .nil store⟩
  | cons requests visits ih =>
    rw [List.forall_mem_cons] at hvisits
    rw [Actions.visit, List.forall_mem_cons] at hresponses
    obtain ⟨s, hreach, hs⟩ := (conversation_holds hround hvisits.1.2 hresponses.1 hvisits.1.1).1.reachable
    obtain ⟨ls, hrun⟩ := run_of_reachable hreach
    obtain ⟨results, last, hrest⟩ := ih hvisits.2 (hs.store.symm ▸ hresponses.2)
    exact ⟨_, last, .cons hrun hs.parting.gone hrest⟩

theorem Visits.visited {results : List (List (Except ClientError ResponseEnvelope))} (hround : b.RoundTrip)
    (h : Visits b a store visits results last) (hvisits : ∀ requests ∈ visits, Sendable b requests)
    (hresponses : ∀ responses ∈ (a.visit visits store).1, ∀ response ∈ responses,
      Fits (b.response.byteSerialize response)) :
    results = (a.visit visits store).1.map (fun responses => responses.map .ok) ∧
      last = (a.visit visits store).2 := by
  induction h with
  | nil => exact ⟨rfl, rfl⟩
  | cons hrun hgone _ ih =>
    rw [List.forall_mem_cons] at hvisits
    rw [Actions.visit, List.forall_mem_cons] at hresponses
    have hends := ((conversation_holds hround hvisits.1.2 hresponses.1 hvisits.1.1).2 _ _ hrun).ended hgone
    obtain ⟨hresults, hlast⟩ := ih hvisits.2 (hends.store ▸ hresponses.2)
    rw [hends.store] at hresults hlast
    exact ⟨by rw [Actions.visit, List.map_cons, hends.results, hresults], by rw [Actions.visit, hlast]⟩

end Connection

/-- An action that nobody has registered. -/
def stray : RequestEnvelope := { action := "stray", payload := [7] }

theorem echo_converse : echo.converse [ping, stray, ping] () =
    { responses := [pong], refusal := some (.ActionNotFound "stray"), store := () } := by
  have hstray : echo.handleRequest stray () = (.error (.ActionNotFound "stray"), ()) := by
    rw [Actions.handleRequest_eq, Actions.dispatch, echo, Actions.getHandler_registerAction_of_ne _ _ (by decide)]
    rfl
  have hping : echo.handleRequest ping () = (.ok pong, ()) := by
    cases echo_served 1 with
    | cons hhandle _ => exact hhandle
  rw [Actions.converse_ok _ hping, Actions.converse_error _ hstray]
  rfl

theorem requests_concluded_stray :
    Inevitably (fun s s' => ∃ l, Session.Step (programs (Client.sendRequest prefixed) prefixed echo) s l s')
      (Concluded { responses := [pong], refusal := some (.ActionNotFound "stray"), store := () } [ping, stray, ping])
      (opened (Client.connect [ping, stray, ping]) ()) := by
  rw [← echo_converse]
  refine (requests_concluded prefixed_roundTrip ?_ ?_ (by simp)).1
  · decide +kernel
  · rw [echo_converse]
    decide +kernel

end TrenchDb.Rpc
