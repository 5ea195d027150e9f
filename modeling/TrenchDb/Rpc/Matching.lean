import TrenchDb.Rpc.Encoding
import TrenchDb.Rpc.Stopped

/-!
# Requests and responses over one connection

What comes of a sequence of `send_request` calls on one manager, in every order of the steps.
-/

open TrenchDb.Lib.Channels TrenchDb.Lib.Lts TrenchDb.Transport

namespace TrenchDb.Rpc

/-! ## Sessions -/

section Sessions

variable {σ : Type} {b : Envelopes} {a : Actions σ} {r : Refusals} {delivered : Client → List UInt8 → Client}

/-- A new connection between a client and a server. -/
def opened (c : Client) (store : σ) : Session (Parties σ) :=
  { link := Link.init
    progs := fun x => match x with
      | .Initiator => c
      | .Acceptor => Server.start store }

def clientOf (s : Session (Parties σ)) : Client := s.progs .Initiator
def serverOf (s : Session (Parties σ)) : Server σ := s.progs .Acceptor

/-- The states in which a party has nothing in its write buffer. -/
def quiet : ∀ x, Parties σ x → Prop
  | .Initiator => Client.Quiet
  | .Acceptor => Server.Quiet

theorem programs_polite (x : Role) :
    (programs (Client.program b r delivered) b a x).Polite (quiet x) := by
  cases x
  · exact Client.program_polite b r delivered
  · exact Server.run_polite b a

variable {QC : Node (Endpoint × Client) Frame → Prop} {QS : Node (Endpoint × Server σ) Frame → Prop}

theorem opened_within {client : Program Client} {c : Client} {store : σ} {k : Nat} {f : Session.Config (Parties σ)}
    (h : (Session.network (programs client b a)).Path (both QC QS) k (pair (clientStart c) (serverStart store)) f) :
    Session.Within (programs client b a) quiet (both QC QS) f k (opened c store)
      (pair (clientStart c) (serverStart store)) := by
  have hlink : Session.frameLink (pair (clientStart c) (serverStart store)) = FrameLink.init := by
    unfold Session.frameLink FrameLink.init
    congr 1
    · funext x
      cases x <;> rfl
    · funext x
      cases x <;> rfl
  refine ⟨h, ⟨?_, ?_, ?_⟩, ?_⟩
  · rw [hlink]
    exact Rep.init
  · intro x
    cases x <;> rfl
  · intro x
    cases x <;> exact Nat.zero_le _
  · intro x _
    rfl

/-! ## Sequences that come to rest early -/

variable {m k : Nat} {f c : Session.Config (Parties σ)} {s : Session (Parties σ)}

abbrev Goes (b : Envelopes) (a : Actions σ) (r : Refusals) (delivered : Client → List UInt8 → Client)
    (s s' : Session (Parties σ)) : Prop :=
  ∃ l, Session.Step (programs (Client.program b r delivered) b a) s l s'

theorem results_stay (hf : Session.Ends (programs (Client.program b r delivered) b a) f)
    (h : Session.Within (programs (Client.program b r delivered) b a) quiet
      (both (fun n => n.state.2.results.length ≤ m) fun _ => True) f k s c) :
    ¬ Inevitably (Goes b a r delivered) (fun s => m < (clientOf s).results.length) s := by
  refine not_inevitably (fun s => (clientOf s).results.length ≤ m ∧
    ((clientOf s).demand b = .gone ∨ ∃ k c, Session.Within (programs (Client.program b r delivered) b a) quiet
      (both (fun n => n.state.2.results.length ≤ m) fun _ => True) f k s c)) ?_ ?_ ?_
  · exact ⟨h.holds .Initiator, .inr ⟨k, c, h⟩⟩
  · rintro s s' ⟨hle, hgone | ⟨k, c, h⟩⟩ ⟨l, hstep⟩
    · have hsame : clientOf s' = clientOf s := hstep.gone hgone
      rw [hsame]
      exact ⟨hle, .inl hgone⟩
    · rcases h.step programs_polite hf hstep with ⟨k', c', -, -, h'⟩ | ⟨-, h', -⟩ | ⟨hgone, -, mgr, e, hs', -⟩
      · exact ⟨h'.holds .Initiator, .inr ⟨k', c', h'⟩⟩
      · exact ⟨h'.holds .Initiator, .inr ⟨k, c, h'⟩⟩
      · obtain ⟨x, ev⟩ := l
        cases x with
        | Initiator =>
          have hfails : clientOf s' = (clientOf s).fail (.transport e) := hs' ▸ Session.next_progs
          rw [hfails]
          exact ⟨hle, .inl rfl⟩
        | Acceptor =>
          have hsame : clientOf s' = clientOf s := hs' ▸ Session.next_progs_of_ne (Role.peer_ne .Acceptor)
          rw [hsame]
          exact ⟨hle, .inl hgone⟩
  · rintro s ⟨hle, -⟩ hlt
    exact absurd hle (not_le.mpr hlt)

end Sessions

/-! ## All sequences -/

section Sequences

variable {σ : Type} {b : Envelopes} {a : Actions σ} {store mid last : σ} {request : RequestEnvelope}
  {response : ResponseEnvelope} {done requests : List RequestEnvelope} {got responses : List ResponseEnvelope}

theorem first_pass (rest : List RequestEnvelope) (hround : b.RoundTrip) (hserved : a.Served store done got mid)
    (hdone : ∀ request ∈ done, Fits (b.request.byteSerialize request))
    (hgot : ∀ response ∈ got, Fits (b.response.byteSerialize response)) (hlen : done.length < 2 ^ 31) :
    ∃ id streams frames sentC sentS takenC, Between id streams frames sentS takenC ∧
      id.toNat = 1 + 2 * done.length ∧
      Passes (Client.sendRequest b) b a (GoodClient got) (GoodServer done got mid)
        (clientStart (Client.connect (done ++ rest))) (serverStart store)
        ⟨(clientEnd id streams, Client.ready rest got), sentC, takenC⟩
        ⟨(serverEnd ∅, ⟨.listening, mid, done.zip got⟩), sentS, sentC.length⟩ := by
  have hbetween : Between 1 ∅ [] [welcomeFrame] 1 := ⟨rfl, .nothing, rfl, rfl⟩
  have hone : (1 : UInt32).toNat = 1 := rfl
  obtain ⟨id, streams, frames, sentC, sentS, takenC, h, hid, hpass⟩ := requests_pass rest [helloFrame] hround hserved
    hdone hgot (List.nil_append done).symm (List.nil_append got).symm rfl hbetween rfl (by rw [hone]; omega)
  have hgreets : Passes (Client.sendRequest b) b a (GoodClient got) (GoodServer done got mid)
      (clientStart (Client.connect (done ++ rest))) (serverStart store) _ _ :=
    greets rfl (fun e phase sent taken hstreams hphase => ?_)
      (Serves.good hserved (List.nil_append done).symm (List.nil_append got).symm rfl le_rfl) hpass.start.1
  · exact ⟨id, streams, frames, sentC, sentS, takenC, h, hid, hgreets.trans hpass⟩
  · refine ⟨?_, List.nil_prefix, ?_, ?_⟩
    · simp [hstreams]
    all_goals rcases hphase with rfl | rfl <;> nofun

/-- All requests have their responses. -/
structure Matched (requests : List RequestEnvelope) (responses : List ResponseEnvelope) (last : σ)
    (s : Session (Parties σ)) : Prop where
  finished : (clientOf s).phase = .finished
  results : (clientOf s).results = responses.map .ok
  handled : (serverOf s).handled = requests.zip responses
  store : (serverOf s).store = last

/-- The session goes as it should. -/
abbrev OnCourse (b : Envelopes) (a : Actions σ) (requests : List RequestEnvelope) (responses : List ResponseEnvelope)
    (last : σ) : Session.Config (Parties σ) → Nat → Session (Parties σ) → Session.Config (Parties σ) → Prop :=
  Session.Within (programs (Client.sendRequest b) b a) quiet
    (both (GoodClient responses) (GoodServer requests responses last))

namespace OnCourse

variable {f c : Session.Config (Parties σ)} {k : Nat} {s : Session (Parties σ)}

theorem client (h : OnCourse b a requests responses last f k s c) :
    GoodClient responses ⟨((c .Initiator).state.1, clientOf s), (c .Initiator).sent, (c .Initiator).taken⟩ :=
  h.holds .Initiator

theorem server (h : OnCourse b a requests responses last f k s c) : GoodServer requests responses last
    ⟨((c .Acceptor).state.1, serverOf s), (c .Acceptor).sent, (c .Acceptor).taken⟩ :=
  h.holds .Acceptor

theorem finished_of_gone (h : OnCourse b a requests responses last f k s c) (hgone : (clientOf s).demand b = .gone) :
    (clientOf s).phase = .finished := by
  have hunfailed := h.client.unfailed
  rcases hp : (clientOf s).phase with _ | _ | x | _ | _ | e
  case finished => rfl
  case failed => exact absurd hp (hunfailed e)
  case exchanging => cases x <;> simp [Client.demand, Exchange.demand, hp] at hgone
  all_goals simp [Client.demand, hp] at hgone

theorem server_runs (h : OnCourse b a requests responses last f k s c) : (serverOf s).demand ≠ .gone := by
  have hrunning := h.server.running
  intro hgone
  rcases hp : (serverOf s).phase with _ | _ | _ | _ | _ | r
  case stopped => exact hrunning r hp
  all_goals simp [Server.demand, hp] at hgone

theorem matched (h : OnCourse b a requests responses last f k s c) (hlen : requests.length = responses.length)
    (hfinished : (clientOf s).phase = .finished) : Matched requests responses last s := by
  obtain ⟨hresults, htaken⟩ := h.client.finished hfinished
  have hle : (c .Initiator).taken ≤ (c .Acceptor).sent.length := h.tracks.taken_le .Initiator
  have hsent := h.server.sent_le
  have hprefix := h.server.handled.length_le
  have hzip : (requests.zip responses).length = responses.length := by rw [List.length_zip, hlen, min_self]
  dsimp only at htaken hsent hprefix
  have hhandled := h.server.handled.eq_of_length (by dsimp only; omega)
  exact ⟨hfinished, hresults, hhandled, h.server.store hhandled⟩

end OnCourse

theorem opened_onCourse (hround : b.RoundTrip) (hserved : a.Served store requests responses last)
    (hrequests : ∀ request ∈ requests, Fits (b.request.byteSerialize request))
    (hresponses : ∀ response ∈ responses, Fits (b.response.byteSerialize response))
    (hlen : requests.length < 2 ^ 31) :
    ∃ f k c, Session.Ends (programs (Client.sendRequest b) b a) f ∧
      (∀ s, OnCourse b a requests responses last f 0 s f → (clientOf s).phase = .finished) ∧
      OnCourse b a requests responses last f k (opened (Client.connect requests) store) c := by
  obtain ⟨id, streams, frames, sentC, sentS, takenC, -, -, k, hpath⟩ :=
    first_pass [] hround hserved hrequests hresponses hlen
  rw [List.append_nil] at hpath
  refine ⟨_, k, _, ends_pair (.inl rfl) (.inr (.inr ⟨rfl, List.drop_length⟩)), fun s h => ?_, opened_within hpath⟩
  rw [← show _ = clientOf s from h.tracks.progs_eq .Initiator]
  rfl

theorem requests_succeed (hround : b.RoundTrip) (hserved : a.Served store requests responses last)
    (hrequests : ∀ request ∈ requests, Fits (b.request.byteSerialize request))
    (hresponses : ∀ response ∈ responses, Fits (b.response.byteSerialize response))
    (hlen : requests.length < 2 ^ 31) :
    Inevitably (Goes b a Client.sendRequestRefusals (Client.sendRequestDelivered b))
      (Matched requests responses last) (opened (Client.connect requests) store) := by
  obtain ⟨f, k, c, hf, hfinal, hstart⟩ := opened_onCourse hround hserved hrequests hresponses hlen
  refine hstart.inevitable programs_polite hf (fun k s c x h hgone => ?_) fun s h =>
    OnCourse.matched h hserved.length_eq (hfinal s h)
  cases x with
  | Initiator => exact OnCourse.matched h hserved.length_eq (OnCourse.finished_of_gone h hgone)
  | Acceptor => exact absurd hgone (OnCourse.server_runs h)

theorem requests_stop (rest : List RequestEnvelope) (hround : b.RoundTrip) (hserved : a.Served store done got mid)
    (hdone : ∀ request ∈ done, Fits (b.request.byteSerialize request))
    (hgot : ∀ response ∈ got, Fits (b.response.byteSerialize response)) (hlen : done.length < 2 ^ 31)
    (hstop : ¬ done.length + 1 < 2 ^ 31 ∨ ¬ Fits (b.request.byteSerialize request) ∨ ∃ response store',
      a.handleRequest request mid = (.ok response, store') ∧ ¬ Fits (b.response.byteSerialize response)) :
    ¬ Inevitably (Goes b a Client.sendRequestRefusals (Client.sendRequestDelivered b))
      (fun s => got.length < (clientOf s).results.length)
      (opened (Client.connect (done ++ request :: rest)) store) := by
  obtain ⟨id, streams, frames, sentC, sentS, takenC, h, hid, hpass⟩ :=
    first_pass (request :: rest) hround hserved hdone hgot hlen
  have hbound : Passes (Client.sendRequest b) b a (fun n => n.state.2.results.length ≤ got.length) (fun _ => True)
      _ _ _ _ :=
    hpass.mono (fun n hn => by simpa using hn.results.length_le) fun _ _ => trivial
  have hstays : Stays (fun n => n.state.2.results.length ≤ got.length) (Client.ready (request :: rest) got) :=
    fun _ _ _ _ => (List.length_map _).le
  obtain ⟨c', v', ⟨k, hpath⟩, hf⟩ := hbound.stops (exchange_stops hround hstays rfl h
    (hstop.imp_left fun hid' hlt => hid' (by omega)))
  exact results_stay hf (opened_within hpath)

theorem first_stop (limit : Nat) (hserved : a.Served store requests responses last) :
    (requests.length ≤ limit ∧ ∀ p ∈ requests.zip responses, Passable b p.1 p.2) ∨
    ∃ done request rest got response mid mid', requests = done ++ request :: rest ∧
      a.Served store done got mid ∧ (∀ p ∈ done.zip got, Passable b p.1 p.2) ∧ done.length ≤ limit ∧
      a.handleRequest request mid = (.ok response, mid') ∧
      ¬ (done.length + 1 ≤ limit ∧ Passable b request response) ∧ got.length < responses.length := by
  induction hserved generalizing limit with
  | nil => exact .inl ⟨Nat.zero_le _, by simp⟩
  | @cons store store' last request response requests responses hhandle hserved ih =>
    by_cases hfirst : 1 ≤ limit ∧ Passable b request response
    · obtain ⟨limit, rfl⟩ := Nat.exists_eq_add_of_le' hfirst.1
      rcases ih limit with ⟨hlen, hall⟩ | ⟨done, request', rest, got, response', mid, mid', rfl, hdone, hpass, hle,
        hmid, hstop, hlt⟩
      · exact .inl ⟨Nat.succ_le_succ hlen, List.forall_mem_cons.mpr ⟨hfirst.2, hall⟩⟩
      · refine .inr ⟨request :: done, request', rest, response :: got, response', mid, mid', rfl, .cons hhandle hdone,
          List.forall_mem_cons.mpr ⟨hfirst.2, hpass⟩, Nat.succ_le_succ hle, hmid, ?_, Nat.succ_lt_succ hlt⟩
        rwa [List.length_cons, Nat.add_le_add_iff_right]
    · exact .inr ⟨[], request, requests, [], response, store, store', rfl, .nil store, by simp, Nat.zero_le _, hhandle,
        by simpa using hfirst, by simp⟩

theorem passable_left (hlen : requests.length = responses.length)
    (h : ∀ p ∈ requests.zip responses, Passable b p.1 p.2) :
    ∀ request ∈ requests, Fits (b.request.byteSerialize request) := by
  intro request hmem
  obtain ⟨i, hi, rfl⟩ := List.mem_iff_getElem.mp hmem
  have hi' : i < responses.length := hlen ▸ hi
  exact (h (requests[i], responses[i]) (List.mem_iff_getElem.mpr ⟨i, by simp [hi, hi'], by simp⟩)).1

theorem passable_right (hlen : requests.length = responses.length)
    (h : ∀ p ∈ requests.zip responses, Passable b p.1 p.2) :
    ∀ response ∈ responses, Fits (b.response.byteSerialize response) := by
  intro response hmem
  obtain ⟨i, hi, rfl⟩ := List.mem_iff_getElem.mp hmem
  have hi' : i < requests.length := hlen ▸ hi
  exact (h (requests[i], responses[i]) (List.mem_iff_getElem.mpr ⟨i, by simp [hi, hi'], by simp⟩)).2

/-- Requests that the handlers serve get their responses in every order of the steps if and only if each
request and each response fits, and the stream ids suffice. -/
theorem requests_answered (hround : b.RoundTrip) (hserved : a.Served store requests responses last) :
    Inevitably (Goes b a Client.sendRequestRefusals (Client.sendRequestDelivered b))
      (fun s => (clientOf s).results = responses.map .ok) (opened (Client.connect requests) store) ↔
    requests.length < 2 ^ 31 ∧ ∀ p ∈ requests.zip responses, Passable b p.1 p.2 := by
  constructor
  · intro hgoal
    rcases first_stop (b := b) (2 ^ 31 - 1) hserved with ⟨hlen, hall⟩ | ⟨done, request, rest, got, response, mid, mid',
      rfl, hdone, hpass, hle, hmid, hstop, hlt⟩
    · exact ⟨by omega, hall⟩
    · refine absurd (hgoal.mono fun s hs => ?_) (requests_stop rest hround hdone (passable_left hdone.length_eq hpass)
        (passable_right hdone.length_eq hpass) (by omega) ?_)
      · rw [hs, List.length_map]
        exact hlt
      · rcases not_and_or.mp hstop with hid | hpassable
        · exact .inl (by omega)
        · rcases not_and_or.mp hpassable with hreq | hresp
          · exact .inr (.inl hreq)
          · exact .inr (.inr ⟨response, mid', hmid, hresp⟩)
  · rintro ⟨hlen, hall⟩
    exact (requests_succeed hround hserved (passable_left hserved.length_eq hall)
      (passable_right hserved.length_eq hall) hlen).mono fun s h => h.results

/-! ### Every state of every run -/

/-- What holds in every state: the results and the handled requests so far are the first ones, the client
holds at most two streams, and `recv_frame` fails only after the client has finished. -/
structure Orderly (b : Envelopes) (a : Actions σ) (requests : List RequestEnvelope) (responses : List ResponseEnvelope)
    (s : Session (Parties σ)) : Prop where
  results : (clientOf s).results <+: responses.map .ok
  handled : (serverOf s).handled <+: requests.zip responses
  card_le : (s.link.mgr .Initiator).streams.keys.card ≤ 2
  errors : ∀ x e s', Session.Step (programs (Client.sendRequest b) b a) s (x, .received (some (.error e))) s' →
    (clientOf s).phase = .finished

/-- The client has finished, and the server has seen that. -/
structure Parted (requests : List RequestEnvelope) (responses : List ResponseEnvelope) (last : σ)
    (s : Session (Parties σ)) : Prop where
  matched : Matched requests responses last s
  stopped : (serverOf s).demand = .gone
  card_le : (s.link.mgr .Initiator).streams.keys.card ≤ 2

variable {f c : Session.Config (Parties σ)} {k : Nat} {s s' : Session (Parties σ)} {ls : List (Role × Event)}
  {l : Role × Event}

theorem OnCourse.card_le (h : OnCourse b a requests responses last f k s c) :
    (s.link.mgr .Initiator).streams.keys.card ≤ 2 := by
  have hends : (c .Initiator).state.1 = (s.link.mgr .Initiator).endpoint := h.tracks.rep.ends_eq .Initiator
  have hcard := h.client.card_le
  rw [hends] at hcard
  exact hcard

theorem OnCourse.step (h : OnCourse b a requests responses last f k s c) (hlen : requests.length = responses.length)
    (hf : Session.Ends (programs (Client.sendRequest b) b a) f)
    (hstep : Session.Step (programs (Client.sendRequest b) b a) s l s') :
    (∃ k c, OnCourse b a requests responses last f k s' c) ∨
    (clientOf s).phase = .finished ∧ Parted requests responses last s' := by
  rcases Session.Within.step programs_polite hf h hstep with
    ⟨k', c', -, -, h'⟩ | ⟨-, h', -⟩ | ⟨hgone, -, mgr, e, hs', -⟩
  · exact .inl ⟨k', c', h'⟩
  · exact .inl ⟨k, c, h'⟩
  · obtain ⟨x, ev⟩ := l
    cases x with
    | Initiator => exact absurd hgone h.server_runs
    | Acceptor =>
      have hfinished := h.finished_of_gone hgone
      have hmatched := h.matched hlen hfinished
      have hclient : clientOf s' = clientOf s := hs' ▸ Session.next_progs_of_ne (Role.peer_ne .Acceptor)
      have hserver : serverOf s' = (serverOf s).received (.error e) := hs' ▸ Session.next_progs
      have hmgr : s'.link.mgr .Initiator = s.link.mgr .Initiator :=
        hs' ▸ Session.next_mgr_of_ne (Role.peer_ne .Acceptor)
      have hkept : ((serverOf s).received (.error e)).demand = .gone ∧
          ((serverOf s).received (.error e)).handled = (serverOf s).handled ∧
          ((serverOf s).received (.error e)).store = (serverOf s).store := by
        cases e <;> exact ⟨rfl, rfl, rfl⟩
      refine .inr ⟨hfinished, ⟨?_, ?_, ?_, ?_⟩, ?_, ?_⟩
      · rw [hclient, hfinished]
      · rw [hclient, hmatched.results]
      · rw [hserver, hkept.2.1, hmatched.handled]
      · rw [hserver, hkept.2.2, hmatched.store]
      · rw [hserver, hkept.1]
      · rw [hmgr]
        exact h.card_le

theorem Parted.still (h : Parted requests responses last s) :
    ¬ Session.Step (programs (Client.sendRequest b) b a) s l s' := by
  have hgone : ∀ x, (programs (Client.sendRequest b) b a x).demand (s.progs x) = .gone := by
    intro x
    cases x with
    | Initiator =>
      show (clientOf s).demand b = .gone
      rw [Client.demand, h.matched.finished]
    | Acceptor => exact h.stopped
  intro hstep
  cases hstep with
  | call x hd | recv x hd | hangup x hd =>
    rw [hgone x] at hd
    cases hd

theorem OnCourse.orderly (h : OnCourse b a requests responses last f k s c) (hlen : requests.length = responses.length)
    (hf : Session.Ends (programs (Client.sendRequest b) b a) f) : Orderly b a requests responses s := by
  refine ⟨h.client.results, h.server.handled, h.card_le, fun x e s' hstep => ?_⟩
  rcases h.step hlen hf hstep with ⟨k', c', h'⟩ | ⟨hfinished, -⟩
  · exfalso
    have htold := hstep.told
    cases x with
    | Initiator =>
      have hfails : clientOf s' = (clientOf s).fail (.transport e) := htold
      exact h'.client.unfailed (.transport e) (by rw [hfails]; rfl)
    | Acceptor =>
      have hstops : serverOf s' = (serverOf s).received (.error e) := htold
      refine h'.server_runs ?_
      rw [hstops]
      cases e <;> rfl
  · exact hfinished

theorem Parted.orderly (h : Parted requests responses last s) : Orderly b a requests responses s :=
  ⟨h.matched.results ▸ List.prefix_rfl, h.matched.handled ▸ List.prefix_rfl, h.card_le,
    fun _ _ _ hstep => absurd hstep h.still⟩

/-- Requests that fit, with responses that fit, are matched: each `send_request` returns the response to
its own request, and each request is handled once, in order. -/
theorem requests_matched (hround : b.RoundTrip) (hserved : a.Served store requests responses last)
    (hrequests : ∀ request ∈ requests, Fits (b.request.byteSerialize request))
    (hresponses : ∀ response ∈ responses, Fits (b.response.byteSerialize response))
    (hlen : requests.length < 2 ^ 31) :
    Inevitably (fun s s' => ∃ l, Session.Step (programs (Client.sendRequest b) b a) s l s')
      (Matched requests responses last) (opened (Client.connect requests) store) ∧
    ∀ ls s, Run (Session.Step (programs (Client.sendRequest b) b a)) (opened (Client.connect requests) store) ls s →
      Orderly b a requests responses s := by
  refine ⟨requests_succeed hround hserved hrequests hresponses hlen, fun ls s hrun => ?_⟩
  obtain ⟨f, k, c, hf, -, hstart⟩ := opened_onCourse hround hserved hrequests hresponses hlen
  have hinv : (∃ k c, OnCourse b a requests responses last f k s c) ∨ Parted requests responses last s := by
    refine hrun.invariant (P := fun _ s => (∃ k c, OnCourse b a requests responses last f k s c) ∨
      Parted requests responses last s) (.inl ⟨k, c, hstart⟩) ?_
    rintro ls s l s' (⟨k, c, h⟩ | h) hstep
    · exact (h.step hserved.length_eq hf hstep).imp id And.right
    · exact absurd hstep h.still
  rcases hinv with ⟨k, c, h⟩ | h
  · exact h.orderly hserved.length_eq hf
  · exact h.orderly

end Sequences

theorem requests_matched_pings :
    Inevitably (fun s s' => ∃ l, Session.Step (programs (Client.sendRequest prefixed) prefixed echo) s l s')
      (Matched (List.replicate 2 ping) (List.replicate 2 pong) ())
      (opened (Client.connect (List.replicate 2 ping)) ()) :=
  (requests_matched prefixed_roundTrip (echo_served 2) (fun _ h => List.eq_of_mem_replicate h ▸ ping_fits)
    (fun _ h => List.eq_of_mem_replicate h ▸ pong_fits) (by simp)).1

/-- One request more than there are stream ids: `open_stream` fails with `StreamIdExhausted`. -/
theorem requests_exhaust_ids :
    prefixed.RoundTrip ∧ echo.Served () (List.replicate (2 ^ 31) ping) (List.replicate (2 ^ 31) pong) () ∧
    (∀ request ∈ List.replicate (2 ^ 31) ping, Fits (prefixed.request.byteSerialize request)) ∧
    (∀ response ∈ List.replicate (2 ^ 31) pong, Fits (prefixed.response.byteSerialize response)) ∧
    ¬ Inevitably (fun s s' => ∃ l, Session.Step (programs (Client.sendRequest prefixed) prefixed echo) s l s')
      (fun s => (clientOf s).results = (List.replicate (2 ^ 31) pong).map .ok)
      (opened (Client.connect (List.replicate (2 ^ 31) ping)) ()) := by
  refine ⟨prefixed_roundTrip, echo_served _, fun _ h => List.eq_of_mem_replicate h ▸ ping_fits,
    fun _ h => List.eq_of_mem_replicate h ▸ pong_fits, fun hgoal => ?_⟩
  have hlen := ((requests_answered prefixed_roundTrip (echo_served _)).mp hgoal).1
  rw [List.length_replicate] at hlen
  exact absurd hlen (lt_irrefl _)

end TrenchDb.Rpc
