import TrenchDb.Cli.Client
import TrenchDb.Storage.Tables

/-!
# One client and a server that answers or not

Every exchange may be lost on its way, left behind so that the server acts on it later or never, acted on without
an answer that arrives, or served. Of a request that is sent several times the server then holds what one request
leaves.
-/

open TrenchDb.Lib TrenchDb.Lib.Retry TrenchDb.Rpc TrenchDb.Storage TrenchDb.Transport

namespace TrenchDb.Cli

/-! ## The world -/

/-- What both ends take from `byteser`: envelopes are read back, so that one end has what the other sent, and an
encoding is neither empty nor shorter than its payload. -/
structure Wire where
  envelopes : Envelopes
  roundTrip : envelopes.RoundTrip
  covers : envelopes.Covers
  request_ne : ∀ request, envelopes.request.byteSerialize request ≠ []
  response_ne : ∀ response, envelopes.response.byteSerialize response ≠ []

namespace Wire

/-- One `send_data` call of the client takes the request. -/
def Sends (b : Wire) (request : RequestEnvelope) : Prop := Fits (b.envelopes.request.byteSerialize request)

/-- One `send_data` call of the server takes the response. -/
def Answers (b : Wire) (response : ResponseEnvelope) : Prop := Fits (b.envelopes.response.byteSerialize response)

instance (b : Wire) (request : RequestEnvelope) : Decidable (b.Sends request) := inferInstanceAs (Decidable (Fits _))
instance (b : Wire) (response : ResponseEnvelope) : Decidable (b.Answers response) :=
  inferInstanceAs (Decidable (Fits _))

theorem Sends.lt {b : Wire} {request : RequestEnvelope} (h : b.Sends request) : request.payload.length < 2 ^ 64 :=
  Fits.lt_of_le h (b.covers.request request)

theorem Answers.lt {b : Wire} {response : ResponseEnvelope} (h : b.Answers response) :
    response.payload.length < 2 ^ 64 := Fits.lt_of_le h (b.covers.response response)

end Wire

/-- What becomes of an exchange. The error is what the client sees, if it sees one. -/
inductive Fate where
  | lost (error : TransportError)
  | behind (error : TransportError)
  -- The server acts on the request, and its response does not arrive.
  | acted (error : TransportError)
  -- The server drops the connection of a request that its handler refuses, or whose response it cannot send.
  | served (error : TransportError)

def Fate.error : Fate → TransportError
  | .lost e | .behind e | .acted e | .served e => e

/-- What happens next: requests that were left behind are acted on, in this order; a connection is refused
or not; and the fate of an exchange. -/
structure Happening where
  late : List Nat
  refused : Option String
  fate : Fate

structure World where
  shared : Shared
  flying : List RequestEnvelope
  executed : List RequestEnvelope
  tape : Nat → Happening
  now : Nat
  said : List String

namespace World

variable (b : Wire) (c : Codecs)

def happening (w : World) : Happening := w.tape w.now

def execute (request : RequestEnvelope) (w : World) : World :=
  { w with shared := after c request w.shared, executed := w.executed ++ [request] }

/-- The server acts on a request that was left behind. -/
def arrive (w : World) (i : Nat) : World :=
  match w.flying[i]? with
  | some request => execute c request { w with flying := w.flying.eraseIdx i }
  | none => w

/-- The requests that were left behind and come now. -/
def arrivals (w : World) : World := w.happening.late.foldl (arrive c) w

def tick (w : World) : World := { w with now := w.now + 1 }

def connect (w : World) : Except String Unit × World :=
  match w.happening.refused with
  | some e => (.error e, (w.arrivals c).tick)
  | none => (.ok (), (w.arrivals c).tick)

/-- `send_request`. Without room in the window of its stream `send_data` refuses the request, and at the other end
the response. -/
def sendRequest (request : RequestEnvelope) (w : World) : Except TransportError ResponseEnvelope × World :=
  if b.Sends request then
    match w.happening.fate with
    | .lost e => (.error e, (w.arrivals c).tick)
    | .behind e => (.error e, { (w.arrivals c).tick with flying := (w.arrivals c).flying ++ [request] })
    | .acted e => (.error e, ((w.arrivals c).execute c request).tick)
    | .served e =>
      (match ((buildActions c).handleRequest request (w.arrivals c).shared).1 with
        | .ok response => if b.Answers response then .ok response else .error e
        | .error _ => .error e, ((w.arrivals c).execute c request).tick)
  else
    (.error w.happening.fate.error, (w.arrivals c).tick)

def network : Network Unit World where
  connect := connect c
  sendRequest request manager w := ((sendRequest b c request w).1, manager, (sendRequest b c request w).2)
  sleep _ w := (w.arrivals c).tick
  eprintln text w := { w with said := w.said ++ [text] }

/-! ## Networks that leave nothing behind -/

/-- Nothing is on its way without the client that waits for it. -/
structure Direct (w : World) : Prop where
  flying : w.flying = []
  tape : ∀ i e, (w.tape i).fate ≠ .behind e

/-- Every connection is made, and every exchange is served that has room in the windows. Stream ids do not run out. -/
structure Reliable (w : World) : Prop where
  flying : w.flying = []
  refused : ∀ i, (w.tape i).refused = none
  served : ∀ i, ∃ e, (w.tape i).fate = .served e

variable {b} {c} {w : World} {request : RequestEnvelope}

theorem sendRequest_sent (h : b.Sends request) : w.sendRequest b c request =
    match w.happening.fate with
    | .lost e => (.error e, (w.arrivals c).tick)
    | .behind e => (.error e, { (w.arrivals c).tick with flying := (w.arrivals c).flying ++ [request] })
    | .acted e => (.error e, ((w.arrivals c).execute c request).tick)
    | .served e =>
      (match ((buildActions c).handleRequest request (w.arrivals c).shared).1 with
        | .ok response => if b.Answers response then .ok response else .error e
        | .error _ => .error e, ((w.arrivals c).execute c request).tick) := if_pos h

theorem sendRequest_refused (h : ¬ b.Sends request) :
    w.sendRequest b c request = (.error w.happening.fate.error, (w.arrivals c).tick) := if_neg h

theorem arrivals_of_idle (h : w.flying = []) : w.arrivals c = w := by
  unfold arrivals
  induction w.happening.late with
  | nil => rfl
  | cons i late ih =>
    rw [List.foldl_cons, arrive, h]
    exact ih

theorem Direct.sendRequest (h : w.Direct) (request : RequestEnvelope) : (w.sendRequest b c request).2.Direct := by
  by_cases hsends : b.Sends request
  · rw [sendRequest_sent hsends, arrivals_of_idle h.flying]
    cases hf : w.happening.fate with
    | lost e | acted e | served e => exact ⟨h.flying, h.tape⟩
    | behind e => exact absurd hf (h.tape _ e)
  · rw [sendRequest_refused hsends, arrivals_of_idle h.flying]
    exact ⟨h.flying, h.tape⟩

theorem Direct.waits (h : w.Direct) : (w.arrivals c).tick.Direct := by
  rw [arrivals_of_idle h.flying]
  exact ⟨h.flying, h.tape⟩

theorem connect_world : (w.connect c).2 = (w.arrivals c).tick := by
  unfold connect
  cases w.happening.refused <;> rfl

theorem Reliable.waits (h : w.Reliable) : (w.arrivals c).tick.Reliable := by
  rw [arrivals_of_idle h.flying]
  exact ⟨h.flying, h.refused, h.served⟩

theorem Reliable.connect (h : w.Reliable) : w.connect c = (.ok (), w.tick) := by
  unfold World.connect
  rw [show w.happening.refused = none from h.refused _, arrivals_of_idle h.flying]

theorem Reliable.executes (h : w.Reliable) (hsends : b.Sends request) :
    (w.sendRequest b c request).2 = (w.execute c request).tick ∧
      ∀ response, b.Answers response → ((buildActions c).handleRequest request w.shared).1 = .ok response →
        (w.sendRequest b c request).1 = .ok response := by
  obtain ⟨e, he⟩ := h.served w.now
  rw [sendRequest_sent hsends, show w.happening.fate = .served e from he, arrivals_of_idle h.flying]
  refine ⟨rfl, fun response hanswers hresponse => ?_⟩
  simp only [hresponse]
  exact if_pos hanswers

theorem Reliable.sendRequest (h : w.Reliable) (request : RequestEnvelope) : (w.sendRequest b c request).2.Reliable := by
  by_cases hsends : b.Sends request
  · rw [(h.executes hsends).1]
    exact ⟨h.flying, h.refused, h.served⟩
  · rw [sendRequest_refused hsends, arrivals_of_idle h.flying]
    exact ⟨h.flying, h.refused, h.served⟩

end World

/-! ## One request, several times -/

/-- Since `w`, only `request` was sent, `sent` times: the server has acted on some of them, and some are
still on their way. -/
structure Repeated (c : Codecs) (request : RequestEnvelope) (w : World) (sent done : Nat) (w' : World) : Prop where
  shared : w'.shared = serve c (List.replicate done request) w.shared
  executed : w'.executed = w.executed ++ List.replicate done request
  flying : ∃ left, w'.flying = List.replicate left request ∧ done + left ≤ sent

namespace Repeated

variable {b : Wire} {c : Codecs} {request : RequestEnvelope} {w w' : World} {sent done : Nat}

theorem start (h : w.flying = []) : Repeated c request w 0 0 w :=
  ⟨rfl, by simp, 0, by simpa using h, le_rfl⟩

theorem execute (h : Repeated c request w sent done w') {left : Nat} (hleft : done + 1 + left ≤ sent) :
    Repeated c request w sent (done + 1)
      (World.execute c request { w' with flying := List.replicate left request }) where
  shared := by
    rw [List.replicate_succ', serve_snoc, ← h.shared]
    rfl
  executed := by
    rw [List.replicate_succ', ← List.append_assoc, ← h.executed]
    rfl
  flying := ⟨left, rfl, hleft⟩

theorem arrive (h : Repeated c request w sent done w') (i : Nat) :
    ∃ done', done ≤ done' ∧ Repeated c request w sent done' (w'.arrive c i) := by
  obtain ⟨left, hflying, hle⟩ := h.flying
  unfold World.arrive
  rw [hflying]
  cases hget : (List.replicate left request)[i]? with
  | none => exact ⟨done, le_rfl, h⟩
  | some late =>
    obtain ⟨hi, hlate⟩ := List.getElem?_eq_some_iff.mp hget
    rw [List.getElem_replicate] at hlate
    subst hlate
    rw [List.length_replicate] at hi
    rw [List.eraseIdx_replicate, if_pos hi]
    exact ⟨done + 1, Nat.le_succ _, h.execute (by omega)⟩

theorem arrivals (h : Repeated c request w sent done w') :
    ∃ done', done ≤ done' ∧ Repeated c request w sent done' (w'.arrivals c) := by
  unfold World.arrivals
  generalize w'.happening.late = late
  induction late generalizing done w' with
  | nil => exact ⟨done, le_rfl, h⟩
  | cons i late ih =>
    obtain ⟨done₁, hle₁, h₁⟩ := h.arrive i
    obtain ⟨done₂, hle₂, h₂⟩ := ih h₁
    exact ⟨done₂, hle₁.trans hle₂, h₂⟩

theorem more (h : Repeated c request w sent done w') : Repeated c request w (sent + 1) done w' := by
  obtain ⟨left, hflying, hle⟩ := h.flying
  exact ⟨h.shared, h.executed, left, hflying, by omega⟩

theorem sendRequest (h : Repeated c request w sent done w') :
    ∃ done', done ≤ done' ∧ Repeated c request w (sent + 1) done' (w'.sendRequest b c request).2 ∧
      ∀ response, (w'.sendRequest b c request).1 = .ok response → b.Sends request ∧ b.Answers response ∧
        ∃ earlier, earlier < done' ∧
          ((buildActions c).handleRequest request (serve c (List.replicate earlier request) w.shared)).1 =
            .ok response := by
  obtain ⟨done₁, hle, h₁⟩ := h.arrivals
  obtain ⟨left, hflying, hsent⟩ := h₁.flying
  have hunsent : Repeated c request w (sent + 1) done₁ (w'.arrivals c).tick :=
    ⟨h₁.shared, h₁.executed, left, hflying, by omega⟩
  have hacted : Repeated c request w (sent + 1) (done₁ + 1) ((w'.arrivals c).execute c request).tick := by
    have hnow := (Repeated.more h₁).execute (show done₁ + 1 + left ≤ sent + 1 by omega)
    rw [← hflying] at hnow
    exact ⟨hnow.shared, hnow.executed, hnow.flying⟩
  by_cases hsends : b.Sends request
  · rw [World.sendRequest_sent hsends]
    cases w'.happening.fate with
    | lost e => exact ⟨done₁, hle, hunsent, nofun⟩
    | behind e =>
      refine ⟨done₁, hle, ⟨h₁.shared, h₁.executed, left + 1, ?_, by omega⟩, nofun⟩
      rw [List.replicate_succ', ← hflying]
    | acted e => exact ⟨done₁ + 1, by omega, hacted, nofun⟩
    | served e =>
      refine ⟨done₁ + 1, by omega, hacted, fun response hresponse => ?_⟩
      dsimp only at hresponse
      split at hresponse
      next answered heq =>
        split_ifs at hresponse with hanswers
        obtain rfl := Except.ok.inj hresponse
        exact ⟨hsends, hanswers, done₁, Nat.lt_succ_self _, by rw [← h₁.shared, heq]⟩
      next => cases hresponse
  · rw [World.sendRequest_refused hsends]
    exact ⟨done₁, hle, hunsent, nofun⟩

end Repeated

namespace Process

variable {b : Wire} {c : Codecs} {request : RequestEnvelope} {w : World} {sent done attempt : Nat} {α : Type}
  {decode : List UInt8 → Except String α} {p q : Process Unit World}

/-- The world while the client sends the one request, of which the server has acted on `done` at least. -/
def Since (c : Codecs) (request : RequestEnvelope) (w : World) (sent done : Nat) (w' : World) : Prop :=
  ∃ done', done ≤ done' ∧ Repeated c request w sent done' w'

theorem since_arrivals {w' : World} (h : Since c request w sent done w') :
    Since c request w sent done (w'.arrivals c).tick := by
  obtain ⟨done₁, hle₁, h₁⟩ := h
  obtain ⟨done₂, hle₂, h₂⟩ := h₁.arrivals
  exact ⟨done₂, hle₁.trans hle₂, h₂.shared, h₂.executed, h₂.flying⟩

theorem since_said {w' : World} (text : String) (h : Since c request w sent done w') :
    Since c request w sent done ((World.network b c).eprintln text w') := by
  obtain ⟨done₁, hle₁, h₁⟩ := h
  exact ⟨done₁, hle₁, h₁.shared, h₁.executed, h₁.flying⟩

theorem since_keeps (b : Wire) : (World.network b c).Keeps (Since c request w sent done) where
  connect w' h := by
    rw [show ((World.network b c).connect w').2 = _ from World.connect_world]
    exact since_arrivals h
  sleep _ _ := since_arrivals
  eprintln text _ := since_said text

/-- What a value tells that `send` returns: a request and a response that both had room, and the handler's answer
when it acted on the request after it had done so `earlier` times. -/
structure Answered (b : Wire) (c : Codecs) (request : RequestEnvelope) (w : World)
    (decode : List UInt8 → Except String α) (value : α) (earlier : Nat) (response : ResponseEnvelope) : Prop where
  sends : b.Sends request
  answers : b.Answers response
  handled : ((buildActions c).handleRequest request (serve c (List.replicate earlier request) w.shared)).1 =
    .ok response
  decoded : decode response.payload = .ok value

theorem since_trySend {a : Attempt String α} (h : Since c request w sent done p.world)
    (hop : p.trySend (World.network b c) request decode attempt = (a, q)) :
    Since c request w (sent + 1) done q.world ∧ q.client.maxRetries = p.client.maxRetries ∧
      ∀ value, a = .stop (.ok value) → ∃ earlier response, Since c request w (sent + 1) (earlier + 1) q.world ∧
        Answered b c request w decode value earlier response := by
  obtain ⟨hsince, hretries⟩ := ensureConnected_world (since_keeps b) h
  unfold trySend at hop
  rcases hc : p.ensureConnected (World.network b c) with ⟨e | u, t⟩ <;> rw [hc] at hop hsince hretries
  · obtain ⟨rfl, rfl⟩ := Prod.mk.inj hop
    obtain ⟨done', hle, h'⟩ := hsince
    exact ⟨⟨done', hle, h'.more⟩, hretries, nofun⟩
  · obtain ⟨manager, hheld⟩ := ensureConnected_ok hc
    obtain ⟨done', hle, h'⟩ := hsince
    obtain ⟨done'', hle', h'', hanswer⟩ := Repeated.sendRequest (b := b) h'
    cases a with
    | stop result =>
      obtain ⟨response, manager', world, hs, rfl, rfl⟩ := exchange_stop hheld hop
      obtain ⟨hresponse, hrest⟩ := Prod.mk.inj hs
      obtain ⟨-, rfl⟩ := Prod.mk.inj hrest
      refine ⟨⟨done'', hle.trans hle', h''⟩, hretries, fun value hvalue => ?_⟩
      obtain ⟨hsends, hanswers, earlier, hlt, hhandled⟩ := hanswer response hresponse
      refine ⟨earlier, response, ⟨done'', hlt, h''⟩, hsends, hanswers, hhandled, ?_⟩
      have hdecode := Attempt.stop.inj hvalue
      cases hd : decode response.payload with
      | error e => rw [hd] at hdecode; cases hdecode
      | ok value' => rw [hd] at hdecode; exact congrArg _ (Except.ok.inj hdecode)
    | again e =>
      obtain ⟨err, manager', world, hs, -, rfl⟩ := exchange_again hheld hop
      obtain ⟨-, hrest⟩ := Prod.mk.inj hs
      obtain ⟨-, rfl⟩ := Prod.mk.inj hrest
      exact ⟨since_said (b := b) _ ⟨done'', hle.trans hle', h''⟩, hretries, nofun⟩

section Send

variable (decode) (action : String) (payload : List UInt8)

theorem since_reaches {m : Nat} {t : Process Unit World} (hidle : p.world.flying = [])
    (hreach : Reaches (trySend (World.network b c) { action, payload } decode) (backoff (World.network b c))
      p.client.maxRetries p m t) : Since c { action, payload } p.world m 0 t.world :=
  hreach.invariant (P := fun m t => Since c { action, payload } p.world m 0 t.world) ⟨0, le_rfl, .start hidle⟩
    fun _ _ _ _ ht _ hop => since_arrivals (since_trySend ht hop).1

theorem send_last (b : Wire) (c : Codecs) (p : Process Unit World) :
    ∃ m t a, m ≤ p.client.maxRetries ∧
      Reaches (trySend (World.network b c) { action, payload } decode) (backoff (World.network b c))
        p.client.maxRetries p m t ∧
      t.trySend (World.network b c) { action, payload } decode m =
        (a, (p.send (World.network b c) action payload decode).2) ∧
      ∀ value, (p.send (World.network b c) action payload decode).1 = .ok value → a = .stop (.ok value) := by
  have hended := retry_ended (trySend (World.network b c) { action, payload } decode) (backoff (World.network b c))
    p.client.maxRetries "send failed after retries" p
  rw [← send] at hended
  generalize p.send (World.network b c) action payload decode = o at hended
  obtain ⟨result, q⟩ := o
  cases hended with
  | stopped hreach hop => exact ⟨_, _, _, hreach.le, hreach, hop, fun value hvalue => congrArg _ hvalue⟩
  | exhausted hreach hop => exact ⟨_, _, _, le_rfl, hreach, hop, fun value hvalue => by cases hvalue⟩

/-- One `send` while nothing else is on its way: the server acts on the request as often as it was sent, at
most, and what it answers when it acts on it for some time is what the client returns. -/
theorem send_repeats (hidle : p.world.flying = []) :
    ∃ done, Repeated c { action, payload } p.world (p.client.maxRetries + 1) done
        (p.send (World.network b c) action payload decode).2.world ∧
      ∀ value, (p.send (World.network b c) action payload decode).1 = .ok value → ∃ earlier response,
        earlier < done ∧ Answered b c { action, payload } p.world decode value earlier response := by
  obtain ⟨m, t, a, hle, hreach, hop, hvalues⟩ := send_last decode action payload b c p
  obtain ⟨⟨done, -, hdone⟩, -, hanswer⟩ := since_trySend (since_reaches decode action payload hidle hreach) hop
  refine ⟨done, ?_, fun value hvalue => ?_⟩
  · -- Tries that were not made count as well.
    obtain ⟨hshared, hexecuted, left, hflying, hsent⟩ := hdone
    exact ⟨hshared, hexecuted, left, hflying, by omega⟩
  · obtain ⟨earlier, response, ⟨done', hlt, hdone'⟩, hanswered⟩ := hanswer value (hvalues value hvalue)
    have hsame : done' = done := by
      have hlen := congrArg List.length (hdone'.executed.symm.trans hdone.executed)
      simpa using hlen
    exact ⟨earlier, response, hsame ▸ hlt, hanswered⟩

/-! ## What a network keeps -/

theorem reliable_keeps : (World.network b c).KeepsSending request World.Reliable where
  connect _ h := World.connect_world ▸ h.waits
  sleep _ _ h := h.waits
  eprintln _ _ h := ⟨h.flying, h.refused, h.served⟩
  sendRequest _ _ h := h.sendRequest request

theorem refused_keeps (s : Shared) (hrequest : ¬ b.Sends request) :
    (World.network b c).KeepsSending request fun w => w.flying = [] ∧ w.shared = s := by
  have hwaits : ∀ w : World, w.flying = [] ∧ w.shared = s →
      (w.arrivals c).tick.flying = [] ∧ (w.arrivals c).tick.shared = s := by
    rintro w ⟨hflying, hshared⟩
    rw [World.arrivals_of_idle hflying]
    exact ⟨hflying, hshared⟩
  refine ⟨⟨fun w h => ?_, fun _ => hwaits, fun _ _ h => h⟩, fun manager w h => ?_⟩
  · rw [show ((World.network b c).connect w).2 = _ from World.connect_world]
    exact hwaits w h
  · rw [show ((World.network b c).sendRequest request manager w).2.2 = (w.sendRequest b c request).2 from rfl,
      World.sendRequest_refused hrequest]
    exact hwaits w h

/-- A request that has no room in the window never leaves the client. -/
theorem send_refused (hidle : p.world.flying = []) (h : ¬ b.Sends { action, payload }) :
    (p.send (World.network b c) action payload decode).2.world.shared = p.world.shared :=
  (send_world (refused_keeps p.world.shared h) ⟨hidle, rfl⟩).2

/-! ## A network that loses nothing -/

section Reliable

variable {decode action payload}

theorem reliable_connects (h : p.world.Reliable) :
    ∃ q manager, p.ensureConnected (World.network b c) = (.ok (), q) ∧ q.client.inner = some manager ∧
      q.world.Reliable ∧ q.world.shared = p.world.shared ∧ q.world.executed = p.world.executed := by
  cases hheld : p.client.inner.isSome with
  | true =>
    obtain ⟨manager, hmanager⟩ := Option.isSome_iff_exists.mp hheld
    exact ⟨p, manager, ensureConnected_held hheld, hmanager, h, rfl, rfl⟩
  | false => exact ⟨_, (), ensureConnected_first hheld h.connect, rfl, ⟨h.flying, h.refused, h.served⟩, rfl, rfl⟩

theorem reliable_trySend {a : Attempt String α} (h : p.world.Reliable) (hsends : b.Sends request)
    (hop : p.trySend (World.network b c) request decode attempt = (a, q)) :
    q.world.executed = p.world.executed ++ [request] := by
  obtain ⟨t, manager, ht, hheld, hreliable, -, hexecuted⟩ := reliable_connects (b := b) (c := c) h
  have hacted := (hreliable.executes (c := c) hsends).1
  unfold trySend at hop
  rw [ht] at hop
  rw [← hexecuted]
  cases a with
  | stop result =>
    obtain ⟨response, manager', world, hs, -, rfl⟩ := exchange_stop hheld hop
    obtain rfl := (congrArg (fun o => o.2.2) hs).symm
    exact congrArg World.executed hacted
  | again e =>
    obtain ⟨err, manager', world, hs, -, rfl⟩ := exchange_again hheld hop
    obtain rfl := (congrArg (fun o => o.2.2) hs).symm
    exact congrArg World.executed hacted

theorem reliable_acts (decode : List UInt8 → Except String α) (h : p.world.Reliable)
    (hsends : b.Sends { action, payload }) :
    ∃ done, Repeated c { action, payload } p.world (p.client.maxRetries + 1) (done + 1)
      (p.send (World.network b c) action payload decode).2.world := by
  obtain ⟨done, hrepeated, -⟩ := send_repeats (b := b) (c := c) decode action payload h.flying
  obtain ⟨m, t, a, -, hreach, hop, -⟩ := send_last decode action payload b c p
  obtain ⟨earlier, -, hearlier⟩ := since_reaches decode action payload h.flying hreach
  have hlast := reliable_trySend (reaches_world reliable_keeps h hreach) hsends hop
  rw [hearlier.executed, hrepeated.executed] at hlast
  have hlen := congrArg List.length hlast
  simp only [List.length_append, List.length_replicate, List.length_singleton] at hlen
  obtain rfl : done = earlier + 1 := by omega
  exact ⟨earlier, hrepeated⟩

theorem send_reliable (decode : List UInt8 → Except String α) (h : p.world.Reliable)
    (hsends : b.Sends { action, payload }) {response : ResponseEnvelope} (hanswers : b.Answers response)
    (hhandled : ((buildActions c).handleRequest { action, payload } p.world.shared).1 = .ok response) :
    (p.send (World.network b c) action payload decode).1 =
      (decode response.payload).mapError (fun e => "failed to decode response: " ++ e) := by
  obtain ⟨q, manager, hq, hheld, hreliable, hshared, -⟩ := reliable_connects (b := b) (c := c) h
  rw [← hshared] at hhandled
  obtain ⟨hworld, hresponse⟩ := hreliable.executes (c := c) hsends
  have hsend : (World.network b c).sendRequest { action, payload } manager q.world =
      (.ok response, manager, (q.world.execute c { action, payload }).tick) :=
    Prod.ext (hresponse response hanswers hhandled) (Prod.ext rfl hworld)
  rw [send_first hq hheld hsend]

end Reliable

end Send

end Process

end TrenchDb.Cli
