import TrenchDb.Rpc.Client
import TrenchDb.Rpc.Server

/-!
# One exchange, seen from each end

What a client does from `open_stream` to the payload of the response, and what the server does from
`Open` to `Close`, on the frames that the other end sends.
-/

open TrenchDb.Lib.BigEndian TrenchDb.Lib.Channels TrenchDb.Transport

namespace TrenchDb.Rpc

/-- The client's endpoint between and during exchanges. -/
def clientEnd (id : UInt32) (streams : Streams) : Endpoint := ⟨.Initiator, .Established, id, streams⟩

/-- The server's endpoint. It opens no streams. -/
def serverEnd (streams : Streams) : Endpoint := ⟨.Acceptor, .Established, 2, streams⟩

theorem drop_succ {μ : Type} {script rest : List μ} {m : μ} {n : Nat} (h : script.drop n = m :: rest) :
    script.drop (n + 1) = rest := by
  rw [← List.drop_drop, h, List.drop_one, List.tail_cons]

theorem card_insert_le (streams : Streams) (s : UInt32) (stream : Stream) :
    (streams.insert s stream).keys.card ≤ streams.keys.card + 1 := by
  have hsub : (streams.insert s stream).keys ⊆ insert s streams.keys := by
    intro k hk
    rw [Finmap.mem_keys, Finmap.mem_insert] at hk
    rw [Finset.mem_insert, Finmap.mem_keys]
    exact hk
  exact (Finset.card_le_card hsub).trans (Finset.card_insert_le _ _)

theorem card_insert_empty (s : UInt32) (stream : Stream) : ((∅ : Streams).insert s stream).keys.card ≤ 1 := by
  simpa using card_insert_le ∅ s stream

/-- What the exchange before has left: nothing, or a stream whose `Close` from the server is still to
come. -/
inductive Left (id : UInt32) : Streams → List Frame → Prop
  | nothing : Left id ∅ []
  | closing {p : UInt32} {stream : Stream} : p ≠ id → stream.state = .HalfClosedLocal →
      Left id ((∅ : Streams).insert p stream) [closeFrame p]

theorem Left.card_le {id : UInt32} {streams : Streams} {frames : List Frame} (h : Left id streams frames) :
    streams.keys.card ≤ 1 := by
  cases h with
  | nothing => simp
  | closing => exact card_insert_empty _ _

/-! ## The client -/

section Client

variable {b : Envelopes} {r : Refusals} {delivered : Client → List UInt8 → Client}
  {Q : Node (Endpoint × Client) Frame → Prop} {script rest frames : List Frame} {sent : List Frame} {taken : Nat}
  {c : Client} {request : RequestEnvelope} {id : UInt32} {streams : Streams}

/-- The client in the middle of an exchange. -/
def Client.at (c : Client) (x : Exchange) : Client := { c with phase := .exchanging x }

theorem demand_at (hc : c.todo.head? = some request) (x : Exchange) :
    (Client.program b r delivered).demand (c.at x) = x.demand (b.request.byteSerialize request) := by
  simp [Client.program, Client.demand, Client.at, hc]

theorem replied_at (x : Exchange) (answer : Answer) :
    (Client.program b r delivered).replied (c.at x) (.ok answer) = c.at (x.replied answer) := rfl

/-- The stream of the request when the client begins to wait. -/
def asked (id : UInt32) (request : List UInt8) : Stream :=
  ((Stream.new id).consumeSendWindow request.length).onLocalClose

/-- What holds of the client throughout an exchange. -/
def Throughout (Q : Node (Endpoint × Client) Frame → Prop) (c : Client) : Prop :=
  ∀ e x sent taken, e.streams.keys.card ≤ 2 → Q ⟨(e, c.at x), sent, taken⟩

theorem client_opens (hQ : Throughout Q c) (hc : c.todo.head? = some request) (hcard : streams.keys.card ≤ 1)
    (hid : id.toNat + 2 < 2 ^ 32) {n : Node (Endpoint × Client) Frame}
    (hrest : Node.Path (Session.move (Client.program b r delivered)) script Q
      ⟨(clientEnd (id + 2) (streams.insert id (Stream.new id)), c.at (.sending id)), sent ++ [openFrame id], taken⟩ n) :
    Node.Path (Session.move (Client.program b r delivered)) script Q
      ⟨(clientEnd id streams, c.at .opening), sent, taken⟩ n :=
  .head (hQ _ _ _ _ (by simp only [clientEnd]; omega))
    (Session.step_call (demand_at hc .opening) (Endpoint.call_openStream rfl hid)) hrest

theorem client_asks (hQ : Throughout Q c) (hc : c.todo.head? = some request) (hcard : streams.keys.card ≤ 1)
    (hid : id.toNat + 2 < 2 ^ 32) (hfits : Fits (b.request.byteSerialize request)) :
    Node.Path (Session.move (Client.program b r delivered)) script Q
      ⟨(clientEnd id streams, c.at .opening), sent, taken⟩
      ⟨(clientEnd (id + 2) (streams.insert id (asked id (b.request.byteSerialize request))), c.at (.waiting id)),
        sent ++ [openFrame id, dataFrame id (b.request.byteSerialize request), closeFrame id], taken⟩ := by
  have hle : ∀ stream, (clientEnd (id + 2) (streams.insert id stream)).streams.keys.card ≤ 2 := by
    intro stream
    have := card_insert_le streams id stream
    simp only [clientEnd]
    omega
  refine client_opens hQ hc hcard hid (.head (hQ _ _ _ _ (hle _)) (Session.step_call (demand_at hc _)
    (Endpoint.call_sendData rfl hfits.1 hfits.2 (Finmap.lookup_insert _) rfl rfl)) ?_)
  simp only [replied_at, Exchange.replied, Endpoint.put, clientEnd, Finmap.insert_insert]
  refine .head (hQ _ _ _ _ (hle _)) (Session.step_call (demand_at hc _)
    (Endpoint.call_closeStream rfl (Finmap.lookup_insert _) rfl)) ?_
  rw [Endpoint.afterClose, if_neg (by simp [Stream.onLocalClose, Stream.consumeSendWindow, Stream.new])]
  simp only [replied_at, Exchange.replied, Endpoint.put, Finmap.insert_insert]
  refine .head (hQ _ _ _ _ (hle _)) (Session.step_call (demand_at hc _) rfl) ?_
  simp only [replied_at, Exchange.replied, List.append_assoc, List.append_nil, List.cons_append, List.nil_append]
  exact .refl (hQ _ _ _ _ (hle _))

theorem demand_waiting : (Client.program b r delivered).demand (c.at (.waiting id)) = .recvFrame := rfl

theorem received_other {f : Frame} (hne : f.header.streamId ≠ id) :
    (Client.program b r delivered).received (c.at (.waiting id)) (.ok f) = c.at (.waiting id) := by
  simp only [Client.program, Client.received, Client.at, Exchange.received, if_pos hne]

theorem received_window (n : Nat) : (Client.program b r delivered).received (c.at (.waiting id))
    (.ok (windowFrame id n)) = c.at (.waiting id) := by
  simp only [Client.program, Client.received, Client.at, Exchange.received, windowFrame_streamId, ne_eq,
    not_true_eq_false, if_false, windowFrame_type]

theorem received_data (payload : List UInt8) : (Client.program b r delivered).received (c.at (.waiting id))
    (.ok (dataFrame id payload)) = delivered (c.at (.waiting id)) payload := by
  simp only [Client.program, Client.received, Client.at, Exchange.received, dataFrame_streamId, ne_eq,
    not_true_eq_false, if_false, dataFrame_type, dataFrame_payload]

theorem received_close : (Client.program b r delivered).received (c.at (.waiting id)) (.ok (closeFrame id)) =
    (c.at (.waiting id)).fail r.closed := by
  simp only [Client.program, Client.received, Client.at, Exchange.received, closeFrame_streamId, ne_eq,
    not_true_eq_false, if_false, closeFrame_type]

theorem client_tidies (hQ : Throughout Q c) (hleft : Left id streams frames) {stream : Stream}
    (hdrop : script.drop taken = frames ++ rest) {n : Node (Endpoint × Client) Frame}
    (hrest : Node.Path (Session.move (Client.program b r delivered)) script Q
      ⟨(clientEnd (id + 2) ((∅ : Streams).insert id stream), c.at (.waiting id)), sent, taken + frames.length⟩ n) :
    Node.Path (Session.move (Client.program b r delivered)) script Q
      ⟨(clientEnd (id + 2) (streams.insert id stream), c.at (.waiting id)), sent, taken⟩ n := by
  cases hleft with
  | nothing => exact hrest
  | @closing p st hp hst =>
    have hlook : (clientEnd (id + 2) (((∅ : Streams).insert p st).insert id stream)).streams.lookup p = some st := by
      simp [clientEnd, hp]
    refine .head (hQ _ _ _ _ ?_) (Session.step_recv demand_waiting hdrop (Endpoint.hear_closeFrame rfl hlook)) ?_
    · have h1 := card_insert_le ((∅ : Streams).insert p st) id stream
      have h2 := card_insert_empty p st
      simp only [clientEnd]
      omega
    · rw [if_pos (by simp [Stream.onRemoteClose, hst])]
      have herase : (((∅ : Streams).insert p st).insert id stream).erase p = (∅ : Streams).insert id stream := by
        refine Finmap.ext_lookup fun k => ?_
        by_cases hk : k = p
        · subst hk; simp [hp]
        · by_cases hki : k = id
          · subst hki; simp [hk]
          · simp [hk, hki]
      simp only [Endpoint.drop, clientEnd, herase, Except.map, List.append_nil]
      rw [received_other (by simpa using hp)]
      exact hrest

/-- The stream of the request when the client leaves it. -/
def answered (stream : Stream) (k : Nat) (payload : List UInt8) : Stream :=
  (stream.applyWindowIncrement (UInt32.ofNat (ofBE (StreamManager.windowPayload k)))).pushRecv payload

theorem answered_state (stream : Stream) (k : Nat) (payload : List UInt8) :
    (answered stream k payload).state = stream.state := rfl

theorem client_regains (hQ : Throughout Q c) {stream : Stream} {k : Nat}
    (hdrop : script.drop taken = windowFrame id k :: rest) {n : Node (Endpoint × Client) Frame}
    (hrest : Node.Path (Session.move (Client.program b r delivered)) script Q
      ⟨(clientEnd (id + 2) ((∅ : Streams).insert id
        (stream.applyWindowIncrement (UInt32.ofNat (ofBE (StreamManager.windowPayload k))))), c.at (.waiting id)),
        sent, taken + 1⟩ n) :
    Node.Path (Session.move (Client.program b r delivered)) script Q
      ⟨(clientEnd (id + 2) ((∅ : Streams).insert id stream), c.at (.waiting id)), sent, taken⟩ n := by
  refine .head (hQ _ _ _ _ ((card_insert_empty id stream).trans (by decide))) (Session.step_recv demand_waiting hdrop
    (Endpoint.hear_windowFrame rfl (Finmap.lookup_insert _))) ?_
  simp only [Endpoint.put, clientEnd, Finmap.insert_insert, Except.map, List.append_nil, received_window]
  exact hrest

theorem client_gets (hQ : Throughout Q c) {stream : Stream} {k : Nat} {payload : List UInt8}
    (hstate : stream.state = .HalfClosedLocal)
    (hdrop : script.drop taken = windowFrame id k :: dataFrame id payload :: rest)
    (hlast : Q ⟨(clientEnd (id + 2) ((∅ : Streams).insert id (answered stream k payload)),
      delivered (c.at (.waiting id)) payload), sent, taken + 2⟩) :
    Node.Path (Session.move (Client.program b r delivered)) script Q
      ⟨(clientEnd (id + 2) ((∅ : Streams).insert id stream), c.at (.waiting id)), sent, taken⟩
      ⟨(clientEnd (id + 2) ((∅ : Streams).insert id (answered stream k payload)),
        delivered (c.at (.waiting id)) payload), sent, taken + 2⟩ := by
  refine client_regains hQ hdrop (.head (hQ _ _ _ _ ((card_insert_empty id _).trans (by decide)))
    (Session.step_recv demand_waiting (drop_succ hdrop) (Endpoint.hear_dataFrame rfl (Finmap.lookup_insert _) ?_)) ?_)
  · show stream.state.canReceive = true
    rw [hstate]
    rfl
  · simp only [Endpoint.put, clientEnd, Finmap.insert_insert, Except.map, List.append_nil, received_data]
    exact .refl hlast

theorem client_misses (hQ : Throughout Q c) {stream : Stream} {k : Nat} (hstate : stream.state = .HalfClosedLocal)
    (hdrop : script.drop taken = windowFrame id k :: closeFrame id :: rest)
    (hlast : ∀ e, Q ⟨(e, (c.at (.waiting id)).fail r.closed), sent, taken + 2⟩) :
    Node.Path (Session.move (Client.program b r delivered)) script Q
      ⟨(clientEnd (id + 2) ((∅ : Streams).insert id stream), c.at (.waiting id)), sent, taken⟩
      ⟨((clientEnd (id + 2) ((∅ : Streams).insert id
        (stream.applyWindowIncrement (UInt32.ofNat (ofBE (StreamManager.windowPayload k)))))).drop id,
        (c.at (.waiting id)).fail r.closed), sent, taken + 2⟩ := by
  refine client_regains hQ hdrop (.head (hQ _ _ _ _ ((card_insert_empty id _).trans (by decide)))
    (Session.step_recv demand_waiting (drop_succ hdrop) (Endpoint.hear_closeFrame rfl (Finmap.lookup_insert _))) ?_)
  rw [if_pos (by simp [Stream.onRemoteClose, Stream.applyWindowIncrement, hstate]), Except.map, received_close,
    List.append_nil]
  exact .refl (hlast _)

end Client

/-! ## The server -/

section Server

variable {σ : Type} {b : Envelopes} {a : Actions σ} {Q : Node (Endpoint × Server σ) Frame → Prop}
  {script rest sent : List Frame} {taken : Nat} {store store' : σ}
  {handled : List (RequestEnvelope × ResponseEnvelope)} {request : RequestEnvelope} {response : ResponseEnvelope}
  {id : UInt32} {n : Node (Endpoint × Server σ) Frame}

/-- What holds of the server before it handles the next request. -/
def Serves (Q : Node (Endpoint × Server σ) Frame → Prop) (store : σ)
    (handled : List (RequestEnvelope × ResponseEnvelope)) (bound : Nat) : Prop :=
  ∀ e phase sent taken, (∀ r, phase ≠ .stopped r) → sent.length ≤ bound →
    Q ⟨(e, { phase, store, handled }), sent, taken⟩

theorem server_opens (hQ : Serves Q store handled sent.length) (hodd : id % 2 = 1)
    (hdrop : script.drop taken = openFrame id :: rest)
    (hrest : Node.Path (Session.move (Server.run b a)) script Q
      ⟨(serverEnd ((∅ : Streams).insert id (Stream.new id)), { phase := .listening, store, handled }), sent,
        taken + 1⟩ n) :
    Node.Path (Session.move (Server.run b a)) script Q
      ⟨(serverEnd ∅, { phase := .listening, store, handled }), sent, taken⟩ n := by
  refine .head (hQ _ _ _ _ (by simp) le_rfl)
    (Session.step_recv rfl hdrop (Endpoint.hear_openFrame rfl rfl hodd (by simp [serverEnd]))) ?_
  simpa [Endpoint.put, serverEnd, Server.run, Server.received, Except.map] using hrest

/-- The stream of a request once the server has read it. -/
def read (id : UInt32) (payload : List UInt8) : Stream :=
  { (Stream.new id).pushRecv payload with
    recvWindow := ((Stream.new id).pushRecv payload).recvWindow + payload.length, recvQueue := [] }

theorem popRecv_pushRecv (payload : List UInt8) :
    ((Stream.new id).pushRecv payload).popRecv = (some payload, read id payload) := rfl

theorem server_takes (hQ : Serves Q store handled sent.length) (hodd : id % 2 = 1) {payload : List UInt8}
    (hne : payload ≠ []) (hdrop : script.drop taken = openFrame id :: dataFrame id payload :: rest)
    (hrest : Node.Path (Session.move (Server.run b a)) script Q
      ⟨(serverEnd ((∅ : Streams).insert id (read id payload)),
        Server.handle b a { phase := .reading id, store, handled } id payload),
        sent ++ [windowFrame id payload.length], taken + 2⟩ n) :
    Node.Path (Session.move (Server.run b a)) script Q
      ⟨(serverEnd ∅, { phase := .listening, store, handled }), sent, taken⟩ n := by
  refine server_opens hQ hodd hdrop (.head (hQ _ _ _ _ (by simp) le_rfl)
    (Session.step_recv rfl (drop_succ hdrop) (Endpoint.hear_dataFrame rfl (Finmap.lookup_insert _) rfl)) ?_)
  simp only [Endpoint.put, serverEnd, Finmap.insert_insert, Server.run, Server.received, Except.map, dataFrame_type,
    dataFrame_streamId, List.append_nil]
  refine .head (hQ _ _ _ _ (by simp) le_rfl) (Session.step_call (P := Server.run b a) rfl
    (Endpoint.call_recvData rfl (Finmap.lookup_insert _) (popRecv_pushRecv _))) ?_
  have hcredit : Endpoint.credit id ((Stream.new id).pushRecv payload) payload = [windowFrame id payload.length] :=
    if_pos ⟨rfl, hne⟩
  rw [hcredit]
  simp only [Endpoint.put, Finmap.insert_insert]
  exact hrest

theorem server_reads (hround : b.RoundTrip) (hQ : Serves Q store handled sent.length) (hodd : id % 2 = 1)
    (hfits : Fits (b.request.byteSerialize request))
    (hdrop : script.drop taken = openFrame id :: dataFrame id (b.request.byteSerialize request) :: rest)
    (hhandle : a.handleRequest request store = (.ok response, store'))
    (hrest : Node.Path (Session.move (Server.run b a)) script Q
      ⟨(serverEnd ((∅ : Streams).insert id (read id (b.request.byteSerialize request))),
        ⟨.responding id (b.response.byteSerialize response), store', handled ++ [(request, response)]⟩),
        sent ++ [windowFrame id (b.request.byteSerialize request).length], taken + 2⟩ n) :
    Node.Path (Session.move (Server.run b a)) script Q
      ⟨(serverEnd ∅, { phase := .listening, store, handled }), sent, taken⟩ n := by
  refine server_takes hQ hodd hfits.1 hdrop ?_
  simp only [Server.handle, if_neg hfits.1, hround.request request hfits.lt, hhandle]
  exact hrest

theorem server_refuses (hround : b.RoundTrip) (hQ : Serves Q store handled sent.length) (hodd : id % 2 = 1)
    (hfits : Fits (b.request.byteSerialize request)) {e : TransportError}
    (hdrop : script.drop taken = openFrame id :: dataFrame id (b.request.byteSerialize request) :: rest)
    (hhandle : a.handleRequest request store = (.error e, store'))
    (hlast : Q ⟨(serverEnd ((∅ : Streams).insert id (read id (b.request.byteSerialize request))),
      ⟨.stopped (.error e), store', handled⟩), sent ++ [windowFrame id (b.request.byteSerialize request).length],
      taken + 2⟩) :
    Node.Path (Session.move (Server.run b a)) script Q
      ⟨(serverEnd ∅, { phase := .listening, store, handled }), sent, taken⟩
      ⟨(serverEnd ((∅ : Streams).insert id (read id (b.request.byteSerialize request))),
        ⟨.stopped (.error e), store', handled⟩), sent ++ [windowFrame id (b.request.byteSerialize request).length],
        taken + 2⟩ := by
  refine server_takes hQ hodd hfits.1 hdrop ?_
  simp only [Server.handle, if_neg hfits.1, hround.request request hfits.lt, hhandle]
  exact .refl hlast

variable {v : Server σ} {stream : Stream}

theorem server_closes (hQ : Serves Q v.store v.handled (sent.length + 1)) (hstate : stream.state = .Open)
    (hdrop : script.drop taken = closeFrame id :: rest) :
    Node.Path (Session.move (Server.run b a)) script Q
      ⟨(serverEnd ((∅ : Streams).insert id stream), { v with phase := .closing id }), sent, taken⟩
      ⟨(serverEnd ∅, { v with phase := .listening }), sent ++ [closeFrame id], taken + 1⟩ := by
  have hclosed : stream.onLocalClose.state = .HalfClosedLocal := by simp [Stream.onLocalClose, hstate]
  have hsent : (sent ++ [closeFrame id]).length ≤ sent.length + 1 := by simp
  refine .head (hQ _ _ _ _ (by simp) (Nat.le_succ _)) (Session.step_call (P := Server.run b a) rfl
    (Endpoint.call_closeStream rfl (Finmap.lookup_insert _) (by simp [hstate, StreamState.isClosed]))) ?_
  rw [Endpoint.afterClose, if_neg (by simp [hclosed])]
  simp only [Endpoint.put, serverEnd, Finmap.insert_insert]
  refine .head (hQ _ _ _ _ (by simp) hsent) (Session.step_call (P := Server.run b a) rfl rfl) ?_
  rw [List.append_nil]
  refine .head (hQ _ _ _ _ (by simp) hsent) (Session.step_recv rfl hdrop
    (Endpoint.hear_closeFrame rfl (Finmap.lookup_insert _))) ?_
  rw [if_pos (by simp [Stream.onRemoteClose, hclosed]), List.append_nil]
  have herase : ((∅ : Streams).insert id stream.onLocalClose).erase id = ∅ := by
    refine Finmap.ext_lookup fun k => ?_
    by_cases hk : k = id
    · subst hk; simp
    · simp [hk]
  simp only [Endpoint.drop, herase]
  exact .refl (hQ _ _ _ _ (by simp) hsent)

theorem server_answers {payload : List UInt8} (hQ : Serves Q v.store v.handled (sent.length + 2))
    (hfits : Fits payload) (hstate : stream.state = .Open) (hwin : stream.sendWindow = DEFAULT_WINDOW)
    (hdrop : script.drop taken = closeFrame id :: rest) :
    Node.Path (Session.move (Server.run b a)) script Q
      ⟨(serverEnd ((∅ : Streams).insert id stream), { v with phase := .responding id payload }), sent, taken⟩
      ⟨(serverEnd ∅, { v with phase := .listening }), sent ++ [dataFrame id payload, closeFrame id], taken + 1⟩ := by
  refine .head (hQ _ _ _ _ (by simp) (by omega)) (Session.step_call (P := Server.run b a) rfl
    (Endpoint.call_sendData rfl hfits.1 hfits.2 (Finmap.lookup_insert _) (by rw [hstate]; rfl) hwin)) ?_
  simp only [Endpoint.put, serverEnd, Finmap.insert_insert]
  rw [show [dataFrame id payload, closeFrame id] = [dataFrame id payload] ++ [closeFrame id] from rfl,
    ← List.append_assoc]
  exact server_closes (by simpa using hQ) hstate hdrop

theorem server_omits {payload : List UInt8} (hQ : Serves Q v.store v.handled (sent.length + 1))
    (hempty : payload = []) (hstate : stream.state = .Open) (hdrop : script.drop taken = closeFrame id :: rest) :
    Node.Path (Session.move (Server.run b a)) script Q
      ⟨(serverEnd ((∅ : Streams).insert id stream), { v with phase := .responding id payload }), sent, taken⟩
      ⟨(serverEnd ∅, { v with phase := .listening }), sent ++ [closeFrame id], taken + 1⟩ := by
  subst hempty
  refine .head (hQ _ _ _ _ (by simp) (by omega)) (Session.step_call (P := Server.run b a) rfl
    (Endpoint.call_sendData_nil rfl)) ?_
  rw [List.append_nil]
  exact server_closes hQ hstate hdrop

theorem server_stops {payload : List UInt8} (hQ : ∀ n, Q n) (hbig : DEFAULT_WINDOW < (payload.length : Int))
    (hstate : stream.state = .Open) (hwin : stream.sendWindow = DEFAULT_WINDOW) :
    ∃ err, Node.Path (Session.move (Server.run b a)) script Q
      ⟨(serverEnd ((∅ : Streams).insert id stream), { v with phase := .responding id payload }), sent, taken⟩
      ⟨(serverEnd ((∅ : Streams).insert id stream), { v with phase := .stopped (.error err) }), sent, taken⟩ := by
  obtain ⟨err, hcall⟩ := Endpoint.call_sendData_refused (e := serverEnd ((∅ : Streams).insert id stream)) rfl hbig
    (Finmap.lookup_insert _) (by rw [hstate]; rfl) hwin
  refine ⟨err, .head (hQ _) (Session.step_call (P := Server.run b a) rfl hcall) ?_⟩
  rw [List.append_nil]
  exact .refl (hQ _)

end Server

end TrenchDb.Rpc
