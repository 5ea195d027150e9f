import TrenchDb.Rpc.Rounds

/-!
# Exchanges that fail

If the stream ids are used up, or a request or a response does not fit, the exchange comes to an end
in which the client has no response.
-/

open TrenchDb.Lib.Channels TrenchDb.Transport

namespace TrenchDb.Rpc

section Stopped

variable {σ : Type} {b : Envelopes} {a : Actions σ} {r : Refusals} {delivered : Client → List UInt8 → Client}
  {QC : Node (Endpoint × Client) Frame → Prop} {c : Client} {store store' : σ}
  {handled : List (RequestEnvelope × ResponseEnvelope)} {request : RequestEnvelope} {response : ResponseEnvelope}
  {id : UInt32} {streams : Streams} {frames sentC sentS : List Frame} {takenC : Nat}

/-- A node at rest against all that its peer has sent. -/
def AtRest {π : Type} (P : Program π) (script : List Frame) (n : Node (Endpoint × π) Frame) : Prop :=
  P.demand n.state.2 = .gone ∨ P.demand n.state.2 = .idle ∨
    P.demand n.state.2 = .recvFrame ∧ script.drop n.taken = []

theorem ends_pair {client : Program Client} {c' : Node (Endpoint × Client) Frame}
    {v' : Node (Endpoint × Server σ) Frame} (hc : AtRest client v'.sent c')
    (hv : AtRest (Server.run b a) c'.sent v') : Session.Ends (programs client b a) (pair c' v') := by
  intro x
  cases x with
  | Initiator => rcases hc with h | h | ⟨h, hdrop⟩ <;> simp only [programs, pair, h, Role.peer]; exact hdrop
  | Acceptor => rcases hv with h | h | ⟨h, hdrop⟩ <;> simp only [programs, pair, h, Role.peer]; exact hdrop

/-- Whatever its phase and its endpoint, the client has `Q`. -/
def Stays (Q : Node (Endpoint × Client) Frame → Prop) (c : Client) : Prop :=
  ∀ e phase sent taken, Q ⟨(e, { c with phase }), sent, taken⟩

theorem Stays.throughout (h : Stays QC c) : Throughout QC c := fun e x sent taken _ => h e (.exchanging x) sent taken

theorem client_fails {script sent : List Frame} {e : Endpoint} {err : ClientError} {taken : Nat} :
    AtRest (Client.program b r delivered) script ⟨(e, c.fail err), sent, taken⟩ := .inl rfl

/-- The exchange comes to rest, and the client has `QC` all the way. -/
def Stops (b : Envelopes) (a : Actions σ) (r : Refusals) (delivered : Client → List UInt8 → Client)
    (QC : Node (Endpoint × Client) Frame → Prop) (c : Node (Endpoint × Client) Frame)
    (v : Node (Endpoint × Server σ) Frame) : Prop :=
  ∃ c' v', Passes (Client.program b r delivered) b a QC (fun _ => True) c v c' v' ∧
    Session.Ends (programs (Client.program b r delivered) b a) (pair c' v')

theorem Passes.stops {c c' : Node (Endpoint × Client) Frame} {v v' : Node (Endpoint × Server σ) Frame}
    (h : Passes (Client.program b r delivered) b a QC (fun _ => True) c v c' v')
    (h' : Stops b a r delivered QC c' v') : Stops b a r delivered QC c v := by
  obtain ⟨c'', v'', hpass, hends⟩ := h'
  exact ⟨c'', v'', h.trans hpass, hends⟩

theorem stops_exhausted (hQC : Stays QC c) (hc : c.todo.head? = some request) (hid : ¬ id.toNat + 2 < 2 ^ 32) :
    Stops b a r delivered QC ⟨(clientEnd id streams, c.at .opening), sentC, takenC⟩
      ⟨(serverEnd ∅, ⟨.listening, store, handled⟩), sentS, sentC.length⟩ := by
  have hpath : Node.Path (Session.move (Client.program b r delivered)) sentS QC
      ⟨(clientEnd id streams, c.at .opening), sentC, takenC⟩
      ⟨(clientEnd id streams, c.fail (.transport .StreamIdExhausted)), sentC ++ [], takenC⟩ :=
    .head (hQC _ _ _ _) (Session.step_call (demand_at hc .opening) (Endpoint.call_openStream_exhausted rfl hid))
      (.refl (hQC _ _ _ _))
  refine ⟨_, _, passes_client hpath trivial, ends_pair client_fails ?_⟩
  exact .inr (.inr ⟨rfl, by simp⟩)

theorem serves_true {bound : Nat} : Serves (σ := σ) (fun _ => True) store handled bound := fun _ _ _ _ _ _ => trivial

theorem client_waits (hQC : Stays QC c) (h : Between id streams frames sentS takenC) {script rest : List Frame}
    (hdrop : script.drop takenC = frames ++ rest) {stream : Stream} {sent : List Frame}
    {n : Node (Endpoint × Client) Frame} (hrest : Node.Path (Session.move (Client.program b r delivered)) script QC
      ⟨(clientEnd (id + 2) ((∅ : Streams).insert id stream), c.at (.waiting id)), sent, sentS.length⟩ n) :
    Node.Path (Session.move (Client.program b r delivered)) script QC
      ⟨(clientEnd (id + 2) (streams.insert id stream), c.at (.waiting id)), sent, takenC⟩ n := by
  refine client_tidies hQC.throughout h.left hdrop ?_
  rw [h.taken]
  exact hrest

theorem stops_unsent (hQC : Stays QC c) (hc : c.todo.head? = some request)
    (h : Between id streams frames sentS takenC) (hid : id.toNat + 2 < 2 ^ 32)
    (hempty : b.request.byteSerialize request = []) :
    Stops b a r delivered QC ⟨(clientEnd id streams, c.at .opening), sentC, takenC⟩
      ⟨(serverEnd ∅, ⟨.listening, store, handled⟩), sentS, sentC.length⟩ := by
  have hasks : Node.Path (Session.move (Client.program b r delivered)) sentS QC
      ⟨(clientEnd id streams, c.at .opening), sentC, takenC⟩
      ⟨(clientEnd (id + 2) (streams.insert id (Stream.new id).onLocalClose), c.at (.waiting id)),
        sentC ++ [openFrame id, closeFrame id], takenC⟩ := by
    refine client_opens hQC.throughout hc h.left.card_le hid (.head (hQC _ _ _ _) (Session.step_call (demand_at hc _)
      (by rw [hempty]; exact Endpoint.call_sendData_nil rfl)) ?_)
    simp only [replied_at, Exchange.replied, List.append_nil]
    refine .head (hQC _ _ _ _) (Session.step_call (demand_at hc _)
      (Endpoint.call_closeStream rfl (Finmap.lookup_insert _) rfl)) ?_
    rw [Endpoint.afterClose, if_neg (by simp [Stream.onLocalClose, Stream.new])]
    simp only [replied_at, Exchange.replied, Endpoint.put, clientEnd, Finmap.insert_insert]
    refine .head (hQC _ _ _ _) (Session.step_call (demand_at hc _) rfl) ?_
    simp only [replied_at, Exchange.replied, List.append_assoc, List.append_nil, List.cons_append, List.nil_append]
    exact .refl (hQC _ _ _ _)
  have hdrop : (sentC ++ [openFrame id, closeFrame id]).drop sentC.length = [openFrame id, closeFrame id] :=
    List.drop_left
  have hserves : Node.Path (Session.move (Server.run b a)) (sentC ++ [openFrame id, closeFrame id]) (fun _ => True)
      ⟨(serverEnd ∅, ⟨.listening, store, handled⟩), sentS, sentC.length⟩
      ⟨(serverEnd ((∅ : Streams).insert id (Stream.new id).onRemoteClose), ⟨.listening, store, handled⟩), sentS,
        sentC.length + 2⟩ := by
    refine server_opens serves_true h.odd hdrop (.head trivial (Session.step_recv rfl (drop_succ hdrop)
      (Endpoint.hear_closeFrame rfl (Finmap.lookup_insert _))) ?_)
    rw [if_neg (by simp [Stream.onRemoteClose, Stream.new])]
    simp only [Endpoint.put, serverEnd, Finmap.insert_insert, List.append_nil]
    exact .refl trivial
  have hinbox : sentS.drop takenC = frames ++ [] := by rw [h.inbox, List.append_nil]
  refine ⟨_, _, (passes_client hasks trivial).trans ((passes_server hserves (hQC _ _ _ _)).trans
    (passes_client (client_waits hQC h hinbox (.refl (hQC _ _ _ _))) trivial)), ends_pair ?_ ?_⟩
  · exact .inr (.inr ⟨rfl, List.drop_length⟩)
  · exact .inr (.inr ⟨rfl, by simp⟩)

theorem stops_refused (hQC : Stays QC c) (hc : c.todo.head? = some request)
    (h : Between id streams frames sentS takenC) (hid : id.toNat + 2 < 2 ^ 32)
    (hbig : DEFAULT_WINDOW < ((b.request.byteSerialize request).length : Int)) :
    Stops b a r delivered QC ⟨(clientEnd id streams, c.at .opening), sentC, takenC⟩
      ⟨(serverEnd ∅, ⟨.listening, store, handled⟩), sentS, sentC.length⟩ := by
  obtain ⟨err, hcall⟩ := Endpoint.call_sendData_refused (e := clientEnd (id + 2) (streams.insert id (Stream.new id)))
    rfl hbig (Finmap.lookup_insert _) rfl rfl
  have hasks : Node.Path (Session.move (Client.program b r delivered)) sentS QC
      ⟨(clientEnd id streams, c.at .opening), sentC, takenC⟩
      ⟨(clientEnd (id + 2) (streams.insert id (Stream.new id)), c.fail (.transport err)),
        sentC ++ [openFrame id], takenC⟩ := by
    refine client_opens hQC.throughout hc h.left.card_le hid (.head (hQC _ _ _ _)
      (Session.step_call (demand_at hc _) hcall) ?_)
    rw [List.append_nil]
    exact .refl (hQC _ _ _ _)
  have hserves : Node.Path (Session.move (Server.run b a)) (sentC ++ [openFrame id]) (fun _ => True)
      ⟨(serverEnd ∅, ⟨.listening, store, handled⟩), sentS, sentC.length⟩
      ⟨(serverEnd ((∅ : Streams).insert id (Stream.new id)), ⟨.listening, store, handled⟩), sentS,
        sentC.length + 1⟩ :=
    server_opens serves_true h.odd List.drop_left (.refl trivial)
  refine ⟨_, _, (passes_client hasks trivial).trans (passes_server hserves (hQC _ _ _ _)), ends_pair client_fails ?_⟩
  exact .inr (.inr ⟨rfl, by simp⟩)

theorem stops_omitted (hround : b.RoundTrip) (hQC : Stays QC c) (hc : c.todo.head? = some request)
    (h : Between id streams frames sentS takenC) (hid : id.toNat + 2 < 2 ^ 32)
    (hreq : Fits (b.request.byteSerialize request)) (hhandle : a.handleRequest request store = (.ok response, store'))
    (hempty : b.response.byteSerialize response = []) :
    Stops b a r delivered QC ⟨(clientEnd id streams, c.at .opening), sentC, takenC⟩
      ⟨(serverEnd ∅, ⟨.listening, store, handled⟩), sentS, sentC.length⟩ := by
  have hdrop : (sentC ++ [openFrame id, dataFrame id (b.request.byteSerialize request), closeFrame id]).drop
      sentC.length = [openFrame id, dataFrame id (b.request.byteSerialize request), closeFrame id] := List.drop_left
  have hbefore : Serves (fun _ => True) store handled sentS.length := serves_true
  have hserves := server_reads hround hbefore h.odd hreq hdrop hhandle (server_omits
    (v := ⟨.listening, store', handled ++ [(request, response)]⟩) serves_true hempty rfl
    (drop_succ (drop_succ hdrop)))
  simp only [List.append_assoc, List.cons_append, List.nil_append] at hserves
  have hgets : (sentS ++ [windowFrame id (b.request.byteSerialize request).length, closeFrame id]).drop
      sentS.length = [windowFrame id (b.request.byteSerialize request).length, closeFrame id] := List.drop_left
  refine ⟨_, _, (exchange_asks hQC.throughout trivial hc h hid hreq).trans ((passes_server hserves (hQC _ _ _ _)).trans
    (passes_client (client_waits hQC h (h.more _) (client_misses hQC.throughout rfl hgets fun _ => hQC _ _ _ _))
      trivial)), ends_pair client_fails ?_⟩
  exact .inr (.inr ⟨rfl, by simp⟩)

theorem stops_stopped (hround : b.RoundTrip) (hQC : Stays QC c) (hc : c.todo.head? = some request)
    (h : Between id streams frames sentS takenC) (hid : id.toNat + 2 < 2 ^ 32)
    (hreq : Fits (b.request.byteSerialize request)) (hhandle : a.handleRequest request store = (.ok response, store'))
    (hbig : DEFAULT_WINDOW < ((b.response.byteSerialize response).length : Int)) :
    Stops b a r delivered QC ⟨(clientEnd id streams, c.at .opening), sentC, takenC⟩
      ⟨(serverEnd ∅, ⟨.listening, store, handled⟩), sentS, sentC.length⟩ := by
  have hdrop : (sentC ++ [openFrame id, dataFrame id (b.request.byteSerialize request), closeFrame id]).drop
      sentC.length = [openFrame id, dataFrame id (b.request.byteSerialize request), closeFrame id] := List.drop_left
  obtain ⟨v', hserves, hstopped, hsent⟩ : ∃ v', Node.Path (Session.move (Server.run b a))
      (sentC ++ [openFrame id, dataFrame id (b.request.byteSerialize request), closeFrame id]) (fun _ => True)
      ⟨(serverEnd ∅, ⟨.listening, store, handled⟩), sentS, sentC.length⟩ v' ∧
      (Server.run b a).demand v'.state.2 = .gone ∧
      v'.sent = sentS ++ [windowFrame id (b.request.byteSerialize request).length] := by
    obtain ⟨err, hstops⟩ := @server_stops σ b a (fun _ => True) _ _ _ id
      ⟨.listening, store', handled ++ [(request, response)]⟩ (read id (b.request.byteSerialize request)) _
      (fun _ => trivial) hbig rfl rfl
    exact ⟨_, server_reads hround serves_true h.odd hreq hdrop hhandle hstops, rfl, rfl⟩
  have hgets : (sentS ++ [windowFrame id (b.request.byteSerialize request).length]).drop sentS.length =
      [windowFrame id (b.request.byteSerialize request).length] := List.drop_left
  refine ⟨_, _, (exchange_asks hQC.throughout trivial hc h hid hreq).trans ((passes_server hserves (hQC _ _ _ _)).trans
    (passes_client (client_waits hQC h (by rw [hsent]; exact h.more _) (client_regains hQC.throughout
      (by rw [hsent]; exact hgets) (.refl (hQC _ _ _ _)))) trivial)), ends_pair ?_ (.inl hstopped)⟩
  exact .inr (.inr ⟨rfl, by simp [hsent]⟩)

/-- What a request and its response need for the exchange to succeed. -/
def Passable (b : Envelopes) (request : RequestEnvelope) (response : ResponseEnvelope) : Prop :=
  Fits (b.request.byteSerialize request) ∧ Fits (b.response.byteSerialize response)

instance (request : RequestEnvelope) (response : ResponseEnvelope) : Decidable (Passable b request response) := by
  unfold Passable
  infer_instance

theorem not_fits {payload : List UInt8} (h : ¬ Fits payload) :
    payload = [] ∨ DEFAULT_WINDOW < (payload.length : Int) := by
  rcases eq_or_ne payload [] with hnil | hne
  · exact .inl hnil
  · exact .inr (not_le.mp fun hle => h ⟨hne, hle⟩)

theorem exchange_stops (hround : b.RoundTrip) (hQC : Stays QC c) (hc : c.todo.head? = some request)
    (h : Between id streams frames sentS takenC)
    (hstop : ¬ id.toNat + 2 < 2 ^ 32 ∨ ¬ Fits (b.request.byteSerialize request) ∨ ∃ response store',
      a.handleRequest request store = (.ok response, store') ∧ ¬ Fits (b.response.byteSerialize response)) :
    Stops b a r delivered QC ⟨(clientEnd id streams, c.at .opening), sentC, takenC⟩
      ⟨(serverEnd ∅, ⟨.listening, store, handled⟩), sentS, sentC.length⟩ := by
  by_cases hid : id.toNat + 2 < 2 ^ 32
  · by_cases hreq : Fits (b.request.byteSerialize request)
    · obtain ⟨response, store', hhandle, hresp⟩ :=
        (hstop.resolve_left (not_not.mpr hid)).resolve_left (not_not.mpr hreq)
      rcases not_fits hresp with hempty | hbig
      · exact stops_omitted hround hQC hc h hid hreq hhandle hempty
      · exact stops_stopped hround hQC hc h hid hreq hhandle hbig
    · rcases not_fits hreq with hempty | hbig
      · exact stops_unsent hQC hc h hid hempty
      · exact stops_refused hQC hc h hid hbig
  · exact stops_exhausted hQC hc hid

end Stopped

end TrenchDb.Rpc
