import TrenchDb.Rpc.Pipeline

/-!
# The run of pipelined requests

However the bytes of a script arrive, the server writes the answers that `answersTo` says, and every run
can be brought to its end.
-/

open TrenchDb.Lib.Lts TrenchDb.Transport

namespace TrenchDb.Rpc

/-! ## The invariant of a run -/

/-- What the server has of a stream in each stage. -/
def Stage.Holds (s : UInt32) : Stage → Option Stream → Prop
  | .unopened, held => held = none
  | .opened, held => held = some (Stream.new s)
  | .requested, held => ∃ stream, held = some stream
  | .closed, _ => True

section Progress

variable {σ : Type} {b : Envelopes} {a : Actions σ}

/-- The answers that the server has still to send, when these requests are still to arrive. -/
inductive Owes (b : Envelopes) (a : Actions σ) (streams : Streams) (rest : List (UInt32 × List UInt8))
    (v : Server σ) : List Frame → Prop
  | listening : v.phase = .listening → Owes b a streams rest v (answersTo b a rest v.store)
  | reading {s : UInt32} {payload : List UInt8} : v.phase = .reading s →
      streams.lookup s = some ((Stream.new s).pushRecv payload) →
      Owes b a streams rest v (answersTo b a ((s, payload) :: rest) v.store)
  | responding {s : UInt32} {response : List UInt8} {stream : Stream} : v.phase = .responding s response →
      streams.lookup s = some stream → stream.state = .Open → stream.sendWindow = DEFAULT_WINDOW →
      Owes b a streams rest v (replies b a s response rest v.store)
  | closing {s : UInt32} {stream : Stream} : v.phase = .closing s → streams.lookup s = some stream →
      stream.state = .Open → Owes b a streams rest v (closeFrame s :: answersTo b a rest v.store)
  | flushing : v.phase = .flushing → Owes b a streams rest v (answersTo b a rest v.store)

/-- Between `Data` and `flush` an answer may be buffered. -/
def Serving.Written (m : StreamManager) : Serving → Prop
  | .listening | .reading _ => m.conn.writeBuffer = []
  | .responding _ _ | .stopped _ => AnswersWritten m
  | .closing _ | .flushing => True

/-- The stream whose request is served. -/
def Serving.stream? : Serving → Option UInt32
  | .reading s | .responding s _ | .closing s => some s
  | .listening | .flushing | .stopped _ => none

/-- The server goes on, and the rest of the script is to come. -/
structure Busy (b : Envelopes) (a : Actions σ) (total : List Frame) (stages : UInt32 → Stage) (script : List Sent)
    (x : Fed σ) : Prop where
  sound : x.service.manager.Sound
  established : x.service.manager.handshakeState = .Established
  acceptor : x.service.manager.role = .Acceptor
  valid : Pipelined stages script
  bytes : x.service.manager.conn.readBuffer ++ x.unread = (script.map Sent.frame).flatMap Frame.wire
  held : ∀ s, (stages s).Holds s (x.service.manager.streams.lookup s)
  served : ∀ s, x.service.server.phase.stream? = some s → stages s = .requested
  owes : ∃ owed, Owes b a x.service.manager.streams (requests script) x.service.server owed ∧
    x.service.answers ++ owed = total
  written : x.service.server.phase.Written x.service.manager

/-- The handshake is to come. -/
structure Greeting (b : Envelopes) (a : Actions σ) (total : List Frame) (script : List Sent) (x : Fed σ) : Prop where
  sound : x.service.manager.Sound
  endpoint : x.service.manager.endpoint = .new .Acceptor
  phase : x.service.server.phase = .listening
  valid : Pipelined (fun _ => .unopened) script
  bytes : x.service.manager.conn.readBuffer ++ x.unread = (pipelined script).flatMap Frame.wire
  answers : x.service.answers = []
  total_eq : answersTo b a (requests script) x.service.server.store = total
  empty : x.service.manager.conn.writeBuffer = []

/-- `run` has returned. -/
structure Returned (total : List Frame) (x : Fed σ) : Prop where
  sound : x.service.manager.Sound
  stopped : ∃ r, x.service.server.phase = .stopped r
  answers : x.service.answers = total
  written : AnswersWritten x.service.manager

inductive Progress (b : Envelopes) (a : Actions σ) (total : List Frame) (x : Fed σ) : Prop
  | greeting (script : List Sent) : Greeting b a total script x → Progress b a total x
  | busy (stages : UInt32 → Stage) (script : List Sent) : Busy b a total stages script x → Progress b a total x
  | returned : Returned total x → Progress b a total x

variable {total : List Frame} {stages : UInt32 → Stage} {script : List Sent} {x x' : Fed σ} {ev : Event}
  {chunks : List (List UInt8)} {rest : List UInt8} {r : Option (Except TransportError Frame)} {m : StreamManager}
  {s : UInt32} {payload : List UInt8} {f : Frame} {result : Except TransportError Unit}

/-! ### Frames of the client -/

theorem frame_valid (h : Pipelined stages script) : ∀ f ∈ script.map Sent.frame, f.Valid := by
  induction script generalizing stages with
  | nil => exact nofun
  | cons x script ih =>
    rw [List.map_cons]
    refine List.forall_mem_cons.mpr ?_
    cases x with
    | opens s => exact ⟨openFrame_valid s, ih h.2.2⟩
    | request s payload => exact ⟨dataFrame_valid s h.1, ih h.2.2⟩
    | closes s => exact ⟨closeFrame_valid s, ih h.2⟩

theorem dispatch_hears (hsound : m.Sound) (hvalid : f.Valid) (buffer : List UInt8) {outs : List Frame} {e : Endpoint}
    (hhear : m.endpoint.hear f = some (.ok (), outs, e)) :
    ∃ m', { m with conn := { m.conn with readBuffer := buffer } }.dispatch f = (.ok (), m') ∧ m'.endpoint = e ∧
      m'.Sound ∧ m'.emitted = m.emitted ++ outs ∧ m'.conn.readBuffer = buffer := by
  have hread := hsound.of_read buffer
  obtain ⟨outs', hrec, hsends, hv⟩ := StreamManager.dispatch_receives hread.settled hvalid
  obtain ⟨hr, rfl, he⟩ := hrec.hear_eq hhear
  obtain ⟨hsound', hemit⟩ := hread.sends hv hsends
  exact ⟨_, Prod.ext hr rfl, he, hsound', hemit, hsends.readBuffer_eq⟩

theorem Owes.of_listening {streams : Streams} {requests : List (UInt32 × List UInt8)} {v : Server σ}
    {owed : List Frame} (h : Owes b a streams requests v owed) (hp : v.phase = .listening) :
    owed = answersTo b a requests v.store := by
  cases h <;> simp_all

theorem listening_of_demand {v : Server σ} (h : v.demand = .recvFrame) : v.phase = .listening := by
  unfold Server.demand at h
  cases hp : v.phase <;> simp_all

theorem Busy.hears {y : Sent} {e : Endpoint} {v : Server σ} {stages' : UInt32 → Stage} {buffer : List UInt8}
    (h : Busy b a total stages (y :: script) x) (hp : x.service.server.phase = .listening)
    (hhear : x.service.manager.endpoint.hear y.frame = some (.ok (), [], e))
    (hdispatch : ({ x.service.manager with
      conn := { x.service.manager.conn with readBuffer := buffer } }.dispatch y.frame).2 = m)
    (hbytes : buffer ++ rest = (script.map Sent.frame).flatMap Frame.wire) (hempty : m.conn.writeBuffer = [])
    (hvalid : Pipelined stages' script) (hest : e.handshakeState = .Established) (hrole : e.role = .Acceptor)
    (hheld : ∀ s, (stages' s).Holds s (e.streams.lookup s))
    (howes : Owes b a e.streams (requests script) v (answersTo b a (requests (y :: script)) x.service.server.store))
    (hphase : v.phase = .listening ∨ ∃ s, v.phase = .reading s ∧ stages' s = .requested) :
    Busy b a total stages' script ⟨x.service.next m v, rest⟩ := by
  have hframe : y.frame.Valid := frame_valid h.valid _ List.mem_cons_self
  obtain ⟨m', heq, rfl, hsound, hemit, hread⟩ := dispatch_hears h.sound hframe buffer hhear
  obtain rfl : m' = m := by rw [← hdispatch, heq]
  obtain ⟨owed, howed, htotal⟩ := h.owes
  rw [howed.of_listening hp] at htotal
  refine ⟨hsound, hest, hrole, hvalid, by rw [← hbytes]; simp only [Service.next, hread], hheld, fun s hs => ?_,
    ⟨_, howes, ?_⟩, ?_⟩
  · rcases hphase with hphase | ⟨s', hphase, hstage⟩ <;> simp only [Service.next, hphase, Serving.stream?] at hs
    · cases hs
    · rw [← Option.some.inj hs]
      exact hstage
  · rw [← htotal]
    simp only [Service.answers, Service.next, hemit, List.append_nil]
  · rcases hphase with hphase | ⟨s, hphase, -⟩ <;> simp only [Service.next, hphase, Serving.Written, hempty]

theorem holds_update {streams streams' : Streams} {stage : Stage}
    (hheld : ∀ k, (stages k).Holds k (streams.lookup k)) (hself : stage.Holds s (streams'.lookup s))
    (hothers : ∀ k, k ≠ s → streams'.lookup k = streams.lookup k) :
    ∀ k, (Function.update stages s stage k).Holds k (streams'.lookup k) :=
  (Function.forall_update_iff stages fun k stage => stage.Holds k (streams'.lookup k)).mpr
    ⟨hself, fun k hne => by rw [hothers k hne]; exact hheld k⟩

theorem Busy.arrives {y : Sent} {buffer : List UInt8} (h : Busy b a total stages (y :: script) x)
    (hp : x.service.server.phase = .listening) (hbytes : buffer ++ rest = (script.map Sent.frame).flatMap Frame.wire)
    (hdispatch : { x.service.manager with conn := { x.service.manager.conn with readBuffer := buffer } }.dispatch
      y.frame = (result, m)) (hempty : m.conn.writeBuffer = []) :
    Progress b a total ⟨x.service.next m ((Server.run b a).heard x.service.server
      (some (result.map fun _ => y.frame))), rest⟩ := by
  have hestablished : x.service.manager.endpoint.handshakeState = .Established := h.established
  have hframe : y.frame.Valid := frame_valid h.valid _ List.mem_cons_self
  have hok : ∀ {outs : List Frame} {e : Endpoint}, x.service.manager.endpoint.hear y.frame = some (.ok (), outs, e) →
      result = .ok () := by
    intro outs e hhear
    obtain ⟨m', heq, -⟩ := dispatch_hears h.sound hframe buffer hhear
    rw [hdispatch] at heq
    exact congrArg Prod.fst heq
  have hsnd := congrArg Prod.snd hdispatch
  cases y with
  | opens s =>
    obtain ⟨hodd, hstage, hvalid⟩ := h.valid
    have hheld := h.held s
    rw [hstage] at hheld
    have hhear := Endpoint.hear_openFrame hestablished h.acceptor hodd hheld
    obtain rfl := hok hhear
    refine .busy _ _ (h.hears hp hhear hsnd hbytes hempty hvalid h.established h.acceptor ?_ (.listening hp) (.inl hp))
    exact holds_update h.held (Finmap.lookup_insert _) fun k hne => Finmap.lookup_insert_of_ne _ hne
  | request s payload =>
    obtain ⟨-, hstage, hvalid⟩ := h.valid
    have hheld := h.held s
    rw [hstage] at hheld
    have hhear := @Endpoint.hear_dataFrame _ _ payload _ hestablished hheld rfl
    obtain rfl := hok hhear
    refine .busy _ _ (h.hears hp hhear hsnd hbytes hempty hvalid h.established h.acceptor ?_
      (.reading rfl (Finmap.lookup_insert _)) (.inr ⟨s, rfl, Function.update_self ..⟩))
    exact holds_update h.held ⟨_, Finmap.lookup_insert _⟩ fun k hne => Finmap.lookup_insert_of_ne _ hne
  | closes s =>
    obtain ⟨hstage, hvalid⟩ := h.valid
    have hheld := h.held s
    rw [hstage] at hheld
    obtain ⟨stream, hlookup⟩ := hheld
    have hhear := Endpoint.hear_closeFrame hestablished hlookup
    obtain rfl := hok hhear
    refine .busy _ _ (h.hears hp hhear hsnd hbytes hempty hvalid ?_ ?_ ?_ (.listening hp) (.inl hp))
    · split_ifs
      · exact h.established
      · exact h.established
    · split_ifs
      · exact h.acceptor
      · exact h.acceptor
    · refine holds_update h.held trivial fun k hne => ?_
      split_ifs
      · exact Finmap.lookup_erase_ne hne
      · exact Finmap.lookup_insert_of_ne _ hne

theorem Busy.recv (h : Busy b a total stages script x) (hd : x.service.server.demand = .recvFrame)
    (hne : ∀ chunk ∈ chunks, chunk ≠ []) (hunread : x.unread = chunks.flatten ++ rest)
    (hrecv : x.service.manager.recvFrame (chunks.map .ok) = (r, m, [])) :
    Progress b a total ⟨x.service.next m ((Server.run b a).heard x.service.server r), rest⟩ := by
  have hp := listening_of_demand hd
  have hbytes := h.bytes
  rw [hunread, ← List.append_assoc] at hbytes
  have hwritten := h.written
  simp only [hp, Serving.Written] at hwritten
  have hempty := StreamManager.recvFrame_empty h.sound.settled hwritten (chunks.map .ok)
  rw [hrecv] at hempty
  rcases StreamManager.recvFrame_frames (frame_valid h.valid) hne hbytes hrecv with
    ⟨rfl, rfl⟩ | ⟨f, fs, buffer, hscript, hrest, rfl, rfl⟩
  · -- The frame is not complete yet.
    refine .busy stages script
      ⟨h.sound.of_read _, h.established, h.acceptor, h.valid, hbytes, h.held, h.served, h.owes, ?_⟩
    simp only [Program.heard, Service.next, hp, Serving.Written, hwritten]
  · cases script with
    | nil => cases hscript
    | cons y script =>
      obtain ⟨rfl, rfl⟩ := List.cons.inj hscript
      exact h.arrives hp hrest rfl hempty

theorem Greeting.recv (h : Greeting b a total script x) (hne : ∀ chunk ∈ chunks, chunk ≠ [])
    (hunread : x.unread = chunks.flatten ++ rest)
    (hrecv : x.service.manager.recvFrame (chunks.map .ok) = (r, m, [])) :
    Progress b a total ⟨x.service.next m ((Server.run b a).heard x.service.server r), rest⟩ := by
  have hbytes := h.bytes
  rw [hunread, ← List.append_assoc] at hbytes
  have hempty := StreamManager.recvFrame_empty h.sound.settled h.empty (chunks.map .ok)
  rw [hrecv] at hempty
  have hvalid : ∀ f ∈ pipelined script, f.Valid := List.forall_mem_cons.mpr ⟨helloFrame_valid, frame_valid h.valid⟩
  rcases StreamManager.recvFrame_frames hvalid hne hbytes hrecv with
    ⟨rfl, rfl⟩ | ⟨f, fs, buffer, hscript, hrest, rfl, rfl⟩
  · exact .greeting script ⟨h.sound.of_read _, h.endpoint, h.phase, h.valid, hbytes, h.answers, h.total_eq,
      h.empty⟩
  · obtain ⟨rfl, rfl⟩ := List.cons.inj hscript
    have hhear : x.service.manager.endpoint.hear helloFrame =
        some (.ok (), [welcomeFrame], { Endpoint.new .Acceptor with handshakeState := .Established }) := by
      rw [h.endpoint]
      rfl
    obtain ⟨m, heq, hendpoint, hsound, hemit, hread⟩ :=
      dispatch_hears h.sound helloFrame_valid buffer hhear
    rw [heq] at hempty ⊢
    have hstreams : m.streams = ∅ := congrArg Endpoint.streams hendpoint
    refine .busy (fun _ => .unopened) script ⟨hsound, congrArg Endpoint.handshakeState hendpoint,
      congrArg Endpoint.role hendpoint, h.valid, by rw [← hrest]; simp only [Service.next, hread], fun s => ?_,
      fun s hs => ?_, ⟨_, .listening h.phase, ?_⟩, ?_⟩
    · simp only [Service.next, hstreams]
      rfl
    · simp only [Service.next, Except.map, Program.heard, Server.run, Server.received, helloFrame_type, h.phase,
        Serving.stream?] at hs
      cases hs
    · have hanswers := h.answers
      simp only [Service.answers, Service.next, hemit, List.filter_append] at hanswers ⊢
      rw [hanswers, ← h.total_eq]
      rfl
    · simp only [Service.next, Except.map, Program.heard, Server.run, Server.received, helloFrame_type, h.phase,
        Serving.Written]
      exact hempty

/-! ### Calls of the server -/

theorem performs (hsound : m.Sound) {c : Call} {reply : Reply} {outs : List Frame} {e : Endpoint}
    (hcall : m.endpoint.call c = some (reply, outs, e)) :
    ∃ m', m.perform c = (reply, m') ∧ m'.endpoint = e ∧ m'.Sound ∧ m'.emitted = m.emitted ++ outs ∧
      m'.conn.readBuffer = m.conn.readBuffer ∧ m.conn.Sends (outs.flatMap Frame.wire) m'.conn := by
  obtain ⟨m', heq, hendpoint, hsends, hv⟩ := StreamManager.call_does hsound.settled hcall
  obtain ⟨hsound', hemit⟩ := hsound.sends hv hsends
  exact ⟨m', heq, hendpoint, hsound', hemit, hsends.readBuffer_eq, hsends⟩

theorem credit_no_answer (s : UInt32) (stream : Stream) (payload : List UInt8) :
    (Endpoint.credit s stream payload).filter isAnswer = [] := by
  unfold Endpoint.credit
  split_ifs <;> rfl

theorem Busy.put {stream : Stream} (h : Busy b a total stages script x) (hstage : stages s = .requested)
    (hendpoint : m.endpoint = x.service.manager.endpoint.put s stream) :
    m.handshakeState = .Established ∧ m.role = .Acceptor ∧ m.streams.lookup s = some stream ∧
      ∀ k, (stages k).Holds k (m.streams.lookup k) := by
  have hstreams : m.streams = x.service.manager.streams.insert s stream := congrArg Endpoint.streams hendpoint
  have hlookup : m.streams.lookup s = some stream := by rw [hstreams]; exact Finmap.lookup_insert _
  refine ⟨(congrArg Endpoint.handshakeState hendpoint).trans h.established,
    (congrArg Endpoint.role hendpoint).trans h.acceptor, hlookup, fun k => ?_⟩
  by_cases hk : k = s
  · rw [hk, hstage, hlookup]
    exact ⟨stream, rfl⟩
  · rw [hstreams, Finmap.lookup_insert_of_ne _ hk]
    exact h.held k

theorem Busy.same (h : Busy b a total stages script x) (hendpoint : m.endpoint = x.service.manager.endpoint) :
    m.handshakeState = .Established ∧ m.role = .Acceptor ∧ m.streams = x.service.manager.streams ∧
      ∀ k, (stages k).Holds k (m.streams.lookup k) := by
  have hstreams : m.streams = x.service.manager.streams := congrArg Endpoint.streams hendpoint
  exact ⟨(congrArg Endpoint.handshakeState hendpoint).trans h.established,
    (congrArg Endpoint.role hendpoint).trans h.acceptor, hstreams, hstreams ▸ h.held⟩

theorem Busy.after {v : Server σ} {owed : List Frame} (h : Busy b a total stages script x) (hsound : m.Sound)
    (hread : m.conn.readBuffer = x.service.manager.conn.readBuffer) (hest : m.handshakeState = .Established)
    (hrole : m.role = .Acceptor) (hheld : ∀ k, (stages k).Holds k (m.streams.lookup k))
    (hserved : ∀ k, v.phase.stream? = some k → stages k = .requested)
    (howes : Owes b a m.streams (requests script) v owed) (htotal : m.emitted.filter isAnswer ++ owed = total)
    (hwritten : v.phase.Written m) : Progress b a total ⟨x.service.next m v, x.unread⟩ := by
  have hbytes := h.bytes
  rw [← hread] at hbytes
  exact .busy stages script
    ⟨hsound, hest, hrole, h.valid, hbytes, hheld, hserved, ⟨owed, howes, htotal⟩, hwritten⟩

theorem Busy.reads (h : Busy b a total stages script x) (hp : x.service.server.phase = .reading s)
    (hlookup : x.service.manager.streams.lookup s = some ((Stream.new s).pushRecv payload))
    (htotal : x.service.answers ++ answersTo b a ((s, payload) :: requests script) x.service.server.store = total) :
    Progress b a total ⟨x.service.next (x.service.manager.perform (.recvData s)).2
      (x.service.server.replied b a (x.service.manager.perform (.recvData s)).1), x.unread⟩ := by
  have hstage := h.served s (by rw [hp]; rfl)
  have hwritten := h.written
  simp only [hp, Serving.Written] at hwritten
  have hpop : ((Stream.new s).pushRecv payload).popRecv = (some payload, _) := rfl
  obtain ⟨m, heq, hendpoint, hsound, hemit, hread, hsends⟩ :=
    performs h.sound (Endpoint.call_recvData h.established hlookup hpop)
  obtain ⟨hest, hrole, hheld, hall⟩ := h.put hstage hendpoint
  have hanswers : m.emitted.filter isAnswer = x.service.answers := by
    rw [hemit, List.filter_append, credit_no_answer, List.append_nil]
    rfl
  rw [← hanswers] at htotal
  rw [heq, Service.replied_reading hp, Option.getD_some]
  by_cases hempty : payload = []
  · subst hempty
    rw [handle_skipped]
    rw [answersTo_skipped] at htotal
    have hbuffer := Service.buffer_le hsends
    rw [hwritten] at hbuffer
    exact h.after hsound hread hest hrole hall nofun (.listening rfl) htotal
      (List.length_eq_zero_iff.mp (Nat.le_zero.mp hbuffer))
  have hanswersWritten : AnswersWritten m := (answersWritten_of_empty h.sound hwritten).sends ⟨rfl, rfl⟩ hsends hemit
    (credit_no_answer _ _ _)
  rcases hserve : serve b a payload x.service.server.store with ⟨e | response, store⟩
  · rw [answersTo_failed hempty hserve, List.append_nil] at htotal
    exact .returned ⟨hsound, ⟨_, handle_failed hempty hserve⟩, htotal, hanswersWritten⟩
  · obtain ⟨hphase, hstore⟩ := handle_served (s := s) hempty hserve
    rw [answersTo_served hempty hserve, ← hstore] at htotal
    refine h.after hsound hread hest hrole hall (fun k hk => ?_) (.responding hphase hheld rfl rfl) htotal ?_
    · rw [hphase] at hk
      rwa [← Option.some.inj hk]
    · rw [hphase]
      exact hanswersWritten

theorem Busy.responds {response : List UInt8} {stream : Stream} (h : Busy b a total stages script x)
    (hp : x.service.server.phase = .responding s response)
    (hlookup : x.service.manager.streams.lookup s = some stream) (hstate : stream.state = .Open)
    (hwindow : stream.sendWindow = DEFAULT_WINDOW)
    (htotal : x.service.answers ++ replies b a s response (requests script) x.service.server.store = total) :
    Progress b a total ⟨x.service.next (x.service.manager.perform (.sendData s response)).2
      (x.service.server.replied b a (x.service.manager.perform (.sendData s response)).1), x.unread⟩ := by
  have hstage := h.served s (by rw [hp]; rfl)
  have hwritten := h.written
  simp only [hp, Serving.Written] at hwritten
  have hcan : stream.state.canSend := by rw [hstate]; rfl
  have hclosing : (x.service.server.replied b a (.ok .done)) = { x.service.server with phase := .closing s } := by
    unfold Server.replied
    simp only [hp]
  have hself : ∀ k, some s = some k → stages k = .requested := by
    intro k hk
    rwa [← Option.some.inj hk]
  unfold replies at htotal
  by_cases hbig : DEFAULT_WINDOW < (response.length : Int)
  · have hestablished : x.service.manager.endpoint.handshakeState = .Established := h.established
    obtain ⟨e, hcall⟩ := Endpoint.call_sendData_refused hestablished hbig hlookup hcan hwindow
    obtain ⟨m, heq, -, hsound, hemit, -, hsends⟩ := performs h.sound hcall
    rw [if_pos hbig, List.append_nil] at htotal
    rw [heq]
    refine .returned ⟨hsound, ⟨.error e, rfl⟩, ?_, hwritten.sends ⟨rfl, rfl⟩ hsends hemit rfl⟩
    rw [← htotal]
    simp only [Service.answers, Service.next, hemit, List.append_nil]
  rw [if_neg hbig] at htotal
  by_cases hempty : response = []
  · subst hempty
    obtain ⟨m, heq, hendpoint, hsound, hemit, hread, -⟩ :=
      performs h.sound (@Endpoint.call_sendData_nil _ s h.established)
    obtain ⟨hest, hrole, hstreams, hall⟩ := h.same hendpoint
    rw [heq, hclosing]
    refine h.after hsound hread hest hrole hall hself (.closing rfl (hstreams ▸ hlookup) hstate) ?_ trivial
    rw [hemit, List.append_nil]
    exact htotal
  · obtain ⟨m, heq, hendpoint, hsound, hemit, hread, -⟩ := performs h.sound
      (Endpoint.call_sendData h.established hempty (not_lt.mp hbig) hlookup hcan hwindow)
    obtain ⟨hest, hrole, hheld, hall⟩ := h.put hstage hendpoint
    rw [heq, hclosing]
    refine h.after hsound hread hest hrole hall hself (.closing rfl hheld hstate) ?_ trivial
    rw [← htotal, hemit, List.filter_append, List.append_assoc, Verdict.frames, if_neg hempty]
    rfl

theorem Busy.closes {stream : Stream} (h : Busy b a total stages script x) (hp : x.service.server.phase = .closing s)
    (hlookup : x.service.manager.streams.lookup s = some stream) (hstate : stream.state = .Open)
    (htotal : x.service.answers ++ closeFrame s :: answersTo b a (requests script) x.service.server.store = total) :
    Progress b a total ⟨x.service.next (x.service.manager.perform (.closeStream s)).2
      (x.service.server.replied b a (x.service.manager.perform (.closeStream s)).1), x.unread⟩ := by
  have hstage := h.served s (by rw [hp]; rfl)
  obtain ⟨m, heq, hendpoint, hsound, hemit, hread, -⟩ := performs h.sound
    (Endpoint.call_closeStream h.established hlookup (by rw [hstate]; rfl))
  have hafter : x.service.manager.endpoint.afterClose s stream =
      x.service.manager.endpoint.put s stream.onLocalClose := if_neg (by simp [Stream.onLocalClose, hstate])
  rw [hafter] at hendpoint
  obtain ⟨hest, hrole, -, hall⟩ := h.put hstage hendpoint
  have hflushing : (x.service.server.replied b a (.ok .done)) = { x.service.server with phase := .flushing } := by
    unfold Server.replied
    simp only [hp]
  rw [heq, hflushing]
  refine h.after hsound hread hest hrole hall nofun (.flushing rfl) ?_ trivial
  rw [← htotal, hemit, List.filter_append, List.append_assoc]
  rfl

theorem Busy.flushes (h : Busy b a total stages script x) (hp : x.service.server.phase = .flushing)
    (htotal : x.service.answers ++ answersTo b a (requests script) x.service.server.store = total) :
    Progress b a total ⟨x.service.next (x.service.manager.perform .flush).2
      (x.service.server.replied b a (x.service.manager.perform .flush).1), x.unread⟩ := by
  have hempty := StreamManager.flush_empties h.sound.settled
  obtain ⟨m, heq, hendpoint, hsound, hemit, hread, -⟩ := performs h.sound
    (show x.service.manager.endpoint.call .flush = some (.ok .done, [], x.service.manager.endpoint) from rfl)
  obtain ⟨hest, hrole, -, hall⟩ := h.same hendpoint
  have hlistening : (x.service.server.replied b a (.ok .done)) = { x.service.server with phase := .listening } := by
    unfold Server.replied
    simp only [hp]
  rw [heq] at hempty
  rw [heq, hlistening]
  refine h.after hsound hread hest hrole hall nofun (.listening rfl) ?_ hempty
  rw [hemit, List.append_nil]
  exact htotal

theorem Busy.call (h : Busy b a total stages script x) {c : Call} (hd : x.service.server.demand = .call c) :
    Progress b a total ⟨x.service.next (x.service.manager.perform c).2
      (x.service.server.replied b a (x.service.manager.perform c).1), x.unread⟩ := by
  obtain ⟨owed, howed, htotal⟩ := h.owes
  unfold Server.demand at hd
  cases howed with
  | listening hp => rw [hp] at hd; cases hd
  | reading hp hlookup => rw [hp] at hd; cases hd; exact h.reads hp hlookup htotal
  | responding hp hlookup hstate hwindow =>
    rw [hp] at hd; cases hd; exact h.responds hp hlookup hstate hwindow htotal
  | closing hp hlookup hstate => rw [hp] at hd; cases hd; exact h.closes hp hlookup hstate htotal
  | flushing hp => rw [hp] at hd; cases hd; exact h.flushes hp htotal

theorem Progress.step (h : Progress b a total x) (hstep : x.Step b a ev x') : Progress b a total x' := by
  cases h with
  | greeting script h =>
    cases hstep with
    | call hd => simp [Server.demand, h.phase] at hd
    | recv hd hne hunread hrecv => exact h.recv hne hunread hrecv
  | busy stages script h =>
    cases hstep with
    | call hd => exact h.call hd
    | recv hd hne hunread hrecv => exact h.recv hd hne hunread hrecv
  | returned h =>
    obtain ⟨r, hstopped⟩ := h.stopped
    cases hstep with
    | call hd => simp [Server.demand, hstopped] at hd
    | recv hd => simp [Server.demand, hstopped] at hd

theorem progress_start {store : σ} (h : Pipelined (fun _ => .unopened) script) :
    Progress b a (answersTo b a (requests script) store) (Fed.start store (pipelined script)) :=
  .greeting script ⟨StreamManager.fresh_sound .Acceptor, rfl, rfl, h, rfl, by
    simp [Fed.start, Service.start, Service.answers, StreamManager.fresh_emitted], rfl, rfl⟩

/-! ## Complete runs -/

theorem recvFrame_whole {fs : List Frame} (hvalid : f.Valid)
    (hbytes : m.conn.readBuffer = (f :: fs).flatMap Frame.wire) : (m.recvFrame []).1 ≠ none := by
  have hdecode := decode_wire hvalid (fs.flatMap Frame.wire)
  rw [← List.flatMap_cons, ← hbytes] at hdecode
  rw [StreamManager.recvFrame_some (recvFrame_ok hdecode)]
  exact nofun

theorem Progress.done (h : Progress b a total x) (hdone : x.Done) : x.service.delivered = total := by
  cases h with
  | greeting script h =>
    rcases hdone with ⟨r, hstopped⟩ | ⟨-, hunread, hnone⟩
    · simp [h.phase] at hstopped
    · have hbytes := h.bytes
      rw [hunread, List.append_nil] at hbytes
      exact absurd hnone (recvFrame_whole helloFrame_valid hbytes)
  | busy stages script h =>
    obtain ⟨owed, howed, htotal⟩ := h.owes
    rcases hdone with ⟨r, hstopped⟩ | ⟨hp, hunread, hnone⟩
    · cases howed <;> simp_all
    · have hbytes := h.bytes
      have hvalid := frame_valid h.valid
      rw [hunread, List.append_nil] at hbytes
      cases script with
      | nil =>
        have hwritten := h.written
        simp only [hp, Serving.Written] at hwritten
        rw [howed.of_listening hp, show answersTo b a (requests []) x.service.server.store = [] from rfl,
          List.append_nil] at htotal
        rw [(answersWritten_of_empty h.sound hwritten).delivered h.sound, htotal]
      | cons y script => exact absurd hnone (recvFrame_whole (hvalid _ List.mem_cons_self) hbytes)
  | returned h => rw [h.written.delivered h.sound, h.answers]

/-- However the bytes arrive, these are the answers on the socket in the end. -/
theorem Completes.delivered {store : σ} {w : Service σ} (hscript : Pipelined (fun _ => .unopened) script)
    (h : Completes b a store script w) : w.delivered = answersTo b a (requests script) store := by
  obtain ⟨ls, x, hrun, hdone, rfl⟩ := h
  have hprogress := @Run.invariant _ _ _ _ _ _ (fun _ x => Progress b a (answersTo b a (requests script) store) x) hrun
    (progress_start hscript) fun _ _ _ _ hx hstep => hx.step hstep
  exact hprogress.done hdone

/-! ### There is one -/

/-- How many calls the server makes before it listens again. -/
def Serving.calls : Serving → Nat
  | .reading _ => 4
  | .responding _ _ => 3
  | .closing _ => 2
  | .flushing => 1
  | .listening | .stopped _ => 0

theorem calls_replied {v : Server σ} {c : Call} (hd : v.demand = .call c) (reply : Reply) :
    (v.replied b a reply).phase.calls < v.phase.calls := by
  unfold Server.demand at hd
  unfold Server.replied
  cases hp : v.phase with
  | listening | stopped => rw [hp] at hd; cases hd
  | responding | closing | flushing => rcases reply with _ | ⟨_ | _ | _⟩ <;> simp [Serving.calls]
  | reading s =>
    rcases reply with _ | ⟨_ | _ | payload⟩
    · simp [Serving.calls]
    · simp [Serving.calls]
    · simp [Serving.calls]
    · dsimp only
      rcases Service.handled_phase (b := b) (a := a) v s (payload.getD []) with
        ⟨-, hv⟩ | ⟨-, ⟨e, hv⟩ | ⟨response, hv⟩⟩ <;> simp [hv, Serving.calls]

/-- What the server has still to do. -/
def Fed.load (x : Fed σ) : Nat :=
  5 * (x.service.manager.conn.readBuffer.length + 2 * x.unread.length) + x.service.server.phase.calls

theorem calls_le (phase : Serving) : phase.calls ≤ 4 := by
  cases phase <;> simp [Serving.calls]

theorem Progress.sound (h : Progress b a total x) : x.service.manager.Sound := by
  cases h with
  | greeting script h => exact h.sound
  | busy stages script h => exact h.sound
  | returned h => exact h.sound

theorem Progress.frames (h : Progress b a total x) (hd : x.service.server.demand = .recvFrame) :
    ∃ fs : List Frame, (∀ f ∈ fs, f.Valid) ∧
      x.service.manager.conn.readBuffer ++ x.unread = fs.flatMap Frame.wire := by
  cases h with
  | greeting script h => exact ⟨_, List.forall_mem_cons.mpr ⟨helloFrame_valid, frame_valid h.valid⟩, h.bytes⟩
  | busy stages script h => exact ⟨_, frame_valid h.valid, h.bytes⟩
  | returned h =>
    obtain ⟨r, hstopped⟩ := h.stopped
    simp [Server.demand, hstopped] at hd

theorem recv_load (h : Progress b a total x) (hd : x.service.server.demand = .recvFrame)
    (hne : ∀ chunk ∈ chunks, chunk ≠ []) (hunread : x.unread = chunks.flatten ++ rest)
    (hrecv : x.service.manager.recvFrame (chunks.map .ok) = (r, m, [])) (hmore : r ≠ none ∨ chunks ≠ []) :
    (⟨x.service.next m ((Server.run b a).heard x.service.server r), rest⟩ : Fed σ).load < x.load := by
  obtain ⟨fs, hvalid, hbytes⟩ := h.frames hd
  have hp := listening_of_demand hd
  have hlength := congrArg List.length hunread
  rw [hunread, ← List.append_assoc] at hbytes
  rw [List.length_append] at hlength
  unfold Fed.load
  rcases StreamManager.recvFrame_frames hvalid hne hbytes hrecv with
    ⟨rfl, rfl⟩ | ⟨f, fs', buffer, rfl, hrest, rfl, rfl⟩
  · obtain ⟨chunk, chunks, rfl⟩ := List.exists_cons_of_ne_nil (hmore.resolve_left (by simp))
    have hpos := List.length_pos_iff.mpr (hne chunk List.mem_cons_self)
    simp only [Service.next, Program.heard, List.flatten_cons, List.length_append, hp, Serving.calls] at hlength ⊢
    omega
  · obtain ⟨outs, -, hsends, -⟩ :=
      StreamManager.dispatch_receives (h.sound.of_read buffer).settled (hvalid f List.mem_cons_self)
    have hbuffer := hsends.readBuffer_eq
    have hwire := wire_length f
    have hall := congrArg List.length hbytes
    have hleft := congrArg List.length hrest
    unfold HEADER_SIZE at hwire
    simp only [List.flatMap_cons, List.length_append] at hall hleft
    refine lt_of_le_of_lt (Nat.add_le_add_left (calls_le _) _) ?_
    simp only [Service.next, hbuffer]
    omega

theorem recvFrame_chunk {chunk : List UInt8} (hnone : (m.recvFrame []).1 = none) (hchunk : chunk ≠ []) :
    (m.recvFrame [.ok chunk]).2.2 = [] := by
  have hmore : decode m.conn.readBuffer = .error .NeedMoreData := by
    cases hd : decode m.conn.readBuffer with
    | ok p =>
      rw [StreamManager.recvFrame_some (recvFrame_ok hd)] at hnone
      cases hnone
    | error e =>
      by_contra hne
      rw [StreamManager.recvFrame_error (recvFrame_error hd fun he => hne (by rw [he]))] at hnone
      cases hnone
  have hnext : m.recvFrame [.ok chunk] =
      { m with conn := { m.conn with readBuffer := m.conn.readBuffer ++ chunk } }.recvFrame [] := by
    unfold StreamManager.recvFrame
    rw [recvFrame_bytes hmore hchunk]
  rw [hnext]
  exact Session.recvFrame_leftover _

theorem Progress.completes (h : Progress b a total x) : ∃ ls x', Run (Fed.Step b a) x ls x' ∧ x'.Done := by
  induction hn : x.load using Nat.strongRecOn generalizing x with
  | _ n ih =>
    have hgo : ∀ {ev x'}, x.Step b a ev x' → x'.load < x.load → ∃ ls x', Run (Fed.Step b a) x ls x' ∧ x'.Done := by
      intro ev x' hstep hlt
      obtain ⟨ls, x'', hrun, hdone⟩ := ih x'.load (hn ▸ hlt) (h.step hstep) rfl
      exact ⟨_, x'', hrun.cons hstep, hdone⟩
    cases hd : x.service.server.demand with
    | call c =>
      refine hgo (.call hd) ?_
      have hcalls := calls_replied (b := b) (a := a) hd (x.service.manager.perform c).1
      obtain ⟨outs, -, hsends, -⟩ := StreamManager.perform_acts h.sound.settled c
      simp only [Fed.load, Service.next, hsends.readBuffer_eq]
      omega
    | recvFrame =>
      by_cases hnone : (x.service.manager.recvFrame []).1 = none
      · by_cases hunread : x.unread = []
        · exact ⟨[], x, .nil, .inr ⟨listening_of_demand hd, hunread, hnone⟩⟩
        · -- All bytes in one chunk.
          have hrecv : x.service.manager.recvFrame ([x.unread].map .ok) = (_, _, []) :=
            Prod.ext rfl (Prod.ext rfl (recvFrame_chunk hnone hunread))
          have hne : ∀ chunk ∈ [x.unread], chunk ≠ [] := by simpa using hunread
          have hall : x.unread = [x.unread].flatten ++ [] := by simp
          exact hgo (.recv hd hne hall hrecv) (recv_load h hd hne hall hrecv (.inr (by simp)))
      · have hrecv : x.service.manager.recvFrame (([] : List (List UInt8)).map .ok) = (_, _, []) :=
          Prod.ext rfl (Prod.ext rfl (Session.recvFrame_leftover _))
        exact hgo (.recv hd (List.forall_mem_nil _) rfl hrecv)
          (recv_load h hd (List.forall_mem_nil _) rfl hrecv (.inl hnone))
    | idle =>
      unfold Server.demand at hd
      cases hp : x.service.server.phase <;> simp [hp] at hd
    | gone =>
      unfold Server.demand at hd
      cases hp : x.service.server.phase with
      | stopped r => exact ⟨[], x, .nil, .inl ⟨r, hp⟩⟩
      | listening | reading | responding | closing | flushing => simp [hp] at hd

theorem Completes.exists (b : Envelopes) (a : Actions σ) (store : σ)
    (hscript : Pipelined (fun _ => .unopened) script) : ∃ w, Completes b a store script w := by
  obtain ⟨ls, x, hrun, hdone⟩ := (@progress_start _ b a _ store hscript).completes
  exact ⟨_, ls, x, hrun, hdone, rfl⟩

end Progress

end TrenchDb.Rpc
