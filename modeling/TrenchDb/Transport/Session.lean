import TrenchDb.Lib.Channels
import TrenchDb.Transport.Determined

/-!
# Programs on a link

A program drives the manager at its end of a link. Whatever the order of the steps and the
chunks in which the bytes arrive, two programs go through the states of one network of
deterministic processes.
-/

open TrenchDb.Lib.Lts TrenchDb.Lib.Channels

namespace TrenchDb.Transport

/-! ## Programs -/

/-- What a program does next. With `idle` it has no manager but keeps the socket; with `gone` it
has returned, and its socket is closed. -/
inductive Demand where
  | call (c : Call)
  | recvFrame
  | idle
  | gone
  deriving DecidableEq

/-- A program, by its states: what it does next, and how it goes on. -/
structure Program (π : Type) where
  demand : π → Demand
  replied : π → Reply → π
  received : π → Except TransportError Frame → π

/-- A program that still waits for `recv_frame` stays where it is. -/
def Program.heard {π : Type} (P : Program π) (p : π) : Option (Except TransportError Frame) → π
  | none => p
  | some r => P.received p r

/-- A link with a program at each end. -/
structure Session (π : Role → Type) where
  link : Link
  progs : ∀ x, π x

namespace Session

variable {π : Role → Type} {P : ∀ x, Program (π x)}

def next (s : Session π) (x : Role) (m : StreamManager) (n : Nat) (p : π x) : Session π :=
  { link := s.link.set x m n, progs := Function.update s.progs x p }

/-- A program makes its call. Or its `recv_frame` call reads bytes, in any non-empty chunks, and
returns or goes on waiting. Or it reads after its peer has closed the socket. -/
inductive Step (P : ∀ x, Program (π x)) (s : Session π) : Role × Event → Session π → Prop
  | call (x : Role) {c : Call} : (P x).demand (s.progs x) = .call c →
      Step P s (x, .called c ((s.link.mgr x).perform c).1)
        (s.next x ((s.link.mgr x).perform c).2 0 ((P x).replied (s.progs x) ((s.link.mgr x).perform c).1))
  | recv (x : Role) {chunks : List (List UInt8)} {rest : List UInt8} {r : Option (Except TransportError Frame)}
      {m : StreamManager} : (P x).demand (s.progs x) = .recvFrame → (∀ chunk ∈ chunks, chunk ≠ []) →
      s.link.flight x = chunks.flatten ++ rest → (s.link.mgr x).recvFrame (chunks.map .ok) = (r, m, []) →
      (r = none → chunks ≠ []) →
      Step P s (x, .received r) (s.next x m chunks.flatten.length ((P x).heard (s.progs x) r))
  | hangup (x : Role) {read : Read} {r : Option (Except TransportError Frame)} {m : StreamManager} :
      (P x).demand (s.progs x) = .recvFrame → (P x.peer).demand (s.progs x.peer) = .gone →
      (read = .ok [] ∧ s.link.flight x = [] ∨ ∃ e, read = .error e) →
      (s.link.mgr x).recvFrame [read] = (r, m, []) →
      Step P s (x, .received r) (s.next x m 0 ((P x).heard (s.progs x) r))

@[simp] theorem next_mgr {s : Session π} {x : Role} {m : StreamManager} {n : Nat} {p : π x} :
    (s.next x m n p).link.mgr x = m := by simp [next, Link.set]
@[simp] theorem next_progs {s : Session π} {x : Role} {m : StreamManager} {n : Nat} {p : π x} :
    (s.next x m n p).progs x = p := by simp [next]

theorem next_mgr_of_ne {s : Session π} {x y : Role} {m : StreamManager} {n : Nat} {p : π x} (h : y ≠ x) :
    (s.next x m n p).link.mgr y = s.link.mgr y := by simp [next, Link.set, h]
theorem next_progs_of_ne {s : Session π} {x y : Role} {m : StreamManager} {n : Nat} {p : π x} (h : y ≠ x) :
    (s.next x m n p).progs y = s.progs y := by simp [next, h]

theorem next_flight {s : Session π} {x : Role} {m : StreamManager} {n : Nat} {p : π x} :
    (s.next x m n p).link.flight x = (s.link.flight x).drop n := by
  simp [Link.flight, next, Link.set, List.drop_drop]

theorem next_flight_peer {s : Session π} {x : Role} {m : StreamManager} {n : Nat} {p : π x} :
    (s.next x m n p).link.flight x.peer = m.conn.stream.written.drop (s.link.taken x.peer) := by
  simp [Link.flight, next, Link.set]

theorem next_taken {s : Session π} {x y : Role} {m : StreamManager} {p : π x} :
    (s.next x m 0 p).link.taken y = s.link.taken y := by
  rcases x.eq_or_peer y with rfl | rfl <;> simp [next, Link.set]

/-! ## The network of a session -/

/-- One move of a program with the endpoint it drives. -/
def move {π : Type} (P : Program π) (n : Endpoint × π) : Move (Endpoint × π) Frame :=
  match P.demand n.2 with
  | .call c =>
    match n.1.call c with
    | none => .halt
    | some (reply, outs, e) => .put outs (e, P.replied n.2 reply)
  | .recvFrame =>
    .get fun f => (n.1.hear f).map fun o => (o.2.1, (o.2.2, P.received n.2 (o.1.map fun _ => f)))
  | .idle | .gone => .halt

section Moves

variable {π : Type} {P : Program π} {e e' : Endpoint} {p : π} {outs sent script : List Frame} {taken : Nat}

theorem step_call {c : Call} {reply : Reply} (hd : P.demand p = .call c) (hc : e.call c = some (reply, outs, e')) :
    Node.step (move P) script ⟨(e, p), sent, taken⟩ = some ⟨(e', P.replied p reply), sent ++ outs, taken⟩ :=
  Node.step_put (by simp only [move, hd, hc])

theorem step_recv {f : Frame} {rest : List Frame} {r : Except TransportError Unit}
    (hd : P.demand p = .recvFrame) (hdrop : script.drop taken = f :: rest) (hf : e.hear f = some (r, outs, e')) :
    Node.step (move P) script ⟨(e, p), sent, taken⟩ =
      some ⟨(e', P.received p (r.map fun _ => f)), sent ++ outs, taken + 1⟩ :=
  have hmove : move P (e, p) = .get fun f => (e.hear f).map fun o =>
      (o.2.1, (o.2.2, P.received p (o.1.map fun _ => f))) := by simp only [move, hd]
  Node.step_get hmove hdrop (by rw [hf]; rfl)

end Moves

def network (P : ∀ x, Program (π x)) : Network Role (fun x => Endpoint × π x) Frame :=
  { move := fun x => move (P x), source := Role.peer }

abbrev Config (π : Role → Type) := TrenchDb.Lib.Channels.Config (fun x => Endpoint × π x) Frame

/-- The endpoints of a configuration, and the frames not yet taken. -/
def frameLink (c : Config π) : FrameLink :=
  { ends := fun x => (c x).state.1, queue := fun x => (c x.peer).sent.drop (c x).taken }

/-- The session is in the configuration `c`, some bytes of the next frames apart. -/
structure Tracks (s : Session π) (c : Config π) : Prop where
  rep : Rep s.link (frameLink c)
  progs_eq : ∀ x, (c x).state.2 = s.progs x
  taken_le : ∀ x, (c x).taken ≤ (c x.peer).sent.length

/-- No program is held up by a call or a frame of which `Endpoint.call` and `Endpoint.hear` say nothing. -/
structure Ready (P : ∀ x, Program (π x)) (c : Config π) : Prop where
  calls : ∀ x call, (P x).demand (c x).state.2 = .call call → ∃ o, (c x).state.1.call call = some o
  hears : ∀ x f rest, (P x).demand (c x).state.2 = .recvFrame → (c x.peer).sent.drop (c x).taken = f :: rest →
    ∃ o, (c x).state.1.hear f = some o

variable {s s' : Session π} {c c' : Config π} {x : Role}

theorem frameLink_update {n : Node (Endpoint × π x) Frame} {outs : List Frame}
    (hle : (c x.peer).taken ≤ (c x).sent.length) (hsent : n.sent = (c x).sent ++ outs) :
    frameLink (Function.update c x n) =
      (frameLink c).post x n.state.1 outs ((c x.peer).sent.drop n.taken) := by
  have hends : (frameLink (Function.update c x n)).ends =
      ((frameLink c).post x n.state.1 outs ((c x.peer).sent.drop n.taken)).ends := by
    funext y
    rcases x.eq_or_peer y with rfl | rfl
    · simp [frameLink]
    · simp [frameLink]
  have hqueue : (frameLink (Function.update c x n)).queue =
      ((frameLink c).post x n.state.1 outs ((c x.peer).sent.drop n.taken)).queue := by
    funext y
    rcases x.eq_or_peer y with rfl | rfl
    · simp [frameLink]
    · rw [FrameLink.post_queue_peer]
      simp only [frameLink, ne_eq, Role.peer_ne, not_false_eq_true, Function.update_of_ne]
      rw [Role.peer_peer, Function.update_self, hsent, List.drop_append_of_le_length hle]
  calc frameLink (Function.update c x n)
      = ⟨(frameLink (Function.update c x n)).ends, (frameLink (Function.update c x n)).queue⟩ := rfl
    _ = _ := by rw [hends, hqueue]

theorem Tracks.update (h : Tracks s c) {n : Node (Endpoint × π x) Frame} {outs : List Frame} {m : StreamManager}
    {k : Nat} (hsent : n.sent = (c x).sent ++ outs) (htaken : n.taken ≤ (c x.peer).sent.length)
    (hrep : Rep (s.link.set x m k) ((frameLink c).post x n.state.1 outs ((c x.peer).sent.drop n.taken))) :
    Tracks (s.next x m k n.state.2) (Function.update c x n) := by
  have hlep := h.taken_le x.peer
  rw [Role.peer_peer] at hlep
  refine ⟨?_, fun y => ?_, fun y => ?_⟩
  · rw [frameLink_update hlep hsent]
    exact hrep
  · rcases x.eq_or_peer y with rfl | rfl
    · simp [next]
    · simp [next, h.progs_eq]
  · rcases x.eq_or_peer y with rfl | rfl
    · simpa using htaken
    · rw [Function.update_of_ne x.peer_ne, Role.peer_peer, Function.update_self, hsent, List.length_append]
      omega

theorem Tracks.call (h : Tracks s c) (hready : Ready P c) {call : Call}
    (hd : (P x).demand (s.progs x) = .call call) :
    ∃ c', (network P).Step c x c' ∧ Tracks (s.next x ((s.link.mgr x).perform call).2 0
      ((P x).replied (s.progs x) ((s.link.mgr x).perform call).1)) c' := by
  rw [← h.progs_eq] at hd ⊢
  obtain ⟨⟨reply, outs, e⟩, ho⟩ := hready.calls x call hd
  have hends : (c x).state.1 = (s.link.mgr x).endpoint := h.rep.ends_eq x
  rw [hends] at ho
  obtain ⟨m, hperf, hm, hsends, hv⟩ := StreamManager.call_does (h.rep.settled x) ho
  dsimp only at hm hsends hv
  rw [hperf]
  have hmove : (network P).move x (c x).state = .put outs (e, (P x).replied (c x).state.2 reply) := by
    simp only [network, move, hd, hends, ho]
  refine ⟨_, ⟨_, Node.step_put hmove, rfl⟩,
    h.update (n := ⟨(e, (P x).replied (c x).state.2 reply), (c x).sent ++ outs, (c x).taken⟩) rfl (h.taken_le x) ?_⟩
  have hpost := h.rep.call x hsends hv
  rw [hm] at hpost
  exact hpost

theorem Tracks.recv (h : Tracks s c) (hready : Ready P c) {chunks : List (List UInt8)} {rest : List UInt8}
    {r : Option (Except TransportError Frame)} {m : StreamManager}
    (hd : (P x).demand (s.progs x) = .recvFrame) (hne : ∀ chunk ∈ chunks, chunk ≠ [])
    (hflight : s.link.flight x = chunks.flatten ++ rest)
    (hrecv : (s.link.mgr x).recvFrame (chunks.map .ok) = (r, m, [])) :
    (∃ c', (network P).Step c x c' ∧
      Tracks (s.next x m chunks.flatten.length ((P x).heard (s.progs x) r)) c') ∨
    r = none ∧ Tracks (s.next x m chunks.flatten.length ((P x).heard (s.progs x) r)) c := by
  obtain ⟨p', hstep, hrep⟩ := h.rep.step (.recv x hne hflight hrecv)
  cases hstep with
  | wait =>
    right
    refine ⟨rfl, hrep, fun y => ?_, h.taken_le⟩
    rcases x.eq_or_peer y with rfl | rfl
    · simp [next, Program.heard, h.progs_eq]
    · simp [next, h.progs_eq]
  | @recv _ f rest' r outs e hq hrec =>
    left
    rw [← h.progs_eq] at hd ⊢
    have hdrop : (c x.peer).sent.drop (c x).taken = f :: rest' := hq
    obtain ⟨⟨r', outs', e'⟩, ho⟩ := hready.hears x f rest' hd hdrop
    obtain ⟨rfl, rfl, rfl⟩ := hrec.hear_eq ho
    have hmove : (network P).move x (c x).state = .get fun f => ((c x).state.1.hear f).map fun o =>
        (o.2.1, (o.2.2, (P x).received (c x).state.2 (o.1.map fun _ => f))) := by
      simp only [network, move, hd]
    have hlt : (c x).taken < (c x.peer).sent.length := by
      by_contra hge
      rw [List.drop_of_length_le (Nat.not_lt.mp hge)] at hdrop
      cases hdrop
    have htail : (c x.peer).sent.drop ((c x).taken + 1) = rest' := by
      rw [← List.drop_drop, hdrop, List.drop_one, List.tail_cons]
    refine ⟨_, ⟨_, Node.step_get hmove hdrop (by rw [ho]; rfl), rfl⟩, h.update (n := ⟨(e, (P x).received
      (c x).state.2 (r.map fun _ => f)), (c x).sent ++ outs, (c x).taken + 1⟩) rfl hlt ?_⟩
    dsimp only
    rw [htail]
    exact hrep

/-! ## Bytes kept back -/

end Session

namespace StreamManager

theorem recvData_silent {m : StreamManager} {s : UInt32} {d : Option (List UInt8)}
    (h : (m.perform (.recvData s)).1 = .ok (.data d)) (hd : d.getD [] = []) :
    (m.perform (.recvData s)).2.conn = m.conn := by
  by_cases hest : m.handshakeState = .Established
  · rw [perform, recvData, whenEstablished_true hest] at h ⊢
    cases hl : m.streams.lookup s with
    | none => rfl
    | some stream =>
      simp only [hl] at h ⊢
      rcases hpop : stream.popRecv with ⟨_ | payload, rest⟩
      · rfl
      · simp only [hpop] at h ⊢
        by_cases hpay : payload = []
        · rw [if_neg (by simp [hpay])]
          rfl
        · exfalso
          have hd' : d = some payload := by
            split_ifs at h
            · revert h
              generalize StreamManager.bufferAndMaybeFlush _ _ = o
              obtain ⟨_ | _, m'⟩ := o
              · intro h
                cases h
              · intro h
                simpa [Outcome.andThen, Outcome.map, Except.map, eq_comm] using h
            · simpa [Outcome.map, Except.map, eq_comm] using h
          rw [hd'] at hd
          exact hpay hd
  · rw [perform, recvData, whenEstablished_false hest]
    rfl

end StreamManager

/-- Before it waits the program flushes: in a `quiet` state nothing is buffered. -/
structure Program.Polite {π : Type} (P : Program π) (quiet : π → Prop) : Prop where
  waits : ∀ p, P.demand p = .recvFrame → quiet p
  rests : ∀ p, P.demand p = .idle → quiet p
  flushes : ∀ p c reply, P.demand p = .call c → quiet (P.replied p reply) →
    c = .flush ∨ c = .startHandshake ∨
      (quiet p ∧ ∃ s d, c = .recvData s ∧ reply = .ok (.data d) ∧ d.getD [] = [])

namespace Session

variable {π : Role → Type} {P : ∀ x, Program (π x)} {quiet : ∀ x, π x → Prop} {s s' : Session π} {c c' : Config π}
  {x : Role} {l : Role × Event}

def Flushed (quiet : ∀ x, π x → Prop) (s : Session π) : Prop :=
  ∀ x, quiet x (s.progs x) → (s.link.mgr x).conn.writeBuffer = []

theorem Flushed.next (h : Flushed quiet s) {m : StreamManager} {n : Nat} {p : π x}
    (hm : quiet x p → m.conn.writeBuffer = []) : Flushed quiet (s.next x m n p) := by
  intro y
  rcases x.eq_or_peer y with rfl | rfl
  · simpa using hm
  · rw [next_progs_of_ne x.peer_ne, next_mgr_of_ne x.peer_ne]
    exact h x.peer

theorem Flushed.step (h : Flushed quiet s) (hpolite : ∀ x, (P x).Polite (quiet x)) (htracks : Tracks s c)
    (hready : Ready P c) (hstep : Step P s l s') : Flushed quiet s' := by
  cases hstep with
  | @call x call hd =>
    have hsettled := htracks.rep.settled x
    refine h.next fun hq => ?_
    rcases (hpolite x).flushes _ _ _ hd hq with rfl | rfl | ⟨hquiet, k, d, rfl, hreply, hempty⟩
    · exact StreamManager.flush_empties hsettled
    · obtain ⟨o, ho⟩ := hready.calls x _ (by rw [htracks.progs_eq]; exact hd)
      rw [show (c x).state.1 = _ from htracks.rep.ends_eq x] at ho
      exact StreamManager.startHandshake_empties hsettled ho
    · rw [StreamManager.recvData_silent hreply hempty]
      exact h x hquiet
  | @recv x chunks _ r m hd _ _ hrecv _ =>
    refine h.next fun _ => ?_
    have := StreamManager.recvFrame_empty (htracks.rep.settled x) (h x ((hpolite x).waits _ hd)) (chunks.map .ok)
    rwa [hrecv] at this
  | @hangup x read r m hd _ _ hrecv =>
    refine h.next fun _ => ?_
    have := StreamManager.recvFrame_empty (htracks.rep.settled x) (h x ((hpolite x).waits _ hd)) [read]
    rwa [hrecv] at this

/-! ## Progress -/

theorem recvFrame_leftover (m : StreamManager) : (m.recvFrame []).2.2 = [] := by
  obtain ⟨used, h, -⟩ := m.conn.recvFrame_used []
  have hnil := (List.append_eq_nil_iff.mp h.symm).2
  unfold StreamManager.recvFrame
  generalize m.conn.recvFrame [] = p at hnil
  obtain ⟨_ | _ | f, conn, rest⟩ := p <;> exact hnil

theorem recv_step (htracks : Tracks s c) (hflushed : Flushed quiet s) (hpolite : ∀ x, (P x).Polite (quiet x))
    (hopen : (P x.peer).demand (s.progs x.peer) ≠ .gone)
    (hd : (P x).demand (s.progs x) = .recvFrame) (hq : (frameLink c).queue x ≠ []) :
    ∃ l s', Step P s l s' := by
  have hpend := htracks.rep.pending_eq x
  rw [Link.pending, List.append_assoc] at hpend
  rcases trnc.verdict_encodings verdict_nil (fun f hf => trnc_encodes (htracks.rep.valid x f hf)) hpend with
    hmore | ⟨f, rest, -, hitem, -⟩
  · have hwait := verdict_more.mp hmore
    by_cases hflight : s.link.flight x = []
    · -- The rest of the frame is still with the peer, which is therefore not quiet.
      have hloud : ¬ quiet x.peer (s.progs x.peer) := by
        intro hquiet
        rw [hflight, hflushed x.peer hquiet, List.append_nil, List.append_nil] at hpend
        rcases hqq : (frameLink c).queue x with _ | ⟨f, rest⟩
        · exact absurd hqq hq
        · rw [hpend, hqq, List.flatMap_cons,
            show trnc.verdict _ = _ from trnc_encodes (htracks.rep.valid x f (by rw [hqq]; simp)) _] at hmore
          cases hmore
      cases hdp : (P x.peer).demand (s.progs x.peer) with
      | call call => exact ⟨_, _, .call x.peer hdp⟩
      | recvFrame => exact absurd ((hpolite x.peer).waits _ hdp) hloud
      | idle => exact absurd ((hpolite x.peer).rests _ hdp) hloud
      | gone => exact absurd hdp hopen
    · have hbytes := @recvFrame_bytes _ [] _ hwait hflight
      have hused : ((s.link.mgr x).recvFrame ([s.link.flight x].map .ok)).2.2 = [] := by
        have := recvFrame_leftover { s.link.mgr x with conn := { (s.link.mgr x).conn with
          readBuffer := (s.link.mgr x).conn.readBuffer ++ s.link.flight x } }
        rw [StreamManager.recvFrame] at this ⊢
        rw [List.map_singleton, hbytes]
        exact this
      exact ⟨_, _, @Step.recv _ _ _ x [s.link.flight x] [] _ _ hd (by simpa using hflight) (by simp)
        (Prod.ext rfl (Prod.ext rfl hused)) (by simp)⟩
  · have hdec := verdict_item.mp hitem
    have heq := StreamManager.recvFrame_some (@recvFrame_ok _ [] _ _ hdec)
    exact ⟨_, _, @Step.recv _ _ _ x [] (s.link.flight x) _ _ hd (by simp) (by simp) heq (by simp)⟩

/-! ## One order stands for all -/

/-- Every program has come to rest: it waits for a frame that nobody has sent, or is done. -/
def Ends (P : ∀ x, Program (π x)) (c : Config π) : Prop :=
  ∀ x, match (P x).demand (c x).state.2 with
    | .call _ => False
    | .recvFrame => (c x.peer).sent.drop (c x).taken = []
    | .idle | .gone => True

theorem Ends.terminal (h : Ends P c) : (network P).Terminal c := by
  rintro x c' ⟨n, hn, -⟩
  have hx := h x
  rcases Node.step_cases hn with ⟨outs, hmove, -, -⟩ | ⟨next, f, rest, outs, hmove, hdrop, -⟩
  · simp only [network, move] at hmove
    cases hd : (P x).demand (c x).state.2 with
    | call => rw [hd] at hx; exact hx
    | recvFrame | idle | gone => rw [hd] at hmove; cases hmove
  · simp only [network, move] at hmove
    cases hd : (P x).demand (c x).state.2 with
    | call => rw [hd] at hx; exact hx
    | recvFrame =>
      rw [hd] at hx
      cases hdrop.symm.trans hx
    | idle | gone => rw [hd] at hmove; cases hmove

variable {Q : ∀ x, Node (Endpoint × π x) Frame → Prop} {f : Config π} {k : Nat}

theorem ready_of_path (h : (network P).Path Q k c f) (hf : Ends P f) : Ready P c := by
  refine ⟨fun x call hd => ?_, fun x fr rest hd hdrop => ?_⟩
  · rw [← Option.ne_none_iff_exists']
    intro hnone
    have hsame := h.stuck (i := x) fun script _ => Node.step_halt (by simp only [network, move, hd, hnone])
    have hx := hf x
    rw [hsame, hd] at hx
    exact hx
  · rw [← Option.ne_none_iff_exists']
    intro hnone
    have hlt : (c x).taken < (c x.peer).sent.length := by
      by_contra hge
      rw [List.drop_of_length_le (Nat.not_lt.mp hge)] at hdrop
      cases hdrop
    have hmore : ∀ script, (c x.peer).sent <+: script → ∃ rest', script.drop (c x).taken = fr :: rest' := by
      rintro script ⟨more, rfl⟩
      rw [List.drop_append_of_le_length (Nat.le_of_lt hlt), hdrop]
      exact ⟨_, List.cons_append⟩
    have hsame := h.stuck (i := x) fun script hle => by
      obtain ⟨rest', hrest⟩ := hmore script hle
      simp only [Node.step, network, move, hd, hrest, hnone, Option.map_none]
    obtain ⟨rest', hrest⟩ := hmore _ (h.sent_prefix x.peer)
    have hx := hf x
    rw [hsame, hd] at hx
    simp only at hx
    rw [hx] at hrest
    cases hrest

/-- The session is on the way to `f`, through configurations in which every program has `Q`. -/
structure Within (P : ∀ x, Program (π x)) (quiet : ∀ x, π x → Prop)
    (Q : ∀ x, Node (Endpoint × π x) Frame → Prop) (f : Config π) (k : Nat) (s : Session π) (c : Config π) :
    Prop where
  path : (network P).Path Q k c f
  tracks : Tracks s c
  flushed : Flushed quiet s

theorem Within.holds (h : Within P quiet Q f k s c) (x : Role) :
    Q x ⟨((c x).state.1, s.progs x), (c x).sent, (c x).taken⟩ := by
  rw [← h.tracks.progs_eq]
  exact h.path.start x

theorem Within.gone_end (h : Within P quiet Q f k s c) (hx : (P x).demand (s.progs x) = .gone) : f x = c x :=
  h.path.stuck fun _ _ => Node.step_halt (by simp only [network, move, h.tracks.progs_eq, hx])

/-- The bytes written and not yet read. -/
def unread (s : Session π) : Nat := (s.link.flight .Initiator).length + (s.link.flight .Acceptor).length

theorem unread_lt {m : StreamManager} {n : Nat} {p : π x} (hpos : 0 < n) (hle : n ≤ (s.link.flight x).length)
    (hm : m.conn.stream = (s.link.mgr x).conn.stream) : (s.next x m n p).unread < s.unread := by
  have hx : (s.next x m n p).link.flight x = (s.link.flight x).drop n := next_flight
  have hp : (s.next x m n p).link.flight x.peer = s.link.flight x.peer := by
    rw [next_flight_peer, hm, Link.flight, Role.peer_peer]
  have hlen : ((s.link.flight x).drop n).length < (s.link.flight x).length := by simp; omega
  unfold unread
  cases x with
  | Initiator => rw [hx, show Role.Acceptor = Role.peer .Initiator from rfl, hp]; omega
  | Acceptor => rw [hx, show Role.Initiator = Role.peer .Acceptor from rfl, hp]; omega

/-- What is said of a socket that the peer has closed. -/
def Lost (e : TransportError) : Prop := e = .ConnectionClosed ∨ ∃ error, e = .Io error

theorem hangup_lost {m m' : StreamManager} {read : Read} {r : Option (Except TransportError Frame)}
    (hread : read = .ok [] ∨ ∃ e, read = .error e) (h : m.recvFrame [read] = (r, m', [])) :
    ∃ e, Lost e ∧ r = some (.error e) := by
  rcases hd : decode m.conn.readBuffer with e | ⟨f, n⟩
  · by_cases he : e = .NeedMoreData
    · subst he
      rcases hread with rfl | ⟨e, rfl⟩
      · rw [StreamManager.recvFrame_error (recvFrame_eof hd)] at h
        exact ⟨_, .inl rfl, (Prod.mk.inj h).1.symm⟩
      · rw [StreamManager.recvFrame_error (recvFrame_ioError hd)] at h
        exact ⟨_, .inr ⟨e, rfl⟩, (Prod.mk.inj h).1.symm⟩
    · rw [StreamManager.recvFrame_error (recvFrame_error hd he)] at h
      cases (Prod.mk.inj (Prod.mk.inj h).2).2
  · rw [StreamManager.recvFrame_some (recvFrame_ok hd)] at h
    cases (Prod.mk.inj (Prod.mk.inj h).2).2

theorem hangup_error {m m' : StreamManager} {read : Read} {r : Option (Except TransportError Frame)}
    (hread : read = .ok [] ∨ ∃ e, read = .error e) (h : m.recvFrame [read] = (r, m', [])) :
    ∃ e, r = some (.error e) :=
  let ⟨e, _, hr⟩ := hangup_lost hread h
  ⟨e, hr⟩

theorem Within.step (hpolite : ∀ x, (P x).Polite (quiet x)) (hf : Ends P f) (h : Within P quiet Q f k s c)
    (hstep : Step P s l s') :
    (∃ k' c', k = k' + 1 ∧ (network P).Step c l.1 c' ∧ Within P quiet Q f k' s' c') ∨
    (l.2 = .received none ∧ Within P quiet Q f k s' c ∧ s'.unread < s.unread) ∨
    (P l.1.peer).demand (s.progs l.1.peer) = .gone ∧ (P l.1).demand (s.progs l.1) = .recvFrame ∧
      ∃ m e, s' = s.next l.1 m 0 ((P l.1).received (s.progs l.1) (.error e)) ∧
        l.2 = .received (some (.error e)) ∧ Lost e := by
  have hready := ready_of_path h.path hf
  have hflushed := h.flushed.step hpolite h.tracks hready hstep
  have hmoves : ∀ {i c'}, (network P).Step c i c' → Tracks s' c' →
      ∃ k' c', k = k' + 1 ∧ (network P).Step c i c' ∧ Within P quiet Q f k' s' c' := by
    intro i c' hmove htracks
    obtain ⟨k', rfl, hpath⟩ := h.path.strip hf.terminal hmove
    exact ⟨k', c', rfl, hmove, hpath, htracks, hflushed⟩
  cases hstep with
  | @call x call hd =>
    obtain ⟨c', hmove, htracks⟩ := h.tracks.call hready hd
    exact .inl (hmoves hmove htracks)
  | @recv x chunks rest r m hd hne hflight hrecv hsome =>
    rcases h.tracks.recv hready hd hne hflight hrecv with ⟨c', hmove, htracks⟩ | ⟨rfl, htracks⟩
    · exact .inl (hmoves hmove htracks)
    · refine .inr (.inl ⟨rfl, ⟨h.path, htracks, hflushed⟩, unread_lt ?_ ?_ ?_⟩)
      · obtain ⟨chunk, chunks', rfl⟩ := List.exists_cons_of_ne_nil (hsome rfl)
        have := List.length_pos_iff.mpr (hne chunk List.mem_cons_self)
        rw [List.flatten_cons, List.length_append]
        omega
      · rw [hflight, List.length_append]
        omega
      · have hstream := ((s.link.mgr x).conn.recvFrame_frame (chunks.map .ok)).2.1
        generalize hp : (s.link.mgr x).conn.recvFrame (chunks.map .ok) = p at hstream
        obtain ⟨_ | _ | fr, conn, left⟩ := p
        · rw [StreamManager.recvFrame_none hp] at hrecv
          simp only [Prod.mk.injEq] at hrecv
          rw [← hrecv.2.1]
          exact hstream
        · rw [StreamManager.recvFrame_error hp] at hrecv
          simp at hrecv
        · rw [StreamManager.recvFrame_some hp] at hrecv
          simp at hrecv
  | @hangup x read r m hd hgone hread hrecv =>
    obtain ⟨e, hlost, rfl⟩ := hangup_lost (hread.imp_left And.left) hrecv
    exact .inr (.inr ⟨hgone, hd, m, e, rfl, rfl, hlost⟩)

theorem gone_step (hd : (P x).demand (s.progs x) = .recvFrame) (hgone : (P x.peer).demand (s.progs x.peer) = .gone) :
    ∃ l s', Step P s l s' := by
  by_cases hmore : decode (s.link.mgr x).conn.readBuffer = .error .NeedMoreData
  · exact ⟨_, _, @Step.hangup _ _ _ x (.error "") _ _ hd hgone (.inr ⟨_, rfl⟩)
      (StreamManager.recvFrame_error (recvFrame_ioError hmore))⟩
  · have hrest : ((s.link.mgr x).recvFrame []).1 ≠ none ∧ ((s.link.mgr x).recvFrame []).2.2 = [] := by
      rcases hdec : decode (s.link.mgr x).conn.readBuffer with e | ⟨f, n⟩
      · rw [StreamManager.recvFrame_error (recvFrame_error hdec fun he => hmore (by rw [hdec, he]))]
        exact ⟨nofun, rfl⟩
      · rw [StreamManager.recvFrame_some (recvFrame_ok hdec)]
        exact ⟨nofun, rfl⟩
    exact ⟨_, _, @Step.recv _ _ _ x [] (s.link.flight x) _ _ hd (by simp) (by simp)
      (Prod.ext rfl (Prod.ext rfl hrest.2)) fun hnone => absurd hnone hrest.1⟩

theorem Within.goes_on (hpolite : ∀ x, (P x).Polite (quiet x)) (h : Within P quiet Q f (k + 1) s c) :
    ∃ l s', Step P s l s' := by
  obtain ⟨hpath, htracks, hflushed⟩ := h
  cases hpath with
  | @head k' _ c' _ i _ hmove _ =>
    obtain ⟨n, hn, -⟩ := hmove
    have hmove' := Node.step_cases hn
    simp only [network, move, htracks.progs_eq] at hmove'
    cases hd : (P i).demand (s.progs i) with
    | call call => exact ⟨_, _, .call i hd⟩
    | idle => simp [hd] at hmove'
    | gone => simp [hd] at hmove'
    | recvFrame =>
      by_cases hgone : (P i.peer).demand (s.progs i.peer) = .gone
      · exact gone_step hd hgone
      · rcases hmove' with ⟨outs, hput, -⟩ | ⟨_, fr, rest, _, -, hdrop, -⟩
        · simp [hd] at hput
        · have hne : (frameLink c).queue i ≠ [] := by
            intro hnil
            rw [show (frameLink c).queue i = _ from hdrop] at hnil
            cases hnil
          exact recv_step htracks hflushed hpolite hgone hd hne

theorem Within.at_end (h : Within P quiet Q f 0 s c) : c = f := by
  cases h.path
  rfl

/-- In every order of the steps the session comes to its end, or to the goal, which holds as soon as
a program is gone. -/
theorem Within.inevitable {goal : Session π → Prop} (hpolite : ∀ x, (P x).Polite (quiet x)) (hf : Ends P f)
    (hgone : ∀ k s c x, Within P quiet Q f k s c → (P x).demand (s.progs x) = .gone → goal s)
    (hgoal : ∀ s, Within P quiet Q f 0 s f → goal s) (h : Within P quiet Q f k s c) :
    Inevitably (fun s s' => ∃ l, Step P s l s') goal s := by
  induction k using Nat.strongRecOn generalizing s c with
  | _ k ihk =>
    induction hn : s.unread using Nat.strongRecOn generalizing s c with
    | _ n ihn =>
      subst hn
      by_cases hdone : goal s
      · exact .now hdone
      have hnone : ∀ x, (P x).demand (s.progs x) ≠ .gone := fun x hx => hdone (hgone k s c x h hx)
      refine .next ?_ ?_
      · cases k with
        | zero => exact absurd (hgoal s (h.at_end ▸ h)) hdone
        | succ k =>
          obtain ⟨l, s', hs⟩ := h.goes_on hpolite
          exact ⟨s', l, hs⟩
      · rintro s' ⟨l, hstep⟩
        rcases h.step hpolite hf hstep with ⟨k', c', rfl, -, h'⟩ | ⟨-, h', hlt⟩ | ⟨hgone', -⟩
        · exact ihk k' (Nat.lt_succ_self _) h'
        · exact ihn _ hlt h' rfl
        · exact absurd hgone' (hnone _)

theorem Within.inevitable_told {goal : Session π → Prop} (hpolite : ∀ x, (P x).Polite (quiet x)) (hf : Ends P f)
    (hend : ∀ s, Within P quiet Q f 0 s f → goal s ∨
      ∃ x, (P x).demand (s.progs x) = .recvFrame ∧ (P x.peer).demand (s.progs x.peer) = .gone)
    (htold : ∀ k s c x m e, Within P quiet Q f k s c → (P x).demand (s.progs x) = .recvFrame →
      (P x.peer).demand (s.progs x.peer) = .gone → Lost e → goal (s.next x m 0 ((P x).received (s.progs x) (.error e))))
    (h : Within P quiet Q f k s c) : Inevitably (fun s s' => ∃ l, Step P s l s') goal s := by
  induction k using Nat.strongRecOn generalizing s c with
  | _ k ihk =>
    induction hn : s.unread using Nat.strongRecOn generalizing s c with
    | _ n ihn =>
      subst hn
      by_cases hdone : goal s
      · exact .now hdone
      refine .next ?_ ?_
      · have hstep : ∃ l s', Step P s l s' := by
          cases k with
          | zero =>
            obtain ⟨x, hd, hgone⟩ := (hend s (h.at_end ▸ h)).resolve_left hdone
            exact gone_step hd hgone
          | succ k => exact h.goes_on hpolite
        obtain ⟨l, s', hs⟩ := hstep
        exact ⟨s', l, hs⟩
      · rintro s' ⟨l, hstep⟩
        rcases h.step hpolite hf hstep with ⟨k', c', rfl, -, h'⟩ | ⟨-, h', hlt⟩ | ⟨hgone, hd, m, e, rfl, -, hlost⟩
        · exact ihk k' (Nat.lt_succ_self _) h'
        · exact ihn _ hlt h' rfl
        · exact .now (htold k s c l.1 m e h hd hgone hlost)

theorem Step.gone (h : Step P s l s') (hx : (P x).demand (s.progs x) = .gone) : s'.progs x = s.progs x := by
  cases h with
  | @call y _ hd | @recv y _ _ _ _ hd | @hangup y _ _ _ hd =>
    refine next_progs_of_ne ?_
    rintro rfl
    rw [hx] at hd
    cases hd

theorem Step.told {e : TransportError} (h : Step P s (x, .received (some (.error e))) s') :
    s'.progs x = (P x).received (s.progs x) (.error e) := by
  cases h with
  | recv | hangup => exact next_progs

end Session

end TrenchDb.Transport
