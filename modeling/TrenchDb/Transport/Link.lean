import TrenchDb.Transport.Solo

/-!
# Two managers and the bytes between them

An initiator and an acceptor, joined by reliable FIFO byte channels. Whatever the chunks in
which the bytes arrive, the link behaves like two endpoints with a queue of frames each way.
-/

open TrenchDb.Lib.Incremental TrenchDb.Lib.Lts

namespace TrenchDb.Transport

def Role.peer : Role → Role
  | .Initiator => .Acceptor
  | .Acceptor => .Initiator

namespace Role

@[simp] theorem peer_peer (x : Role) : x.peer.peer = x := by cases x <;> rfl
@[simp] theorem peer_ne (x : Role) : x.peer ≠ x := by cases x <;> decide
@[simp] theorem ne_peer (x : Role) : x ≠ x.peer := by cases x <;> decide

theorem eq_or_peer (x y : Role) : y = x ∨ y = x.peer := by cases x <;> cases y <;> decide

end Role

/-! ## The link -/

/-- The managers, and how many bytes each has read from its peer's socket. -/
structure Link where
  mgr : Role → StreamManager
  taken : Role → Nat

namespace Link

def init : Link := { mgr := StreamManager.fresh, taken := fun _ => 0 }

/-- The bytes on their way to `x`. -/
def flight (l : Link) (x : Role) : List UInt8 :=
  (l.mgr x.peer).conn.stream.written.drop (l.taken x)

/-- `x` has read `n` more bytes and become `m`. -/
def set (l : Link) (x : Role) (m : StreamManager) (n : Nat) : Link :=
  { mgr := Function.update l.mgr x m, taken := Function.update l.taken x (l.taken x + n) }

/-- One end makes a call, or a `recv_frame` call of it reads bytes on their way to it, in any
non-empty chunks. -/
inductive Step (l : Link) : Role × Event → Link → Prop
  | call (x : Role) (c : Call) :
      Step l (x, .called c ((l.mgr x).perform c).1) (l.set x ((l.mgr x).perform c).2 0)
  | recv (x : Role) {chunks : List (List UInt8)} {rest : List UInt8}
      {r : Option (Except TransportError Frame)} {m : StreamManager} : (∀ chunk ∈ chunks, chunk ≠ []) →
      l.flight x = chunks.flatten ++ rest → (l.mgr x).recvFrame (chunks.map .ok) = (r, m, []) →
      Step l (x, .received r) (l.set x m chunks.flatten.length)

/-! ### Runs that can be computed -/

/-- A call, or a `recv_frame` call for which at most `n` bytes arrive, in one read. -/
inductive Act where
  | call (c : Call)
  | recv (n : Nat)

/-- The reads of `Act.recv`. -/
def reads (l : Link) (x : Role) (n : Nat) : List (List UInt8) :=
  if (l.flight x).take n = [] then [] else [(l.flight x).take n]

def act (l : Link) (x : Role) : Act → Event × Link
  | .call c => (.called c ((l.mgr x).perform c).1, l.set x ((l.mgr x).perform c).2 0)
  | .recv n =>
    let o := (l.mgr x).recvFrame ((l.reads x n).map .ok)
    (.received o.1, l.set x o.2.1 (l.reads x n).flatten.length)

/-- All reads are used. -/
def fits (l : Link) (x : Role) : Act → Bool
  | .call _ => true
  | .recv n => ((l.mgr x).recvFrame ((l.reads x n).map .ok)).2.2.isEmpty

def play : Link → List (Role × Act) → List (Role × Event) × Link
  | l, [] => ([], l)
  | l, (x, a) :: script => ((x, (l.act x a).1) :: (play (l.act x a).2 script).1, (play (l.act x a).2 script).2)

def playable : Link → List (Role × Act) → Bool
  | _, [] => true
  | l, (x, a) :: script => l.fits x a && playable (l.act x a).2 script

theorem act_step {l : Link} {x : Role} {a : Act} (h : l.fits x a) : Step l (x, (l.act x a).1) (l.act x a).2 := by
  cases a with
  | call c => exact .call x c
  | recv n =>
    have hused := List.isEmpty_iff.mp h
    refine @Step.recv l x (l.reads x n) ((l.flight x).drop n) _ _ ?_ ?_ ?_
    · unfold reads; split_ifs with h <;> simp [h]
    · unfold reads
      split_ifs with h
      · conv_lhs => rw [← List.take_append_drop n (l.flight x), h]
        rfl
      · simp
    · rw [← hused]

theorem play_run {l : Link} {script : List (Role × Act)} (h : l.playable script) :
    Run Step l (l.play script).1 (l.play script).2 := by
  induction script generalizing l with
  | nil => exact .nil
  | cons xa script ih =>
    obtain ⟨x, a⟩ := xa
    obtain ⟨hfits, hrest⟩ := Bool.and_eq_true_iff.mp h
    exact .cons (act_step hfits) (ih hrest)

/-! ### Bytes and frames on the way -/

/-- All bytes that `x` has not yet decoded: read, on their way, or in the peer's write buffer. -/
def pending (l : Link) (x : Role) : List UInt8 :=
  (l.mgr x).conn.readBuffer ++ l.flight x ++ (l.mgr x.peer).conn.writeBuffer

/-- The frames that the peer of `x` has emitted and `x` has not yet processed. -/
def queue (l : Link) (x : Role) : List Frame := (trnc.parse (l.pending x)).1

end Link

/-! ## Endpoints and queues of frames -/

/-- Two endpoints, and the frames on their way to each. -/
structure FrameLink where
  ends : Role → Endpoint
  queue : Role → List Frame

namespace FrameLink

def init : FrameLink := { ends := Endpoint.new, queue := fun _ => [] }

/-- `x` has become `e` and emitted `outs`; the frames on their way to it are now `rest`. -/
def post (p : FrameLink) (x : Role) (e : Endpoint) (outs rest : List Frame) : FrameLink :=
  { ends := Function.update p.ends x e
    queue := Function.update (Function.update p.queue x rest) x.peer (p.queue x.peer ++ outs) }

inductive Step (p : FrameLink) : Role × Event → FrameLink → Prop
  | call (x : Role) {c : Call} {reply : Reply} {outs : List Frame} {e : Endpoint} :
      (p.ends x).Acts c reply outs e → Step p (x, .called c reply) (p.post x e outs (p.queue x))
  | recv (x : Role) {f : Frame} {rest : List Frame} {r : Except TransportError Unit} {outs : List Frame}
      {e : Endpoint} : p.queue x = f :: rest → (p.ends x).Receives f r outs e →
      Step p (x, .received (some (r.map fun _ => f))) (p.post x e outs rest)
  | wait (x : Role) : Step p (x, .received none) p

variable {p : FrameLink} {x : Role} {e : Endpoint} {outs rest : List Frame}

@[simp] theorem post_ends : (p.post x e outs rest).ends x = e := by simp [post]
@[simp] theorem post_ends_peer : (p.post x e outs rest).ends x.peer = p.ends x.peer := by simp [post]
@[simp] theorem post_queue : (p.post x e outs rest).queue x = rest := by simp [post]
@[simp] theorem post_queue_peer : (p.post x e outs rest).queue x.peer = p.queue x.peer ++ outs := by
  simp [post]

theorem post_ends_of_ne {y : Role} (h : y ≠ x) : (p.post x e outs rest).ends y = p.ends y := by
  rw [(x.eq_or_peer y).resolve_left h, post_ends_peer]

theorem post_queue_of_ne {y : Role} (h : y ≠ x) : (p.post x e outs rest).queue y = p.queue y ++ outs := by
  rw [(x.eq_or_peer y).resolve_left h, post_queue_peer]

theorem post_self : p.post x (p.ends x) [] (p.queue x) = p := by simp [post]

end FrameLink

/-! ## The link behaves like its frames -/

/-- The link `l`, seen as endpoints and frames, is `p`. -/
structure Rep (l : Link) (p : FrameLink) : Prop where
  ends_eq : ∀ x, p.ends x = (l.mgr x).endpoint
  settled : ∀ x, (l.mgr x).conn.Settled
  taken_le : ∀ x, l.taken x ≤ (l.mgr x.peer).conn.stream.written.length
  valid : ∀ x, ∀ f ∈ p.queue x, f.Valid
  pending_eq : ∀ x, l.pending x = (p.queue x).flatMap Frame.wire

namespace Rep

variable {l : Link} {p : FrameLink}

theorem init : Rep Link.init FrameLink.init :=
  ⟨fun _ => rfl, fun _ => Connection.settled_new, fun _ => le_rfl, fun _ => by simp [FrameLink.init], fun _ => rfl⟩

theorem queue_eq (h : Rep l p) (x : Role) : l.queue x = p.queue x := by
  rw [Link.queue, h.pending_eq, StreamManager.parse_wires (h.valid x)]

theorem pending_sentBytes (h : Rep l p) (x : Role) :
    l.pending x = (l.mgr x).conn.readBuffer ++ (l.mgr x.peer).conn.sentBytes.drop (l.taken x) := by
  rw [Link.pending, Connection.sentBytes, List.drop_append_of_le_length (h.taken_le x), List.append_assoc]
  rfl

theorem post (h : Rep l p) (x : Role) {m : StreamManager} {buffer : List UInt8} {n : Nat}
    {outs rest : List Frame}
    (hsends : ({ (l.mgr x).conn with readBuffer := buffer } : Connection).Sends (outs.flatMap Frame.wire) m.conn)
    (houts : ∀ f ∈ outs, f.Valid) (hrest : ∀ f ∈ rest, f.Valid) (hn : n ≤ (l.flight x).length)
    (hbytes : buffer ++ (l.flight x).drop n ++ (l.mgr x.peer).conn.writeBuffer = rest.flatMap Frame.wire) :
    Rep (l.set x m n) (p.post x m.endpoint outs rest) := by
  have hle := h.taken_le x
  have hlep := h.taken_le x.peer
  have hflight : l.taken x + n ≤ (l.mgr x.peer).conn.stream.written.length := by
    rw [Link.flight, List.length_drop] at hn; omega
  have hwritten := hsends.written_le
  rw [Role.peer_peer] at hlep
  refine ⟨?_, ?_, ?_, ?_, ?_⟩ <;> intro y <;> rcases x.eq_or_peer y with rfl | rfl
  · simp [Link.set]
  · simp [Link.set, h.ends_eq]
  · simpa [Link.set] using hsends.settled
  · simpa [Link.set] using h.settled x.peer
  · simpa [Link.set] using hflight
  · simpa [Link.set] using hlep.trans hwritten
  · simpa using hrest
  · intro f hf
    rw [FrameLink.post_queue_peer, List.mem_append] at hf
    exact hf.elim (h.valid x.peer f) (houts f)
  · rw [FrameLink.post_queue, ← hbytes, Link.flight, List.drop_drop]
    simp [Link.pending, Link.flight, Link.set, hsends.readBuffer_eq]
  · have hpeer := h.pending_sentBytes x.peer
    have hlen : l.taken x.peer ≤ (l.mgr x).conn.sentBytes.length := by
      simp only [Connection.sentBytes, List.length_append]; omega
    rw [Role.peer_peer, h.pending_eq] at hpeer
    rw [FrameLink.post_queue_peer, List.flatMap_append, hpeer, List.append_assoc,
      ← List.drop_append_of_le_length hlen]
    have hsent := hsends.sentBytes_eq
    have hdrop : (m.conn.stream.written.drop (l.taken x.peer)) ++ m.conn.writeBuffer =
        m.conn.sentBytes.drop (l.taken x.peer) := by
      rw [Connection.sentBytes, List.drop_append_of_le_length (hlep.trans hwritten)]
    simp only [Link.pending, Link.flight, Link.set, Role.peer_peer, Function.update_self, ne_eq,
      Role.peer_ne, not_false_eq_true, Function.update_of_ne, List.append_assoc, hdrop, hsent]
    rfl

theorem call (h : Rep l p) (x : Role) {m : StreamManager} {outs : List Frame}
    (hsends : (l.mgr x).conn.Sends (outs.flatMap Frame.wire) m.conn) (houts : ∀ f ∈ outs, f.Valid) :
    Rep (l.set x m 0) (p.post x m.endpoint outs (p.queue x)) :=
  @post _ _ h x m (l.mgr x).conn.readBuffer 0 outs (p.queue x) hsends houts (h.valid x) (Nat.zero_le _)
    (h.pending_eq x)

/-- Every step of the link is a step of its endpoints and frames, with the same label. -/
theorem step (h : Rep l p) {l' : Link} {ev : Role × Event} (hstep : Link.Step l ev l') :
    ∃ p', FrameLink.Step p ev p' ∧ Rep l' p' := by
  cases hstep with
  | call x c =>
    obtain ⟨outs, hacts, hsends, hv⟩ := StreamManager.perform_acts (h.settled x) c
    rw [← h.ends_eq] at hacts
    exact ⟨_, .call x hacts, h.call x hsends hv⟩
  | @recv x chunks rest r m hne hflight hrecv =>
    have hpend := h.pending_eq x
    rw [Link.pending, hflight, ← List.append_assoc, List.append_assoc] at hpend
    have hn : chunks.flatten.length ≤ (l.flight x).length := by rw [hflight]; simp
    have hdrop : (l.flight x).drop chunks.flatten.length = rest := by rw [hflight, List.drop_left]
    rcases StreamManager.recvFrame_frames (h.valid x) hne hpend hrecv with
      ⟨rfl, rfl⟩ | ⟨f, q, buffer, hq, hrest, rfl, rfl⟩
    · -- The bytes so far do not make a frame.
      have hpost := @post _ _ h x { l.mgr x with conn := _ } _ _ [] (p.queue x)
        ((h.settled x).of_read ((l.mgr x).conn.readBuffer ++ chunks.flatten)).sends_nothing
        (by simp) (h.valid x) hn (by rw [hdrop, List.append_assoc]; exact hpend)
      refine ⟨p, .wait x, ?_⟩
      have hself := FrameLink.post_self (p := p) (x := x)
      rw [h.ends_eq] at hself
      rw [← hself]
      exact hpost
    · -- The next frame is complete.
      have hvq := h.valid x
      rw [hq] at hvq
      obtain ⟨outs, hrec, hsends, hv⟩ := StreamManager.dispatch_receives
        (m := { l.mgr x with conn := { (l.mgr x).conn with readBuffer := buffer } })
        ((h.settled x).of_read _) (hvq f List.mem_cons_self)
      refine ⟨_, .recv x hq ((h.ends_eq x).symm ▸ hrec), h.post x hsends hv
        (fun g hg => hvq g (List.mem_cons_of_mem _ hg)) hn ?_⟩
      rw [hdrop, ← hrest, List.append_assoc]

theorem run {ls : List (Role × Event)} (h : Run Link.Step Link.init ls l) :
    ∃ p, Run FrameLink.Step FrameLink.init ls p ∧ Rep l p := by
  induction h with
  | nil => exact ⟨_, .nil, init⟩
  | snoc _ hstep ih =>
    obtain ⟨p, hrun, hrep⟩ := ih
    obtain ⟨p', hstep', hrep'⟩ := hrep.step hstep
    exact ⟨p', hrun.snoc hstep', hrep'⟩

end Rep

end TrenchDb.Transport
