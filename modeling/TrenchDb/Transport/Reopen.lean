import TrenchDb.Transport.GracefulClose

/-!
# Stream ids over the life of a connection

How often the `Open` of one id is accepted, against any peer. The manager remembers only
the streams it holds, so a trace of the ids it held before stands beside it.
-/

open TrenchDb.Lib.Lts

namespace TrenchDb.Transport

/-- An inbound `Open` of the stream `s` that `recv_frame` accepted. -/
def Event.opens (s : UInt32) : Event → Bool
  | .received (some (.ok f)) => f.header.frameType = .Open ∧ f.header.streamId = s
  | _ => false

/-- How many inbound `Open` frames of `s` were accepted. -/
def opensOn (s : UInt32) (ls : List Event) : Nat := ls.countP (Event.opens s)

/-! ## Which ids a step adds -/

namespace Endpoint

variable {e e' : Endpoint} {k : UInt32} {ev : Event} {outs : List Frame}

/-- The map holds `k` now, and did before unless this end or the event opened it. -/
def Enters (e : Endpoint) (k : UInt32) (ev : Event) : Prop := k ∈ e.streams ∨ opener k = e.role ∨ ev.opens k

theorem put_mem {j : UInt32} {stream : Stream} : k ∈ (e.put j stream).streams ↔ k = j ∨ k ∈ e.streams :=
  Finmap.mem_insert

theorem enters_put {j : UInt32} {stream stream₁ : Stream} (hheld : e.streams.lookup j = some stream)
    (hmem : k ∈ (e.put j stream₁).streams) : e.Enters k ev := by
  rcases put_mem.mp hmem with rfl | hmem
  · exact .inl (Finmap.mem_iff.mpr ⟨stream, hheld⟩)
  · exact .inl hmem

theorem enters_drop {j : UInt32} (hmem : k ∈ (e.drop j).streams) : e.Enters k ev :=
  .inl (Finmap.mem_erase.mp hmem).2

theorem Acts.enters {c : Call} {reply : Reply} (h : e.Acts c reply outs e') (htidy : e.Tidy)
    (hmem : k ∈ e'.streams) : e.Enters k (.called c reply) := by
  cases h with
  | failed | hello | waits | ready | nothing | empty | pinged | flushed => exact .inl hmem
  | opened =>
    rcases put_mem.mp (show k ∈ (e.put e.nextLocalId (Stream.new e.nextLocalId)).streams from hmem) with rfl | hmem
    · exact .inr (.inl (opener_eq_iff.mpr htidy.owns.1))
    · exact .inl hmem
  | sent _ _ _ hheld _ _ => exact enters_put hheld hmem
  | overflowed _ hheld _ _ _ => exact enters_put hheld hmem
  | closed _ hheld _ =>
    unfold afterClose at hmem
    split_ifs at hmem
    · exact enters_drop hmem
    · exact enters_put hheld hmem
  | reset => exact enters_drop hmem
  | took _ hheld _ => exact enters_put hheld hmem

theorem Heard.enters {f : Frame} (h : Heard e f e') (hmem : k ∈ e'.streams) :
    e.Enters k (.received (some (.ok f))) := by
  cases h with
  | opens hf =>
    rcases put_mem.mp hmem with rfl | hmem
    · exact .inr (.inr (by simp [Event.opens, hf]))
    · exact .inl hmem
  | data _ hheld => exact enters_put hheld hmem
  | close _ hheld _ => exact enters_put hheld hmem
  | closed | reset => exact enters_drop hmem
  | window _ _ hheld => exact enters_put hheld hmem

theorem Receives.enters {f : Frame} {r : Except TransportError Unit} (h : e.Receives f r outs e')
    (hmem : k ∈ e'.streams) : e.Enters k (.received (some (r.map fun _ => f))) := by
  cases h with
  | stream _ ht =>
    rcases onStream_heard (e := e) ht with ⟨err, heq⟩ | ⟨hok, hheard⟩
    · rw [heq] at hmem
      exact .inl hmem
    · rw [hok]
      exact hheard.enters hmem
  | early | helloed | badHello | welcomed | badWelcome | settings | told | pinged | pongless | ponged =>
    exact .inl hmem

theorem Step.enters (h : e.Step ev outs e') (htidy : e.Tidy) (hmem : k ∈ e'.streams) : e.Enters k ev := by
  cases h with
  | call hacts => exact hacts.enters htidy hmem
  | frame _ hrec => exact hrec.enters hmem
  | noFrame => exact .inl hmem

theorem Step.opened (h : e.Step ev outs e') (hopens : ev.opens k) :
    opener k = e.role.peer ∧ k ∉ e.streams ∧ k ∈ e'.streams := by
  unfold Event.opens at hopens
  split at hopens
  next f =>
    simp only [decide_eq_true_eq] at hopens
    obtain ⟨hf, rfl⟩ := hopens
    cases h.heard (by rw [hf]; rfl) with
    | data hty | close hty | closed hty | reset hty | window _ hty => rw [hf] at hty; cases hty
    | opens _ hopener hnone =>
      exact ⟨hopener, Finmap.lookup_eq_none.mp hnone, put_mem.mpr (.inl rfl)⟩
  · cases hopens

end Endpoint

/-! ## Frames that arrive -/

namespace StreamManager

variable {m m' : StreamManager} {f : Frame} {ev : Event} {s : UInt32}

/-- `f` is the frame that `recv_frame` reads and dispatches in this step. -/
inductive Arrives (m : StreamManager) (f : Frame) : Event → StreamManager → Prop
  | frame {reads : List Read} {conn : Connection} : m.conn.recvFrame reads = (some (.ok f), conn, []) →
      Arrives m f (.received (some (({ m with conn }.dispatch f).1.map fun _ => f))) ({ m with conn }.dispatch f).2

/-- The checks of `handle_open`. -/
structure TakesOpen (m : StreamManager) (f : Frame) : Prop where
  type : f.header.frameType = .Open
  established : m.handshakeState = .Established
  parity : opener f.header.streamId = m.role.peer
  unheld : f.header.streamId ∉ m.streams

/-- The checks of `handle_data`. -/
structure TakesData (m : StreamManager) (f : Frame) : Prop where
  type : f.header.frameType = .Data
  established : m.handshakeState = .Established
  receives : ∃ stream, m.streams.lookup f.header.streamId = some stream ∧ stream.state.canReceive

theorem dispatch_takesOpen (hf : f.header.frameType = .Open) (conn : Connection) :
    ({ m with conn }.dispatch f).1 = .ok () ↔ m.TakesOpen f := by
  have hstream : f.header.frameType.isStream := by rw [hf]; rfl
  by_cases hest : m.handshakeState = .Established
  · rw [dispatch, if_neg (not_not.mpr hest), dispatchEstablished]
    simp only [hf, withStreams, handleOpen]
    split_ifs with hpar hmem
    · refine iff_of_false (fun h => by cases h) fun h => hpar ?_
      exact Role.peer_peer m.role ▸ opener_eq_iff.mp h.parity
    · exact iff_of_false (fun h => by cases h) fun h => h.unheld hmem
    · refine iff_of_true rfl ⟨hf, hest, opener_eq_iff.mpr ?_, hmem⟩
      rw [Role.peer_peer]
      exact not_not.mp hpar
  · rw [dispatch, if_pos hest, dispatchHandshake_stream hstream]
    exact iff_of_false (fun h => by cases h) fun h => hest h.established

theorem dispatch_takesData (hf : f.header.frameType = .Data) (conn : Connection) :
    ({ m with conn }.dispatch f).1 = .ok () ↔ m.TakesData f := by
  have hstream : f.header.frameType.isStream := by rw [hf]; rfl
  by_cases hest : m.handshakeState = .Established
  · rw [dispatch, if_neg (not_not.mpr hest), dispatchEstablished]
    simp only [hf, withStreams, handleData]
    cases hlook : m.streams.lookup f.header.streamId with
    | none =>
      refine iff_of_false (fun h => by cases h) fun h => ?_
      obtain ⟨stream, hheld, -⟩ := h.receives
      rw [hlook] at hheld
      cases hheld
    | some stream =>
      by_cases hcan : stream.state.canReceive
      · simp only [hcan]
        exact iff_of_true rfl ⟨hf, hest, stream, hlook, hcan⟩
      · simp only [if_pos hcan]
        refine iff_of_false (fun h => by cases h) fun h => ?_
        obtain ⟨stream', hheld, hcan'⟩ := h.receives
        obtain rfl := Option.some.inj (hlook.symm.trans hheld)
        exact hcan hcan'
  · rw [dispatch, if_pos hest, dispatchHandshake_stream hstream]
    exact iff_of_false (fun h => by cases h) fun h => hest h.established

theorem arrives_of_accepted (h : m.Step (.received (some (.ok f))) m') :
    m.Arrives f (.received (some (.ok f))) m' ∧ ∃ conn, ({ m with conn }.dispatch f).1 = .ok () := by
  generalize hev : Event.received (some (.ok f)) = ev at h
  cases h with
  | call => cases hev
  | @recv reads r m' hrecv =>
    obtain rfl := Event.received.inj hev
    rcases hconn : m.conn.recvFrame reads with ⟨_ | _ | g, conn, rest⟩
    · rw [recvFrame_none hconn] at hrecv
      cases (Prod.mk.inj hrecv).1
    · rw [recvFrame_error hconn] at hrecv
      cases (Prod.mk.inj hrecv).1
    · rw [recvFrame_some hconn] at hrecv
      obtain ⟨hframe, hrest⟩ := Prod.mk.inj hrecv
      obtain ⟨rfl, rfl⟩ := Prod.mk.inj hrest
      cases hok : ({ m with conn }.dispatch g).1 with
      | error e =>
        rw [hok] at hframe
        cases Option.some.inj hframe
      | ok u =>
        rw [hok] at hframe
        obtain rfl := Except.ok.inj (Option.some.inj hframe)
        have harrives := Arrives.frame hconn
        rw [hok] at harrives
        exact ⟨harrives, conn, hok⟩

/-- A frame is accepted when it arrives and passes its checks, whatever else the connection has read. -/
theorem accepted_iff {P : Prop} (h : m.Step ev m') (hchecks : ∀ conn, ({ m with conn }.dispatch f).1 = .ok () ↔ P) :
    ev = .received (some (.ok f)) ↔ m.Arrives f ev m' ∧ P := by
  constructor
  · rintro rfl
    obtain ⟨harrives, conn, hok⟩ := arrives_of_accepted h
    exact ⟨harrives, (hchecks conn).mp hok⟩
  · rintro ⟨harrives, hp⟩
    cases harrives with
    | @frame reads conn =>
      rw [(hchecks conn).mpr hp]
      rfl

theorem takesOpen_iff (h : m.Step ev m') (hf : f.header.frameType = .Open) :
    ev = .received (some (.ok f)) ↔ m.Arrives f ev m' ∧ m.TakesOpen f := accepted_iff h (dispatch_takesOpen hf)

theorem takesData_iff (h : m.Step ev m') (hf : f.header.frameType = .Data) :
    ev = .received (some (.ok f)) ↔ m.Arrives f ev m' ∧ m.TakesData f := accepted_iff h (dispatch_takesData hf)

/-- An `Open` is accepted when one arrives that passes the checks. -/
theorem opens_iff (h : m.Step ev m') :
    ev.opens s ↔ ∃ f, m.Arrives f ev m' ∧ m.TakesOpen f ∧ f.header.streamId = s := by
  constructor
  · intro hopens
    unfold Event.opens at hopens
    split at hopens
    next f =>
      obtain ⟨hf, hid⟩ := of_decide_eq_true hopens
      obtain ⟨harrives, htakes⟩ := (takesOpen_iff h hf).mp rfl
      exact ⟨f, harrives, htakes, hid⟩
    · cases hopens
  · rintro ⟨f, harrives, htakes, hid⟩
    rw [(takesOpen_iff h htakes.type).mpr ⟨harrives, htakes⟩]
    exact decide_eq_true ⟨htakes.type, hid⟩

end StreamManager

/-! ## A manager with its past -/

/-- A manager, and the ids of all streams it has held so far. -/
structure Traced where
  manager : StreamManager
  seen : Finset UInt32
  deriving DecidableEq

namespace Traced

variable {role : Role} {ls : List Event} {t t' : Traced} {ev : Event} {s : UInt32}

def start (role : Role) : Traced := ⟨.fresh role, ∅⟩

inductive Step (t : Traced) : Event → Traced → Prop
  | step {ev : Event} {m' : StreamManager} : t.manager.Step ev m' → Step t ev ⟨m', t.seen ∪ m'.streams.keys⟩

/-- An `Open` of the peer, for the id of a stream that was held before and is not held now. -/
def Reopens (t : Traced) (f : Frame) : Prop := t.manager.TakesOpen f ∧ f.header.streamId ∈ t.seen

/-- A step in which no such frame arrives. -/
def FreshStep (t : Traced) (ev : Event) (t' : Traced) : Prop :=
  t.Step ev t' ∧ ∀ f, t.manager.Arrives f ev t'.manager → ¬ t.Reopens f

theorem traced_of_run {m : StreamManager} (h : Run StreamManager.Step (.fresh role) ls m) :
    ∃ seen, Run Step (start role) ls ⟨m, seen⟩ := by
  induction h with
  | nil => exact ⟨∅, .nil⟩
  | snoc _ hstep ih =>
    obtain ⟨seen, hrun⟩ := ih
    exact ⟨_, hrun.snoc (.step hstep)⟩

theorem run_of_traced (h : Run Step (start role) ls t) : Run StreamManager.Step (.fresh role) ls t.manager := by
  induction h with
  | nil => exact .nil
  | snoc _ hstep ih =>
    cases hstep with
    | step hstep => exact ih.snoc hstep

theorem reopens_iff (h : t.Step ev t') :
    (∃ f, t.manager.Arrives f ev t'.manager ∧ t.Reopens f) ↔ ∃ s ∈ t.seen, ev.opens s := by
  cases h with
  | step hstep =>
    constructor
    · rintro ⟨f, harrives, htakes, hseen⟩
      exact ⟨_, hseen, (StreamManager.opens_iff hstep).mpr ⟨f, harrives, htakes, rfl⟩⟩
    · rintro ⟨s, hseen, hopens⟩
      obtain ⟨f, harrives, htakes, rfl⟩ := (StreamManager.opens_iff hstep).mp hopens
      exact ⟨f, harrives, htakes, hseen⟩

theorem fresh_iff (h : t.Step ev t') :
    (∀ f, t.manager.Arrives f ev t'.manager → ¬ t.Reopens f) ↔ ∀ s ∈ t.seen, ¬ ev.opens s := by
  have hnot := not_congr (reopens_iff h)
  simpa only [not_exists, not_and] using hnot

theorem opensOn_snoc : opensOn s (ls ++ [ev]) = opensOn s ls + if ev.opens s then 1 else 0 := by
  simp [opensOn, List.countP_append, List.countP_singleton]

/-- The ids of the peer are seen exactly when their `Open` was accepted, and once. -/
structure Counted (role : Role) (ls : List Event) (t : Traced) : Prop where
  held : t.manager.streams.keys ⊆ t.seen
  counts : ∀ s, opener s = role.peer → opensOn s ls = if s ∈ t.seen then 1 else 0
  quiet : ∀ s, opener s = role → opensOn s ls = 0

theorem counted_of_run (h : Run FreshStep (start role) ls t) : Counted role ls t := by
  induction h with
  | nil => exact ⟨Finset.empty_subset _, fun _ _ => rfl, fun _ _ => rfl⟩
  | @snoc ls ev t t' hrun hstep ih =>
    have hrun' := run_of_traced (hrun.mono fun _ _ _ hs => hs.1)
    obtain ⟨hstep, hfresh⟩ := hstep
    rw [fresh_iff hstep] at hfresh
    cases hstep with
    | step hstep =>
      obtain ⟨-, outs, hend, -⟩ := (StreamManager.sound_of_run hrun').step hstep
      have hrole : t.manager.endpoint.role = role := (StreamManager.progress_of_run hrun').role_eq
      refine ⟨Finset.subset_union_right, fun s hs => ?_, fun s hs => ?_⟩
      · rw [opensOn_snoc, ih.counts s hs]
        by_cases hopens : ev.opens s
        · obtain ⟨-, -, hmem⟩ := hend.opened hopens
          have hunseen : s ∉ t.seen := fun hseen => hfresh s hseen hopens
          rw [if_neg hunseen, if_pos hopens, if_pos]
          exact Finset.mem_union_right _ (Finmap.mem_keys.mpr hmem)
        · rw [if_neg hopens, Nat.add_zero]
          refine if_congr ?_ rfl rfl
          rw [Finset.mem_union, Finmap.mem_keys]
          refine ⟨.inl, fun hor => hor.elim id fun hmem => ?_⟩
          rcases hend.enters (StreamManager.tidy_of_run hrun') hmem with hmem | hown | hev
          · exact ih.held (Finmap.mem_keys.mpr hmem)
          · rw [hs, hrole] at hown
            exact absurd hown (Role.peer_ne _)
          · exact absurd hev hopens
      · rw [opensOn_snoc, ih.quiet s hs, if_neg]
        intro hopens
        obtain ⟨hpeer, -⟩ := hend.opened hopens
        rw [hs, hrole] at hpeer
        exact absurd hpeer.symm (Role.peer_ne _)

theorem Counted.le_one (h : Counted role ls t) (s : UInt32) : opensOn s ls ≤ 1 := by
  by_cases hs : opener s = role
  · rw [h.quiet s hs]
    omega
  · rw [h.counts s ((Role.eq_or_peer _ _).resolve_left hs)]
    split_ifs <;> omega

/-- While no `Open` of the peer arrives for the id of an earlier stream, each id is opened at most once; and
the first that arrives breaks this. -/
theorem opened_once (h : Run FreshStep (start role) ls t) :
    (∀ s, opensOn s ls ≤ 1) ∧
      ∀ ev t', t.Step ev t' → ((∀ s, opensOn s (ls ++ [ev]) ≤ 1) ↔
        ∀ f, t.manager.Arrives f ev t'.manager → ¬ t.Reopens f) := by
  have hcounted := counted_of_run h
  refine ⟨hcounted.le_one, fun ev t' hstep => ⟨fun hle f harrives hre => ?_, fun hfresh => ?_⟩⟩
  · obtain ⟨s, hseen, hopens⟩ := (reopens_iff hstep).mp ⟨f, harrives, hre⟩
    have hrun := run_of_traced (h.mono fun _ _ _ hs => hs.1)
    cases hstep with
    | step hstep =>
      obtain ⟨-, outs, hend, -⟩ := (StreamManager.sound_of_run hrun).step hstep
      obtain ⟨hpeer, -⟩ := hend.opened hopens
      rw [show t.manager.endpoint.role = role from (StreamManager.progress_of_run hrun).role_eq] at hpeer
      have htwo := hle s
      rw [opensOn_snoc, hcounted.counts s hpeer, if_pos hseen, if_pos hopens] at htwo
      omega
  · exact (counted_of_run (h.snoc ⟨hstep, hfresh⟩)).le_one

/-! ### Traces that can be computed -/

def act (t : Traced) (a : StreamManager.Act) : Event × Traced :=
  ((t.manager.act a).1, ⟨(t.manager.act a).2, t.seen ∪ (t.manager.act a).2.streams.keys⟩)

theorem act_step {a : StreamManager.Act} (h : t.manager.fits a)
    (hfresh : t.seen.filter (fun s => (t.act a).1.opens s) = ∅) : t.FreshStep (t.act a).1 (t.act a).2 := by
  have hstep : t.Step (t.act a).1 (t.act a).2 := .step (StreamManager.act_step h)
  exact ⟨hstep, (fresh_iff hstep).mpr fun s hs => Finset.filter_eq_empty_iff.mp hfresh hs⟩

/-- The events of a peer that opens stream 1. -/
def firstOpen : List Event :=
  [((start .Acceptor).act (.frame helloFrame)).1,
    ((((start .Acceptor).act (.frame helloFrame)).2).act (.frame (openFrame 1))).1]

theorem opened_once_first : opensOn 1 firstOpen ≤ 1 :=
  (opened_once ((Run.single (act_step (by decide +kernel) (by decide +kernel))).snoc
    (act_step (by decide +kernel) (by decide +kernel)))).1 1

/-- A peer opens a stream, resets it, and opens it again. -/
def reopening : List StreamManager.Act :=
  [.frame helloFrame, .frame (openFrame 1), .frame (resetFrame 1), .frame (openFrame 1)]

theorem reopening_run : Run StreamManager.Step (.fresh .Acceptor) ((StreamManager.fresh .Acceptor).play reopening).1
    ((StreamManager.fresh .Acceptor).play reopening).2 :=
  StreamManager.played_run (by decide +kernel)

theorem opened_twice : ¬ ∀ role ls m, Run StreamManager.Step (.fresh role) ls m → ∀ s, opensOn s ls ≤ 1 := by
  intro h
  have hle := h .Acceptor _ _ reopening_run 1
  revert hle
  decide +kernel

end Traced

end TrenchDb.Transport
