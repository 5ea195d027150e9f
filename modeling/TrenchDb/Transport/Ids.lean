import TrenchDb.Transport.Faults
import TrenchDb.Transport.Reopen

/-!
# One stream id at a manager

What a step does to the stream under one id, and which ids a manager gives out and holds,
against any peer and any socket.
-/

open TrenchDb.Lib.BigEndian TrenchDb.Lib.Lts

namespace TrenchDb.Transport

/-! ## What a step does to one stream -/

/-- A stream frame of `s` that `recv_frame` accepted. -/
def Event.hears (s : UInt32) : Event → Bool
  | .received (some (.ok f)) => f.header.frameType.isStream && f.header.streamId = s
  | _ => false

/-- What a step does to what is held under the id `s`, with the frames it emits. The next id that
this end opens is `next`. -/
inductive Affects (next s : UInt32) : Option Stream → Event → List Frame → Option Stream → Prop
  | untouched (held : Option Stream) {ev : Event} {outs : List Frame} : ev.hears s = false →
      (∀ f ∈ outs, f.header.frameType.isStream → f.header.streamId ≠ s) → Affects next s held ev outs held
  | opened {reply : Reply} {outs : List Frame} : s = next → outs = [] ∨ outs = [openFrame s] →
      Affects next s none (.called .openStream reply) outs (some (Stream.new s))
  | openedBy {f : Frame} : f.header.frameType = .Open → f.header.streamId = s →
      Affects next s none (.received (some (.ok f))) [] (some (Stream.new s))
  | sent {stream : Stream} {payload : List UInt8} {reply : Reply} {outs : List Frame} :
      (payload.length : Int) ≤ stream.sendWindow → outs = [] ∨ outs = [dataFrame s payload] →
      Affects next s (some stream) (.called (.sendData s payload) reply) outs
        (some (stream.consumeSendWindow payload.length))
  | arrived {stream : Stream} {f : Frame} : f.header.frameType = .Data → f.header.streamId = s →
      stream.state.canReceive →
      Affects next s (some stream) (.received (some (.ok f))) [] (some (stream.pushRecv f.payload))
  | credited {stream : Stream} {f : Frame} : f.header.frameType = .Window → f.header.streamId = s →
      Affects next s (some stream) (.received (some (.ok f))) []
        (some (stream.applyWindowIncrement (UInt32.ofNat (ofBE f.payload))))
  | took {stream rest : Stream} {payload : List UInt8} {reply : Reply} {outs : List Frame} :
      stream.popRecv = (some payload, rest) → outs = [] ∨ outs = [windowFrame s payload.length] →
      Affects next s (some stream) (.called (.recvData s) reply) outs (some rest)
  | closed {stream : Stream} {reply : Reply} {outs : List Frame} {held : Option Stream} :
      outs = [] ∨ outs = [closeFrame s] → held = none ∨ held = some stream.onLocalClose →
      Affects next s (some stream) (.called (.closeStream s) reply) outs held
  | closedBy {stream : Stream} {f : Frame} : f.header.frameType = .Close → f.header.streamId = s →
      Affects next s (some stream) (.received (some (.ok f))) [] stream.afterRemoteClose
  | reset {stream : Stream} {reply : Reply} {outs : List Frame} {held : Option Stream} :
      outs = [] ∨ outs = [resetFrame s] → held = none ∨ held = some stream.onReset →
      Affects next s (some stream) (.called (.resetStream s) reply) outs held
  | resetBy (held : Option Stream) {f : Frame} : f.header.frameType = .Reset → f.header.streamId = s →
      Affects next s held (.received (some (.ok f))) [] none

/-- The id that an `open_stream` call returned. -/
def Event.opened? : Event → Option UInt32
  | .called .openStream (.ok (.opened id)) => some id
  | _ => none

theorem opened?_error {c : Call} {err : TransportError} : (Event.called c (.error err)).opened? = none := by
  cases c <;> rfl

namespace Endpoint

variable {e e' : Endpoint} {ev : Event} {outs : List Frame} {k s : UInt32} {c : Call} {reply : Reply}

theorem affects_at {d : Endpoint} (hat : Affects e.nextLocalId k (e.streams.lookup k) ev outs (d.streams.lookup k))
    (hother : k ≠ s → d.streams.lookup s = e.streams.lookup s ∧ ev.hears s = false)
    (houts : ∀ f ∈ outs, f.header.streamId = k) :
    Affects e.nextLocalId s (e.streams.lookup s) ev outs (d.streams.lookup s) := by
  by_cases hks : k = s
  · exact hks ▸ hat
  · obtain ⟨hlook, hev⟩ := hother hks
    rw [hlook]
    exact .untouched _ hev fun f hf _ => houts f hf ▸ hks

theorem affects_call {stream' : Stream}
    (hat : Affects e.nextLocalId k (e.streams.lookup k) (.called c reply) outs (some stream'))
    (houts : ∀ f ∈ outs, f.header.streamId = k) :
    Affects e.nextLocalId s (e.streams.lookup s) (.called c reply) outs ((e.put k stream').streams.lookup s) := by
  refine affects_at (k := k) ?_ (fun hks => ⟨?_, rfl⟩) houts
  · rwa [put_lookup, if_pos rfl]
  · rw [put_lookup, if_neg hks]

theorem affects_quiet (hlook : e'.streams = e.streams) (hev : ev.hears s = false)
    (houts : ∀ f ∈ outs, f.header.frameType.isStream = false) :
    Affects e.nextLocalId s (e.streams.lookup s) ev outs (e'.streams.lookup s) := by
  rw [hlook]
  refine .untouched _ hev fun f hf hstream => ?_
  rw [houts f hf] at hstream
  cases hstream

theorem Begins.affects {f : Frame} (h : e.Begins c f e') (hnew : e.streams.lookup e.nextLocalId = none)
    (houts : outs = [] ∨ outs = [f]) (s : UInt32) :
    Affects e.nextLocalId s (e.streams.lookup s) (.called c reply) outs (e'.streams.lookup s) := by
  have hmem : ∀ g ∈ outs, g = f := by
    intro g hg
    rcases houts with rfl | rfl
    · simp at hg
    · exact List.mem_singleton.mp hg
  cases h with
  | hello => exact affects_quiet rfl rfl fun g hg => hmem g hg ▸ rfl
  | pinged => exact affects_quiet rfl rfl fun g hg => hmem g hg ▸ rfl
  | opened => exact affects_call (hnew ▸ .opened rfl houts) fun g hg => hmem g hg ▸ rfl
  | sent _ _ _ hlook _ hwin => exact affects_call (hlook ▸ .sent hwin houts) fun g hg => hmem g hg ▸ rfl
  | closed _ hlook _ => exact affects_call (hlook ▸ .closed houts (.inr rfl)) fun g hg => hmem g hg ▸ rfl
  | reset _ hlook => exact affects_call (hlook ▸ .reset houts (.inr rfl)) fun g hg => hmem g hg ▸ rfl
  | took _ hlook hpop => exact affects_call (hlook ▸ .took hpop houts) fun g hg => hmem g hg ▸ rfl

theorem Acts.affects (h : e.Acts c reply outs e') (hnew : e.streams.lookup e.nextLocalId = none) (s : UInt32) :
    Affects e.nextLocalId s (e.streams.lookup s) (.called c reply) outs (e'.streams.lookup s) := by
  cases h with
  | failed | waits | ready | nothing | empty | flushed => exact affects_quiet rfl rfl (by simp)
  | hello => exact affects_quiet rfl rfl (by simp [Frametype.isStream])
  | pinged => exact affects_quiet rfl rfl (by simp [Frametype.isStream])
  | opened => exact affects_call (hnew ▸ .opened rfl (.inr rfl)) (by simp)
  | sent _ _ _ hlook _ hwin => exact affects_call (hlook ▸ .sent hwin (.inr rfl)) (by simp)
  | overflowed _ hlook _ hwin => exact affects_call (hlook ▸ .sent hwin (.inl rfl)) (by simp)
  | @closed k stream _ hlook _ =>
    refine affects_at (k := k) ?_ (fun hks => ⟨?_, rfl⟩) (by simp)
    · rw [hlook, FrameLink.afterClose_lookup, if_pos rfl]
      refine .closed (.inr rfl) ?_
      unfold Stream.afterLocalClose
      split_ifs
      · exact .inl rfl
      · exact .inr rfl
    · rw [FrameLink.afterClose_lookup, if_neg hks]
  | @reset k _ _ hlook =>
    refine affects_at (k := k) ?_ (fun hks => ⟨?_, rfl⟩) (by simp)
    · rw [hlook, drop_lookup, if_pos rfl]
      exact .reset (.inr rfl) (.inl rfl)
    · rw [drop_lookup, if_neg hks]
  | @took k stream _ payload _ hlook hpop =>
    refine affects_call (hlook ▸ .took hpop ?_) ?_
    · unfold credit
      split_ifs
      · exact .inr rfl
      · exact .inl rfl
    · unfold credit
      split_ifs <;> simp

theorem affects_received {f : Frame} {stream' : Stream}
    (hat : Affects e.nextLocalId f.header.streamId (e.streams.lookup f.header.streamId) (.received (some (.ok f))) []
      (some stream')) :
    Affects e.nextLocalId s (e.streams.lookup s) (.received (some (.ok f))) []
      ((e.put f.header.streamId stream').streams.lookup s) := by
  refine affects_at (k := f.header.streamId) ?_ (fun hks => ⟨?_, by simp [Event.hears, hks]⟩) (by simp)
  · rwa [put_lookup, if_pos rfl]
  · rw [put_lookup, if_neg hks]

theorem onStream_affects {f : Frame} (ht : f.header.frameType.isStream) :
    (∃ err, e.onStream f = (.error err, e.streams)) ∨
    ((e.onStream f).1 = .ok () ∧ ∀ s, Affects e.nextLocalId s (e.streams.lookup s) (.received (some (.ok f))) []
      ((e.onStream f).2.lookup s)) := by
  unfold onStream
  cases hf : f.header.frameType <;> rw [hf] at ht <;> dsimp only
  case Open =>
    unfold handleOpen
    split_ifs with hpar hmem
    · exact .inl ⟨_, rfl⟩
    · exact .inl ⟨_, rfl⟩
    · have hnone : e.streams.lookup f.header.streamId = none := Finmap.lookup_eq_none.mpr hmem
      exact .inr ⟨rfl, fun s => affects_received (hnone ▸ .openedBy hf rfl)⟩
  case Data =>
    unfold handleData
    split
    · exact .inl ⟨_, rfl⟩
    next stream hlook =>
      split_ifs with hcan
      · exact .inr ⟨rfl, fun s => affects_received (hlook ▸ .arrived hf rfl hcan)⟩
      · exact .inl ⟨_, rfl⟩
  case Close =>
    unfold handleClose
    split
    · exact .inl ⟨_, rfl⟩
    next stream hlook =>
      refine .inr ⟨by dsimp only; split_ifs <;> rfl, fun s => ?_⟩
      have hat : Affects e.nextLocalId f.header.streamId (some stream) (.received (some (.ok f))) []
          stream.afterRemoteClose := .closedBy hf rfl
      unfold Stream.afterRemoteClose at hat
      dsimp only
      split_ifs at hat ⊢ with hclosed
      · refine affects_at (d := e.drop f.header.streamId) (k := f.header.streamId) ?_
          (fun hks => ⟨?_, by simp [Event.hears, hks]⟩) (by simp)
        · rwa [drop_lookup, if_pos rfl, hlook]
        · rw [drop_lookup, if_neg hks]
      · exact affects_received (hlook ▸ hat)
  case Reset =>
    refine .inr ⟨rfl, fun s => affects_at (d := e.drop f.header.streamId) (k := f.header.streamId) ?_
      (fun hks => ⟨?_, by simp [Event.hears, hks]⟩) (by simp)⟩
    · rw [drop_lookup, if_pos rfl]
      exact .resetBy _ hf rfl
    · rw [drop_lookup, if_neg hks]
  case Window =>
    unfold handleWindow
    split
    · exact .inl ⟨_, rfl⟩
    next stream hlook =>
      split_ifs
      · exact .inl ⟨_, rfl⟩
      · exact .inr ⟨rfl, fun s => affects_received (hlook ▸ .credited hf rfl)⟩
  all_goals exact absurd ht (by decide)

theorem Receives.affects {f : Frame} {r : Except TransportError Unit} (h : e.Receives f r outs e') (s : UInt32) :
    Affects e.nextLocalId s (e.streams.lookup s) (.received (some (r.map fun _ => f))) outs (e'.streams.lookup s) := by
  have hquiet : ∀ {r : Except TransportError Unit}, f.header.frameType.isStream = false →
      (Event.received (some (r.map fun _ => f))).hears s = false := by
    intro r ht
    cases r with
    | error => rfl
    | ok => simp [Except.map, Event.hears, ht]
  cases h with
  | stream _ ht =>
    rcases onStream_affects (e := e) ht with ⟨err, heq⟩ | ⟨hok, haffects⟩
    · rw [heq]
      exact affects_quiet rfl rfl (by simp)
    · rw [hok]
      exact haffects s
  | early =>
    refine affects_quiet rfl rfl ?_
    split_ifs
    · simp [Frametype.isStream]
    · simp
  | helloed ht | pinged ht => exact affects_quiet rfl (hquiet (by rw [ht]; rfl)) (by simp [Frametype.isStream])
  | welcomed ht | settings _ ht | pongless ht | ponged ht =>
    exact affects_quiet rfl (hquiet (by rw [ht]; rfl)) (by simp)
  | badHello _ ht | badWelcome _ ht | told _ ht => exact affects_quiet rfl (hquiet (by rw [ht]; rfl)) (by simp)

theorem Tries.affects (h : e.Tries ev outs e') (hnew : e.streams.lookup e.nextLocalId = none) (s : UInt32) :
    Affects e.nextLocalId s (e.streams.lookup s) ev outs (e'.streams.lookup s) := by
  cases h with
  | step h =>
    cases h with
    | call hacts => exact hacts.affects hnew s
    | frame _ hrec => exact hrec.affects s
    | noFrame err => exact affects_quiet rfl (by cases err <;> rfl) (by simp)
  | stuck _ hbegins houts => exact hbegins.affects hnew houts s
  | unanswered _ houts => exact affects_quiet rfl rfl houts

/-! ## The id counter -/

/-- The counter stays, and no id of this end is new in the map. -/
structure Steady (e e' : Endpoint) : Prop where
  counter : e'.nextLocalId = e.nextLocalId
  mem : ∀ k ∈ e'.streams, opener k = e.role → k ∈ e.streams

theorem steady_same (hnext : e'.nextLocalId = e.nextLocalId) (hstreams : e'.streams = e.streams) : Steady e e' :=
  ⟨hnext, fun _ hk _ => hstreams ▸ hk⟩

theorem steady_put {stream : Stream} (stream' : Stream) (hlook : e.streams.lookup k = some stream) :
    Steady e (e.put k stream') := by
  refine ⟨rfl, fun j hj _ => ?_⟩
  rcases put_mem.mp hj with rfl | hj
  · exact Finmap.mem_iff.mpr ⟨stream, hlook⟩
  · exact hj

theorem steady_drop (e : Endpoint) (k : UInt32) : Steady e (e.drop k) :=
  ⟨rfl, fun _ hj _ => (Finmap.mem_erase.mp hj).2⟩

theorem Heard.steady {f : Frame} (h : Heard e f e') : Steady e e' := by
  cases h with
  | opens _ hopener _ =>
    refine ⟨rfl, fun j hj hrole => ?_⟩
    rcases put_mem.mp hj with rfl | hj
    · exact absurd (hopener.symm.trans hrole) (Role.peer_ne _)
    · exact hj
  | data _ hlook => exact steady_put _ hlook
  | close _ hlook _ => exact steady_put _ hlook
  | closed | reset => exact steady_drop e _
  | window _ _ hlook => exact steady_put _ hlook

theorem Receives.steady {f : Frame} {r : Except TransportError Unit} (h : e.Receives f r outs e') :
    Steady e e' := by
  cases h with
  | stream _ ht =>
    rcases onStream_heard (e := e) ht with ⟨err, heq⟩ | ⟨-, hheard⟩
    · exact steady_same rfl (by rw [heq])
    · exact hheard.steady
  | early | helloed | badHello | welcomed | badWelcome | settings | told | pinged | pongless | ponged =>
    exact steady_same rfl rfl

/-- The endpoint after `open_stream` has changed it. -/
def opened (e : Endpoint) : Endpoint :=
  { e.put e.nextLocalId (Stream.new e.nextLocalId) with nextLocalId := e.nextLocalId + 2 }

theorem Tries.counter (h : e.Tries ev outs e') :
    (Steady e e' ∧ ev.opened? = none) ∨
    (e.handshakeState = .Established ∧ e.nextLocalId.toNat + 2 < 2 ^ 32 ∧ e' = e.opened ∧
      ∀ id, ev.opened? = some id → id = e.nextLocalId) := by
  cases h with
  | step h =>
    cases h with
    | call hacts =>
      cases hacts with
      | opened hest hid =>
        exact .inr ⟨hest, hid, rfl, fun id h => (Option.some.inj h).symm⟩
      | sent _ _ _ hlook _ _ => exact .inl ⟨steady_put _ hlook, rfl⟩
      | overflowed _ hlook _ _ _ => exact .inl ⟨steady_put _ hlook, rfl⟩
      | closed _ hlook _ =>
        refine .inl ⟨?_, rfl⟩
        unfold afterClose
        split_ifs
        · exact steady_drop e _
        · exact steady_put _ hlook
      | reset => exact .inl ⟨steady_drop e _, rfl⟩
      | took _ hlook _ => exact .inl ⟨steady_put _ hlook, rfl⟩
      | failed => exact .inl ⟨steady_same rfl rfl, opened?_error⟩
      | hello | waits | ready | nothing | empty | pinged | flushed => exact .inl ⟨steady_same rfl rfl, rfl⟩
    | frame _ hrec => exact .inl ⟨hrec.steady, rfl⟩
    | noFrame => exact .inl ⟨steady_same rfl rfl, rfl⟩
  | stuck _ hbegins _ =>
    cases hbegins with
    | opened hest hid => exact .inr ⟨hest, hid, rfl, fun id h => by cases h⟩
    | sent _ _ _ hlook _ _ => exact .inl ⟨steady_put _ hlook, rfl⟩
    | closed _ hlook _ => exact .inl ⟨steady_put _ hlook, rfl⟩
    | reset _ hlook => exact .inl ⟨steady_put _ hlook, rfl⟩
    | took _ hlook _ _ _ => exact .inl ⟨steady_put _ hlook, rfl⟩
    | hello | pinged => exact .inl ⟨steady_same rfl rfl, rfl⟩
  | unanswered => exact .inl ⟨steady_same rfl rfl, rfl⟩

theorem Tries.lasts (h : e.Tries ev outs e') :
    e'.role = e.role ∧ (e.handshakeState = .Established → e'.handshakeState = .Established) := by
  cases h with
  | step h =>
    cases h with
    | call hacts =>
      refine ⟨hacts.role_eq, fun hest => ?_⟩
      rcases hacts.handshake with ⟨-, hne, -⟩ | ⟨heq, -⟩
      · rw [hest] at hne
        cases hne
      · exact heq.trans hest
    | frame _ hrec =>
      obtain ⟨hrole, ⟨heq, -⟩ | ⟨-, -, -, -, heq⟩ | ⟨-, -, -, -, heq⟩⟩ := hrec.handshake
      · exact ⟨hrole, heq.trans⟩
      · exact ⟨hrole, fun _ => heq⟩
      · exact ⟨hrole, fun _ => heq⟩
    | noFrame => exact ⟨rfl, id⟩
  | stuck _ hbegins _ => cases hbegins <;> exact ⟨rfl, id⟩
  | unanswered => exact ⟨rfl, id⟩

/-- What holds of the ids at a manager of this role after every step. -/
structure Numbered (role : Role) (e : Endpoint) : Prop where
  role_eq : e.role = role
  owns : role.Owns e.nextLocalId
  below : ∀ k ∈ e.streams, opener k = role → k < e.nextLocalId
  early : e.handshakeState ≠ .Established → e.nextLocalId = StreamManager.firstLocalId role

theorem numbered_new (role : Role) : (Endpoint.new role).Numbered role := by
  refine ⟨rfl, ?_, fun k hk => absurd hk Finmap.notMem_empty, fun _ => rfl⟩
  cases role <;> exact ⟨by decide, by decide⟩

theorem Numbered.unheld {role : Role} (h : e.Numbered role) : e.streams.lookup e.nextLocalId = none := by
  rw [Finmap.lookup_eq_none]
  intro hmem
  exact UInt32.lt_irrefl _ (h.below _ hmem (opener_eq_iff.mpr h.owns.1))

theorem lt_add_two {id : UInt32} (h : id.toNat + 2 < 2 ^ 32) : id < id + 2 := by
  rw [UInt32.lt_iff_toNat_lt, toNat_add_two h]
  omega

theorem Numbered.tries {role : Role} (h : e.Numbered role) (htries : e.Tries ev outs e') : e'.Numbered role := by
  obtain ⟨hrole, hlasts⟩ := htries.lasts
  have hearly : e'.handshakeState ≠ .Established → e.handshakeState ≠ .Established := mt hlasts
  rcases htries.counter with ⟨⟨hnext, hmem⟩, -⟩ | ⟨hest, hid, rfl, -⟩
  · rw [h.role_eq] at hmem
    refine ⟨hrole.trans h.role_eq, hnext ▸ h.owns, fun k hk hrole => ?_, fun hne => ?_⟩
    · rw [hnext]
      exact h.below k (hmem k hk hrole) hrole
    · rw [hnext]
      exact h.early (hearly hne)
  · refine ⟨h.role_eq, h.owns.add_two hid, fun k hk hrole => ?_, fun hne => absurd hest (hearly hne)⟩
    rcases put_mem.mp hk with rfl | hk
    · exact lt_add_two hid
    · exact UInt32.lt_trans (h.below k hk hrole) (lt_add_two hid)

end Endpoint

namespace StreamManager

variable {faults : List (Option WriteFault)} {role : Role} {ls : List Event} {m m' : StreamManager} {ev : Event}

theorem numbered_of_run (h : Run Step (overFaults faults role) ls m) : m.endpoint.Numbered role :=
  h.invariant (P := fun _ m => m.endpoint.Numbered role) (Endpoint.numbered_new role)
    fun _ _ _ _ hm hstep => hm.tries hstep.tries.1

theorem affects_of_run (h : Run Step (overFaults faults role) ls m) (hstep : m.Step ev m') (s : UInt32) :
    Affects m.nextLocalId s (m.streams.lookup s) ev (m.emits m') (m'.streams.lookup s) :=
  hstep.tries.1.affects (numbered_of_run h).unheld s

/-! ## Ids that are given out -/

/-- The ids that `open_stream` returned. -/
def openedIds (ls : List Event) : List UInt32 := ls.filterMap Event.opened?

theorem openedIds_snoc : openedIds (ls ++ [ev]) = openedIds ls ++ ev.opened?.toList := by
  rw [openedIds, List.filterMap_append]
  cases h : ev.opened? <;> simp [openedIds, h]

theorem openedIds_of_run (h : Run Step (overFaults faults role) ls m) :
    (openedIds ls).Pairwise (· < ·) ∧ ∀ id ∈ openedIds ls, role.Owns id ∧ id < m.nextLocalId := by
  induction h with
  | nil => exact ⟨.nil, by simp [openedIds]⟩
  | @snoc ls ev m m' hrun hstep ih =>
    obtain ⟨hpair, hids⟩ := ih
    rw [openedIds_snoc]
    rcases hstep.tries.1.counter with ⟨⟨hnext, -⟩, hev⟩ | ⟨-, hid, hopened, hev⟩
    · rw [hev, Option.toList_none, List.append_nil]
      refine ⟨hpair, fun id hmem => ?_⟩
      rw [show m'.nextLocalId = m.nextLocalId from hnext]
      exact hids id hmem
    · have hlt : m.nextLocalId < m'.nextLocalId := by
        rw [show m'.nextLocalId = m.nextLocalId + 2 from congrArg Endpoint.nextLocalId hopened]
        exact Endpoint.lt_add_two hid
      have hnew : ∀ id ∈ ev.opened?.toList, id = m.nextLocalId := fun id hmem => hev id (Option.mem_toList.mp hmem)
      refine ⟨List.pairwise_append.mpr ⟨hpair, ?_, fun id hmem id' hmem' => ?_⟩, fun id hmem => ?_⟩
      · cases ev.opened? <;> simp
      · rw [hnew id' hmem']
        exact (hids id hmem).2
      · rcases List.mem_append.mp hmem with hmem | hmem
        · exact ⟨(hids id hmem).1, UInt32.lt_trans (hids id hmem).2 hlt⟩
        · rw [hnew id hmem]
          exact ⟨(numbered_of_run hrun).owns, hlt⟩

theorem openStream_keeps (h : m.endpoint.Numbered role) {k : UInt32} {stream : Stream}
    (hlook : m.streams.lookup k = some stream) : m.openStream.2.streams.lookup k = some stream := by
  have hstep : m.Step _ m.openStream.2 := .call .openStream
  have hat := hstep.tries.1.affects h.unheld k
  replace hlook : m.endpoint.streams.lookup k = some stream := hlook
  rw [hlook] at hat
  generalize hheld : m.openStream.2.endpoint.streams.lookup k = held at hat
  show m.openStream.2.endpoint.streams.lookup k = some stream
  rw [hheld]
  cases hat with
  | untouched => rfl

theorem openStream_exhausted (hest : m.handshakeState = .Established) (hid : 2 ^ 32 ≤ m.nextLocalId.toNat + 2) :
    m.openStream = (.error .StreamIdExhausted, m) := by
  unfold openStream
  rw [whenEstablished_true hest]
  simp only [show checkedAdd2 m.nextLocalId = _ from if_neg (Nat.not_lt.mpr hid)]

/-- The counter cannot be moved any more. -/
def Exhausted (m : StreamManager) : Prop :=
  m.handshakeState = .Established ∧ 2 ^ 32 ≤ m.nextLocalId.toNat + 2

theorem Exhausted.step (h : m.Exhausted) (hstep : m.Step ev m') : m'.Exhausted := by
  obtain ⟨hest, hid⟩ := h
  obtain ⟨htries, -⟩ := hstep.tries
  refine ⟨htries.lasts.2 hest, ?_⟩
  rcases htries.counter with ⟨⟨hnext, -⟩, -⟩ | ⟨-, hlt, -⟩
  · rwa [show m'.nextLocalId = m.nextLocalId from hnext]
  · exact absurd hlt (Nat.not_lt.mpr hid)

theorem exhausted_of_run (h : Run Step (overFaults faults role) ls m) (hid : 2 ^ 32 ≤ m.nextLocalId.toNat + 2) :
    m.Exhausted := by
  refine ⟨?_, hid⟩
  by_contra hne
  have hfirst : m.nextLocalId = firstLocalId role := (numbered_of_run h).early hne
  rw [hfirst] at hid
  revert hid
  cases role <;> decide

/-- The ids that `open_stream` returns grow, are not 0 and have the parity of the role. It keeps
every stream in the map, and fails for ever once the counter would overflow. -/
theorem local_ids_fresh (h : Run Step (overFaults faults role) ls m) :
    (openedIds ls).Pairwise (· < ·) ∧ (∀ id ∈ openedIds ls, role.Owns id) ∧
    (∀ k stream, m.streams.lookup k = some stream → m.openStream.2.streams.lookup k = some stream) ∧
    (2 ^ 32 ≤ m.nextLocalId.toNat + 2 →
      ∀ ks m', Run Step m ks m' → m'.openStream = (.error .StreamIdExhausted, m')) := by
  obtain ⟨hpair, hids⟩ := openedIds_of_run h
  refine ⟨hpair, fun id hmem => (hids id hmem).1, fun k stream => openStream_keeps (numbered_of_run h), ?_⟩
  intro hid ks m' hks
  have hexhausted : m'.Exhausted :=
    hks.invariant (P := fun _ m => m.Exhausted) (exhausted_of_run h hid) fun _ _ _ _ hm hstep => hm.step hstep
  exact openStream_exhausted hexhausted.1 hexhausted.2

/-- The initiator shakes hands and opens two streams. -/
def openingTwo : List Act := [.call .startHandshake, .frame welcomeFrame, .call .openStream, .call .openStream]

theorem openingTwo_run : Run Step (overFaults [] .Initiator) ((fresh .Initiator).play openingTwo).1
    ((fresh .Initiator).play openingTwo).2 :=
  played_run (by decide +kernel)

theorem local_ids_fresh_two :
    (openedIds ((fresh .Initiator).play openingTwo).1).Pairwise (· < ·) ∧
      openedIds ((fresh .Initiator).play openingTwo).1 = [1, 3] :=
  ⟨(local_ids_fresh openingTwo_run).1, by decide +kernel⟩

end StreamManager

/-! ## Stream id 0 -/

/-- A frame on `s` that `recv_frame` accepted as traffic of a stream. -/
def Event.traffic (s : UInt32) : Event → Bool
  | .received (some (.ok f)) => f.header.frameType ∈ [.Open, .Data, .Close, .Window] ∧ f.header.streamId = s
  | _ => false

theorem Affects.traffic {next s : UInt32} {ev : Event} {outs : List Frame} {held : Option Stream}
    (h : Affects next s none ev outs held) (hs : s ≠ next) :
    (held = none ∧ ev.traffic s = false) ↔ ¬ ev.opens s := by
  cases h with
  | @untouched _ ev _ hev =>
    unfold Event.hears at hev
    unfold Event.traffic Event.opens
    split
    next f =>
      simp only [Bool.and_eq_false_iff, decide_eq_false_iff_not] at hev
      have hno : ∀ ty : Frametype, ty.isStream → f.header.frameType = ty → f.header.streamId ≠ s := by
        intro ty hty hf
        exact hev.resolve_left (by rw [hf, hty]; decide)
      have hopens := hno .Open rfl
      have hdata := hno .Data rfl
      have hclose := hno .Close rfl
      have hwindow := hno .Window rfl
      simp only [List.mem_cons, List.not_mem_nil, or_false, true_and, decide_eq_false_iff_not, decide_eq_true_eq]
      constructor
      · rintro - ⟨hf, hid⟩
        exact hopens hf hid
      · rintro - ⟨hf | hf | hf | hf, hid⟩
        · exact hopens hf hid
        · exact hdata hf hid
        · exact hclose hf hid
        · exact hwindow hf hid
    · simp
  | opened hnext => exact absurd hnext hs
  | openedBy hf hid => simp [Event.opens, hf, hid]
  | resetBy _ hf hid => simp [Event.opens, Event.traffic, hf]

namespace StreamManager

variable {faults : List (Option WriteFault)} {role : Role} {ls : List Event} {m m' : StreamManager} {ev : Event}

/-- An `Open` of stream 0 that passes the checks of an initiator. -/
def TakesZero (m : StreamManager) (f : Frame) : Prop := m.TakesOpen f ∧ f.header.streamId = 0

/-- A step in which no such frame arrives. -/
def ReservedStep (m : StreamManager) (ev : Event) (m' : StreamManager) : Prop :=
  m.Step ev m' ∧ ∀ f, m.Arrives f ev m' → ¬ m.TakesZero f

/-- Only an initiator has an id of its peer in 0. -/
theorem TakesZero.initiator {f : Frame} (h : m.TakesZero f) : m.role = .Initiator := by
  have hpeer := h.1.parity
  rw [h.2] at hpeer
  cases hr : m.role with
  | Initiator => rfl
  | Acceptor => rw [hr] at hpeer; cases hpeer

theorem reserved_iff (hstep : m.Step ev m') : (∀ f, m.Arrives f ev m' → ¬ m.TakesZero f) ↔ ¬ ev.opens 0 := by
  rw [opens_iff hstep]
  simp only [not_exists, not_and, TakesZero]

theorem zero_step (h : Run Step (overFaults faults role) ls m) (hzero : 0 ∉ m.streams) (hstep : m.Step ev m') :
    (0 ∉ m'.streams ∧ ev.traffic 0 = false) ↔ ∀ f, m.Arrives f ev m' → ¬ m.TakesZero f := by
  have hat := affects_of_run h hstep 0
  rw [Finmap.lookup_eq_none.mpr hzero] at hat
  rw [reserved_iff hstep, ← Finmap.lookup_eq_none]
  exact hat.traffic (numbered_of_run h).owns.2.symm

theorem zero_of_run (h : Run ReservedStep (overFaults faults role) ls m) :
    0 ∉ m.streams ∧ ∀ ev ∈ ls, ev.traffic 0 = false := by
  induction h with
  | nil => exact ⟨Finmap.notMem_empty, by simp⟩
  | snoc hrun hstep ih =>
    obtain ⟨hzero, htraffic⟩ := ih
    obtain ⟨hzero', hev⟩ := (zero_step (hrun.mono fun _ _ _ hs => hs.1) hzero hstep.1).mpr hstep.2
    refine ⟨hzero', fun ev' hmem => ?_⟩
    rcases List.mem_append.mp hmem with hmem | hmem
    · exact htraffic ev' hmem
    · rwa [List.mem_singleton.mp hmem]

/-- While no `Open` of stream 0 arrives at an initiator after its handshake, there is no stream 0 and no traffic on
it; and the first that arrives adds one. -/
theorem stream_zero_reserved (h : Run ReservedStep (overFaults faults role) ls m) :
    0 ∉ m.streams ∧ (∀ ev ∈ ls, ev.traffic 0 = false) ∧
      ∀ ev m', m.Step ev m' →
        ((0 ∉ m'.streams ∧ ev.traffic 0 = false) ↔ ∀ f, m.Arrives f ev m' → ¬ m.TakesZero f) := by
  obtain ⟨hzero, htraffic⟩ := zero_of_run h
  exact ⟨hzero, htraffic, fun ev m' => zero_step (h.mono fun _ _ _ hs => hs.1) hzero⟩

theorem unread_reserved : Run ReservedStep (overFaults [] .Acceptor) ((fresh .Acceptor).play unread).1
    ((fresh .Acceptor).play unread).2 :=
  (avoids_run (fun _ ev => ev.opens 0) (by decide +kernel)).mono fun _ _ _ hs => ⟨hs.1, (reserved_iff hs.1).mpr hs.2⟩

theorem stream_zero_reserved_unread :
    0 ∉ ((fresh .Acceptor).play unread).2.streams ∧ ((fresh .Acceptor).play unread).2.streamCount = 1 :=
  ⟨(stream_zero_reserved unread_reserved).1, by decide +kernel⟩

/-- The peer of an initiator opens stream 0. -/
def openingZero : List Act := [.call .startHandshake, .frame welcomeFrame, .frame (openFrame 0)]

theorem stream_zero_opened : ¬ ∀ faults role ls m, Run Step (overFaults faults role) ls m → 0 ∉ m.streams := by
  intro h
  have hrun : Run Step (overFaults [] .Initiator) _ ((fresh .Initiator).play openingZero).2 :=
    played_run (by decide +kernel)
  have hzero := h [] .Initiator _ _ hrun
  revert hzero
  decide +kernel

end StreamManager

end TrenchDb.Transport
