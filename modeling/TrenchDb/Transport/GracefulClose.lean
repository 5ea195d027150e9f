import TrenchDb.Transport.Handshake
import TrenchDb.Transport.Talk

/-!
# Closing a stream with unread payloads

Which payloads of a stream the application can still read when the stream is closed from
both sides, against any peer.
-/

open TrenchDb.Lib.Lts

namespace TrenchDb.Transport

/-! ## What was accepted and returned -/

/-- The payload of a `Data` frame on `s` that `recv_frame` accepted, unless it is empty. -/
def Event.accepted? (s : UInt32) : Event → Option (List UInt8)
  | .received (some (.ok f)) =>
    if f.header.frameType = .Data ∧ f.header.streamId = s ∧ f.payload ≠ [] then some f.payload else none
  | _ => none

/-- The payload that a `recv_data(s)` call returned, unless it is empty. -/
def Event.returned? (s : UInt32) : Event → Option (List UInt8)
  | .called (.recvData k) (.ok (.data (some payload))) => if k = s ∧ payload ≠ [] then some payload else none
  | _ => none

/-- A `Reset` on `s` is sent or received. -/
def Event.resets (s : UInt32) : Event → Bool
  | .called (.resetStream k) (.ok _) => k = s
  | .received (some (.ok f)) => f.header.frameType = .Reset ∧ f.header.streamId = s
  | _ => false

/-- With the stream `s` in this state, the event closes its second side. -/
def Event.shuts (s : UInt32) : StreamState → Event → Bool
  | .HalfClosedLocal, .received (some (.ok f)) => f.header.frameType = .Close ∧ f.header.streamId = s
  | .HalfClosedRemote, .called (.closeStream k) _ => k = s
  | _, _ => false

def acceptedOn (s : UInt32) (ls : List Event) : List (List UInt8) := ls.filterMap (Event.accepted? s)
def returnedOn (s : UInt32) (ls : List Event) : List (List UInt8) := ls.filterMap (Event.returned? s)

def nonEmpty (payloads : List (List UInt8)) : List (List UInt8) := payloads.filter fun p => p ≠ []

/-- The payloads waiting in the receive queue of a stream. -/
def waiting : Option Stream → List (List UInt8)
  | none => []
  | some stream => stream.recvQueue

namespace StreamManager

/-- What at most `n` further `recv_data(s)` calls return, until there is nothing left. -/
def drain : Nat → StreamManager → UInt32 → List (List UInt8)
  | 0, _, _ => []
  | n + 1, m, s =>
    match m.recvData s with
    | (.ok (some payload), m) => payload :: drain n m s
    | _ => []

/-- Every non-empty payload accepted on `s` was returned, or is returned by later calls, once
and in order. -/
def Lossless (s : UInt32) (ls : List Event) (m : StreamManager) : Prop :=
  ∃ n, acceptedOn s ls = returnedOn s ls ++ nonEmpty (drain n m s)

/-- The event closes the second side of `s` while a payload of it is unread. -/
def Drops (s : UInt32) (m : StreamManager) (ev : Event) : Bool :=
  match m.streams.lookup s with
  | none => false
  | some stream => nonEmpty stream.recvQueue ≠ [] && ev.shuts s stream.state

/-- A step that does not close `s` on its second side while a payload of it is unread. -/
def CarefulStep (s : UInt32) (m : StreamManager) (ev : Event) (m' : StreamManager) : Prop :=
  m.Step ev m' ∧ ¬ Drops s m ev

end StreamManager

/-! ## What a step does to the queue -/

namespace Endpoint

variable {e e' : Endpoint} {s : UInt32}

/-- Streams in the map are not closed on both sides, and those with ids of this end were opened. -/
structure Tidy (e : Endpoint) : Prop where
  alive : ∀ k stream, e.streams.lookup k = some stream → stream.state ≠ .Closed
  below : ∀ k stream, e.streams.lookup k = some stream → opener k = e.role →
    k.toNat < e.nextLocalId.toNat
  owns : e.role.Owns e.nextLocalId

/-- What happens to the queue of the stream `s`. -/
inductive Turn (s : UInt32) (e : Endpoint) : Event → Endpoint → Prop
  | same {ev : Event} {e' : Endpoint} : waiting (e'.streams.lookup s) = waiting (e.streams.lookup s) →
      ev.accepted? s = none → ev.returned? s = none → Turn s e ev e'
  | arrived {f : Frame} {e' : Endpoint} : f.header.frameType = .Data → f.header.streamId = s →
      waiting (e'.streams.lookup s) = waiting (e.streams.lookup s) ++ [f.payload] →
      Turn s e (.received (some (.ok f))) e'
  | took {payload : List UInt8} {e' : Endpoint} :
      waiting (e.streams.lookup s) = payload :: waiting (e'.streams.lookup s) →
      Turn s e (.called (.recvData s) (.ok (.data (some payload)))) e'
  | closed {answer : Answer} {stream : Stream} {e' : Endpoint} : e.streams.lookup s = some stream →
      stream.state = .HalfClosedRemote → e'.streams.lookup s = none →
      Turn s e (.called (.closeStream s) (.ok answer)) e'
  | closedBy {f : Frame} {stream : Stream} {e' : Endpoint} : e.streams.lookup s = some stream →
      stream.state = .HalfClosedLocal → e'.streams.lookup s = none → f.header.frameType = .Close →
      f.header.streamId = s → Turn s e (.received (some (.ok f))) e'

theorem put_lookup (k : UInt32) (stream : Stream) : (e.put k stream).streams.lookup s =
    if k = s then some stream else e.streams.lookup s := by
  by_cases hks : k = s
  · subst hks; simp [put]
  · simp [put, hks, Ne.symm hks]

theorem drop_lookup (k : UInt32) : (e.drop k).streams.lookup s =
    if k = s then none else e.streams.lookup s := by
  by_cases hks : k = s
  · subst hks; simp [drop]
  · simp [drop, hks, Ne.symm hks]

theorem waiting_put {k : UInt32} {stream stream' : Stream} (hlook : e.streams.lookup k = some stream)
    (hq : stream'.recvQueue = stream.recvQueue) :
    waiting ((e.put k stream').streams.lookup s) = waiting (e.streams.lookup s) := by
  rw [put_lookup]
  split_ifs with hks
  · rw [← hks, hlook]
    exact hq
  · rfl

theorem Acts.turn {c : Call} {reply : Reply} {outs : List Frame} (h : e.Acts c reply outs e') (htidy : e.Tidy)
    (hreset : (Event.called c reply).resets s = false) : Turn s e (.called c reply) e' := by
  cases h with
  | failed c err => exact .same rfl rfl (by cases c <;> rfl)
  | hello | waits | ready | nothing | pinged | flushed => exact .same rfl rfl rfl
  | empty => exact .same rfl rfl rfl
  | opened hest hid =>
    refine .same ?_ rfl rfl
    show waiting ((e.put e.nextLocalId _).streams.lookup s) = _
    rw [put_lookup]
    split_ifs with hks
    · -- The id is new, so no stream is replaced.
      cases hl : e.streams.lookup s with
      | none => rfl
      | some stream =>
        have hlt := htidy.below s stream hl (hks ▸ opener_eq_iff.mpr htidy.owns.1)
        rw [hks] at hlt
        exact absurd hlt (Nat.lt_irrefl _)
    · rfl
  | sent _ _ _ hlook _ _ => exact .same (waiting_put hlook rfl) rfl rfl
  | overflowed _ hlook _ _ _ => exact .same (waiting_put hlook rfl) rfl rfl
  | @closed k stream _ hlook hclosed =>
    have hlook' := FrameLink.afterClose_lookup (s := s) e k stream
    by_cases hks : k = s
    · subst hks
      rw [if_pos rfl, Stream.afterLocalClose] at hlook'
      split_ifs at hlook' with hnow
      · refine .closed hlook ?_ hlook'
        revert hnow hclosed
        unfold Stream.onLocalClose
        cases stream.state <;> simp [StreamState.isClosed]
      · exact .same (by rw [hlook', hlook]; rfl) rfl rfl
    · rw [if_neg hks] at hlook'
      exact .same (by rw [hlook']) rfl rfl
  | @reset k stream _ hlook =>
    have hks : k ≠ s := by simpa [Event.resets] using hreset
    exact .same (by rw [drop_lookup, if_neg hks]) rfl rfl
  | @took k stream rest payload _ hlook hpop =>
    have hq := (Stream.popRecv_some hpop).1
    by_cases hks : k = s
    · subst hks
      refine .took ?_
      rw [hlook, put_lookup, if_pos rfl]
      exact hq
    · refine .same (by rw [put_lookup, if_neg hks]) rfl ?_
      simp [Event.returned?, hks]

/-- What an accepted stream frame does. -/
inductive Heard (e : Endpoint) (f : Frame) : Endpoint → Prop
  | opens : f.header.frameType = .Open → opener f.header.streamId = e.role.peer →
      e.streams.lookup f.header.streamId = none →
      Heard e f (e.put f.header.streamId (Stream.new f.header.streamId))
  | data {stream : Stream} : f.header.frameType = .Data → e.streams.lookup f.header.streamId = some stream →
      Heard e f (e.put f.header.streamId (stream.pushRecv f.payload))
  | close {stream : Stream} : f.header.frameType = .Close → e.streams.lookup f.header.streamId = some stream →
      stream.onRemoteClose.state ≠ .Closed → Heard e f (e.put f.header.streamId stream.onRemoteClose)
  | closed {stream : Stream} : f.header.frameType = .Close → e.streams.lookup f.header.streamId = some stream →
      stream.onRemoteClose.state = .Closed → Heard e f (e.drop f.header.streamId)
  | reset : f.header.frameType = .Reset → Heard e f (e.drop f.header.streamId)
  | window {stream : Stream} (increment : UInt32) : f.header.frameType = .Window →
      e.streams.lookup f.header.streamId = some stream →
      Heard e f (e.put f.header.streamId (stream.applyWindowIncrement increment))

theorem onStream_heard {f : Frame} (ht : f.header.frameType.isStream) :
    (∃ err, e.onStream f = (.error err, e.streams)) ∨
    ((e.onStream f).1 = .ok () ∧ Heard e f { e with streams := (e.onStream f).2 }) := by
  unfold onStream
  cases hf : f.header.frameType <;> rw [hf] at ht <;> dsimp only
  case Open =>
    unfold handleOpen
    split_ifs with hpar hmem
    · exact .inl ⟨_, rfl⟩
    · exact .inl ⟨_, rfl⟩
    · have hopener : opener f.header.streamId = e.role.peer :=
        opener_eq_iff.mpr (by rw [Role.peer_peer]; exact not_not.mp hpar)
      have hnone : e.streams.lookup f.header.streamId = none := by
        rwa [← Finmap.lookup_isSome, Bool.not_eq_true, Option.isSome_eq_false_iff, Option.isNone_iff_eq_none] at hmem
      exact .inr ⟨rfl, .opens hf hopener hnone⟩
  case Data =>
    unfold handleData
    split
    · exact .inl ⟨_, rfl⟩
    next stream hlook =>
      split_ifs with hcan
      · exact .inr ⟨rfl, .data hf hlook⟩
      · exact .inl ⟨_, rfl⟩
  case Close =>
    unfold handleClose
    split
    · exact .inl ⟨_, rfl⟩
    next stream hlook =>
      dsimp only
      split_ifs with hclosed
      · exact .inr ⟨rfl, .closed hf hlook hclosed⟩
      · exact .inr ⟨rfl, .close hf hlook hclosed⟩
  case Reset => exact .inr ⟨rfl, .reset hf⟩
  case Window =>
    unfold handleWindow
    split
    · exact .inl ⟨_, rfl⟩
    next stream hlook =>
      split_ifs
      · exact .inl ⟨_, rfl⟩
      · exact .inr ⟨rfl, .window _ hf hlook⟩
  all_goals exact absurd ht (by decide)

theorem Heard.turn {f : Frame} (h : Heard e f e') (htidy : e.Tidy)
    (hreset : (Event.received (some (.ok f))).resets s = false) : Turn s e (.received (some (.ok f))) e' := by
  have hother : f.header.frameType ≠ .Data → (Event.received (some (.ok f))).accepted? s = none := by
    intro hne
    simp [Event.accepted?, hne]
  cases h with
  | opens hf _ hnone =>
    refine .same ?_ (hother (by simp [hf])) rfl
    rw [put_lookup]
    split_ifs with hks
    · rw [← hks, hnone]; rfl
    · rfl
  | @data stream hf hlook =>
    by_cases hks : f.header.streamId = s
    · refine .arrived hf hks ?_
      rw [put_lookup, if_pos hks, ← hks, hlook]
      rfl
    · refine .same ?_ (by simp [Event.accepted?, hks]) rfl
      rw [put_lookup, if_neg hks]
  | close hf hlook _ => exact .same (waiting_put hlook rfl) (hother (by simp [hf])) rfl
  | @closed stream hf hlook hclosed =>
    by_cases hks : f.header.streamId = s
    · refine .closedBy (hks ▸ hlook) ?_ ?_ hf hks
      · have halive := htidy.alive _ stream hlook
        revert hclosed halive
        unfold Stream.onRemoteClose
        cases stream.state <;> simp
      · rw [drop_lookup, if_pos hks]
    · refine .same ?_ (hother (by simp [hf])) rfl
      rw [drop_lookup, if_neg hks]
  | reset hf =>
    have hks : f.header.streamId ≠ s := by simpa [Event.resets, hf] using hreset
    refine .same ?_ (hother (by simp [hf])) rfl
    rw [drop_lookup, if_neg hks]
  | window _ hf hlook => exact .same (waiting_put hlook rfl) (hother (by simp [hf])) rfl

theorem Receives.turn {f : Frame} {r : Except TransportError Unit} {outs : List Frame}
    (h : e.Receives f r outs e') (htidy : e.Tidy)
    (hreset : (Event.received (some (r.map fun _ => f))).resets s = false) :
    Turn s e (.received (some (r.map fun _ => f))) e' := by
  have hquiet : ∀ {e''}, f.header.frameType ≠ .Data → e''.streams = e.streams →
      Turn s e (.received (some (r.map fun _ => f))) e'' := by
    intro e'' hne heq
    refine .same (by rw [heq]) ?_ (by cases r <;> rfl)
    cases r with
    | error => rfl
    | ok => simp [Except.map, Event.accepted?, hne]
  cases h with
  | stream _ ht =>
    rcases onStream_heard (e := e) ht with ⟨err, heq⟩ | ⟨hok, hheard⟩
    · rw [heq]
      exact .same rfl rfl rfl
    · rw [hok] at hreset ⊢
      exact hheard.turn htidy hreset
  | early => exact .same rfl rfl rfl
  | helloed hf | welcomed hf | pinged hf | pongless hf | ponged hf => exact hquiet (by simp [hf]) rfl
  | badHello _ hf | badWelcome _ hf | told _ hf | settings _ hf => exact hquiet (by simp [hf]) rfl

/-! ## The map stays tidy -/

theorem Tidy.put (h : e.Tidy) {k : UInt32} {stream : Stream}
    (hk : opener k = e.role → k.toNat < e.nextLocalId.toNat) (hs : stream.state ≠ .Closed) :
    (e.put k stream).Tidy := by
  refine ⟨fun j st hj => ?_, fun j st hj hrole => ?_, h.owns⟩
  · rw [put_lookup] at hj
    split_ifs at hj with hkj
    · exact Option.some.inj hj ▸ hs
    · exact h.alive j st hj
  · rw [put_lookup] at hj
    split_ifs at hj with hkj
    · exact hkj ▸ hk (hkj ▸ hrole)
    · exact h.below j st hj hrole

theorem Tidy.update (h : e.Tidy) {k : UInt32} {stream stream' : Stream}
    (hlook : e.streams.lookup k = some stream) (hs : stream'.state ≠ .Closed) : (e.put k stream').Tidy :=
  h.put (h.below k stream hlook) hs

theorem Tidy.keeps (h : e.Tidy) {k : UInt32} {stream stream' : Stream}
    (hlook : e.streams.lookup k = some stream) (hs : stream'.state = stream.state) : (e.put k stream').Tidy :=
  h.update hlook (hs ▸ h.alive k stream hlook)

theorem Tidy.drop (h : e.Tidy) (k : UInt32) : (e.drop k).Tidy := by
  refine ⟨fun j st hj => ?_, fun j st hj hrole => ?_, h.owns⟩
  · rw [drop_lookup] at hj
    split_ifs at hj
    exact h.alive j st hj
  · rw [drop_lookup] at hj
    split_ifs at hj
    exact h.below j st hj hrole

theorem tidy_new (role : Role) : (new role).Tidy := by
  refine ⟨fun k st hk => ?_, fun k st hk => ?_, ?_⟩
  · simp [new] at hk
  · simp [new] at hk
  · cases role <;> exact ⟨by decide, by decide⟩

theorem Tidy.opened (h : e.Tidy) (hid : e.nextLocalId.toNat + 2 < 2 ^ 32) :
    ({ e.put e.nextLocalId (Stream.new e.nextLocalId) with nextLocalId := e.nextLocalId + 2 } : Endpoint).Tidy := by
  have hnext := toNat_add_two hid
  refine ⟨fun j st hj => ?_, fun j st hj hrole => ?_, h.owns.add_two hid⟩
  · replace hj : (e.put e.nextLocalId (Stream.new e.nextLocalId)).streams.lookup j = some st := hj
    rw [put_lookup] at hj
    split_ifs at hj
    · exact Option.some.inj hj ▸ by simp [Stream.new]
    · exact h.alive j st hj
  · replace hj : (e.put e.nextLocalId (Stream.new e.nextLocalId)).streams.lookup j = some st := hj
    show j.toNat < (e.nextLocalId + 2).toNat
    rw [put_lookup] at hj
    split_ifs at hj with hkj
    · rw [← hkj]; omega
    · have := h.below j st hj hrole
      omega

theorem Acts.tidy {c : Call} {reply : Reply} {outs : List Frame} (h : e.Acts c reply outs e') (htidy : e.Tidy) :
    e'.Tidy := by
  cases h with
  | opened _ hid => exact htidy.opened hid
  | sent _ _ _ hlook _ _ => exact htidy.keeps hlook rfl
  | overflowed _ hlook _ _ _ => exact htidy.keeps hlook rfl
  | closed _ hlook _ =>
    unfold afterClose
    split_ifs with hclosed
    · exact htidy.drop _
    · exact htidy.update hlook hclosed
  | reset => exact htidy.drop _
  | @took k stream rest _ _ hlook hpop =>
    exact htidy.keeps hlook (by rw [(Stream.popRecv_some hpop).2])
  | hello | waits | ready | nothing | failed | empty | pinged | flushed =>
    exact ⟨htidy.alive, htidy.below, htidy.owns⟩

theorem Heard.tidy {f : Frame} (h : Heard e f e') (htidy : e.Tidy) : e'.Tidy := by
  cases h with
  | opens _ hopener _ =>
    refine htidy.put (fun hrole => ?_) (by simp [Stream.new])
    exact absurd (hopener.symm.trans hrole) (Role.peer_ne _)
  | data _ hlook => exact htidy.keeps hlook rfl
  | close _ hlook hclosed => exact htidy.update hlook hclosed
  | closed | reset => exact htidy.drop _
  | window _ _ hlook => exact htidy.keeps hlook rfl

theorem Receives.tidy {f : Frame} {r : Except TransportError Unit} {outs : List Frame}
    (h : e.Receives f r outs e') (htidy : e.Tidy) : e'.Tidy := by
  have hsame : ∀ st, ({ e with handshakeState := st } : Endpoint).Tidy :=
    fun _ => ⟨htidy.alive, htidy.below, htidy.owns⟩
  cases h with
  | stream _ ht =>
    rcases onStream_heard (e := e) ht with ⟨err, heq⟩ | ⟨-, hheard⟩
    · rw [heq]; exact htidy
    · exact hheard.tidy htidy
  | helloed | welcomed => exact hsame _
  | early | badHello | badWelcome | settings | told | pinged | pongless | ponged => exact htidy

theorem Step.turn {ev : Event} {outs : List Frame} (h : e.Step ev outs e') (htidy : e.Tidy)
    (hreset : ev.resets s = false) : Turn s e ev e' := by
  cases h with
  | call hacts => exact hacts.turn htidy hreset
  | frame _ hrec => exact hrec.turn htidy hreset
  | noFrame err => exact .same rfl (by cases err <;> rfl) (by cases err <;> rfl)

theorem Step.tidy {ev : Event} {outs : List Frame} (h : e.Step ev outs e') (htidy : e.Tidy) : e'.Tidy := by
  cases h with
  | call hacts => exact hacts.tidy htidy
  | frame _ hrec => exact hrec.tidy htidy
  | noFrame => exact htidy

theorem Step.heard {f : Frame} {outs : List Frame} (h : e.Step (.received (some (.ok f))) outs e')
    (ht : f.header.frameType.isStream) : Heard e f e' := by
  generalize hev : Event.received (some (.ok f)) = ev at h
  cases h with
  | call => cases hev
  | noFrame err => cases err <;> cases hev
  | @frame f' r _ _ _ hrec =>
    cases r with
    | error => cases hev
    | ok =>
      obtain rfl : f = f' := by simpa [Except.map] using hev
      generalize hr : (Except.ok () : Except TransportError Unit) = r at hrec
      cases hrec with
      | stream =>
        rcases onStream_heard (e := e) ht with ⟨err, heq⟩ | ⟨-, hheard⟩
        · rw [heq] at hr
          cases hr
        · exact hheard
      | early | badHello | badWelcome | told | pongless => cases hr
      | helloed hty | welcomed hty | settings _ hty | pinged hty | ponged hty => rw [hty] at ht; cases ht

theorem Step.closed_by {f : Frame} {stream : Stream} {outs : List Frame}
    (h : e.Step (.received (some (.ok f))) outs e') (hheld : e.streams.lookup s = some stream)
    (hstate : stream.state = .HalfClosedLocal) (hf : f.header.frameType = .Close)
    (hid : f.header.streamId = s) : e'.streams.lookup s = none := by
  subst hid
  cases h.heard (by rw [hf]; rfl) with
  | opens hty | data hty | reset hty | window _ hty => rw [hf] at hty; cases hty
  | close _ hheld' hnow =>
    obtain rfl := Option.some.inj (hheld.symm.trans hheld')
    exact absurd (by simp [Stream.onRemoteClose, hstate]) hnow
  | closed => rw [drop_lookup, if_pos rfl]

theorem Step.closed_here {stream : Stream} {answer : Answer} {outs : List Frame}
    (h : e.Step (.called (.closeStream s) (.ok answer)) outs e') (hheld : e.streams.lookup s = some stream)
    (hstate : stream.state = .HalfClosedRemote) : e'.streams.lookup s = none := by
  cases h with
  | call hacts =>
    cases hacts with
    | @closed _ stream' _ hlook _ =>
      obtain rfl : stream = stream' := Option.some.inj (hheld.symm.trans hlook)
      rw [FrameLink.afterClose_lookup, if_pos rfl]
      simp [Stream.afterLocalClose, Stream.onLocalClose, hstate]

end Endpoint

/-! ## Draining -/

namespace StreamManager

variable {s : UInt32} {m m' : StreamManager} {ls : List Event} {ev : Event}

theorem drain_none (h : m.streams.lookup s = none) (n : Nat) : drain n m s = [] := by
  cases n with
  | zero => rfl
  | succ n =>
    have herr : ∃ e, m.recvData s = (.error e, m) := by
      unfold recvData
      by_cases hest : m.handshakeState = .Established
      · rw [whenEstablished_true hest, h]; exact ⟨_, rfl⟩
      · rw [whenEstablished_false hest]; exact ⟨_, rfl⟩
    obtain ⟨e, he⟩ := herr
    simp only [drain, he]

theorem drain_some (hs : m.conn.Settled) (hest : m.handshakeState = .Established) {stream : Stream}
    (h : m.streams.lookup s = some stream) (n : Nat) : drain n m s = stream.recvQueue.take n := by
  induction n generalizing m stream with
  | zero => rfl
  | succ n ih =>
    cases hq : stream.recvQueue with
    | nil =>
      have hpop : stream.popRecv = (none, stream) := by unfold Stream.popRecv; rw [hq]
      have heq : m.recvData s = (.ok none, m) := by
        rw [recvData, whenEstablished_true hest, h]
        simp only [hpop]
      simp only [drain, heq, List.take_nil]
    | cons payload rest =>
      obtain ⟨stream', hpop, hrest⟩ : ∃ stream', stream.popRecv = (some payload, stream') ∧
          stream'.recvQueue = rest := by
        unfold Stream.popRecv; rw [hq]; exact ⟨_, rfl, rfl⟩
      obtain ⟨c, heq, hsends⟩ := recvData_ok hs hest h hpop
      simp only [drain, heq, List.take_succ_cons, ← hrest]
      exact congrArg _ (ih (m := { m with conn := c, streams := m.streams.insert s stream' }) hsends.settled
        hest (Finmap.lookup_insert _))

/-! ## Careful runs -/

/-- What was accepted was returned or waits. -/
def Balanced (s : UInt32) (ls : List Event) (m : StreamManager) : Prop :=
  acceptedOn s ls = returnedOn s ls ++ nonEmpty (waiting (m.streams.lookup s))

theorem acceptedOn_snoc : acceptedOn s (ls ++ [ev]) = acceptedOn s ls ++ (ev.accepted? s).toList := by
  rw [acceptedOn, List.filterMap_append]
  cases h : ev.accepted? s <;> simp [acceptedOn, h]

theorem returnedOn_snoc : returnedOn s (ls ++ [ev]) = returnedOn s ls ++ (ev.returned? s).toList := by
  rw [returnedOn, List.filterMap_append]
  cases h : ev.returned? s <;> simp [returnedOn, h]

theorem drops_iff : Drops s m ev ↔ ∃ stream, m.streams.lookup s = some stream ∧
    nonEmpty stream.recvQueue ≠ [] ∧ ev.shuts s stream.state := by
  unfold Drops
  cases m.streams.lookup s <;> simp

theorem Balanced.step (h : Balanced s ls m) (hturn : m.endpoint.Turn s ev m'.endpoint) (hkeeps : ¬ Drops s m ev) :
    Balanced s (ls ++ [ev]) m' := by
  unfold Balanced at h ⊢
  rw [acceptedOn_snoc, returnedOn_snoc, h]
  generalize he : m'.endpoint = e' at hturn
  have hlook : m'.streams.lookup s = e'.streams.lookup s := he ▸ rfl
  rw [hlook]
  cases hturn with
  | same hw ha hr =>
    rw [ha, hr, hw]
    simp [endpoint]
  | @arrived f _ hf hid hw =>
    rw [hw]
    by_cases hne : f.payload = [] <;> simp [Event.accepted?, Event.returned?, hf, hid, hne, nonEmpty, endpoint]
  | @took payload _ hw =>
    replace hw : waiting (m.streams.lookup s) = payload :: waiting (e'.streams.lookup s) := hw
    rw [hw]
    by_cases hne : payload = [] <;> simp [Event.accepted?, Event.returned?, hne, nonEmpty]
  | @closed answer stream _ hheld hstate hnone =>
    replace hheld : m.streams.lookup s = some stream := hheld
    have hempty : nonEmpty stream.recvQueue = [] := by
      by_contra hne
      exact hkeeps (drops_iff.mpr ⟨stream, hheld, hne, by simp [Event.shuts, hstate]⟩)
    rw [hheld, hnone, show waiting (some stream) = stream.recvQueue from rfl, hempty]
    simp [waiting, nonEmpty, Event.accepted?, Event.returned?]
  | @closedBy f stream _ hheld hstate hnone hf hid =>
    replace hheld : m.streams.lookup s = some stream := hheld
    have hempty : nonEmpty stream.recvQueue = [] := by
      by_contra hne
      exact hkeeps (drops_iff.mpr ⟨stream, hheld, hne, by simp [Event.shuts, hstate, hf, hid]⟩)
    rw [hheld, hnone, show waiting (some stream) = stream.recvQueue from rfl, hempty]
    simp [waiting, nonEmpty, Event.accepted?, Event.returned?, hf]

theorem tidy_of_run {role : Role} (h : Run Step (fresh role) ls m) : m.endpoint.Tidy := by
  have hboth : m.Sound ∧ m.endpoint.Tidy :=
    h.invariant (P := fun _ m => m.Sound ∧ m.endpoint.Tidy) ⟨fresh_sound role, Endpoint.tidy_new role⟩
      fun ls m ev m' hm hstep => by
        obtain ⟨hsound, outs, hend, -⟩ := hm.1.step hstep
        exact ⟨hsound, hend.tidy hm.2⟩
  exact hboth.2

theorem balanced_of_run {role : Role} (h : Run (CarefulStep s) (fresh role) ls m)
    (hreset : ∀ ev ∈ ls, ev.resets s = false) : Balanced s ls m := by
  induction h with
  | nil => rfl
  | @snoc ls ev m m' hrun hstep ih =>
    have hrun' : Run Step (fresh role) ls m := hrun.mono fun _ _ _ hs => hs.1
    obtain ⟨-, outs, hend, -⟩ := (sound_of_run hrun').step hstep.1
    have hturn := hend.turn (tidy_of_run hrun') (hreset ev (by simp))
    exact (ih fun ev' hev => hreset ev' (List.mem_append_left _ hev)).step hturn hstep.2

theorem established_of_lookup {role : Role} {stream : Stream} (hrun : Run Step (fresh role) ls m)
    (hheld : m.streams.lookup s = some stream) : m.handshakeState = .Established := by
  by_contra hne
  rw [((progress_of_run hrun).early hne).1] at hheld
  simp at hheld

theorem lossless_of_balanced {role : Role} (hrun : Run Step (fresh role) ls m) (h : Balanced s ls m) :
    Lossless s ls m := by
  cases hl : m.streams.lookup s with
  | none => exact ⟨0, by rw [h, hl]; rfl⟩
  | some stream =>
    refine ⟨stream.recvQueue.length, ?_⟩
    rw [drain_some (sound_of_run hrun).settled (established_of_lookup hrun hl) hl, List.take_length, h, hl]
    rfl

theorem gone_of_drops {role : Role} (hrun : Run Step (fresh role) ls m) (hdrop : Drops s m ev)
    (hstep : m.Step ev m') :
    m'.streams.lookup s = none ∧ ev.accepted? s = none ∧ ev.returned? s = none := by
  obtain ⟨stream, hheld, -, hshuts⟩ := drops_iff.mp hdrop
  have hsound := sound_of_run hrun
  obtain ⟨-, outs, hend, -⟩ := hsound.step hstep
  unfold Event.shuts at hshuts
  split at hshuts
  next f hstate =>
    simp only [decide_eq_true_eq] at hshuts
    exact ⟨hend.closed_by hheld hstate hshuts.1 hshuts.2, by simp [Event.accepted?, hshuts.1], rfl⟩
  next k reply hstate =>
    obtain rfl : k = s := by simpa using hshuts
    cases hstep with
    | call =>
      obtain ⟨c, heq, -⟩ := closeStream_ok hsound.settled (established_of_lookup hrun hheld) hheld
        (by simp [hstate, StreamState.isClosed])
      simp only [perform, heq, Outcome.map, Except.map] at hend ⊢
      exact ⟨hend.closed_here hheld hstate, rfl, rfl⟩
  · cases hshuts

theorem Balanced.lost {role : Role} (hrun : Run Step (fresh role) ls m) (h : Balanced s ls m)
    (hdrop : Drops s m ev) (hstep : m.Step ev m') : ¬ Lossless s (ls ++ [ev]) m' := by
  obtain ⟨hnone, ha, hr⟩ := gone_of_drops hrun hdrop hstep
  obtain ⟨stream, hheld, hne, -⟩ := drops_iff.mp hdrop
  rintro ⟨n, hn⟩
  rw [acceptedOn_snoc, returnedOn_snoc, ha, hr, h, hheld, drain_none hnone] at hn
  exact hne (by simpa [waiting, nonEmpty] using hn)

/-- While no `Reset` on `s` is sent or received and no step closes the second side of `s` with
an unread payload, nothing is lost; and the first such step loses something. -/
theorem graceful_close {role : Role} {s : UInt32} {ls : List Event} {m : StreamManager}
    (h : Run (CarefulStep s) (fresh role) ls m) (hreset : ∀ ev ∈ ls, ev.resets s = false) :
    Lossless s ls m ∧
      ∀ ev m', m.Step ev m' → ev.resets s = false → (Lossless s (ls ++ [ev]) m' ↔ ¬ Drops s m ev) := by
  have hrun : Run Step (fresh role) ls m := h.mono fun _ _ _ hs => hs.1
  have hbal := balanced_of_run h hreset
  refine ⟨lossless_of_balanced hrun hbal, fun ev m' hstep hev => ⟨fun hloss hdrop => ?_, fun hkeeps => ?_⟩⟩
  · exact hbal.lost hrun hdrop hstep hloss
  · obtain ⟨-, outs, hend, -⟩ := (sound_of_run hrun).step hstep
    exact lossless_of_balanced (hrun.snoc hstep) (hbal.step (hend.turn (tidy_of_run hrun) hev) hkeeps)

/-! ### Runs that can be computed -/

/-- A call, or a `recv_frame` call for which one whole frame arrives. -/
inductive Act where
  | call (c : Call)
  | frame (f : Frame)

def act (m : StreamManager) : Act → Event × StreamManager
  | .call c => (.called c (m.perform c).1, (m.perform c).2)
  | .frame f => (.received (m.recvFrame [.ok f.wire]).1, (m.recvFrame [.ok f.wire]).2.1)

/-- All reads are used. -/
def fits (m : StreamManager) : Act → Bool
  | .call _ => true
  | .frame f => (m.recvFrame [.ok f.wire]).2.2.isEmpty

def play : StreamManager → List Act → List Event × StreamManager
  | m, [] => ([], m)
  | m, a :: script => ((m.act a).1 :: (play (m.act a).2 script).1, (play (m.act a).2 script).2)

/-- The script can be played, and no step of it is a bad one. -/
def avoids (bad : StreamManager → Event → Bool) : StreamManager → List Act → Bool
  | _, [] => true
  | m, a :: script => m.fits a && !bad m (m.act a).1 && avoids bad (m.act a).2 script

/-- The script can be played, and drops no payload of `s`. -/
def careful (s : UInt32) : StreamManager → List Act → Bool
  | _, [] => true
  | m, a :: script => m.fits a && !Drops s m (m.act a).1 && careful s (m.act a).2 script

theorem act_step {a : Act} (h : m.fits a) : Step m (m.act a).1 (m.act a).2 := by
  cases a with
  | call c => exact .call c
  | frame f =>
    have hused := List.isEmpty_iff.mp h
    exact .recv (Prod.ext rfl (Prod.ext rfl hused))

theorem avoids_run (bad : StreamManager → Event → Bool) {script : List Act} (h : avoids bad m script) :
    Run (fun m ev m' => m.Step ev m' ∧ ¬ bad m ev) m (m.play script).1 (m.play script).2 := by
  induction script generalizing m with
  | nil => exact .nil
  | cons a script ih =>
    simp only [avoids, Bool.and_eq_true, Bool.not_eq_true'] at h
    exact .cons ⟨act_step h.1.1, by simp [h.1.2]⟩ (ih h.2)

theorem played_run {script : List Act} (h : avoids (fun _ _ => false) m script) :
    Run Step m (m.play script).1 (m.play script).2 := (avoids_run _ h).mono fun _ _ _ hs => hs.1

theorem careful_eq (script : List Act) : careful s m script = avoids (Drops s) m script := by
  induction script generalizing m with
  | nil => rfl
  | cons a script ih => simp only [careful, avoids, ih]

theorem play_run {script : List Act} (h : careful s m script) :
    Run (CarefulStep s) m (m.play script).1 (m.play script).2 := avoids_run (Drops s) (careful_eq script ▸ h)

/-- A peer opens stream 1, sends one payload, and closes; the application does not read. -/
def unread : List Act :=
  [.frame helloFrame, .frame (openFrame 1), .frame (dataFrame 1 [7]), .frame (closeFrame 1)]

theorem unread_run : Run (CarefulStep 1) (fresh .Acceptor) ((fresh .Acceptor).play unread).1
    ((fresh .Acceptor).play unread).2 := play_run (by decide +kernel)

theorem graceful_close_unread :
    Lossless 1 ((fresh .Acceptor).play unread).1 ((fresh .Acceptor).play unread).2 ∧
      acceptedOn 1 ((fresh .Acceptor).play unread).1 = [[7]] :=
  ⟨(graceful_close unread_run (by decide +kernel)).1, by decide +kernel⟩

theorem graceful_close_loses : ¬ ∀ role s ls m, Run Step (fresh role) ls m →
    (∀ ev ∈ ls, ev.resets s = false) → Lossless s ls m := by
  intro h
  have hrun := (unread_run.mono fun _ _ _ hs => hs.1).snoc (.call (.closeStream 1))
  obtain ⟨n, hn⟩ := h .Acceptor 1 _ _ hrun (by decide +kernel)
  rw [drain_none (by decide +kernel)] at hn
  revert hn
  decide +kernel

end StreamManager

end TrenchDb.Transport
