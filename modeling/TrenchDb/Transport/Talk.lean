import TrenchDb.Transport.Conforming

/-!
# One stream of a link

A link seen from one stream id: what each end holds of the stream, and what the frames on
their way say about it. Steps of the link on other streams do not show here.
-/

open TrenchDb.Lib.BigEndian TrenchDb.Lib.Lts

namespace TrenchDb.Transport

/-! ## What a frame says -/

inductive Item where
  | opens
  | data (payload : List UInt8)
  | close
  | reset
  | window (increment : UInt32)
  deriving DecidableEq

/-- What `f` says about the stream `s`. -/
def Frame.item (s : UInt32) (f : Frame) : Option Item :=
  if f.header.streamId = s then
    match f.header.frameType with
    | .Open => some .opens
    | .Data => some (.data f.payload)
    | .Close => some .close
    | .Reset => some .reset
    | .Window => some (.window (UInt32.ofNat (ofBE f.payload)))
    | _ => none
  else
    none

section Item

variable {s : UInt32} {f : Frame}

theorem item_of_not_stream (h : ¬ f.header.frameType.isStream) : f.item s = none := by
  unfold Frame.item
  cases ht : f.header.frameType <;> simp_all [Frametype.isStream]

theorem item_of_ne (h : f.header.streamId ≠ s) : f.item s = none := if_neg h

@[simp] theorem helloFrame_item : helloFrame.item s = none := item_of_not_stream (by decide)
@[simp] theorem welcomeFrame_item : welcomeFrame.item s = none := item_of_not_stream (by decide)
@[simp] theorem pongFrame_item (payload : List UInt8) : (pongFrame payload).item s = none :=
  item_of_not_stream (by simp [Frametype.isStream])
@[simp] theorem pingFrame_item (payload : List UInt8) : (pingFrame payload).item s = none :=
  item_of_not_stream (by simp [Frametype.isStream])
@[simp] theorem openFrame_item : (openFrame s).item s = some .opens := if_pos rfl
@[simp] theorem dataFrame_item (payload : List UInt8) :
    (dataFrame s payload).item s = some (.data payload) := if_pos rfl
@[simp] theorem closeFrame_item : (closeFrame s).item s = some .close := if_pos rfl
@[simp] theorem resetFrame_item : (resetFrame s).item s = some .reset := if_pos rfl
@[simp] theorem windowFrame_item (n : Nat) : (windowFrame s n).item s = some (.window (UInt32.ofNat n)) := by
  simp only [Frame.item, windowFrame_streamId, windowFrame_type, windowFrame_payload, if_true,
    StreamManager.windowPayload, u32_ofBE_toBE]

end Item

/-! ## The stream at one end -/

namespace Stream

/-- What is left of a stream after `close_stream`: nothing when both sides are closed. -/
def afterLocalClose (stream : Stream) : Option Stream :=
  if stream.onLocalClose.state = .Closed then none else some stream.onLocalClose

/-- What is left of a stream after an inbound `Close`. -/
def afterRemoteClose (stream : Stream) : Option Stream :=
  if stream.onRemoteClose.state = .Closed then none else some stream.onRemoteClose

variable {stream left : Stream}

theorem afterLocalClose_some (h : stream.afterLocalClose = some left) :
    left.sendWindow = stream.sendWindow ∧ left.recvWindow = stream.recvWindow ∧
      left.recvQueue = stream.recvQueue ∧ left.state.canReceive = stream.state.canReceive ∧
      ¬ left.state.canSend := by
  unfold afterLocalClose at h
  split_ifs at h with hclosed
  obtain rfl := Option.some.inj h
  refine ⟨rfl, rfl, rfl, ?_, ?_⟩ <;> revert hclosed <;> unfold onLocalClose <;>
    cases stream.state <;> simp [StreamState.canReceive, StreamState.canSend]

theorem afterRemoteClose_some (h : stream.afterRemoteClose = some left) :
    left.sendWindow = stream.sendWindow ∧ left.recvWindow = stream.recvWindow ∧
      left.recvQueue = stream.recvQueue ∧ ¬ left.state.canReceive ∧ (left.state.canSend → stream.state.canSend) := by
  unfold afterRemoteClose at h
  split_ifs at h with hclosed
  obtain rfl := Option.some.inj h
  refine ⟨rfl, rfl, rfl, ?_, ?_⟩ <;> revert hclosed <;> unfold onRemoteClose <;>
    cases stream.state <;> simp [StreamState.canReceive, StreamState.canSend]

end Stream

/-- What an end holds of the stream `s` after `i` has arrived. -/
def receive (s : UInt32) : Item → Option Stream → Option Stream
  | .opens, none => some (Stream.new s)
  | .opens, some stream => some stream
  | .reset, _ => none
  | _, none => none
  | .data payload, some stream => some (if stream.state.canReceive then stream.pushRecv payload else stream)
  | .close, some stream => stream.afterRemoteClose
  | .window increment, some stream => some (stream.applyWindowIncrement increment)

/-! ## The stream at both ends -/

/-- Both ends of one stream, what is on the way to each, and whether the id was used. -/
structure Talk where
  held : Role → Option Stream
  line : Role → List Item
  used : Bool

/-- What an end does on the stream, as its application sees it. -/
inductive Deed where
  | opened
  | accepted
  | sent (payload : List UInt8)
  | took (payload : List UInt8)
  | other
  deriving DecidableEq

/-- The end that opens the streams with this id. -/
def opener (s : UInt32) : Role := if s % 2 = 1 then .Initiator else .Acceptor

namespace Talk

/-- `x` now holds `h` and has said `outs`; `rest` is still on the way to it. -/
def post (t : Talk) (x : Role) (h : Option Stream) (outs rest : List Item) : Talk :=
  { t with
    held := Function.update t.held x h
    line := Function.update (Function.update t.line x rest) x.peer (t.line x.peer ++ outs) }

inductive Step (s : UInt32) (t : Talk) : Role × Deed → Talk → Prop
  | idle (x : Role) : Step s t (x, .other) t
  | opened : t.used = false → Step s t (opener s, .opened)
      { t.post (opener s) (some (Stream.new s)) [.opens] (t.line (opener s)) with used := true }
  | sent (x : Role) {stream : Stream} {payload : List UInt8} : t.held x = some stream →
      stream.state.canSend → payload ≠ [] → (payload.length : Int) ≤ stream.sendWindow →
      Step s t (x, .sent payload)
        (t.post x (some (stream.consumeSendWindow payload.length)) [.data payload] (t.line x))
  | overflowed (x : Role) {stream : Stream} {payload : List UInt8} : t.held x = some stream →
      stream.state.canSend → (payload.length : Int) ≤ stream.sendWindow →
      DEFAULT_WINDOW < payload.length → Step s t (x, .other)
        (t.post x (some (stream.consumeSendWindow payload.length)) [] (t.line x))
  | closed (x : Role) {stream : Stream} : t.held x = some stream →
      Step s t (x, .other) (t.post x stream.afterLocalClose [.close] (t.line x))
  | reset (x : Role) {stream : Stream} : t.held x = some stream →
      Step s t (x, .other) (t.post x none [.reset] (t.line x))
  | took (x : Role) {stream rest : Stream} {payload : List UInt8} : t.held x = some stream →
      stream.popRecv = (some payload, rest) → Step s t (x, .took payload)
        (t.post x (some rest)
          (if stream.state.canReceive ∧ payload ≠ [] then [.window (UInt32.ofNat payload.length)] else [])
          (t.line x))
  | received (x : Role) {i : Item} {rest : List Item} : t.line x = i :: rest →
      Step s t (x, if i = .opens ∧ t.held x = none then .accepted else .other)
        (t.post x (receive s i (t.held x)) [] rest)

variable {t : Talk} {x : Role} {h : Option Stream} {outs rest : List Item}

def init : Talk := { held := fun _ => none, line := fun _ => [], used := false }

@[simp] theorem post_held : (t.post x h outs rest).held x = h := by simp [post]
@[simp] theorem post_held_peer : (t.post x h outs rest).held x.peer = t.held x.peer := by simp [post]
@[simp] theorem post_line : (t.post x h outs rest).line x = rest := by simp [post]
@[simp] theorem post_line_peer : (t.post x h outs rest).line x.peer = t.line x.peer ++ outs := by simp [post]
theorem post_self : t.post x (t.held x) [] (t.line x) = t := by simp [post]

end Talk

/-! ## A link, seen from one stream -/

def FrameLink.talk (p : FrameLink) (s : UInt32) : Talk where
  held x := (p.ends x).streams.lookup s
  line x := (p.queue x).filterMap (Frame.item s)
  used := s ≠ 0 ∧ s.toNat < (p.ends (opener s)).nextLocalId.toNat

/-- What the event is to the stream `s`. -/
def Event.deed (s : UInt32) : Event → Deed
  | .called .openStream (.ok (.opened id)) => if id = s then .opened else .other
  | .called (.sendData id payload) (.ok _) => if id = s ∧ payload ≠ [] then .sent payload else .other
  | .called (.recvData id) (.ok (.data (some payload))) => if id = s then .took payload else .other
  | .received (some (.ok f)) => if f.item s = some .opens then .accepted else .other
  | _ => .other

/-! ## Steps of the link are steps of the stream -/

theorem opener_eq_iff {s : UInt32} {x : Role} : opener s = x ↔ s % 2 = expectedParity x.peer := by
  have h2 : s % 2 = 0 ∨ s % 2 = 1 := by
    have : (s % 2).toNat < 2 := by rw [UInt32.toNat_mod]; exact Nat.mod_lt _ (by decide)
    rcases Nat.lt_succ_iff_lt_or_eq.mp this with h | h
    · exact .inl (UInt32.toNat_inj.mp (by simp only [UInt32.reduceToNat]; omega))
    · exact .inr (UInt32.toNat_inj.mp (by simpa using h))
  unfold opener
  rcases h2 with h | h <;> cases x <;> simp [h, expectedParity, Role.peer]

/-! ### The receiver functions -/

section Handlers

variable {streams : Streams} {role : Role} {k s : UInt32}

theorem handleOpen_none (hk : k % 2 = expectedParity role) (hl : streams.lookup k = none) :
    handleOpen streams role k = (.ok (), streams.insert k (Stream.new k)) := by
  have hmem : k ∉ streams := by rw [← Finmap.lookup_isSome, hl]; simp
  rw [handleOpen, if_neg (not_not.mpr hk), if_neg hmem]

theorem handleOpen_some (role : Role) {stream : Stream} (hl : streams.lookup k = some stream) :
    ∃ err, handleOpen streams role k = (.error err, streams) := by
  have hmem : k ∈ streams := by rw [← Finmap.lookup_isSome, hl]; rfl
  rw [handleOpen, if_pos hmem]
  split_ifs <;> exact ⟨_, rfl⟩

theorem handleOpen_lookup (hk : k % 2 = expectedParity role) : (handleOpen streams role k).2.lookup s =
    if k = s then receive s .opens (streams.lookup s) else streams.lookup s := by
  cases hl : streams.lookup k with
  | none =>
    rw [handleOpen_none hk hl]
    by_cases hks : k = s
    · subst hks; simp [hl, receive]
    · simp [hks, Ne.symm hks]
  | some stream =>
    obtain ⟨err, heq⟩ := handleOpen_some role hl
    rw [heq]
    by_cases hks : k = s
    · subst hks; simp [hl, receive]
    · simp [hks]

theorem handleData_lookup (payload : List UInt8) : (handleData streams k payload).2.lookup s =
    if k = s then receive s (.data payload) (streams.lookup s) else streams.lookup s := by
  unfold handleData
  by_cases hks : k = s
  · subst hks
    cases hl : streams.lookup k with
    | none => simp [hl, receive]
    | some stream => by_cases hc : stream.state.canReceive <;> simp [receive, hc, hl]
  · cases hl : streams.lookup k with
    | none => simp [hks]
    | some stream => by_cases hc : stream.state.canReceive <;> simp [hc, hks, Ne.symm hks]

theorem handleClose_lookup : (handleClose streams k).2.lookup s =
    if k = s then receive s .close (streams.lookup s) else streams.lookup s := by
  unfold handleClose
  by_cases hks : k = s
  · subst hks
    cases hl : streams.lookup k with
    | none => simp [hl, receive]
    | some stream =>
      by_cases hc : stream.onRemoteClose.state = .Closed <;> simp [receive, Stream.afterRemoteClose, hc]
  · cases hl : streams.lookup k with
    | none => simp [hks]
    | some stream =>
      by_cases hc : stream.onRemoteClose.state = .Closed <;> simp [hc, hks, Ne.symm hks]

theorem handleReset_lookup : (handleReset streams k).lookup s =
    if k = s then receive s .reset (streams.lookup s) else streams.lookup s := by
  unfold handleReset
  by_cases hks : k = s
  · subst hks; simp [receive]
  · simp [hks, Ne.symm hks]

theorem handleWindow_lookup {payload : List UInt8} (hlen : payload.length = 4) :
    (handleWindow streams k payload).2.lookup s =
      if k = s then receive s (.window (UInt32.ofNat (ofBE payload))) (streams.lookup s)
      else streams.lookup s := by
  unfold handleWindow
  by_cases hks : k = s
  · subst hks
    cases hl : streams.lookup k with
    | none => simp [hl, receive]
    | some stream => simp [receive, hlen]
  · cases hl : streams.lookup k with
    | none => simp [hks]
    | some stream => simp [hlen, hks, Ne.symm hks]

end Handlers

theorem onStream_lookup {e : Endpoint} {f : Frame} {x : Role} (hemits : Emits x.peer f) (hrole : e.role = x)
    (ht : f.header.frameType.isStream) (s : UInt32) :
    (e.onStream f).2.lookup s =
      match f.item s with
      | none => e.streams.lookup s
      | some i => receive s i (e.streams.lookup s) := by
  cases hemits with
  | hello | welcome | ping | pong => simp [Frametype.isStream] at ht
  | @opens k hk =>
    rw [Role.peer_peer] at hk
    rw [show e.onStream (openFrame k) = handleOpen e.streams e.role k from rfl, handleOpen_lookup (hrole ▸ hk)]
    split_ifs with hks
    · subst hks; rw [openFrame_item]
    · rw [item_of_ne (by simpa using hks)]
  | @data k payload hne =>
    rw [show e.onStream (dataFrame k payload) = handleData e.streams k payload from rfl, handleData_lookup]
    split_ifs with hks
    · subst hks; rw [dataFrame_item]
    · rw [item_of_ne (by simpa using hks)]
  | close k =>
    rw [show e.onStream (closeFrame k) = handleClose e.streams k from rfl, handleClose_lookup]
    split_ifs with hks
    · subst hks; rw [closeFrame_item]
    · rw [item_of_ne (by simpa using hks)]
  | reset k =>
    rw [show e.onStream (resetFrame k) = (.ok (), handleReset e.streams k) from rfl, handleReset_lookup]
    split_ifs with hks
    · subst hks; rw [resetFrame_item]
    · rw [item_of_ne (by simpa using hks)]
  | window k n =>
    rw [show e.onStream (windowFrame k n) = handleWindow e.streams k (windowFrame k n).payload from rfl,
      handleWindow_lookup (by simp)]
    split_ifs with hks
    · subst hks; rw [windowFrame_item, windowFrame_payload, StreamManager.windowPayload, u32_ofBE_toBE]
    · rw [item_of_ne (by simpa using hks)]

theorem onStream_open {e : Endpoint} {f : Frame} {x : Role} {s : UInt32} (hemits : Emits x.peer f)
    (hrole : e.role = x) (hi : f.item s = some .opens) :
    (e.onStream f).1 = .ok () ↔ e.streams.lookup s = none := by
  cases hemits with
  | @opens k hk =>
    have hks : k = s := by
      by_contra hks
      rw [item_of_ne (by simpa using hks)] at hi
      cases hi
    subst hks
    rw [Role.peer_peer] at hk
    show (handleOpen e.streams e.role k).1 = .ok () ↔ _
    cases hl : e.streams.lookup k with
    | none => simp [handleOpen_none (hrole ▸ hk) hl]
    | some stream =>
      obtain ⟨err, heq⟩ := handleOpen_some e.role hl
      simp [heq]
  | hello | welcome | ping | pong => rw [item_of_not_stream (by simp [Frametype.isStream])] at hi; cases hi
  | data | close | reset | window => unfold Frame.item at hi; split_ifs at hi; simp at hi

namespace FrameLink

variable {p p' : FrameLink} {s : UInt32} {x : Role}

theorem talk_post {e : Endpoint} {outs rest : List Frame} {b : Bool}
    (hused : ((p.post x e outs rest).talk s).used = b) :
    (p.post x e outs rest).talk s = { (p.talk s).post x (e.streams.lookup s)
      (outs.filterMap (Frame.item s)) (rest.filterMap (Frame.item s)) with used := b } := by
  subst hused
  simp only [talk, Talk.post, Talk.mk.injEq, and_true]
  constructor <;> funext y <;> rcases x.eq_or_peer y with rfl | rfl <;> simp

theorem talk_post_same {e : Endpoint} {outs rest : List Frame} (hid : e.nextLocalId = (p.ends x).nextLocalId) :
    (p.post x e outs rest).talk s = (p.talk s).post x (e.streams.lookup s)
      (outs.filterMap (Frame.item s)) (rest.filterMap (Frame.item s)) := by
  refine talk_post (b := (p.talk s).used) ?_
  have hnext : ((p.post x e outs rest).ends (opener s)).nextLocalId = (p.ends (opener s)).nextLocalId := by
    rcases x.eq_or_peer (opener s) with h | h <;> rw [h]
    · rw [post_ends, hid]
    · rw [post_ends_peer]
  simp only [talk, hnext]

theorem talk_post_at {e : Endpoint} {outs rest : List Frame} {held : Option Stream} {said heard : List Item}
    (hid : e.nextLocalId = (p.ends x).nextLocalId) (hlook : e.streams.lookup s = held)
    (houts : outs.filterMap (Frame.item s) = said) (hrest : rest.filterMap (Frame.item s) = heard) :
    (p.post x e outs rest).talk s = (p.talk s).post x held said heard := by
  rw [talk_post_same hid, hlook, houts, hrest]

theorem talk_post_idle {e : Endpoint} {outs rest : List Frame}
    (hused : ((p.post x e outs rest).talk s).used = (p.talk s).used)
    (hlook : e.streams.lookup s = (p.ends x).streams.lookup s)
    (houts : outs.filterMap (Frame.item s) = [])
    (hrest : rest.filterMap (Frame.item s) = (p.queue x).filterMap (Frame.item s)) :
    (p.post x e outs rest).talk s = p.talk s := by
  rw [talk_post hused, hlook, houts, hrest]
  exact Talk.post_self

theorem used_same {e : Endpoint} {outs rest : List Frame} (hid : e.nextLocalId = (p.ends x).nextLocalId) :
    ((p.post x e outs rest).talk s).used = (p.talk s).used := by rw [talk_post_same hid]; rfl

theorem afterClose_lookup (e : Endpoint) (k : UInt32) (stream : Stream) :
    (e.afterClose k stream).streams.lookup s =
      if k = s then stream.afterLocalClose else e.streams.lookup s := by
  unfold Endpoint.afterClose Stream.afterLocalClose
  by_cases hks : k = s
  · subst hks; rw [if_pos rfl]; split_ifs <;> simp [Endpoint.drop, Endpoint.put]
  · rw [if_neg hks]; split_ifs <;> simp [Endpoint.drop, Endpoint.put, Ne.symm hks]

theorem step_idle {d : Deed} (hd : d = .other) (ht : p'.talk s = p.talk s) :
    Talk.Step s (p.talk s) (x, d) (p'.talk s) := by
  subst hd
  rw [ht]
  exact .idle x

theorem step_does {d d' : Deed} {t : Talk} (hd : d = d') (ht : p'.talk s = t)
    (hstep : Talk.Step s (p.talk s) (x, d') t) : Talk.Step s (p.talk s) (x, d) (p'.talk s) := by
  subst hd ht
  exact hstep

theorem used_opened (h : Conforming p) {k : UInt32} (hk : (p.ends x).nextLocalId = k)
    (hid : k.toNat + 2 < 2 ^ 32) (hks : k ≠ s) {streams : Streams} {outs rest : List Frame} :
    ((p.post x { p.ends x with streams, nextLocalId := k + 2 } outs rest).talk s).used = (p.talk s).used := by
  rcases x.eq_or_peer (opener s) with ho | ho
  · -- An id of the same parity, other than `k`, is below `k + 2` only if it is below `k`.
    have hpar := (opener_eq_iff.mp ho).trans (hk ▸ h.owns x).1.symm
    have hpar' : s.toNat % 2 = k.toNat % 2 := by
      have hmod := congrArg UInt32.toNat hpar
      rwa [UInt32.toNat_mod, UInt32.toNat_mod] at hmod
    have hne : s.toNat ≠ k.toNat := fun heq => hks (UInt32.toNat_inj.mp heq.symm)
    have hnext := toNat_add_two hid
    simp only [talk, ho, post_ends, hnext, hk, decide_eq_decide]
    refine and_congr_right fun _ => ?_
    omega
  · simp only [talk, ho, post_ends_peer]

theorem talk_opened (h : Conforming p) (hid : (p.ends x).nextLocalId.toNat + 2 < 2 ^ 32) :
    Talk.Step s (p.talk s) (x, (Event.called .openStream (.ok (.opened (p.ends x).nextLocalId))).deed s)
      ((p.post x { (p.ends x).put (p.ends x).nextLocalId (Stream.new (p.ends x).nextLocalId) with
        nextLocalId := (p.ends x).nextLocalId + 2 } [openFrame (p.ends x).nextLocalId] (p.queue x)).talk s) := by
  have howns := h.owns x
  generalize hk : (p.ends x).nextLocalId = k at hid howns
  have hopener : opener k = x := opener_eq_iff.mpr howns.1
  have hnext := toNat_add_two hid
  by_cases hks : k = s
  · subst hks
    have hstep := Talk.Step.opened (s := k) (t := p.talk k) (by simp [talk, hopener, hk])
    rw [hopener] at hstep
    rw [talk_post (b := true) (by simp [talk, hopener, hnext, howns.2])]
    simpa [Event.deed, Endpoint.put, talk] using hstep
  · refine step_idle (by simp [Event.deed, hks]) (talk_post_idle (used_opened h hk hid hks) ?_ ?_ rfl)
    · simp [Endpoint.put, Ne.symm hks]
    · simp [item_of_ne (f := openFrame k) (by simpa using hks)]

theorem large_of_not_small {k : UInt32} {payload : List UInt8} (hsmall : ¬ (dataFrame k payload).Small) :
    DEFAULT_WINDOW < payload.length := by
  unfold Frame.Small at hsmall
  simp only [wire_length, dataFrame_payload, FLUSH_THRESHOLD, HEADER_SIZE, MAX_BUFFER_SIZE] at hsmall
  unfold DEFAULT_WINDOW
  omega

theorem talk_call (h : Conforming p) {c : Call} {reply : Reply} {outs : List Frame} {e : Endpoint}
    (hacts : (p.ends x).Acts c reply outs e) :
    Talk.Step s (p.talk s) (x, (Event.called c reply).deed s) ((p.post x e outs (p.queue x)).talk s) := by
  cases hacts with
  | failed c err => exact step_idle (by cases c <;> rfl) (talk_post_idle (used_same rfl) rfl rfl rfl)
  | hello => exact step_idle rfl (talk_post_idle (used_same rfl) rfl (by simp) rfl)
  | waits | ready | empty | flushed => exact step_idle rfl (talk_post_idle (used_same rfl) rfl rfl rfl)
  | nothing k => exact step_idle (by simp [Event.deed]) (talk_post_idle (used_same rfl) rfl rfl rfl)
  | pinged payload => exact step_idle rfl (talk_post_idle (used_same rfl) rfl (by simp) rfl)
  | opened hest hid => exact talk_opened h hid
  | @sent k payload stream hest hne hle hlook hsend hwin =>
    by_cases hks : k = s
    · subst hks
      exact step_does (if_pos ⟨rfl, hne⟩) (talk_post_at rfl (Finmap.lookup_insert _) (by simp) rfl)
        (.sent x hlook hsend hne hwin)
    · refine step_idle (by simp [Event.deed, hks]) (talk_post_idle (used_same rfl) ?_ ?_ rfl)
      · simp [Endpoint.put, Ne.symm hks]
      · simp [item_of_ne (f := dataFrame k payload) (by simpa using hks)]
  | @overflowed k payload stream hest hlook hsend hwin hsmall =>
    by_cases hks : k = s
    · subst hks
      exact step_does rfl (talk_post_at rfl (Finmap.lookup_insert _) rfl rfl)
        (.overflowed x hlook hsend hwin (large_of_not_small hsmall))
    · exact step_idle rfl (talk_post_idle (used_same rfl) (by simp [Endpoint.put, Ne.symm hks]) rfl rfl)
  | @closed k stream hest hlook hclosed =>
    have hid := (Endpoint.afterClose_same (p.ends x) k stream).2.2
    by_cases hks : k = s
    · subst hks
      exact step_does rfl (talk_post_at hid ((afterClose_lookup _ _ _).trans (if_pos rfl)) (by simp) rfl)
        (.closed x hlook)
    · refine step_idle rfl (talk_post_idle (used_same hid) ?_ ?_ rfl)
      · rw [afterClose_lookup, if_neg hks]
      · simp [item_of_ne (f := closeFrame k) (by simpa using hks)]
  | @reset k stream hest hlook =>
    by_cases hks : k = s
    · subst hks
      exact step_does rfl (talk_post_at rfl (Finmap.lookup_erase _ _) (by simp) rfl) (.reset x hlook)
    · refine step_idle rfl (talk_post_idle (used_same rfl) ?_ ?_ rfl)
      · simp [Endpoint.drop, Ne.symm hks]
      · simp [item_of_ne (f := resetFrame k) (by simpa using hks)]
  | @took k stream rest payload hest hlook hpop =>
    by_cases hks : k = s
    · subst hks
      have hcredit : (Endpoint.credit k stream payload).filterMap (Frame.item k) =
          if stream.state.canReceive ∧ payload ≠ [] then [.window (UInt32.ofNat payload.length)] else [] := by
        unfold Endpoint.credit
        split_ifs <;> simp
      exact step_does (if_pos rfl) (talk_post_at rfl (Finmap.lookup_insert _) hcredit rfl) (.took x hlook hpop)
    · refine step_idle (by simp [Event.deed, hks]) (talk_post_idle (used_same rfl) ?_ ?_ rfl)
      · simp [Endpoint.put, Ne.symm hks]
      · unfold Endpoint.credit
        split_ifs
        · simp [item_of_ne (f := windowFrame k payload.length) (by simpa using hks)]
        · rfl

theorem talk_recv (h : Conforming p) {f : Frame} {rest outs : List Frame} {r : Except TransportError Unit}
    {e : Endpoint} (hq : p.queue x = f :: rest) (hrec : (p.ends x).Receives f r outs e) :
    Talk.Step s (p.talk s) (x, (Event.received (some (r.map fun _ => f))).deed s)
      ((p.post x e outs rest).talk s) := by
  have hrole := h.role_eq x
  have hemits := h.emits x f (by rw [hq]; exact List.mem_cons_self)
  have harr := h.arrives hq hrec
  have hid : e.nextLocalId = (p.ends x).nextLocalId := by cases harr <;> rfl
  cases hi : f.item s with
  | none =>
    have hsame : e.streams.lookup s = (p.ends x).streams.lookup s := by
      cases harr with
      | stream _ ht => rw [onStream_lookup hemits hrole ht s, hi]
      | _ => rfl
    have houts : outs.filterMap (Frame.item s) = [] := by cases harr <;> simp
    have hrest : rest.filterMap (Frame.item s) = (p.queue x).filterMap (Frame.item s) := by
      rw [hq, List.filterMap_cons_none hi]
    have hdeed : (Event.received (some (r.map fun _ => f))).deed s = .other := by
      cases r with
      | error err => rfl
      | ok u => simp [Except.map, Event.deed, hi]
    rw [talk_post_idle (used_same hid) hsame houts hrest, hdeed]
    exact .idle x
  | some i =>
    have ht : f.header.frameType.isStream := by
      by_contra ht
      rw [item_of_not_stream ht] at hi
      cases hi
    obtain ⟨rfl, rfl, rfl⟩ : r = ((p.ends x).onStream f).1 ∧ outs = [] ∧
        e = { p.ends x with streams := ((p.ends x).onStream f).2 } := by
      cases harr with
      | stream => exact ⟨rfl, rfl, rfl⟩
      | helloed hf => rw [hf] at ht; cases ht
      | welcomed hf => rw [hf] at ht; cases ht
      | pinged hf | pongless hf | ponged hf => rw [hf] at ht; cases ht
    have hline : (p.talk s).line x = i :: rest.filterMap (Frame.item s) := by
      simp only [talk, hq, List.filterMap_cons_some hi]
    have hlook : ((p.ends x).onStream f).2.lookup s = receive s i ((p.talk s).held x) := by
      rw [onStream_lookup hemits hrole ht s, hi]
      rfl
    have hdeed : (Event.received (some (((p.ends x).onStream f).1.map fun _ => f))).deed s =
        if i = .opens ∧ (p.talk s).held x = none then .accepted else .other := by
      by_cases hio : i = .opens
      · subst hio
        have hopen := onStream_open hemits hrole hi
        cases hr : ((p.ends x).onStream f).1 with
        | ok u => simp [Except.map, Event.deed, hi, show (p.talk s).held x = none from hopen.mp hr]
        | error err =>
          have hheld : (p.talk s).held x ≠ none := fun hn => by
            have hok := hopen.mpr hn
            rw [hr] at hok
            cases hok
          simp [Except.map, Event.deed, hheld]
      · cases ((p.ends x).onStream f).1 <;> simp [Except.map, Event.deed, hi, hio]
    rw [hdeed, talk_post_at hid hlook rfl rfl]
    exact .received x hline

theorem talk_step (h : Conforming p) {ev : Event} (hstep : Step p (x, ev) p') :
    Talk.Step s (p.talk s) (x, ev.deed s) (p'.talk s) := by
  cases hstep with
  | call x hacts => exact talk_call h hacts
  | recv x hq hrec => exact talk_recv h hq hrec
  | wait x => exact .idle x

theorem talk_init (s : UInt32) : init.talk s = Talk.init := by
  have hused : (init.talk s).used = false := by
    unfold talk opener
    split_ifs with hodd <;> simp only [decide_eq_false_iff_not, not_and]
    all_goals
      intro h0 hlt
      have hs : s.toNat ≠ 0 := fun hz => h0 (UInt32.toNat_inj.mp hz)
      have hodd' : s.toNat % 2 = 1 ↔ s % 2 = 1 := by
        rw [← UInt32.toNat_inj, UInt32.toNat_mod]; rfl
      rw [← hodd'] at hodd
      simp only [init, Endpoint.new, StreamManager.firstLocalId, UInt32.reduceToNat] at hlt
      omega
  have heq : init.talk s = { Talk.init with used := (init.talk s).used } := rfl
  rw [heq, hused]
  rfl

theorem talk_run {ls : List (Role × Event)} (h : Run Step FrameLink.init ls p) (s : UInt32) :
    Run (Talk.Step s) Talk.init (ls.map fun l => (l.1, l.2.deed s)) (p.talk s) := by
  induction h with
  | nil => rw [talk_init]; exact .nil
  | @snoc ls l p p' hrun hstep ih =>
    rw [List.map_append]
    exact ih.snoc (talk_step (conforming_of_run hrun) hstep)

end FrameLink

end TrenchDb.Transport
