import TrenchDb.Transport.Delivery

/-!
# What a link guarantees to its applications

The invariants of `Delivery`, said of the managers and the bytes between them.
-/

open TrenchDb.Lib.Lts

namespace TrenchDb.Transport

/-! ## From frames back to bytes -/

/-- What is on its way to `x` about the stream `s`, in frames that `x` has not yet processed. -/
def Link.about (l : Link) (x : Role) (s : UInt32) : List Item := (l.queue x).filterMap (Frame.item s)

/-- The non-empty payloads for which `send_data(s, _)` has returned `Ok` at `x`. -/
def sentOn (x : Role) (s : UInt32) (ls : List (Role × Event)) : List (List UInt8) :=
  ls.filterMap fun l => if l.1 = x then (l.2.deed s).sent? else none

/-- The payloads that `recv_data(s)` has returned at `x`. -/
def tookOn (x : Role) (s : UInt32) (ls : List (Role × Event)) : List (List UInt8) :=
  ls.filterMap fun l => if l.1 = x then (l.2.deed s).took? else none

theorem sentOn_eq (x : Role) (s : UInt32) (ls : List (Role × Event)) :
    sentOn x s ls = sentBy x (ls.map fun l => (l.1, l.2.deed s)) := by
  rw [sentOn, sentBy, List.filterMap_map]
  rfl

theorem tookOn_eq (x : Role) (s : UInt32) (ls : List (Role × Event)) :
    tookOn x s ls = tookBy x (ls.map fun l => (l.1, l.2.deed s)) := by
  rw [tookOn, tookBy, List.filterMap_map]
  rfl

theorem payloads_items (t : Talk) (x : Role) : payloads (t.items x) = payloads (t.line x) := by
  rw [Talk.items, payloads, List.filterMap_filter, payloads]
  congr 1
  funext i
  cases i <;> rfl

theorem granted_items (t : Talk) (x : Role) : granted (t.items x) = granted (t.line x) := by
  rw [Talk.items]
  induction t.line x with
  | nil => rfl
  | cons i is ih =>
    rw [List.filter_cons]
    split_ifs with hi
    · rw [granted_cons, granted_cons, ih]
    · have hopens : i = .opens := by simpa using hi
      rw [granted_cons, ih, hopens]
      simp [Item.increment]

theorem flow_of_link {ls : List (Role × Event)} {l : Link} (h : Run Link.Step Link.init ls l) (s : UInt32) :
    ∃ t : Talk, t.Flow s (ls.map fun l => (l.1, l.2.deed s)) ∧
      (∀ x, t.held x = (l.mgr x).streams.lookup s) ∧ ∀ x, t.line x = l.about x s := by
  obtain ⟨p, hprun, hrep⟩ := Rep.run h
  refine ⟨p.talk s, Talk.flow_of_run (FrameLink.talk_run hprun s), fun x => ?_, fun x => ?_⟩
  · show (p.ends x).streams.lookup s = _
    rw [hrep.ends_eq]
    rfl
  · rw [Link.about, hrep.queue_eq]
    rfl

/-- A handshake, and one payload sent on stream 1 and read at the other end. -/
def exchange : List (Role × Link.Act) :=
  [(.Initiator, .call .startHandshake), (.Acceptor, .recv 16), (.Initiator, .recv 16),
    (.Initiator, .call .openStream), (.Initiator, .call (.sendData 1 [7, 8])), (.Initiator, .call .flush),
    (.Acceptor, .recv 20), (.Acceptor, .recv 14), (.Acceptor, .call (.recvData 1))]

theorem exchange_run : Run Link.Step Link.init (Link.init.play exchange).1 (Link.init.play exchange).2 :=
  Link.play_run (by decide +kernel)

/-! ## Credit -/

/-- While `x` holds the stream and its peer can receive on it, or has not yet processed its `Open`,
the credit of this direction is split between the two ends and the frames on their way. Neither
window is ever clamped, and no queue outgrows the default window. -/
theorem credit_conserved {ls : List (Role × Event)} {l : Link} (h : Run Link.Step Link.init ls l)
    (x : Role) (s : UInt32) (sx : Stream) (hx : (l.mgr x).streams.lookup s = some sx) :
    (∀ sy, (l.mgr x.peer).streams.lookup s = some sy → sy.state.canReceive →
      sx.sendWindow + bytes (payloads (l.about x.peer s)) + bytes sy.recvQueue + granted (l.about x s) =
          DEFAULT_WINDOW ∧
        sy.recvWindow = DEFAULT_WINDOW - bytes sy.recvQueue) ∧
    (.opens ∈ l.about x.peer s →
      sx.sendWindow + bytes (payloads (l.about x.peer s)) + granted (l.about x s) = DEFAULT_WINDOW) ∧
    (∀ n, sx.checkSendWindow n = .ok () →
      0 ≤ sx.sendWindow - n ∧ (sx.consumeSendWindow n).sendWindow = sx.sendWindow - n) ∧
    (∀ payload rest, l.about x s = .data payload :: rest →
      0 ≤ sx.recvWindow - payload.length ∧
        (sx.pushRecv payload).recvWindow = sx.recvWindow - payload.length) ∧
    (bytes sx.recvQueue : Int) ≤ DEFAULT_WINDOW := by
  obtain ⟨t, hflow, hheld, hline⟩ := flow_of_link h s
  rw [← hheld] at hx
  simp only [← hheld, ← hline, ← payloads_items, ← granted_items]
  have hhalf := hflow.half x
  have hback := hflow.half x.peer
  have hviewx := (Talk.view_eq (s := s) (hflow.settled hx)).trans hx
  rw [Role.peer_peer] at hback
  rw [hviewx] at hhalf hback
  refine ⟨fun sy hy hr => ?_, fun hopens => ?_, fun n hn => ?_, fun payload rest hdata => ?_, ?_⟩
  · rw [(Talk.view_eq (s := s) (hflow.settled hy)).trans hy] at hhalf
    exact ⟨hhalf.credit sx sy rfl rfl hr, (hhalf.bound sy rfl).1⟩
  · rw [show t.view s x.peer = some (Stream.new s) from if_pos hopens] at hhalf
    have hcredit := hhalf.credit sx _ rfl rfl rfl
    simpa [Stream.new] using hcredit
  · have hle : (n : Int) ≤ sx.sendWindow := by
      unfold Stream.checkSendWindow at hn
      split_ifs at hn with hlt
      omega
    exact ⟨by omega, Stream.sendWindow_consume hle⟩
  · rw [Talk.items_eq (hflow.settled hx), hdata] at hback
    obtain ⟨-, hfits, -⟩ := hback.hearsData
    refine ⟨by omega, ?_⟩
    unfold Stream.pushRecv
    rw [if_neg (by omega)]
  · have hbound := (hback.bound sx rfl).2
    omega

theorem credit_conserved_exchange :
    ∃ sx sy, ((Link.init.play exchange).2.mgr .Initiator).streams.lookup 1 = some sx ∧
      ((Link.init.play exchange).2.mgr .Acceptor).streams.lookup 1 = some sy ∧
      granted ((Link.init.play exchange).2.about .Initiator 1) = 2 ∧
      sx.sendWindow + bytes (payloads ((Link.init.play exchange).2.about .Acceptor 1)) + bytes sy.recvQueue +
        granted ((Link.init.play exchange).2.about .Initiator 1) = DEFAULT_WINDOW := by
  have hx := Option.eq_some_of_isSome
    (o := ((Link.init.play exchange).2.mgr .Initiator).streams.lookup 1) (by decide +kernel)
  have hy := Option.eq_some_of_isSome
    (o := ((Link.init.play exchange).2.mgr .Acceptor).streams.lookup 1) (by decide +kernel)
  exact ⟨_, _, hx, hy, by decide +kernel,
    ((credit_conserved exchange_run .Initiator 1 _ hx).1 _ hy (by decide +kernel)).1⟩

/-! ## Order -/

/-- What `recv_data` returns at one end is, stream by stream, a prefix of what `send_data` has
taken at the other. -/
theorem delivered_in_order {ls : List (Role × Event)} {l : Link} (h : Run Link.Step Link.init ls l)
    (x : Role) (s : UInt32) : tookOn x.peer s ls <+: sentOn x s ls := by
  obtain ⟨t, hflow, -, -⟩ := flow_of_link h s
  obtain ⟨rest, hsent, -⟩ := (hflow.half x).content
  rw [sentOn_eq, tookOn_eq]
  exact ⟨rest, hsent.symm⟩

theorem delivered_in_order_exchange :
    tookOn .Acceptor 1 (Link.init.play exchange).1 = [[7, 8]] ∧
    tookOn .Acceptor 1 (Link.init.play exchange).1 <+: sentOn .Initiator 1 (Link.init.play exchange).1 :=
  ⟨by decide +kernel, delivered_in_order exchange_run .Initiator 1⟩

/-! ## Refusals -/

/-- A `close_stream(s)` call of `x`. -/
def closes (x : Role) (s : UInt32) : Role × Event → Bool
  | (y, .called (.closeStream k) _) => y = x ∧ k = s
  | _ => false

def closesSome : Role × Event → Bool
  | (_, .called (.closeStream _) _) => true
  | _ => false

theorem closes_closesSome {x : Role} {s : UInt32} {l : Role × Event} (h : closes x s l = true) :
    closesSome l = true := by
  unfold closes at h
  split at h
  · rfl
  · cases h

/-- Each end calls `close_stream` at most once for each stream. -/
def ClosesOnce (ls : List (Role × Event)) : Prop := ∀ x s, ls.countP (closes x s) ≤ 1

/-- A handshake, a payload on stream 1, and a reset of the stream before the payload is read. -/
def resetRace : List (Role × Link.Act) :=
  [(.Initiator, .call .startHandshake), (.Acceptor, .recv 16), (.Initiator, .recv 16),
    (.Initiator, .call .openStream), (.Initiator, .call .flush), (.Acceptor, .recv 16),
    (.Initiator, .call (.sendData 1 [7])), (.Initiator, .call .flush), (.Acceptor, .call (.resetStream 1))]

theorem resetRace_run : Run Link.Step Link.init (Link.init.play resetRace).1 (Link.init.play resetRace).2 :=
  Link.play_run (by decide +kernel)

theorem resetRace_refused : ∃ l', Link.Step (Link.init.play resetRace).2
    (.Acceptor, .received (some (.error (.UnknownStream 1)))) l' := by
  have hstep := Link.act_step (l := (Link.init.play resetRace).2) (x := .Acceptor) (a := .recv 17)
    (by decide +kernel)
  have hevent : ((Link.init.play resetRace).2.act .Acceptor (.recv 17)).1 =
      .received (some (.error (.UnknownStream 1))) := by decide +kernel
  rw [hevent] at hstep
  exact ⟨_, hstep⟩

/-- As long as it is not confined to streams that were let go, the absence of refusals fails: a
`Data` frame on its way meets a stream that was reset. -/
theorem recv_frame_refuses : ¬ ∀ ls l x e l', Run Link.Step Link.init ls l →
    (∀ y, (l.mgr y).handshakeState = .Established) → ClosesOnce ls →
    Link.Step l (x, .received (some (.error e))) l' →
    (∀ message, e ≠ .InvalidFrame message) ∧ ∀ s, e ≠ .UnknownStream s := by
  intro h
  have hest : ∀ y, ((Link.init.play resetRace).2.mgr y).handshakeState = .Established := by
    intro y
    cases y <;> decide +kernel
  have hcloses : ClosesOnce (Link.init.play resetRace).1 := by
    intro x s
    have hnone : ∀ l ∈ (Link.init.play resetRace).1, ¬ closesSome l = true := by decide +kernel
    rw [List.countP_eq_zero.mpr fun l hl hc => hnone l hl (closes_closesSome hc)]
    exact Nat.zero_le 1
  obtain ⟨l', hstep⟩ := resetRace_refused
  exact (h _ _ _ _ _ resetRace_run hest hcloses hstep).2 1 rfl

theorem onStream_error {e : Endpoint} {f : Frame} {x : Role} {err : TransportError} (hemits : Emits x.peer f)
    (hrole : e.role = x) (herr : (e.onStream f).1 = .error err) :
    ∃ s i, f.item s = some i ∧
      ((i ≠ .opens ∧ err = .UnknownStream s ∧ e.streams.lookup s = none) ∨
        ∃ stream, e.streams.lookup s = some stream ∧
          (i = .opens ∨ (∃ payload, i = .data payload) ∧ ¬ stream.state.canReceive)) := by
  cases hemits with
  | hello | welcome | ping | pong => cases herr
  | @opens k hk =>
    refine ⟨k, .opens, openFrame_item, .inr ?_⟩
    rw [Role.peer_peer] at hk
    cases hl : e.streams.lookup k with
    | none =>
      rw [show e.onStream (openFrame k) = handleOpen e.streams e.role k from rfl,
        handleOpen_none (hrole ▸ hk) hl] at herr
      cases herr
    | some stream => exact ⟨stream, rfl, .inl rfl⟩
  | @data k payload hne =>
    refine ⟨k, .data payload, dataFrame_item payload, ?_⟩
    rw [show e.onStream (dataFrame k payload) = handleData e.streams k payload from rfl, handleData] at herr
    split at herr
    next hl => exact .inl ⟨by simp, (Except.error.inj herr).symm, hl⟩
    next stream hl =>
      split_ifs at herr with hc
      exact .inr ⟨stream, hl, .inr ⟨⟨payload, rfl⟩, hc⟩⟩
  | close k =>
    refine ⟨k, .close, closeFrame_item, ?_⟩
    rw [show e.onStream (closeFrame k) = handleClose e.streams k from rfl, handleClose] at herr
    split at herr
    next hl => exact .inl ⟨by simp, (Except.error.inj herr).symm, hl⟩
    next stream hl => dsimp only at herr; split_ifs at herr
  | reset k => cases herr
  | window k n =>
    refine ⟨k, .window _, windowFrame_item n, ?_⟩
    rw [show e.onStream (windowFrame k n) = handleWindow e.streams k (windowFrame k n).payload from rfl,
      handleWindow] at herr
    split at herr
    next hl => exact .inl ⟨by simp, (Except.error.inj herr).symm, hl⟩
    next stream hl => rw [if_neg (by simp)] at herr; cases herr

theorem received_error {p p' : FrameLink} {x : Role} {err : TransportError}
    (h : FrameLink.Step p (x, .received (some (.error err))) p') :
    ∃ f rest outs e, p.queue x = f :: rest ∧ (p.ends x).Receives f (.error err) outs e := by
  generalize hl : (x, Event.received (some (.error err))) = label at h
  cases h with
  | call => cases hl
  | wait => cases hl
  | @recv y f rest r outs e hq hrec =>
    cases r with
    | ok u => cases hl
    | error err' =>
      obtain ⟨rfl, rfl⟩ : x = y ∧ err = err' := by simpa [Except.map] using hl
      exact ⟨f, rest, outs, e, hq, hrec⟩

/-- `x` opened the stream `s`, or accepted it from its peer. -/
def Knew (x : Role) (s : UInt32) (ls : List (Role × Event)) : Prop :=
  (x, .called .openStream (.ok (.opened s))) ∈ ls ∨
  ∃ f, (x, .received (some (.ok f))) ∈ ls ∧ f.header.frameType = .Open ∧ f.header.streamId = s

theorem deed_opened {s : UInt32} {ev : Event} (h : ev.deed s = .opened) :
    ev = .called .openStream (.ok (.opened s)) := by
  unfold Event.deed at h
  split at h
  · split_ifs at h with hid
    rw [hid]
  · split_ifs at h
  · split_ifs at h
  · split_ifs at h
  · cases h

theorem deed_accepted {s : UInt32} {ev : Event} (h : ev.deed s = .accepted) :
    ∃ f, ev = .received (some (.ok f)) ∧ f.item s = some .opens := by
  unfold Event.deed at h
  split at h
  · split_ifs at h
  · split_ifs at h
  · split_ifs at h
  next f =>
    split_ifs at h with hf
    exact ⟨f, rfl, hf⟩
  · cases h

theorem item_opens {s : UInt32} {f : Frame} (h : f.item s = some .opens) :
    f.header.frameType = .Open ∧ f.header.streamId = s := by
  unfold Frame.item at h
  split_ifs at h with hid
  refine ⟨?_, hid⟩
  split at h <;> first | assumption | cases h

theorem knew_of_deed {x : Role} {s : UInt32} {ls : List (Role × Event)}
    (h : (x, Deed.opened) ∈ ls.map (fun l => (l.1, l.2.deed s)) ∨
      (x, Deed.accepted) ∈ ls.map (fun l => (l.1, l.2.deed s))) : Knew x s ls := by
  simp only [List.mem_map, Prod.mk.injEq] at h
  obtain ⟨⟨y, ev⟩, hmem, rfl, hdeed⟩ | ⟨⟨y, ev⟩, hmem, rfl, hdeed⟩ := h
  · exact .inl (deed_opened hdeed ▸ hmem)
  · obtain ⟨f, rfl, hf⟩ := deed_accepted hdeed
    exact .inr ⟨f, hmem, item_opens hf⟩

/-- Between conforming peers `recv_frame` never returns `InvalidFrame`, and `UnknownStream` only for
a stream that this end had, and has let go. -/
theorem recv_frame_errors {ls : List (Role × Event)} {l l' : Link} (h : Run Link.Step Link.init ls l)
    {x : Role} {e : TransportError} (hstep : Link.Step l (x, .received (some (.error e))) l') :
    (∀ message, e ≠ .InvalidFrame message) ∧
    ∀ s, e = .UnknownStream s → (l.mgr x).streams.lookup s = none ∧ Knew x s ls := by
  obtain ⟨p, hprun, hrep⟩ := Rep.run h
  have hconf := FrameLink.conforming_of_run hprun
  obtain ⟨p', hpstep, -⟩ := hrep.step hstep
  obtain ⟨f, rest, outs, e', hq, hrec⟩ := received_error hpstep
  have hemits := hconf.emits x f (by rw [hq]; exact List.mem_cons_self)
  have harr := hconf.arrives hq hrec
  generalize hr : Except.error e = r at harr
  cases harr with
  | helloed | welcomed | pinged | ponged => cases hr
  | pongless =>
    obtain rfl := Except.error.inj hr
    exact ⟨by simp, by simp⟩
  | stream hest ht =>
    obtain ⟨s, i, hi, hwhy⟩ := onStream_error hemits (hconf.role_eq x) hr.symm
    have hflow := Talk.flow_of_run (FrameLink.talk_run hprun s)
    have hline : (p.talk s).line x = i :: rest.filterMap (Frame.item s) := by
      simp only [FrameLink.talk, hq, List.filterMap_cons_some hi]
    rcases hwhy with ⟨hopens, rfl, hnone⟩ | ⟨stream, hheld, hopens | ⟨⟨payload, hdata⟩, hno⟩⟩
    · refine ⟨by simp, ?_⟩
      rintro s' ⟨rfl⟩
      have hsettled : .opens ∉ (p.talk s).line x := by
        intro hmem
        obtain ⟨rest', hl, -⟩ := hflow.opening x hmem
        rw [hline] at hl
        exact hopens (List.cons.inj hl).1
      have hused : (p.talk s).used = true := by
        by_contra hu
        have := (hflow.fresh (by simpa using hu) x).2.1
        rw [hline] at this
        cases this
      refine ⟨?_, knew_of_deed (hflow.known hused x hsettled)⟩
      rw [hrep.ends_eq] at hnone
      exact hnone
    · -- A second `Open`.
      subst hopens
      have hnone := (hflow.hearOpen hline).1
      rw [show (p.talk s).held x = some stream from hheld] at hnone
      cases hnone
    · -- `Data` after `Close`.
      subst hdata
      have hheld' : (p.talk s).held x = some stream := hheld
      have hsettled := hflow.settled hheld'
      have hback := hflow.half x.peer
      rw [Role.peer_peer, Talk.view_eq hsettled, hheld', Talk.items_eq hsettled, hline] at hback
      exact absurd hback.hearsData.1 hno

theorem recv_frame_errors_race :
    ((Link.init.play resetRace).2.mgr .Acceptor).streams.lookup 1 = none ∧
      Knew .Acceptor 1 (Link.init.play resetRace).1 := by
  obtain ⟨l', hstep⟩ := resetRace_refused
  exact (recv_frame_errors resetRace_run hstep).2 1 rfl

end TrenchDb.Transport
