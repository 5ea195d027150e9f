import TrenchDb.Transport.Ids

/-!
# What failed calls leave behind

A rejected inbound frame changes nothing. A call of the application that fails may leave its
change to the stream map behind, and `Traceless` says exactly when it does not.
-/

open TrenchDb.Lib.Lts

namespace TrenchDb.Transport

/-! ## Rejected frames -/

namespace Endpoint

variable {e e' : Endpoint} {ev : Event} {outs : List Frame} {err : TransportError}

theorem Receives.rejected {f : Frame} (h : e.Receives f (.error err) outs e') : e' = e := by
  generalize hr : Except.error err = r at h
  cases h with
  | stream _ ht =>
    rcases onStream_heard (e := e) ht with ⟨err', heq⟩ | ⟨hok, -⟩
    · rw [heq]
    · rw [hok] at hr
      cases hr
  | early | badHello | badWelcome | settings | told | pongless => rfl
  | helloed | welcomed | pinged | ponged => cases hr

theorem Tries.rejected (h : e.Tries (.received (some (.error err))) outs e') : e' = e := by
  generalize hev : Event.received (some (.error err)) = ev at h
  cases h with
  | step h =>
    cases h with
    | call | noFrame => first | rfl | cases hev
    | @frame f r _ _ _ hrec =>
      cases r with
      | ok => cases hev
      | error err' => exact hrec.rejected
  | stuck => cases hev
  | unanswered => rfl

end Endpoint

namespace StreamManager

/-- A frame that `recv_frame` rejects changes no stream, not the counter and not the handshake. -/
theorem rejected_frame_unchanged {m m' : StreamManager} {reads rest : List Read} {err : TransportError}
    (h : m.recvFrame reads = (some (.error err), m', rest)) :
    m'.streams = m.streams ∧ m'.nextLocalId = m.nextLocalId ∧ m'.handshakeState = m.handshakeState := by
  obtain ⟨used, hused⟩ := m.recvFrame_used reads
  rw [h] at hused
  have hsame : m'.endpoint = m.endpoint := (Step.recv hused).tries.1.rejected
  exact ⟨congrArg Endpoint.streams hsame, congrArg Endpoint.nextLocalId hsame,
    congrArg Endpoint.handshakeState hsame⟩

theorem rejected_frame_unchanged_unknown :
    ∃ m' rest, ((fresh .Acceptor).play unread).2.recvFrame [.ok (dataFrame 3 [7]).wire] =
      (some (.error (.UnknownStream 3)), m', rest) ∧ m'.streams = ((fresh .Acceptor).play unread).2.streams := by
  have hrecv : (((fresh .Acceptor).play unread).2.recvFrame [.ok (dataFrame 3 [7]).wire]).1 =
      some (.error (.UnknownStream 3)) := by decide +kernel
  refine ⟨_, _, Prod.ext hrecv rfl, ?_⟩
  exact (rejected_frame_unchanged (Prod.ext hrecv rfl)).1

end StreamManager

/-! ## Failed calls -/

namespace Endpoint

variable {e e' : Endpoint} {c : Call} {s : UInt32} {stream stream' : Stream}

theorem Begins.unique {f g : Frame} {e₁ e₂ : Endpoint} (h₁ : e.Begins c f e₁) (h₂ : e.Begins c g e₂) :
    f = g ∧ e₁ = e₂ := by
  cases h₁ with
  | hello | opened | pinged =>
    cases h₂
    exact ⟨rfl, rfl⟩
  | sent _ _ _ hlook =>
    cases h₂ with
    | sent _ _ _ hlook' =>
      obtain rfl := Option.some.inj (hlook.symm.trans hlook')
      exact ⟨rfl, rfl⟩
  | closed _ hlook =>
    cases h₂ with
    | closed _ hlook' =>
      obtain rfl := Option.some.inj (hlook.symm.trans hlook')
      exact ⟨rfl, rfl⟩
  | reset _ hlook =>
    cases h₂ with
    | reset _ hlook' =>
      obtain rfl := Option.some.inj (hlook.symm.trans hlook')
      exact ⟨rfl, rfl⟩
  | took _ hlook hpop =>
    cases h₂ with
    | took _ hlook' hpop' =>
      obtain rfl := Option.some.inj (hlook.symm.trans hlook')
      obtain ⟨hpayload, rfl⟩ := Prod.mk.inj (hpop.symm.trans hpop')
      obtain rfl := Option.some.inj hpayload
      exact ⟨rfl, rfl⟩

theorem put_same (h : e.streams.lookup s = some stream) : (e.put s stream).streams = e.streams := by
  apply Finmap.ext_lookup
  intro k
  rw [put_lookup]
  split_ifs with hks
  · rw [← hks, h]
  · rfl

theorem eq_of_put (h : e.streams.lookup s = some stream) (hput : (e.put s stream').streams = e.streams) :
    stream' = stream := by
  have hlook := put_lookup (e := e) (s := s) s stream'
  rw [if_pos rfl, hput, h] at hlook
  exact (Option.some.inj hlook).symm

end Endpoint

namespace StreamManager

open Endpoint

variable {m : StreamManager} {c : Call}

/-- The call has nothing to change in the stream map, or its frame goes through. -/
def Traceless (m : StreamManager) : Call → Prop
  | .openStream =>
    m.handshakeState = .Established → m.nextLocalId.toNat + 2 < 2 ^ 32 →
      m.Goes .openStream (openFrame m.nextLocalId)
  | .sendData s payload =>
    ∀ stream, m.handshakeState = .Established → payload ≠ [] → payload.length ≤ MAX_FRAME_SIZE →
      m.streams.lookup s = some stream → stream.state.canSend → (payload.length : Int) ≤ stream.sendWindow →
      m.Goes (.sendData s payload) (dataFrame s payload)
  | .closeStream s =>
    ∀ stream, m.handshakeState = .Established → m.streams.lookup s = some stream →
      stream.state = .Open ∨ stream.state = .HalfClosedRemote → m.Goes (.closeStream s) (closeFrame s)
  | .resetStream s =>
    ∀ stream, m.handshakeState = .Established → m.streams.lookup s = some stream → stream.state ≠ .Reset →
      m.Goes (.resetStream s) (resetFrame s)
  | .recvData s =>
    ∀ stream payload rest, m.handshakeState = .Established → m.streams.lookup s = some stream →
      stream.recvQueue = payload :: rest → stream.state.canReceive → payload ≠ [] →
      m.Goes (.recvData s) (windowFrame s payload.length)
  | _ => True

theorem onLocalClose_eq_iff {stream : Stream} (h : ¬ stream.state.isClosed) :
    stream.onLocalClose = stream ↔ ¬ (stream.state = .Open ∨ stream.state = .HalfClosedRemote) := by
  obtain ⟨id, state, sendWindow, recvWindow, recvQueue⟩ := stream
  cases state <;> simp_all [Stream.onLocalClose, StreamState.isClosed]

theorem traceless_iff (hnew : m.streams.lookup m.nextLocalId = none) : m.Traceless c ↔
    ∀ f e, m.endpoint.Begins c f e → e.streams = m.streams ∨ m.Goes c f := by
  cases c with
  | startHandshake | sendPing =>
    refine ⟨fun _ f e hbegins => ?_, fun _ => trivial⟩
    cases hbegins
    exact .inl rfl
  | flush =>
    refine ⟨fun _ f e hbegins => ?_, fun _ => trivial⟩
    cases hbegins
  | openStream =>
    refine ⟨fun h f e hbegins => ?_, fun h hest hid => ?_⟩
    · cases hbegins with
      | opened hest hid => exact .inr (h hest hid)
    · refine (h _ _ (.opened hest hid)).resolve_left fun heq => ?_
      have hlook := put_lookup (e := m.endpoint) (s := m.nextLocalId) m.nextLocalId (Stream.new m.nextLocalId)
      rw [if_pos rfl] at hlook
      replace heq : (m.endpoint.put m.nextLocalId (Stream.new m.nextLocalId)).streams = m.streams := heq
      rw [heq, hnew] at hlook
      cases hlook
  | sendData s payload =>
    refine ⟨fun h f e hbegins => ?_, fun h stream hest hne hle hlook hcan hwin => ?_⟩
    · cases hbegins with
      | sent hest hne hle hlook hcan hwin => exact .inr (h _ hest hne hle hlook hcan hwin)
    · refine (h _ _ (.sent hest hne hle hlook hcan hwin)).resolve_left fun heq => ?_
      -- A payload that is not empty costs credit.
      have hsame := congrArg Stream.sendWindow (eq_of_put (e := m.endpoint) hlook heq)
      have hpos := List.length_pos_iff.mpr hne
      rw [Stream.sendWindow_consume hwin] at hsame
      omega
  | closeStream s =>
    refine ⟨fun h f e hbegins => ?_, fun h stream hest hlook hstate => ?_⟩
    · cases hbegins with
      | @closed _ stream hest hlook hclosed =>
        by_cases hstate : stream.state = .Open ∨ stream.state = .HalfClosedRemote
        · exact .inr (h stream hest hlook hstate)
        · rw [(onLocalClose_eq_iff hclosed).mpr hstate]
          exact .inl (put_same hlook)
    · have hclosed : ¬ stream.state.isClosed := by rcases hstate with hs | hs <;> rw [hs] <;> decide
      refine (h _ _ (.closed hest hlook hclosed)).resolve_left fun heq => ?_
      exact (onLocalClose_eq_iff hclosed).mp (eq_of_put (e := m.endpoint) hlook heq) hstate
  | resetStream s =>
    refine ⟨fun h f e hbegins => ?_, fun h stream hest hlook hstate => ?_⟩
    · cases hbegins with
      | @reset _ stream hest hlook =>
        by_cases hstate : stream.state = .Reset
        · have hsame : stream.onReset = stream := by rw [Stream.onReset, ← hstate]
          rw [hsame]
          exact .inl (put_same hlook)
        · exact .inr (h stream hest hlook hstate)
    · refine (h _ _ (.reset hest hlook)).resolve_left fun heq => hstate ?_
      exact (congrArg Stream.state (eq_of_put (e := m.endpoint) hlook heq)).symm
  | recvData s =>
    refine ⟨fun h f e hbegins => ?_, fun h stream payload rest hest hlook hqueue hcan hne => ?_⟩
    · cases hbegins with
      | took hest hlook hpop hcan hne => exact .inr (h _ _ _ hest hlook (Stream.popRecv_some hpop).1 hcan hne)
    · have hpop : stream.popRecv =
          (some payload, { stream with recvWindow := stream.recvWindow + payload.length, recvQueue := rest }) := by
        unfold Stream.popRecv
        rw [hqueue]
      refine (h _ _ (.took hest hlook hpop hcan hne)).resolve_left fun heq => ?_
      have hsame := congrArg (List.length ∘ Stream.recvQueue) (eq_of_put (e := m.endpoint) hlook heq)
      simp [hqueue] at hsame

/-- A call that fails leaves the stream map as it was exactly when `Traceless` says so. -/
theorem failed_call_traceless {faults : List (Option WriteFault)} {role : Role} {ls : List Event}
    (h : Run Step (overFaults faults role) ls m) (c : Call) :
    (∀ err, (m.perform c).1 = .error err → (m.perform c).2.streams = m.streams) ↔ m.Traceless c := by
  rw [traceless_iff (numbered_of_run h).unheld]
  have htried := m.perform_tried c
  generalize m.perform c = o at htried
  cases htried with
  | silent hno _ _ herr =>
    exact ⟨fun _ f e hbegins => absurd hbegins (hno f e),
      fun _ err heq => congrArg Endpoint.streams (herr err heq)⟩
  | gone hbegins hgoes =>
    exact ⟨fun _ f e hbegins' => .inr ((hbegins.unique hbegins').1 ▸ hgoes), by simp⟩
  | @stuck f err m' hbegins hno _ =>
    refine ⟨fun hsame f' e' hbegins' => ?_, fun hall _ _ => (hall f _ hbegins).resolve_right hno⟩
    rw [← (hbegins.unique hbegins').2]
    exact .inl (hsame err rfl)

/-- An initiator with one open stream, whose next write fails. -/
def opensOne : List Act := [.call .startHandshake, .frame welcomeFrame, .call .openStream]

def brokenPipe : List (Option WriteFault) := [none, none, some ⟨0, "broken pipe"⟩]

theorem opensOne_run : Run Step (overFaults brokenPipe .Initiator) ((overFaults brokenPipe .Initiator).play opensOne).1
    ((overFaults brokenPipe .Initiator).play opensOne).2 :=
  played_run (by decide +kernel)

theorem failed_call_traceless_close :
    ((overFaults brokenPipe .Initiator).play opensOne).2.Traceless (.closeStream 1) := by
  have hdone : (((overFaults brokenPipe .Initiator).play opensOne).2.perform (.closeStream 1)).1 = .ok .done := by
    decide +kernel
  exact (failed_call_traceless opensOne_run (.closeStream 1)).mp fun err herr =>
    absurd (hdone.symm.trans herr) (by simp)

/-- A reset whose write fails leaves the stream in the map, in the state `Reset`. -/
theorem failed_reset_leaves_trace : ¬ ∀ faults role ls m, Run Step (overFaults faults role) ls m →
    ∀ c err, (m.perform c).1 = .error err → (m.perform c).2.streams = m.streams := by
  intro h
  have hsame := h _ _ _ _ opensOne_run (.resetStream 1) (.Io "broken pipe") (by decide +kernel)
  revert hsame
  decide +kernel

end StreamManager

end TrenchDb.Transport
