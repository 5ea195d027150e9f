import TrenchDb.Transport.Ids

/-!
# What a manager says on a stream

The order of the frames that a manager emits on a stream it opened, while writes succeed.
-/

open TrenchDb.Lib.Lts

namespace TrenchDb.Transport

/-! ## The grammar -/

/-- One `Open`, then `Data` and `Window` frames, then at most one `Close` with only `Window` frames
behind it, and at most one `Reset` at the end. -/
def Utterance (ts : List Frametype) : Prop :=
  ∃ body closing ending, ts = .Open :: (body ++ closing ++ ending) ∧
    (∀ t ∈ body, t = .Data ∨ t = .Window) ∧
    (closing = [] ∨ ∃ n, closing = .Close :: List.replicate n .Window) ∧
    (ending = [] ∨ ending = [.Reset])

inductive Phase where
  | unopened
  | talking
  | closing
  | finished
  deriving DecidableEq, Repr

/-- `Speaks p ts`: the frames `ts` are said, and `p` is the phase after them. -/
inductive Speaks : Phase → List Frametype → Prop
  | unopened : Speaks .unopened []
  | opens : Speaks .talking [.Open]
  | talks {ts : List Frametype} {t : Frametype} : Speaks .talking ts → t = .Data ∨ t = .Window →
      Speaks .talking (ts ++ [t])
  | closes {ts : List Frametype} : Speaks .talking ts → Speaks .closing (ts ++ [.Close])
  | credits {ts : List Frametype} : Speaks .closing ts → Speaks .closing (ts ++ [.Window])
  | resets {ts : List Frametype} {p : Phase} : Speaks p ts → p = .talking ∨ p = .closing →
      Speaks .finished (ts ++ [.Reset])

theorem Speaks.talking {ts : List Frametype} (h : Speaks .talking ts) :
    ∃ body, ts = .Open :: body ∧ ∀ t ∈ body, t = .Data ∨ t = .Window := by
  generalize hp : Phase.talking = p at h
  induction h with
  | unopened | closes | credits | resets => cases hp
  | opens => exact ⟨[], rfl, by simp⟩
  | @talks ts t _ ht ih =>
    obtain ⟨body, rfl, hbody⟩ := ih hp
    refine ⟨body ++ [t], rfl, fun u hu => ?_⟩
    rcases List.mem_append.mp hu with hu | hu
    · exact hbody u hu
    · rwa [List.mem_singleton.mp hu]

theorem Speaks.closing {ts : List Frametype} (h : Speaks .closing ts) :
    ∃ body n, ts = .Open :: (body ++ .Close :: List.replicate n .Window) ∧ ∀ t ∈ body, t = .Data ∨ t = .Window := by
  generalize hp : Phase.closing = p at h
  induction h with
  | unopened | opens | talks | resets => cases hp
  | closes h =>
    obtain ⟨body, rfl, hbody⟩ := h.talking
    exact ⟨body, 0, rfl, hbody⟩
  | credits _ ih =>
    obtain ⟨body, n, rfl, hbody⟩ := ih hp
    refine ⟨body, n + 1, ?_, hbody⟩
    rw [List.replicate_succ']
    simp

theorem Speaks.utterance {p : Phase} {ts : List Frametype} (h : Speaks p ts) (hp : p ≠ .unopened) :
    Utterance ts := by
  have htalking : ∀ {ts}, Speaks .talking ts → ∀ ending, (ending = [] ∨ ending = [.Reset]) →
      Utterance (ts ++ ending) := by
    intro ts h ending hending
    obtain ⟨body, rfl, hbody⟩ := h.talking
    exact ⟨body, [], ending, by simp, hbody, .inl rfl, hending⟩
  have hclosing : ∀ {ts}, Speaks .closing ts → ∀ ending, (ending = [] ∨ ending = [.Reset]) →
      Utterance (ts ++ ending) := by
    intro ts h ending hending
    obtain ⟨body, n, rfl, hbody⟩ := h.closing
    exact ⟨body, _, ending, by simp, hbody, .inr ⟨n, rfl⟩, hending⟩
  cases p with
  | unopened => exact absurd rfl hp
  | talking => simpa using htalking h [] (.inl rfl)
  | closing => simpa using hclosing h [] (.inl rfl)
  | finished =>
    cases h with
    | resets h hp =>
      rcases hp with rfl | rfl
      · exact htalking h _ (.inr rfl)
      · exact hclosing h _ (.inr rfl)

theorem Utterance.count_close {ts : List Frametype} (h : Utterance ts) : ts.count .Close ≤ 1 := by
  obtain ⟨body, closing, ending, rfl, hbody, hclosing, hending⟩ := h
  have hnone : body.count .Close = 0 := by
    rw [List.count_eq_zero]
    intro hmem
    rcases hbody _ hmem with h | h <;> cases h
  have hone : closing.count .Close ≤ 1 := by
    rcases hclosing with rfl | ⟨n, rfl⟩
    · simp
    · simp [List.count_replicate]
  have hend : ending.count .Close = 0 := by rcases hending with rfl | rfl <;> rfl
  simp only [List.count_cons, List.count_append, hnone, hend]
  simpa using hone

theorem Speaks.count_close {ts : List Frametype} (h : Speaks .closing ts) : 0 < ts.count .Close := by
  obtain ⟨body, n, rfl, -⟩ := h.closing
  simp [List.count_append]

/-! ## What is said on one stream -/

/-- The types of the stream frames on `s`. -/
def said (s : UInt32) (fs : List Frame) : List Frametype :=
  (fs.filter fun f => f.header.frameType.isStream && f.header.streamId = s).map fun f => f.header.frameType

theorem said_append (s : UInt32) (fs gs : List Frame) : said s (fs ++ gs) = said s fs ++ said s gs := by
  simp [said]

theorem said_other {s : UInt32} {fs : List Frame}
    (h : ∀ f ∈ fs, f.header.frameType.isStream → f.header.streamId ≠ s) : said s fs = [] := by
  unfold said
  rw [List.map_eq_nil_iff, List.filter_eq_nil_iff]
  intro f hf hboth
  simp only [Bool.and_eq_true, decide_eq_true_eq] at hboth
  exact h f hf hboth.1 hboth.2

theorem said_one {s : UInt32} {f : Frame} (ht : f.header.frameType.isStream) (hid : f.header.streamId = s) :
    said s [f] = [f.header.frameType] := by
  simp [said, ht, hid]

/-- The phase of a stream that is held. -/
def Stream.phase (stream : Stream) : Phase := if stream.state = .HalfClosedLocal then .closing else .talking

/-- The phase `p` agrees with what is held under the id `s`. -/
def InPhase (next s : UInt32) (p : Phase) : Option Stream → Prop
  | none => next ≤ s → p = .unopened
  | some stream => p = stream.phase

/-- What was said on `s` follows the grammar, and `s` was returned if anything was said. -/
def Spoken (s : UInt32) (e : Endpoint) (ids : List UInt32) (ts : List Frametype) : Prop :=
  ∃ p, Speaks p ts ∧ (p ≠ .unopened ↔ s ∈ ids) ∧ InPhase e.nextLocalId s p (e.streams.lookup s)

theorem phase_eq_of_state {stream stream' : Stream} (h : stream'.state = stream.state) :
    stream'.phase = stream.phase := by
  unfold Stream.phase
  rw [h]

theorem Stream.phase_mem (stream : Stream) : stream.phase = .talking ∨ stream.phase = .closing := by
  unfold Stream.phase
  split_ifs
  · exact .inr rfl
  · exact .inl rfl

namespace Endpoint

variable {e e' : Endpoint} {c : Call} {reply : Reply} {outs : List Frame} {s : UInt32} {ids : List UInt32}
  {ts : List Frametype} {stream : Stream}

theorem spoken_quiet {ev : Event} (h : Spoken s e ids ts) (hsaid : said s outs = []) (hev : ev.opened? = none)
    (hphase : ∀ p, InPhase e.nextLocalId s p (e.streams.lookup s) → InPhase e'.nextLocalId s p (e'.streams.lookup s)) :
    Spoken s e' (ids ++ ev.opened?.toList) (ts ++ said s outs) := by
  obtain ⟨p, hspeaks, hids, hp⟩ := h
  rw [hsaid, hev, Option.toList_none, List.append_nil, List.append_nil]
  exact ⟨p, hspeaks, hids, hphase p hp⟩

theorem spoken_says {ev : Event} {f : Frame} {q : Phase} (h : Spoken s e ids ts)
    (hheld : e.streams.lookup s = some stream) (ht : f.header.frameType.isStream) (hid : f.header.streamId = s)
    (hev : ev.opened? = none) (hspeak : Speaks stream.phase ts → Speaks q (ts ++ [f.header.frameType]))
    (hq : q ≠ .unopened) (hphase : InPhase e'.nextLocalId s q (e'.streams.lookup s)) :
    Spoken s e' (ids ++ ev.opened?.toList) (ts ++ said s [f]) := by
  obtain ⟨p, hspeaks, hids, hp⟩ := h
  rw [hheld] at hp
  obtain rfl : p = stream.phase := hp
  rw [said_one ht hid, hev, Option.toList_none, List.append_nil]
  have hmem : s ∈ ids := by
    rw [← hids]
    rcases stream.phase_mem with h | h <;> rw [h] <;> decide
  exact ⟨q, hspeak hspeaks, ⟨fun _ => hmem, fun _ => hq⟩, hphase⟩

theorem inPhase_put {k : UInt32} {stream' : Stream} {p : Phase} (hheld : e.streams.lookup k = some stream)
    (hstate : stream'.state = stream.state) (h : InPhase e.nextLocalId s p (e.streams.lookup s)) :
    InPhase e.nextLocalId s p ((e.put k stream').streams.lookup s) := by
  rw [put_lookup]
  split_ifs with hks
  · rw [← hks, hheld] at h
    exact h.trans (phase_eq_of_state hstate).symm
  · exact h

theorem Tidy.gone {p : Phase} (htidy : e.Tidy) (hs : opener s = e.role) (hheld : e.streams.lookup s = some stream) :
    InPhase e.nextLocalId s p none := by
  intro hle
  have hlt := htidy.below s stream hheld hs
  rw [UInt32.le_iff_toNat_le] at hle
  omega

theorem opened_spoken (hid : e.nextLocalId.toNat + 2 < 2 ^ 32) (h : Spoken s e ids ts)
    (hnew : e.streams.lookup e.nextLocalId = none) :
    Spoken s e.opened (ids ++ [e.nextLocalId]) (ts ++ said s [openFrame e.nextLocalId]) := by
  obtain ⟨p, hspeaks, hids, hp⟩ := h
  have hlook : e.opened.streams.lookup s = _ := put_lookup (e := e) e.nextLocalId (Stream.new e.nextLocalId)
  by_cases hks : e.nextLocalId = s
  · subst hks
    rw [hnew] at hp
    obtain rfl := hp (UInt32.le_refl _)
    cases hspeaks
    refine ⟨.talking, ?_, by simp, ?_⟩
    · rw [said_one (f := openFrame e.nextLocalId) (s := e.nextLocalId) rfl rfl]
      exact .opens
    · rw [hlook, if_pos rfl]
      rfl
  · refine ⟨p, ?_, ?_, ?_⟩
    · rw [said_other (by simpa using fun _ => hks), List.append_nil]
      exact hspeaks
    · rw [hids]
      simp [Ne.symm hks]
    · rw [hlook, if_neg hks]
      cases hheld : e.streams.lookup s with
      | none =>
        rw [hheld] at hp
        exact fun hle => hp (UInt32.le_trans (UInt32.le_of_lt (lt_add_two hid)) hle)
      | some stream => rwa [hheld] at hp

theorem onLocalClose_phase (hopen : stream.state ≠ .HalfClosedLocal) (hclosed : ¬ stream.state.isClosed)
    (hnow : stream.onLocalClose.state ≠ .Closed) : stream.onLocalClose.phase = .closing := by
  unfold Stream.phase
  rw [if_pos]
  revert hopen hclosed hnow
  unfold Stream.onLocalClose
  cases stream.state <;> simp [StreamState.isClosed]

theorem Acts.spoken (h : e.Acts c reply outs e') (htidy : e.Tidy) (hs : opener s = e.role)
    (hnew : e.streams.lookup e.nextLocalId = none)
    (honce : ∀ stream, c = .closeStream s → e.streams.lookup s = some stream → stream.state ≠ .HalfClosedLocal)
    (hspoken : Spoken s e ids ts) :
    Spoken s e' (ids ++ (Event.called c reply).opened?.toList) (ts ++ said s outs) := by
  have hother : ∀ {f : Frame} {k : UInt32}, f.header.streamId = k → k ≠ s → said s [f] = [] := by
    intro f k hid hks
    exact said_other (by simpa [hid] using fun _ => hks)
  cases h with
  | failed => exact spoken_quiet hspoken rfl opened?_error fun _ hp => hp
  | hello | waits | ready | nothing | empty | pinged | flushed =>
    exact spoken_quiet hspoken rfl rfl fun _ hp => hp
  | opened _ hid => exact opened_spoken hid hspoken hnew
  | @sent k payload stream _ _ _ hheld hcan _ =>
    have hput : ∀ p, InPhase e.nextLocalId s p (e.streams.lookup s) → InPhase e.nextLocalId s p
        ((e.put k (stream.consumeSendWindow payload.length)).streams.lookup s) := fun p => inPhase_put hheld rfl
    by_cases hks : k = s
    · subst hks
      have htalking : stream.phase = .talking := by
        unfold Stream.phase
        rw [if_neg]
        intro hstate
        rw [hstate] at hcan
        cases hcan
      refine spoken_says (q := .talking) hspoken hheld rfl rfl rfl (fun h => ?_) (by decide) (hput _ ?_)
      · rw [htalking] at h
        exact h.talks (.inl rfl)
      · rw [hheld]
        exact htalking.symm
    · exact spoken_quiet hspoken (hother rfl hks) rfl hput
  | overflowed _ hheld => exact spoken_quiet hspoken rfl rfl fun p => inPhase_put hheld rfl
  | @closed k stream _ hheld hclosed =>
    have hlook := FrameLink.afterClose_lookup (s := s) e k stream
    have hnext := (afterClose_same e k stream).2.2
    by_cases hks : k = s
    · subst hks
      have hopen := honce stream rfl hheld
      refine spoken_says (q := .closing) hspoken hheld rfl rfl rfl (fun h => ?_) (by decide) ?_
      · rw [Stream.phase, if_neg hopen] at h
        exact h.closes
      · rw [hlook, if_pos rfl, hnext, Stream.afterLocalClose]
        split_ifs with hnow
        · exact htidy.gone hs hheld
        · exact (onLocalClose_phase hopen hclosed hnow).symm
    · refine spoken_quiet hspoken (hother rfl hks) rfl fun p hp => ?_
      rwa [hlook, if_neg hks, hnext]
  | @reset k stream _ hheld =>
    by_cases hks : k = s
    · subst hks
      refine spoken_says (q := .finished) hspoken hheld rfl rfl rfl (fun h => h.resets stream.phase_mem) (by decide) ?_
      rw [drop_lookup, if_pos rfl]
      exact htidy.gone hs hheld
    · refine spoken_quiet hspoken (hother rfl hks) rfl fun p hp => ?_
      rwa [drop_lookup, if_neg hks]
  | @took k stream rest payload _ hheld hpop =>
    have hstate : rest.state = stream.state := by rw [(Stream.popRecv_some hpop).2]
    have hput : ∀ p, InPhase e.nextLocalId s p (e.streams.lookup s) → InPhase e.nextLocalId s p
        ((e.put k rest).streams.lookup s) := fun p => inPhase_put hheld hstate
    unfold credit
    split_ifs
    · by_cases hks : k = s
      · subst hks
        refine spoken_says (q := stream.phase) hspoken hheld rfl rfl rfl (fun h => ?_) ?_ (hput _ ?_)
        · rcases stream.phase_mem with hp | hp
          · rw [hp] at h ⊢
            exact h.talks (.inr rfl)
          · rw [hp] at h ⊢
            exact h.credits
        · rcases stream.phase_mem with hp | hp <;> rw [hp] <;> decide
        · rw [hheld]
          rfl
      · exact spoken_quiet hspoken (hother rfl hks) rfl hput
    · exact spoken_quiet hspoken rfl rfl hput

theorem Receives.spoken {f : Frame} {r : Except TransportError Unit} (h : e.Receives f r outs e') (hf : f.Valid)
    (htidy : e.Tidy) (hs : opener s = e.role) (hspoken : Spoken s e ids ts) :
    Spoken s e' (ids ++ (Event.received (some (r.map fun _ => f))).opened?.toList) (ts ++ said s outs) := by
  have hat := h.affects s
  have hpeer : ¬ (Event.received (some (r.map fun _ => f))).opens s := by
    intro hopens
    have hp := (Step.frame hf h).opened hopens
    exact Role.peer_ne e.role (hp.1.symm.trans hs)
  have hnext : e'.nextLocalId = e.nextLocalId := h.steady.counter
  generalize hgen : Event.received (some (r.map fun _ => f)) = ev at hat hpeer
  have hev : ev.opened? = none := hgen ▸ rfl
  generalize hheld : e.streams.lookup s = held at hat
  generalize hheld' : e'.streams.lookup s = held' at hat
  have hquiet : said s outs = [] →
      (∀ p, InPhase e.nextLocalId s p held → InPhase e.nextLocalId s p held') →
      Spoken s e' (ids ++ ev.opened?.toList) (ts ++ said s outs) := by
    intro hsaid hphase
    refine spoken_quiet hspoken hsaid hev fun p hp => ?_
    rw [hnext, hheld']
    exact hphase p (hheld ▸ hp)
  cases hat with
  | untouched _ _ houts => exact hquiet (said_other houts) fun p hp => hp
  | openedBy hf hid => exact absurd (by simp [Event.opens, hf, hid]) hpeer
  | arrived | credited => exact hquiet rfl fun p hp => hp
  | @closedBy stream =>
    refine hquiet rfl fun p hp => ?_
    unfold Stream.afterRemoteClose
    split_ifs with hclosed
    · exact htidy.gone hs hheld
    · refine hp.trans ?_
      revert hclosed
      unfold Stream.onRemoteClose Stream.phase
      cases stream.state <;> simp
  | resetBy =>
    refine hquiet rfl fun p hp => ?_
    cases held with
    | none => exact hp
    | some stream => exact htidy.gone hs hheld
  | opened | sent | took | closed | reset => cases hgen

end Endpoint

namespace StreamManager

variable {role : Role} {ls : List Event} {m m' : StreamManager} {ev : Event} {s : UInt32}

/-- `close_stream` is called on a stream that this end opened and has closed already. -/
def Recloses (m : StreamManager) : Event → Bool
  | .called (.closeStream s) _ =>
    match m.streams.lookup s with
    | none => false
    | some stream => opener s = m.role && stream.state = .HalfClosedLocal
  | _ => false

/-- A step that closes no stream of this end a second time. -/
def OnceStep (m : StreamManager) (ev : Event) (m' : StreamManager) : Prop := m.Step ev m' ∧ ¬ m.Recloses ev

theorem spoken_step (hrun : Run Step (fresh role) ls m) (hstep : m.Step ev m') (honce : ¬ m.Recloses ev)
    (hs : opener s = role) (h : Spoken s m.endpoint (openedIds ls) (said s m.emitted)) :
    Spoken s m'.endpoint (openedIds (ls ++ [ev])) (said s m'.emitted) := by
  have htidy := tidy_of_run hrun
  have hnumbered := numbered_of_run (run_overFaults hrun)
  have hs' : opener s = m.endpoint.role := hs.trans hnumbered.role_eq.symm
  obtain ⟨-, outs, hend, hemit⟩ := (sound_of_run hrun).step hstep
  rw [hemit, said_append, openedIds_snoc]
  generalize m'.endpoint = e' at hend
  cases hend with
  | noFrame => exact Endpoint.spoken_quiet h rfl rfl fun _ hp => hp
  | frame hf hrec => exact hrec.spoken hf htidy hs' h
  | call hacts =>
    refine hacts.spoken htidy hs' hnumbered.unheld (fun stream hc hheld hstate => honce ?_) h
    subst hc
    have hheld' : m.streams.lookup s = some stream := hheld
    simp [Recloses, hheld', hstate, show opener s = m.role from hs']

theorem spoken_of_run (h : Run OnceStep (fresh role) ls m) (hs : opener s = role) :
    Spoken s m.endpoint (openedIds ls) (said s m.emitted) := by
  induction h with
  | nil =>
    rw [fresh_emitted]
    exact ⟨.unopened, .unopened, by simp [openedIds], fun _ => rfl⟩
  | snoc hrun hstep ih => exact spoken_step (hrun.mono fun _ _ _ hs => hs.1) hstep.1 hstep.2 hs ih

theorem opener_of_opened (h : Run Step (fresh role) ls m) (hs : s ∈ openedIds ls) : opener s = role :=
  opener_eq_iff.mpr ((openedIds_of_run (run_overFaults h)).2 s hs).1.1

theorem recloses_says (hrun : Run Step (fresh role) ls m) (hstep : m.Step ev m') (hev : m.Recloses ev) :
    ∃ s stream, opener s = role ∧ m.streams.lookup s = some stream ∧ stream.phase = .closing ∧
      said s m'.emitted = said s m.emitted ++ [.Close] := by
  unfold Recloses at hev
  split at hev
  next s reply =>
    split at hev
    · cases hev
    next stream hheld =>
      simp only [Bool.and_eq_true, decide_eq_true_eq] at hev
      obtain ⟨hs, hstate⟩ := hev
      have hrole : m.role = role := (progress_of_run hrun).role_eq
      refine ⟨s, stream, hs.trans hrole, hheld, by rw [Stream.phase, if_pos hstate], ?_⟩
      cases hstep with
      | call =>
        have hsound := sound_of_run hrun
        obtain ⟨c, heq, hsends⟩ := closeStream_ok hsound.settled (established_of_lookup hrun hheld) hheld
          (by simp [hstate, StreamState.isClosed])
        have hemit : (m.perform (.closeStream s)).2.emitted = m.emitted ++ [closeFrame s] := by
          refine (hsound.sends (by simpa using closeFrame_valid s) ?_).2
          simp only [perform, heq, Outcome.map]
          simpa using hsends
        rw [hemit, said_append, said_one (s := s) (f := closeFrame s) rfl rfl]
        rfl
  · cases hev

/-- While no stream that this end opened is closed twice here, what is said on it follows the
grammar; and the first second close breaks it. -/
theorem emitted_grammar (h : Run OnceStep (fresh role) ls m) :
    (∀ s ∈ openedIds ls, Utterance (said s m.emitted)) ∧ ∀ ev m', m.Step ev m' →
      ((∀ s ∈ openedIds (ls ++ [ev]), Utterance (said s m'.emitted)) ↔ ¬ m.Recloses ev) := by
  have hrun : Run Step (fresh role) ls m := h.mono fun _ _ _ hs => hs.1
  refine ⟨fun s hs => ?_, fun ev m' hstep => ⟨fun hall hev => ?_, fun honce s hs => ?_⟩⟩
  · obtain ⟨p, hspeaks, hids, -⟩ := spoken_of_run h (opener_of_opened hrun hs)
    exact hspeaks.utterance (hids.mpr hs)
  · obtain ⟨s, stream, hs, hheld, hphase, hsaid⟩ := recloses_says hrun hstep hev
    obtain ⟨p, hspeaks, hids, hp⟩ := spoken_of_run h hs
    rw [show m.endpoint.streams.lookup s = some stream from hheld] at hp
    obtain rfl : p = .closing := hp.trans hphase
    have hmem : s ∈ openedIds (ls ++ [ev]) := by
      rw [openedIds_snoc]
      exact List.mem_append_left _ (hids.mp (by decide))
    have htwice := (hall s hmem).count_close
    have hfirst := hspeaks.count_close
    rw [hsaid, List.count_append] at htwice
    simp only [List.count_singleton_self] at htwice
    omega
  · have hs' := opener_of_opened (hrun.snoc hstep) hs
    obtain ⟨p, hspeaks, hids, -⟩ := spoken_step hrun hstep honce hs' (spoken_of_run h hs')
    exact hspeaks.utterance (hids.mpr hs)

theorem openingTwo_once : Run OnceStep (fresh .Initiator) ((fresh .Initiator).play openingTwo).1
    ((fresh .Initiator).play openingTwo).2 := avoids_run Recloses (by decide +kernel)

theorem emitted_grammar_two : Utterance (said 3 ((fresh .Initiator).play openingTwo).2.emitted) :=
  (emitted_grammar openingTwo_once).1 3 (by decide +kernel)

/-- The initiator opens a stream and closes it twice. -/
def closingTwice : List Act :=
  [.call .startHandshake, .frame welcomeFrame, .call .openStream, .call (.closeStream 1), .call (.closeStream 1)]

theorem emitted_twice : ¬ ∀ role ls m, Run Step (fresh role) ls m →
    ∀ s ∈ openedIds ls, Utterance (said s m.emitted) := by
  intro h
  have hrun : Run Step (fresh .Initiator) _ ((fresh .Initiator).play closingTwice).2 :=
    played_run (by decide +kernel)
  have hcount := (h _ _ _ hrun 1 (by decide +kernel)).count_close
  revert hcount
  decide +kernel

end StreamManager

end TrenchDb.Transport
