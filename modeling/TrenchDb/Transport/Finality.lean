import TrenchDb.Transport.Ids
import TrenchDb.Transport.Invariant

/-!
# The final frame of a stream

When a manager rejects the `Data` frames that come after a `FIN`, against any peer.
-/

open TrenchDb.Lib.Lts

namespace TrenchDb.Transport

/-- `is_fin`. -/
def Header.isFin (h : Header) : Bool := h.flags &&& FLAG_FIN != 0

/-- A `Data` or `Close` frame on `s` with `FLAG_FIN` that `recv_frame` accepted. -/
def Event.finishes (s : UInt32) : Event → Bool
  | .received (some (.ok f)) =>
    f.header.frameType ∈ [.Data, .Close] ∧ f.header.isFin ∧ f.header.streamId = s
  | _ => false

/-- A `FIN` was accepted on `s`. -/
def finished (s : UInt32) (ls : List Event) : Bool := ls.any (Event.finishes s)

/-- After the events `ls`, a `Data` frame with `FLAG_FIN` is accepted, or an `Open` for an id on
which a `FIN` was accepted. -/
def Event.unfinishes (ls : List Event) : Event → Bool
  | .received (some (.ok f)) =>
    f.header.frameType = .Data ∧ f.header.isFin ∨
      f.header.frameType = .Open ∧ finished f.header.streamId ls
  | _ => false

/-- No event unfinishes what came before it. -/
def Orderly (ls : List Event) : Prop := ∀ (n : Nat) (h : n < ls.length), ¬ ls[n].unfinishes (ls.take n)

/-- The stream, if there is one, cannot receive. -/
def Shut (held : Option Stream) : Prop := ∀ stream, held = some stream → ¬ stream.state.canReceive

theorem finished_snoc {s : UInt32} {ls : List Event} {ev : Event} :
    finished s (ls ++ [ev]) ↔ finished s ls ∨ ev.finishes s := by
  simp [finished]

theorem Orderly.init {ls : List Event} {ev : Event} (h : Orderly (ls ++ [ev])) :
    Orderly ls ∧ ¬ ev.unfinishes ls := by
  refine ⟨fun n hn => ?_, ?_⟩
  · have hlt : n < (ls ++ [ev]).length := by
      rw [List.length_append]
      omega
    have hbefore := h n hlt
    rwa [List.take_append_of_le_length (Nat.le_of_lt hn), List.getElem_append_left hn] at hbefore
  · have hlast := h ls.length (by simp)
    rwa [List.take_left, List.getElem_concat_length rfl] at hlast

theorem Orderly.snoc {ls : List Event} {ev : Event} (h : Orderly ls) (hev : ¬ ev.unfinishes ls) :
    Orderly (ls ++ [ev]) := by
  intro n hn
  rw [List.length_append, List.length_singleton] at hn
  rcases Nat.lt_succ_iff_lt_or_eq.mp hn with hlt | rfl
  · rw [List.take_append_of_le_length (Nat.le_of_lt hlt), List.getElem_append_left hlt]
    exact h n hlt
  · rw [List.take_left, List.getElem_concat_length rfl]
    exact hev

theorem hears_of_finishes {s : UInt32} {ev : Event} (h : ev.finishes s) : ev.hears s := by
  unfold Event.finishes at h
  split at h
  next f =>
    simp only [List.mem_cons, List.not_mem_nil, or_false, decide_eq_true_eq] at h
    obtain ⟨hf | hf, -, hid⟩ := h
    · simp [Event.hears, hf, hid, Frametype.isStream]
    · simp [Event.hears, hf, hid, Frametype.isStream]
  · cases h

/-! ## One stream -/

namespace Affects

variable {next s : UInt32} {held held' : Option Stream} {ev : Event} {outs : List Frame}

theorem stays_shut (h : Affects next s held ev outs held') (hshut : Shut held) (hs : s ≠ next)
    (hopens : ¬ ev.opens s) : Shut held' := by
  intro stream' heq
  cases h with
  | untouched => exact hshut stream' heq
  | opened hnext => exact absurd hnext hs
  | openedBy hf hid => exact absurd (by simp [Event.opens, hf, hid]) hopens
  | @sent stream | @credited stream =>
    obtain rfl := Option.some.inj heq
    exact hshut stream rfl
  | arrived _ _ hcan => exact absurd hcan (hshut _ rfl)
  | @took stream _ _ _ _ hpop =>
    obtain rfl := Option.some.inj heq
    rw [(Stream.popRecv_some hpop).2]
    exact hshut stream rfl
  | @closed stream _ _ _ _ hheld =>
    have hstate := hshut stream rfl
    obtain rfl | rfl := hheld
    · cases heq
    · obtain rfl := Option.some.inj heq
      revert hstate
      unfold Stream.onLocalClose
      cases stream.state <;> simp [StreamState.canReceive]
  | closedBy =>
    obtain ⟨-, -, -, hshut', -⟩ := Stream.afterRemoteClose_some heq
    exact hshut'
  | reset _ hheld =>
    obtain rfl | rfl := hheld
    · cases heq
    · obtain rfl := Option.some.inj heq
      simp [Stream.onReset, StreamState.canReceive]
  | resetBy => cases heq

theorem finishes (h : Affects next s held ev outs held') (hfin : ev.finishes s) :
    held ≠ none ∧
      ((∃ f, ev = .received (some (.ok f)) ∧ f.header.frameType = .Data ∧ f.header.isFin) ∨ Shut held') := by
  cases h with
  | untouched _ hev => exact absurd (hears_of_finishes hfin) (by simp [hev])
  | opened | sent | took | closed | reset => cases hfin
  | openedBy hf => simp [Event.finishes, hf] at hfin
  | credited hf => simp [Event.finishes, hf] at hfin
  | resetBy _ hf => simp [Event.finishes, hf] at hfin
  | @arrived stream f hf hid hcan =>
    simp only [Event.finishes, decide_eq_true_eq] at hfin
    exact ⟨by simp, .inl ⟨f, rfl, hf, hfin.2.1⟩⟩
  | @closedBy stream f hf hid =>
    refine ⟨by simp, .inr fun stream' heq => ?_⟩
    obtain ⟨-, -, -, hshut, -⟩ := Stream.afterRemoteClose_some heq
    exact hshut

theorem receives {f : Frame} (h : Affects next f.header.streamId held (.received (some (.ok f))) outs held')
    (hf : f.header.frameType = .Open ∨ f.header.frameType = .Data) : ¬ Shut held' := by
  have hstream : f.header.frameType.isStream := by rcases hf with hf | hf <;> rw [hf] <;> rfl
  intro hshut
  cases h with
  | untouched _ hev => simp [Event.hears, hstream] at hev
  | openedBy => exact hshut _ rfl rfl
  | arrived _ _ hcan => exact hshut _ rfl hcan
  | credited hf' | closedBy hf' | resetBy _ hf' => rcases hf with hf | hf <;> rw [hf] at hf' <;> cases hf'

end Affects

/-! ## Runs -/

namespace StreamManager

variable {faults : List (Option WriteFault)} {role : Role} {ls : List Event} {m m' : StreamManager} {ev : Event}
  {s : UInt32}

/-- A final `Data` frame that passes the checks, or an `Open` that does, for an id on which a `FIN` was accepted
among the events `ls`. -/
def Unfinishes (m : StreamManager) (ls : List Event) (f : Frame) : Prop :=
  m.TakesData f ∧ f.header.isFin ∨ m.TakesOpen f ∧ finished f.header.streamId ls

theorem unfinishes_iff (hstep : m.Step ev m') :
    (∀ f, m.Arrives f ev m' → ¬ m.Unfinishes ls f) ↔ ¬ ev.unfinishes ls := by
  rw [← not_exists_not]
  simp only [Classical.not_imp, not_not]
  refine not_congr ⟨?_, fun hev => ?_⟩
  · rintro ⟨f, harrives, ⟨htakes, hfin⟩ | ⟨htakes, hfin⟩⟩
    · rw [(takesData_iff hstep htakes.type).mpr ⟨harrives, htakes⟩]
      exact decide_eq_true (.inl ⟨htakes.type, hfin⟩)
    · rw [(takesOpen_iff hstep htakes.type).mpr ⟨harrives, htakes⟩]
      exact decide_eq_true (.inr ⟨htakes.type, hfin⟩)
  · unfold Event.unfinishes at hev
    split at hev
    next f =>
      rcases of_decide_eq_true hev with ⟨hf, hfin⟩ | ⟨hf, hfin⟩
      · obtain ⟨harrives, htakes⟩ := (takesData_iff hstep hf).mp rfl
        exact ⟨f, harrives, .inl ⟨htakes, hfin⟩⟩
      · obtain ⟨harrives, htakes⟩ := (takesOpen_iff hstep hf).mp rfl
        exact ⟨f, harrives, .inr ⟨htakes, hfin⟩⟩
    · cases hev

/-- A run in which no frame arrives that unfinishes what came before it. -/
inductive OrderlyRun (m : StreamManager) : List Event → StreamManager → Prop
  | nil : OrderlyRun m [] m
  | snoc {ls : List Event} {ev : Event} {m₁ m₂ : StreamManager} : OrderlyRun m ls m₁ → m₁.Step ev m₂ →
      (∀ f, m₁.Arrives f ev m₂ → ¬ m₁.Unfinishes ls f) → OrderlyRun m (ls ++ [ev]) m₂

theorem OrderlyRun.run (h : OrderlyRun m ls m') : Run Step m ls m' := by
  induction h with
  | nil => exact .nil
  | snoc _ hstep _ ih => exact ih.snoc hstep

theorem orderlyRun_iff : OrderlyRun m ls m' ↔ Run Step m ls m' ∧ Orderly ls := by
  constructor
  · intro h
    refine ⟨h.run, ?_⟩
    induction h with
    | nil => exact fun n hn => absurd hn (Nat.not_lt_zero n)
    | snoc _ hstep hev ih => exact ih.snoc ((unfinishes_iff hstep).mp hev)
  · rintro ⟨hrun, ho⟩
    induction hrun with
    | nil => exact .nil
    | snoc _ hstep ih =>
      obtain ⟨ho, hev⟩ := ho.init
      exact .snoc (ih ho) hstep ((unfinishes_iff hstep).mpr hev)

/-- Every `Data` frame on `s` that arrives is rejected. -/
def Rejects (m : StreamManager) (s : UInt32) : Prop :=
  ∀ conn f, f.header.frameType = .Data → f.header.streamId = s →
    ∃ err, ({ m with conn }.dispatch f).1 = .error err

theorem rejects_of_shut (h : Shut (m.streams.lookup s)) : m.Rejects s := by
  rintro conn f hf rfl
  unfold dispatch
  split_ifs
  · simp only [dispatchHandshake, hf]
    exact ⟨_, rfl⟩
  · simp only [dispatchEstablished, hf, withStreams, handleData]
    split
    · exact ⟨_, rfl⟩
    next stream hlook =>
      rw [if_pos (h stream hlook)]
      exact ⟨_, rfl⟩

theorem shut_of_rejects (hest : m.handshakeState = .Established) (h : m.Rejects s) : Shut (m.streams.lookup s) := by
  intro stream hlook hcan
  obtain ⟨err, herr⟩ := h m.conn (dataFrame s []) rfl rfl
  rw [show ({ m with conn := m.conn } : StreamManager) = m from rfl, dispatch_data stream hest hlook hcan] at herr
  cases herr

/-- What holds of the ids on which a `FIN` was accepted. -/
structure Ended (role : Role) (m : StreamManager) (s : UInt32) : Prop where
  shut : Shut (m.streams.lookup s)
  below : opener s = role → s < m.nextLocalId

theorem nextLocalId_le (hstep : m.Step ev m') : m.nextLocalId ≤ m'.nextLocalId := by
  rcases hstep.tries.1.counter with ⟨⟨hnext, -⟩, -⟩ | ⟨-, hid, hopened, -⟩
  · rw [show m'.nextLocalId = m.nextLocalId from hnext]
    exact UInt32.le_refl _
  · rw [show m'.nextLocalId = m.nextLocalId + 2 from congrArg Endpoint.nextLocalId hopened]
    exact UInt32.le_of_lt (Endpoint.lt_add_two hid)

theorem established_of_hears {e e' : Endpoint} {outs : List Frame} (h : e.Tries ev outs e') (hev : ev.hears s) :
    e.handshakeState = .Established := by
  cases h with
  | step h =>
    cases h with
    | call => cases hev
    | noFrame err => cases err <;> cases hev
    | @frame f r _ _ _ hrec =>
      cases r with
      | error => cases hev
      | ok =>
        have hstream : f.header.frameType.isStream := by
          simp only [Except.map, Event.hears, Bool.and_eq_true] at hev
          exact hev.1
        generalize hr : (Except.ok () : Except TransportError Unit) = r at hrec
        cases hrec with
        | stream hest => exact hest
        | early | badHello | badWelcome | told | pongless => cases hr
        | helloed hf | welcomed hf | settings _ hf | pinged hf | ponged hf => rw [hf] at hstream; cases hstream
  | stuck | unanswered => cases hev

theorem Ended.step (h : Ended role m s) (hrun : Run Step (overFaults faults role) ls m) (hstep : m.Step ev m')
    (hopens : ¬ ev.opens s) : Ended role m' s := by
  have hne : s ≠ m.nextLocalId := by
    rintro rfl
    exact UInt32.lt_irrefl _ (h.below (opener_eq_iff.mpr (numbered_of_run hrun).owns.1))
  exact ⟨(affects_of_run hrun hstep s).stays_shut h.shut hne hopens,
    fun hrole => UInt32.lt_of_lt_of_le (h.below hrole) (nextLocalId_le hstep)⟩

theorem Ended.now (hrun : Run Step (overFaults faults role) ls m) (hstep : m.Step ev m') (hfin : ev.finishes s)
    (hdata : ¬ ev.unfinishes ls) : Ended role m' s := by
  obtain ⟨hheld, ⟨f, rfl, hf, hflag⟩ | hshut⟩ := (affects_of_run hrun hstep s).finishes hfin
  · exact absurd (by simp [Event.unfinishes, hf, hflag]) hdata
  · refine ⟨hshut, fun hrole => ?_⟩
    have hmem : s ∈ m.streams := by
      rw [← Finmap.lookup_isSome]
      exact Option.isSome_iff_ne_none.mpr hheld
    exact UInt32.lt_of_lt_of_le ((numbered_of_run hrun).below s hmem hrole) (nextLocalId_le hstep)

theorem ended_step (h : ∀ s, finished s ls → Ended role m s) (hrun : Run Step (overFaults faults role) ls m)
    (hstep : m.Step ev m') (hev : ¬ ev.unfinishes ls) (s : UInt32) (hfin : finished s (ls ++ [ev])) :
    Ended role m' s := by
  rcases finished_snoc.mp hfin with hearlier | hnow
  · refine (h s hearlier).step hrun hstep fun hopens => hev ?_
    unfold Event.opens at hopens
    split at hopens
    next f =>
      simp only [decide_eq_true_eq] at hopens
      obtain ⟨hf, rfl⟩ := hopens
      simp [Event.unfinishes, hf, hearlier]
    · cases hopens
  · exact .now hrun hstep hnow hev

theorem ended_of_run (h : Run Step (overFaults faults role) ls m) (ho : Orderly ls) (s : UInt32)
    (hfin : finished s ls) : Ended role m s := by
  induction h generalizing s with
  | nil => simp [finished] at hfin
  | snoc hrun hstep ih =>
    obtain ⟨ho, hev⟩ := ho.init
    exact ended_step (ih ho) hrun hstep hev s hfin

theorem unfinished (hrun : Run Step (overFaults faults role) ls m) (hstep : m.Step ev m') (hev : ev.unfinishes ls) :
    ∃ s, finished s (ls ++ [ev]) ∧ ¬ m'.Rejects s := by
  unfold Event.unfinishes at hev
  split at hev
  next f =>
    simp only [decide_eq_true_eq] at hev
    have hf : f.header.frameType = .Open ∨ f.header.frameType = .Data := by
      rcases hev with ⟨hf, -⟩ | ⟨hf, -⟩
      · exact .inr hf
      · exact .inl hf
    refine ⟨f.header.streamId, ?_, fun hrej => ?_⟩
    · rw [finished_snoc]
      rcases hev with ⟨hf, hflag⟩ | ⟨-, hfin⟩
      · exact .inr (by simp [Event.finishes, hf, hflag])
      · exact .inl hfin
    · obtain ⟨htries, -⟩ := hstep.tries
      have hstream : f.header.frameType.isStream := by rcases hf with hf | hf <;> rw [hf] <;> rfl
      have hest := htries.lasts.2
        (established_of_hears (s := f.header.streamId) htries (by simp [Event.hears, hstream]))
      exact (affects_of_run hrun hstep f.header.streamId).receives hf (shut_of_rejects hest hrej)
  · cases hev

/-- While no final `Data` frame arrives for a stream that can receive, and no `Open` of the peer for an id that had
a `FIN` and is free, every id that had a `FIN` rejects `Data`; and the first such frame breaks this. -/
theorem fin_is_final (h : OrderlyRun (overFaults faults role) ls m) :
    (∀ s, finished s ls → m.Rejects s) ∧ ∀ ev m', m.Step ev m' →
      ((∀ s, finished s (ls ++ [ev]) → m'.Rejects s) ↔ ∀ f, m.Arrives f ev m' → ¬ m.Unfinishes ls f) := by
  obtain ⟨h, ho⟩ := orderlyRun_iff.mp h
  have hended := ended_of_run h ho
  refine ⟨fun s hfin => rejects_of_shut (hended s hfin).shut, fun ev m' hstep => ?_⟩
  rw [unfinishes_iff hstep]
  refine ⟨fun hall hev => ?_, fun hev s hfin => ?_⟩
  · obtain ⟨s, hfin, hnot⟩ := unfinished h hstep hev
    exact hnot (hall s hfin)
  · exact rejects_of_shut (ended_step hended h hstep hev s hfin).shut

theorem unread_overFaults : Run Step (overFaults [] .Acceptor) ((fresh .Acceptor).play unread).1
    ((fresh .Acceptor).play unread).2 := unread_run.mono fun _ _ _ hs => hs.1

theorem fin_is_final_unread : ((fresh .Acceptor).play unread).2.Rejects 1 :=
  (fin_is_final (orderlyRun_iff.mpr ⟨unread_overFaults, by unfold Orderly; decide +kernel⟩)).1 1 (by decide +kernel)

/-- A peer opens stream 1 and sends a final payload. -/
def finalData : List Act :=
  [.frame helloFrame, .frame (openFrame 1), .frame (Frame.new .Data FLAG_FIN 1 [7])]

theorem fin_is_not_final : ¬ ∀ faults role ls m, Run Step (overFaults faults role) ls m →
    ∀ s, finished s ls → m.Rejects s := by
  intro h
  have hrun : Run Step (overFaults [] .Acceptor) _ ((fresh .Acceptor).play finalData).2 :=
    played_run (by decide +kernel)
  obtain ⟨err, herr⟩ := h [] .Acceptor _ _ hrun 1 (by decide +kernel) ((fresh .Acceptor).play finalData).2.conn
    (dataFrame 1 [8]) rfl rfl
  have hok : (((fresh .Acceptor).play finalData).2.dispatch (dataFrame 1 [8])).1 = .ok () := by decide +kernel
  rw [show ({ ((fresh .Acceptor).play finalData).2 with conn := ((fresh .Acceptor).play finalData).2.conn } :
    StreamManager) = ((fresh .Acceptor).play finalData).2 from rfl, hok] at herr
  cases herr

end StreamManager

end TrenchDb.Transport
