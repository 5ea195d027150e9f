import TrenchDb.Transport.Ids

/-!
# The credit of a stream

How many payload bytes a manager emits on a stream, against the credit that its peer gave.
Beside the manager stands an account of one stream id.
-/

open TrenchDb.Lib.BigEndian TrenchDb.Lib.Lts

namespace TrenchDb.Transport

/-! ## What is counted -/

/-- The payload bytes of the `Data` frames on `s`. -/
def dataBytes (s : UInt32) (fs : List Frame) : Nat :=
  (fs.map fun f => if f.header.frameType = .Data ∧ f.header.streamId = s then f.payload.length else 0).sum

/-- The increment of a `Window` frame on `s` that `recv_frame` accepted. -/
def Event.increment (s : UInt32) : Event → Nat
  | .received (some (.ok f)) =>
    if f.header.frameType = .Window ∧ f.header.streamId = s then (UInt32.ofNat (ofBE f.payload)).toNat else 0
  | _ => 0

theorem dataBytes_eq_zero {s : UInt32} {fs : List Frame}
    (h : ∀ f ∈ fs, f.header.frameType = .Data → f.header.streamId ≠ s) : dataBytes s fs = 0 := by
  unfold dataBytes
  rw [List.sum_eq_zero_iff_forall_eq_nat]
  intro n hn
  obtain ⟨f, hf, rfl⟩ := List.mem_map.mp hn
  exact if_neg fun hboth => h f hf hboth.1 hboth.2

theorem increment_eq_zero {s : UInt32} {ev : Event} (h : ev.hears s = false) : ev.increment s = 0 := by
  unfold Event.increment
  split
  next f =>
    refine if_neg fun hboth => ?_
    simp [Event.hears, hboth, Frametype.isStream] at h
  · rfl

/-! ## The account of one stream -/

/-- What was emitted and granted on a stream fits what is held of it. -/
def Covered (held : Option Stream) (sent granted : Nat) : Prop :=
  match held with
  | none => (sent : Int) ≤ DEFAULT_WINDOW + granted
  | some stream =>
    sent + stream.sendWindow ≤ DEFAULT_WINDOW + granted ∧ 0 ≤ stream.sendWindow ∧ stream.sendWindow ≤ I64_MAX

theorem covered_new (s : UInt32) : Covered (some (Stream.new s)) 0 0 := by
  refine ⟨?_, ?_, ?_⟩ <;> simp [Stream.new, DEFAULT_WINDOW, I64_MAX]

theorem Covered.total {held : Option Stream} {sent granted : Nat} (h : Covered held sent granted) :
    (sent : Int) ≤ DEFAULT_WINDOW + granted := by
  cases held with
  | none => exact h
  | some stream =>
    obtain ⟨htotal, hnonneg, -⟩ := h
    omega

theorem Covered.keeps {q : Stream} {held : Option Stream} {sent granted : Nat} (h : Covered (some q) sent granted)
    (hheld : ∀ stream, held = some stream → stream.sendWindow = q.sendWindow) : Covered held sent granted := by
  cases held with
  | none => exact h.total
  | some stream =>
    obtain ⟨htotal, hnonneg, hle⟩ := h
    have hsame := hheld stream rfl
    exact ⟨by omega, by omega, by omega⟩

theorem Covered.said {q : Stream} {held : Option Stream} {sent granted : Nat} {s : UInt32} {outs : List Frame}
    {g : Frame} (h : Covered (some q) sent granted) (houts : outs = [] ∨ outs = [g]) (hg : g.header.frameType ≠ .Data)
    (hheld : ∀ stream, held = some stream → stream.sendWindow = q.sendWindow) :
    Covered held (sent + dataBytes s outs) granted := by
  have hbytes : dataBytes s outs = 0 := by
    refine dataBytes_eq_zero fun f hf ht => ?_
    rcases houts with rfl | rfl
    · simp at hf
    · exact absurd (List.mem_singleton.mp hf ▸ ht) hg
  rw [hbytes]
  exact h.keeps hheld

theorem Affects.covered {next s : UInt32} {held held' : Option Stream} {ev : Event} {outs : List Frame}
    {sent granted : Nat} (h : Affects next s held ev outs held') (hcov : Covered held sent granted)
    (hold : ¬ (held = none ∧ held' ≠ none)) :
    Covered held' (sent + dataBytes s outs) (granted + ev.increment s) := by
  cases h with
  | untouched _ hev houts =>
    rw [dataBytes_eq_zero fun f hf ht => houts f hf (by rw [ht]; rfl), increment_eq_zero hev]
    exact hcov
  | opened | openedBy => exact absurd ⟨rfl, by simp⟩ hold
  | @sent stream payload _ _ hwin houts =>
    have hbytes : dataBytes s outs ≤ payload.length := by
      rcases houts with rfl | rfl <;> simp [dataBytes]
    obtain ⟨htotal, hnonneg, hle⟩ := hcov
    unfold Covered
    simp only [Stream.sendWindow_consume hwin, Event.increment]
    omega
  | @arrived stream f hf =>
    refine Covered.keeps (q := stream) ?_ fun _ heq => ?_
    · simpa [dataBytes, Event.increment, hf] using hcov
    · obtain rfl := Option.some.inj heq
      rfl
  | @credited stream f hf hid =>
    obtain ⟨htotal, hnonneg, hle⟩ := hcov
    unfold Covered
    simp only [Stream.applyWindowIncrement, dataBytes, Event.increment, hf, hid, and_self, if_true, List.map_nil,
      List.sum_nil, I64_MAX]
    omega
  | took hpop houts =>
    refine hcov.said houts nofun fun _ heq => ?_
    obtain rfl := Option.some.inj heq
    rw [(Stream.popRecv_some hpop).2]
  | closed houts hheld =>
    refine hcov.said houts nofun fun _ heq => ?_
    rcases hheld with rfl | rfl
    · cases heq
    · obtain rfl := Option.some.inj heq
      rfl
  | @closedBy stream f hf =>
    refine Covered.keeps (q := stream) ?_ fun _ heq => ?_
    · simpa [dataBytes, Event.increment, hf] using hcov
    · exact (Stream.afterRemoteClose_some heq).1
  | reset houts hheld =>
    refine hcov.said houts nofun fun _ heq => ?_
    rcases hheld with rfl | rfl
    · cases heq
    · obtain rfl := Option.some.inj heq
      rfl
  | @resetBy _ f hf =>
    have htotal := hcov.total
    simpa [Covered, dataBytes, Event.increment, hf] using htotal

theorem Affects.entered {next s : UInt32} {ev : Event} {outs : List Frame} {stream : Stream}
    (h : Affects next s none ev outs (some stream)) : stream = Stream.new s := by
  cases h with
  | opened | openedBy => rfl

/-! ## Runs with an account -/

/-- A manager, with the `Data` bytes emitted on one stream and the increments accepted for it,
both since the stream last entered the map. -/
structure Audit where
  manager : StreamManager
  sent : Nat
  granted : Nat

namespace Audit

variable {faults : List (Option WriteFault)} {role : Role} {s : UInt32} {ls : List Event} {a : Audit}

def start (faults : List (Option WriteFault)) (role : Role) : Audit := ⟨.overFaults faults role, 0, 0⟩

/-- The account after a step to `m'`. -/
def after (s : UInt32) (a : Audit) (ev : Event) (m' : StreamManager) : Audit :=
  if s ∉ a.manager.streams ∧ s ∈ m'.streams then
    ⟨m', 0, 0⟩
  else
    ⟨m', a.sent + dataBytes s (a.manager.emits m'), a.granted + ev.increment s⟩

inductive Step (s : UInt32) (a : Audit) : Event → Audit → Prop
  | step {ev : Event} {m' : StreamManager} : a.manager.Step ev m' → Step s a ev (a.after s ev m')

theorem after_manager (s : UInt32) (a : Audit) (ev : Event) (m' : StreamManager) :
    (a.after s ev m').manager = m' := by
  unfold after
  split_ifs <;> rfl

theorem audited_of_run {m : StreamManager} (h : Run StreamManager.Step (.overFaults faults role) ls m) (s : UInt32) :
    ∃ a, Run (Step s) (start faults role) ls a ∧ a.manager = m := by
  induction h with
  | nil => exact ⟨_, .nil, rfl⟩
  | snoc _ hstep ih =>
    obtain ⟨a, hrun, rfl⟩ := ih
    exact ⟨_, hrun.snoc (.step hstep), after_manager _ _ _ _⟩

theorem run_of_audited (h : Run (Step s) (start faults role) ls a) :
    Run StreamManager.Step (.overFaults faults role) ls a.manager := by
  induction h with
  | nil => exact .nil
  | snoc _ hstep ih =>
    cases hstep with
    | step hstep =>
      rw [after_manager]
      exact ih.snoc hstep

theorem covered_after (h : Covered (a.manager.streams.lookup s) a.sent a.granted) {next : UInt32} {ev : Event}
    {m' : StreamManager}
    (hat : Affects next s (a.manager.streams.lookup s) ev (a.manager.emits m') (m'.streams.lookup s)) :
    Covered (m'.streams.lookup s) (a.after s ev m').sent (a.after s ev m').granted := by
  unfold after
  split_ifs with hnew
  · obtain ⟨hnone, hsome⟩ := hnew
    obtain ⟨stream, hlook⟩ := Finmap.mem_iff.mp hsome
    rw [Finmap.lookup_eq_none.mpr hnone, hlook] at hat
    rw [hlook, hat.entered]
    exact covered_new s
  · refine hat.covered h ?_
    rwa [Finmap.lookup_eq_none, ← Option.isSome_iff_ne_none, Finmap.lookup_isSome]

theorem covered_of_run (h : Run (Step s) (start faults role) ls a) :
    Covered (a.manager.streams.lookup s) a.sent a.granted := by
  induction h with
  | nil => simp [start, Covered, StreamManager.overFaults, StreamManager.new, DEFAULT_WINDOW]
  | snoc hrun hstep ih =>
    cases hstep with
    | step hstep =>
      have hat := StreamManager.affects_of_run (run_of_audited hrun) hstep s
      rw [after_manager]
      exact covered_after ih hat

/-- Since a stream entered the map, the manager has emitted no more on it than the default window
and the increments accepted for it, and its send window stays in range. -/
theorem credit_respected (h : Run (Step s) (start faults role) ls a) :
    (a.sent : Int) ≤ DEFAULT_WINDOW + a.granted ∧
      ∀ stream, a.manager.streams.lookup s = some stream → 0 ≤ stream.sendWindow ∧ stream.sendWindow ≤ I64_MAX := by
  have hcov := covered_of_run h
  refine ⟨hcov.total, fun stream hlook => ?_⟩
  rw [hlook] at hcov
  exact hcov.2

def act (s : UInt32) (a : Audit) (x : StreamManager.Act) : Event × Audit :=
  ((a.manager.act x).1, a.after s (a.manager.act x).1 (a.manager.act x).2)

/-- The initiator opens stream 1 and sends on it, and the peer gives credit. -/
def sending : List StreamManager.Act :=
  [.call .startHandshake, .frame welcomeFrame, .call .openStream, .call (.sendData 1 [7, 8, 9]),
    .frame (windowFrame 1 2)]

theorem sending_run : Run (Step 1) (start [] .Initiator) (script (act 1) (start [] .Initiator) sending).1
    (script (act 1) (start [] .Initiator) sending).2 :=
  @run_script _ _ (Step 1) _ _ _ (fun a x => a.manager.fits x) (fun _ _ h => .step (StreamManager.act_step h)) _
    (by decide +kernel)

theorem credit_respected_sending :
    let a := (script (act 1) (start [] .Initiator) sending).2
    a.sent = 3 ∧ a.granted = 2 ∧ (a.sent : Int) ≤ DEFAULT_WINDOW + a.granted :=
  ⟨by decide +kernel, by decide +kernel, (credit_respected sending_run).1⟩

end Audit

end TrenchDb.Transport
