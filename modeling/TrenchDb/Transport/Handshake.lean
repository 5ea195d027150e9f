import TrenchDb.Transport.Conforming

/-!
# The handshake

What a manager has done by the time it is established, against any peer, and in which
order the two ends of a link get there.
-/

open TrenchDb.Lib.Lts

namespace TrenchDb.Transport

/-! ## One end -/

namespace Endpoint

variable {e e' : Endpoint} {c : Call} {reply : Reply} {outs : List Frame} {f : Frame}
  {r : Except TransportError Unit}

theorem Acts.streams_eq (h : e.Acts c reply outs e') (hs : e.handshakeState ≠ .Established) :
    e'.streams = e.streams := by
  cases h <;> first | rfl | exact absurd ‹_› hs

theorem Receives.handshake (h : e.Receives f r outs e') :
    e'.role = e.role ∧
    ((e'.handshakeState = e.handshakeState ∧ (e.handshakeState ≠ .Established → e'.streams = e.streams) ∧
        ∀ g ∈ outs, g.Quiet ∧ g.header.frameType.isStream = false) ∨
      (f.header.frameType = .Hello ∧ e.AcceptsHello f ∧ r = .ok () ∧ outs = [welcomeFrame] ∧
        e'.handshakeState = .Established) ∨
      (f.header.frameType = .Welcome ∧ e.AcceptsWelcome f ∧ r = .ok () ∧ outs = [] ∧
        e'.handshakeState = .Established)) := by
  cases h with
  | stream hest _ => exact ⟨rfl, .inl ⟨rfl, fun hne => absurd hest hne, by simp⟩⟩
  | early =>
    refine ⟨rfl, .inl ⟨rfl, fun _ => rfl, ?_⟩⟩
    split_ifs
    · simp [Frame.Quiet, Frametype.isStream]
    · simp
  | helloed ht hacc => exact ⟨rfl, .inr (.inl ⟨ht, hacc, rfl, rfl, rfl⟩)⟩
  | welcomed ht hacc => exact ⟨rfl, .inr (.inr ⟨ht, hacc, rfl, rfl, rfl⟩)⟩
  | pinged =>
    exact ⟨rfl, .inl ⟨rfl, fun _ => rfl, by simp [Frame.Quiet, Frametype.isStream]⟩⟩
  | badHello | badWelcome | settings | told | pongless | ponged =>
    exact ⟨rfl, .inl ⟨rfl, fun _ => rfl, by simp⟩⟩

end Endpoint

namespace StreamManager

/-- In the run `ls` the initiator sent its `Hello`, and then processed a `Welcome` on stream 0. -/
def Welcomed (ls : List Event) : Prop :=
  ∃ ks w rest m, ls = ks ++ .received (some (.ok w)) :: rest ∧ Run Step (fresh .Initiator) ks m ∧
    helloFrame ∈ m.emitted ∧ m.handshakeState = .AwaitingWelcome ∧
    w.header.frameType = .Welcome ∧ w.header.streamId = 0

/-- In the run `ls` the acceptor processed a `Hello` on stream 0. -/
def Greeted (ls : List Event) : Prop :=
  ∃ ks h rest m, ls = ks ++ .received (some (.ok h)) :: rest ∧ Run Step (fresh .Acceptor) ks m ∧
    m.handshakeState = .AwaitingHello ∧ h.header.frameType = .Hello ∧ h.header.streamId = 0

/-- How many `Welcome` frames were emitted. -/
def welcomeCount (m : StreamManager) : Nat :=
  m.emitted.countP fun f => f.header.frameType = .Welcome

/-- What holds along every run against any peer. -/
structure Progress (role : Role) (ls : List Event) (m : StreamManager) : Prop where
  role_eq : m.role = role
  early : m.handshakeState ≠ .Established →
    m.streams = ∅ ∧ ∀ f ∈ m.emitted, f.header.frameType.isStream = false
  waiting : m.handshakeState = .AwaitingWelcome → role = .Initiator ∧ helloFrame ∈ m.emitted
  welcomes : role = .Acceptor → m.welcomeCount = if m.handshakeState = .Established then 1 else 0
  welcomed : m.handshakeState = .Established → role = .Initiator → Welcomed ls
  greeted : m.handshakeState = .Established → role = .Acceptor → Greeted ls

theorem Welcomed.append {ls : List Event} (h : Welcomed ls) (ks : List Event) : Welcomed (ls ++ ks) := by
  obtain ⟨pre, w, rest, m, rfl, hw⟩ := h
  exact ⟨pre, w, rest ++ ks, m, by simp, hw⟩

theorem Greeted.append {ls : List Event} (h : Greeted ls) (ks : List Event) : Greeted (ls ++ ks) := by
  obtain ⟨pre, w, rest, m, rfl, hw⟩ := h
  exact ⟨pre, w, rest ++ ks, m, by simp, hw⟩

theorem progress_init (role : Role) : Progress role [] (fresh role) := by
  have hemit := fresh_emitted role
  refine ⟨rfl, fun _ => ⟨rfl, by simp [hemit]⟩, nofun, fun _ => ?_, nofun, nofun⟩
  rw [welcomeCount, hemit]
  rfl

theorem countP_quiet {outs : List Frame} (h : ∀ f ∈ outs, f.Quiet) :
    outs.countP (fun f => f.header.frameType = .Welcome) = 0 := by
  rw [List.countP_eq_zero]
  intro f hf
  simpa using (h f hf).2

variable {role : Role} {ls : List Event} {m m' : StreamManager} {ev : Event} {outs : List Frame}

theorem Progress.same (h : Progress role ls m) (hemit : m'.emitted = m.emitted ++ outs)
    (hrole : m'.role = m.role) (hs : m'.handshakeState = m.handshakeState)
    (hstreams : m.handshakeState ≠ .Established → m'.streams = m.streams)
    (hquiet : ∀ f ∈ outs, f.Quiet)
    (hearly : m.handshakeState ≠ .Established → ∀ f ∈ outs, f.header.frameType.isStream = false) :
    Progress role (ls ++ [ev]) m' := by
  refine ⟨hrole.trans h.role_eq, ?_, ?_, ?_, ?_, ?_⟩
  · rw [hs, hemit]
    intro hne
    refine ⟨(hstreams hne).trans (h.early hne).1, fun f hf => ?_⟩
    exact (List.mem_append.mp hf).elim ((h.early hne).2 f) (hearly hne f)
  · rw [hs, hemit]
    intro hw
    exact ⟨(h.waiting hw).1, List.mem_append_left _ (h.waiting hw).2⟩
  · intro hr
    rw [welcomeCount, hemit, List.countP_append, countP_quiet hquiet, hs, Nat.add_zero]
    exact h.welcomes hr
  · rw [hs]
    exact fun he hr => (h.welcomed he hr).append _
  · rw [hs]
    exact fun he hr => (h.greeted he hr).append _

theorem Progress.step (h : Progress role ls m) (hrun : Run Step (fresh role) ls m) (hstep : m.Step ev m') :
    Progress role (ls ++ [ev]) m' := by
  obtain ⟨-, outs, hend, hemit⟩ := (sound_of_run hrun).step hstep
  have hrole := h.role_eq
  generalize he' : m'.endpoint = e' at hend
  have hrole' : e'.role = m'.role := he' ▸ rfl
  have hstate' : e'.handshakeState = m'.handshakeState := he' ▸ rfl
  have hstreams' : e'.streams = m'.streams := he' ▸ rfl
  cases hend with
  | noFrame err =>
    exact h.same hemit hrole'.symm hstate'.symm (fun _ => hstreams'.symm) (by simp) (by simp)
  | call hacts =>
    have hr := hrole'.symm.trans hacts.role_eq
    rcases hacts.handshake with ⟨hi, hs, rfl, hw⟩ | ⟨hs, hquiet, hchat⟩
    · have hs' : m'.handshakeState = .AwaitingWelcome := hstate'.symm.trans hw
      have hne : m.handshakeState ≠ .Established := by
        rw [show m.handshakeState = .AwaitingHello from hs]; decide
      have hinit : role = .Initiator := h.role_eq.symm.trans hi
      refine ⟨hr.trans h.role_eq, fun _ => ?_, fun _ => ?_, ?_, by simp [hs'], by simp [hs']⟩
      · rw [← hstreams', hacts.streams_eq hne, hemit]
        refine ⟨(h.early hne).1, fun f hf => ?_⟩
        rcases List.mem_append.mp hf with hf | hf
        · exact (h.early hne).2 f hf
        · rw [List.mem_singleton.mp hf]; rfl
      · exact ⟨hinit, by simp [hemit]⟩
      · intro ha
        rw [hinit] at ha
        cases ha
    · exact h.same hemit hr (hstate'.symm.trans hs)
        (fun hne => hstreams'.symm.trans (hacts.streams_eq hne)) hquiet
        fun hne f hf => by simpa using (hchat hne f hf).not_stream
  | @frame f r _ _ _ hrec =>
    obtain ⟨hr, ⟨hs, hstreams, hquiet⟩ | ⟨ht, ⟨hid, hacc, hs⟩, rfl, rfl, hs'⟩ |
      ⟨ht, ⟨hid, hinit, hs⟩, rfl, rfl, hs'⟩⟩ := hrec.handshake
    · exact h.same hemit (hrole'.symm.trans hr) (hstate'.symm.trans hs)
        (fun hne => hstreams'.symm.trans (hstreams hne)) (fun g hg => (hquiet g hg).1)
        fun _ g hg => (hquiet g hg).2
    · have hrole0 : role = .Acceptor := h.role_eq.symm.trans hacc
      subst hrole0
      have hs0 : m.handshakeState = .AwaitingHello := hs
      rw [hstate'] at hs'
      refine ⟨hrole'.symm.trans (hr.trans h.role_eq), by simp [hs'], by simp [hs'], fun _ => ?_, by simp, fun _ _ => ?_⟩
      · rw [welcomeCount, hemit, List.countP_append]
        have := h.welcomes rfl
        rw [welcomeCount] at this
        rw [this, hs0, hs']
        rfl
      · exact ⟨ls, f, [], m, rfl, hrun, hs0, ht, hid⟩
    · have hrole0 : role = .Initiator := h.role_eq.symm.trans hinit
      subst hrole0
      have hs0 : m.handshakeState = .AwaitingWelcome := hs
      rw [hstate'] at hs'
      refine ⟨hrole'.symm.trans (hr.trans h.role_eq), by simp [hs'], by simp [hs'], by simp, fun _ _ => ?_, by simp⟩
      exact ⟨ls, f, [], m, rfl, hrun, (h.waiting hs0).2, hs0, ht, hid⟩

theorem progress_of_run (hrun : Run Step (fresh role) ls m) : Progress role ls m := by
  induction hrun with
  | nil => exact progress_init role
  | snoc hrun hstep ih => exact ih.step hrun hstep

theorem established_step (hm : m.Sound) (hs : m.handshakeState = .Established) (hstep : m.Step ev m') :
    m'.handshakeState = .Established := by
  obtain ⟨-, outs, hend, -⟩ := hm.step hstep
  generalize he' : m'.endpoint = e' at hend
  have hstate' : e'.handshakeState = m'.handshakeState := he' ▸ rfl
  rw [← hstate']
  cases hend with
  | noFrame => exact hs
  | call hacts =>
    rcases hacts.handshake with ⟨-, hne, -⟩ | ⟨heq, -⟩
    · rw [show m.endpoint.handshakeState = _ from hs] at hne; cases hne
    · exact heq.trans hs
  | frame _ hrec =>
    obtain ⟨-, ⟨heq, -⟩ | ⟨-, -, -, -, heq⟩ | ⟨-, -, -, -, heq⟩⟩ := hrec.handshake
    · exact heq.trans hs
    · exact heq
    · exact heq

theorem established_run (hm : m.Sound) (hs : m.handshakeState = .Established) (hrun : Run Step m ls m') :
    m'.handshakeState = .Established := by
  have hboth : m'.Sound ∧ m'.handshakeState = .Established :=
    hrun.invariant (P := fun _ m => m.Sound ∧ m.handshakeState = .Established) ⟨hm, hs⟩
      fun _ _ _ _ h hstep => ⟨(h.1.step hstep).1, established_step h.1 h.2 hstep⟩
  exact hboth.2

end StreamManager

/-! ## Both ends -/

open StreamManager in
/-- Against any peer: before it is established a manager has no streams and has emitted no
stream frame; it stays established; and it gets there by the handshake of its role only. On a
link, the initiator is established only when the acceptor is. -/
theorem handshake_safety :
    (∀ role ls m, Run StreamManager.Step (fresh role) ls m →
      (m.handshakeState ≠ .Established →
        m.streams = ∅ ∧ ∀ f ∈ m.emitted, f.header.frameType.isStream = false) ∧
      (m.handshakeState = .Established →
        (∀ ks m', Run StreamManager.Step m ks m' → m'.handshakeState = .Established) ∧
        (role = .Initiator → Welcomed ls) ∧
        (role = .Acceptor → Greeted ls ∧ m.welcomeCount = 1))) ∧
    (∀ ls l, Run Link.Step Link.init ls l → (l.mgr .Initiator).handshakeState = .Established →
      (l.mgr .Acceptor).handshakeState = .Established) := by
  constructor
  · intro role ls m hrun
    have h := progress_of_run hrun
    refine ⟨h.early, fun hs => ⟨fun ks m' hks => established_run (sound_of_run hrun) hs hks, h.welcomed hs, ?_⟩⟩
    intro hr
    refine ⟨h.greeted hs hr, ?_⟩
    rw [h.welcomes hr, if_pos hs]
  · intro ls l hrun hi
    obtain ⟨p, hprun, hrep⟩ := Rep.run hrun
    have hagree := (FrameLink.conforming_of_run hprun).agreement
    rw [FrameLink.state, FrameLink.state, hrep.ends_eq, hrep.ends_eq] at hagree
    exact hagree hi

/-- The script of a handshake. -/
def greeting : List (Role × Link.Act) :=
  [(.Initiator, .call .startHandshake), (.Acceptor, .recv 16), (.Initiator, .recv 16)]

theorem handshake_safety_greeting :
    (∃ ls m, Run StreamManager.Step (StreamManager.fresh .Acceptor) ls m ∧ m.welcomeCount = 1) ∧
    ((Link.init.play greeting).2.mgr .Acceptor).handshakeState = .Established := by
  constructor
  · have hused : ((StreamManager.fresh .Acceptor).recvFrame [.ok helloFrame.wire]).2.2 = [] := by decide +kernel
    have hrun := Run.single (StreamManager.Step.recv (by rw [← hused]))
    exact ⟨_, _, hrun, ((handshake_safety.1 .Acceptor _ _ hrun).2 (by decide +kernel)).2.2 rfl |>.2⟩
  · exact handshake_safety.2 _ _ (@Link.play_run _ greeting (by decide +kernel)) (by decide +kernel)

end TrenchDb.Transport
