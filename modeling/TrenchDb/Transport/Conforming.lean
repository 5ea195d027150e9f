import TrenchDb.Transport.Link

/-!
# What conforming peers exchange

Two managers on one link run the handshake in four phases. Between them, no frame comes
too early, and none that a manager never sends.
-/

open TrenchDb.Lib.Lts

namespace TrenchDb.Transport

/-! ## Kinds of frames -/

def Frame.Chatter (f : Frame) : Prop := f.header.frameType = .Ping ∨ f.header.frameType = .Pong

/-- Not a frame of the handshake. -/
def Frame.Quiet (f : Frame) : Prop := f.header.frameType ≠ .Hello ∧ f.header.frameType ≠ .Welcome

theorem Frame.Chatter.quiet {f : Frame} (h : f.Chatter) : f.Quiet := by
  rcases h with h | h <;> simp [Frame.Quiet, h]

theorem Frame.Chatter.not_stream {f : Frame} (h : f.Chatter) : ¬ f.header.frameType.isStream := by
  rcases h with h | h <;> simp [h, Frametype.isStream]

/-- The ids that `x` opens: those that its peer expects. -/
def Role.Owns (x : Role) (id : UInt32) : Prop := id % 2 = expectedParity x.peer ∧ id ≠ 0

theorem Role.Owns.add_two {x : Role} {id : UInt32} (h : x.Owns id) (hlt : id.toNat + 2 < 2 ^ 32) :
    x.Owns (id + 2) := by
  have hnext := toNat_add_two hlt
  refine ⟨(add_two_mod_two hlt).trans h.1, fun h0 => ?_⟩
  · rw [h0, UInt32.toNat_zero] at hnext
    omega

/-- The frames that the end `x` of a link emits. It opens the ids that its peer expects. -/
inductive Emits (x : Role) : Frame → Prop
  | hello : Emits x helloFrame
  | welcome : Emits x welcomeFrame
  | opens {s : UInt32} : s % 2 = expectedParity x.peer → Emits x (openFrame s)
  | data (s : UInt32) {payload : List UInt8} : payload ≠ [] → Emits x (dataFrame s payload)
  | close (s : UInt32) : Emits x (closeFrame s)
  | reset (s : UInt32) : Emits x (resetFrame s)
  | window (s : UInt32) (byteCount : Nat) : Emits x (windowFrame s byteCount)
  | ping (payload : List UInt8) : Emits x (pingFrame payload)
  | pong (payload : List UInt8) : Emits x (pongFrame payload)

/-! ## What a call emits -/

namespace Endpoint

variable {e e' : Endpoint} {c : Call} {reply : Reply} {outs : List Frame} {x : Role}

theorem Acts.role_eq (h : e.Acts c reply outs e') : e'.role = e.role := by
  cases h <;> first | rfl | exact (afterClose_same _ _ _).1

theorem Acts.handshake (h : e.Acts c reply outs e') :
    (e.role = .Initiator ∧ e.handshakeState = .AwaitingHello ∧ outs = [helloFrame] ∧
      e'.handshakeState = .AwaitingWelcome) ∨
    (e'.handshakeState = e.handshakeState ∧ (∀ f ∈ outs, f.Quiet) ∧
      (e.handshakeState ≠ .Established → ∀ f ∈ outs, f.Chatter)) := by
  cases h
  case hello hr hs => exact .inl ⟨hr, hs, rfl, rfl⟩
  case opened hest _ => exact .inr ⟨rfl, by simp [Frame.Quiet],
    fun hne => absurd hest hne⟩
  case sent hest _ _ _ _ _ =>
    exact .inr ⟨rfl, by simp [Frame.Quiet], fun hne => absurd hest hne⟩
  case closed hest _ _ =>
    exact .inr ⟨(afterClose_same _ _ _).2.1,
      by simp [Frame.Quiet], fun hne => absurd hest hne⟩
  case reset hest _ =>
    exact .inr ⟨rfl, by simp [Frame.Quiet],
      fun hne => absurd hest hne⟩
  case took hest _ _ =>
    refine .inr ⟨rfl, ?_, fun hne => absurd hest hne⟩
    unfold credit
    split_ifs <;> simp [Frame.Quiet]
  case pinged =>
    exact .inr ⟨rfl, by simp [Frame.Quiet],
      by simp [Frame.Chatter]⟩
  all_goals exact .inr ⟨rfl, by simp, by simp⟩

theorem Acts.emits (h : e.Acts c reply outs e') (hid : e.nextLocalId % 2 = expectedParity x.peer) :
    ∀ f ∈ outs, Emits x f := by
  cases h
  case hello => simpa using Emits.hello
  case opened => simpa using Emits.opens hid
  case sent hne _ _ _ _ => simpa using Emits.data _ hne
  case closed => simpa using Emits.close _
  case reset => simpa using Emits.reset _
  case took =>
    unfold credit
    split_ifs
    · simpa using Emits.window _ _
    · simp
  case pinged => simpa using Emits.ping _
  all_goals simp

theorem Acts.owns (h : e.Acts c reply outs e') (hid : x.Owns e.nextLocalId) : x.Owns e'.nextLocalId := by
  cases h
  case opened hlt => exact hid.add_two hlt
  case closed => rwa [(afterClose_same _ _ _).2.2]
  all_goals exact hid

/-! ## What arrives -/

/-- The arrivals between conforming peers: `Receives` without the refusals before and during the
handshake. -/
inductive Arrives (e : Endpoint) (f : Frame) : Except TransportError Unit → List Frame → Endpoint → Prop
  | stream : e.handshakeState = .Established → f.header.frameType.isStream →
      Arrives e f (e.onStream f).1 [] { e with streams := (e.onStream f).2 }
  | helloed : f = helloFrame → e.handshakeState = .AwaitingHello → e.role = .Acceptor →
      Arrives e f (.ok ()) [welcomeFrame] { e with handshakeState := .Established }
  | welcomed : f = welcomeFrame → e.handshakeState = .AwaitingWelcome → e.role = .Initiator →
      Arrives e f (.ok ()) [] { e with handshakeState := .Established }
  | pinged : f.header.frameType = .Ping → Arrives e f (.ok ()) [pongFrame f.payload] e
  | pongless : f.header.frameType = .Ping → Arrives e f (.error .BufferOverflow) [] e
  | ponged : f.header.frameType = .Pong → Arrives e f (.ok ()) [] e

end Endpoint

namespace FrameLink

variable {p p' : FrameLink} {x : Role}

/-! ## The phases of the handshake -/

/-- The state of the handshake at `x`. -/
def state (p : FrameLink) (x : Role) : HandshakeState := (p.ends x).handshakeState

inductive Phase (p : FrameLink) : Prop
  | before : p.state .Initiator = .AwaitingHello → p.state .Acceptor = .AwaitingHello →
      (∀ x, ∀ f ∈ p.queue x, f.Chatter) → Phase p
  | helloed {pre post : List Frame} : p.state .Initiator = .AwaitingWelcome →
      p.state .Acceptor = .AwaitingHello → p.queue .Acceptor = pre ++ helloFrame :: post →
      (∀ f ∈ pre, f.Chatter) → (∀ f ∈ post, f.Chatter) → (∀ f ∈ p.queue .Initiator, f.Chatter) → Phase p
  | welcomed {pre post : List Frame} : p.state .Initiator = .AwaitingWelcome →
      p.state .Acceptor = .Established → (∀ f ∈ p.queue .Acceptor, f.Chatter) →
      p.queue .Initiator = pre ++ welcomeFrame :: post → (∀ f ∈ pre, f.Chatter) → (∀ f ∈ post, f.Quiet) →
      Phase p
  | established : (∀ x, p.state x = .Established) → (∀ x, ∀ f ∈ p.queue x, f.Quiet) → Phase p

theorem hello_not_quiet : ¬ helloFrame.Quiet := fun h => h.1 rfl
theorem welcome_not_quiet : ¬ welcomeFrame.Quiet := fun h => h.2 rfl

theorem head_cases {pre post rest : List Frame} {f g : Frame} (h : pre ++ g :: post = f :: rest) :
    (f = g ∧ pre = [] ∧ rest = post) ∨ ∃ pre', pre = f :: pre' ∧ rest = pre' ++ g :: post := by
  cases pre with
  | nil => exact .inl ⟨(List.cons.inj h).1.symm, rfl, (List.cons.inj h).2.symm⟩
  | cons a pre =>
    obtain ⟨rfl, rfl⟩ := List.cons.inj h
    exact .inr ⟨pre, rfl, rfl⟩

theorem Phase.head (h : Phase p) {f : Frame} {rest : List Frame} (hq : p.queue x = f :: rest) :
    (f.Chatter ∨ p.state x = .Established ∧ f.Quiet) ∨
    (f = helloFrame ∧ x = .Acceptor ∧ p.state x = .AwaitingHello) ∨
    (f = welcomeFrame ∧ x = .Initiator ∧ p.state x = .AwaitingWelcome) := by
  have hmem : f ∈ p.queue x := by rw [hq]; exact List.mem_cons_self
  cases h with
  | before _ _ hall => exact .inl (.inl (hall x f hmem))
  | helloed hi ha heq hpre _ hother =>
    cases x with
    | Initiator => exact .inl (.inl (hother f hmem))
    | Acceptor =>
      rcases head_cases (heq.symm.trans hq) with ⟨rfl, -, -⟩ | ⟨pre', rfl, -⟩
      · exact .inr (.inl ⟨rfl, rfl, ha⟩)
      · exact .inl (.inl (hpre f List.mem_cons_self))
  | welcomed hi ha hother heq hpre _ =>
    cases x with
    | Acceptor => exact .inl (.inl (hother f hmem))
    | Initiator =>
      rcases head_cases (heq.symm.trans hq) with ⟨rfl, -, -⟩ | ⟨pre', rfl, -⟩
      · exact .inr (.inr ⟨rfl, rfl, hi⟩)
      · exact .inl (.inl (hpre f List.mem_cons_self))
  | established hs hall => exact .inl (.inr ⟨hs x, hall x f hmem⟩)

@[simp] theorem post_state {e : Endpoint} {outs rest : List Frame} :
    (p.post x e outs rest).state x = e.handshakeState := by simp [state]

theorem post_state_of_ne {e : Endpoint} {outs rest : List Frame} {y : Role} (h : y ≠ x) :
    (p.post x e outs rest).state y = p.state y := by rw [state, post_ends_of_ne h, state]

theorem Phase.quiet (h : Phase p) {e : Endpoint} {outs rest : List Frame}
    (hstate : e.handshakeState = p.state x) (hquiet : ∀ f ∈ outs, f.Quiet)
    (hchat : p.state x ≠ .Established → ∀ f ∈ outs, f.Chatter)
    (hrest : rest = p.queue x ∨ ∃ f, p.queue x = f :: rest ∧ f.Quiet) : Phase (p.post x e outs rest) := by
  have hsub : ∀ f ∈ rest, f ∈ p.queue x := by
    rcases hrest with rfl | ⟨g, hq, -⟩
    · exact fun _ hf => hf
    · rw [hq]; exact fun _ hf => List.mem_cons_of_mem _ hf
  have hsame : ∀ y, (p.post x e outs rest).state y = p.state y := by
    intro y
    rcases x.eq_or_peer y with rfl | rfl
    · rw [post_state, hstate]
    · exact post_state_of_ne x.peer_ne
  -- A frame of the handshake stays where it is: only quiet frames leave the front of its queue.
  have hkeep : ∀ {y : Role} {pre post : List Frame} {g : Frame} (K : Frame → Prop), ¬ g.Quiet →
      p.queue y = pre ++ g :: post → (∀ f ∈ pre, f.Chatter) → (∀ f ∈ post, K f) →
      (y ≠ x → ∀ f ∈ outs, K f) → ∃ pre' post', (p.post x e outs rest).queue y = pre' ++ g :: post' ∧
        (∀ f ∈ pre', f.Chatter) ∧ ∀ f ∈ post', K f := by
    intro y pre post g K hg hq hpre hpost houts
    by_cases hy : y = x
    · subst hy
      rw [post_queue]
      rcases hrest with rfl | ⟨f, hf, hfq⟩
      · exact ⟨pre, post, hq, hpre, hpost⟩
      · rcases head_cases (hq.symm.trans hf) with ⟨rfl, -, -⟩ | ⟨pre', rfl, hr⟩
        · exact absurd hfq hg
        · exact ⟨pre', post, hr, fun f hf => hpre f (List.mem_cons_of_mem _ hf), hpost⟩
    · refine ⟨pre, post ++ outs, by rw [post_queue_of_ne hy, hq]; simp, hpre, fun f hf => ?_⟩
      exact (List.mem_append.mp hf).elim (hpost f) (houts hy f)
  have hall : ∀ {y : Role} (K : Frame → Prop), (∀ f ∈ p.queue y, K f) → (y ≠ x → ∀ f ∈ outs, K f) →
      ∀ f ∈ (p.post x e outs rest).queue y, K f := by
    intro y K hq houts f hf
    by_cases hy : y = x
    · subst hy
      rw [post_queue] at hf
      exact hq f (hsub f hf)
    · rw [post_queue_of_ne hy] at hf
      exact (List.mem_append.mp hf).elim (hq f) (houts hy f)
  cases h with
  | before hi ha hq =>
    have hne : p.state x ≠ .Established := by cases x <;> simp only [hi, ha] <;> decide
    exact .before ((hsame _).trans hi) ((hsame _).trans ha) fun y => hall _ (hq y) fun _ => hchat hne
  | helloed hi ha hq hpre hpost hother =>
    have hne : p.state x ≠ .Established := by cases x <;> simp only [hi, ha] <;> decide
    obtain ⟨pre', post', hq', hpre', hpost'⟩ := hkeep _ hello_not_quiet hq hpre hpost fun _ => hchat hne
    exact .helloed ((hsame _).trans hi) ((hsame _).trans ha) hq' hpre' hpost' (hall _ hother fun _ => hchat hne)
  | welcomed hi ha hother hq hpre hpost =>
    obtain ⟨pre', post', hq', hpre', hpost'⟩ := hkeep _ welcome_not_quiet hq hpre hpost fun _ => hquiet
    refine .welcomed ((hsame _).trans hi) ((hsame _).trans ha) (hall _ hother fun hx => hchat ?_) hq' hpre' hpost'
    obtain rfl : x = .Initiator := ((Role.eq_or_peer .Initiator x).resolve_right (Ne.symm hx))
    rw [hi]
    decide
  | established hs hq =>
    exact .established (fun y => (hsame y).trans (hs y)) fun y => hall _ (hq y) fun _ => hquiet

/-! ## The invariant of conforming peers -/

structure Conforming (p : FrameLink) : Prop where
  role_eq : ∀ x, (p.ends x).role = x
  phase : Phase p
  emits : ∀ x, ∀ f ∈ p.queue x, Emits x.peer f
  owns : ∀ x : Role, x.Owns (p.ends x).nextLocalId

theorem conforming_init : Conforming FrameLink.init where
  role_eq _ := rfl
  phase := .before rfl rfl fun _ => by simp [FrameLink.init]
  emits _ := by simp [FrameLink.init]
  owns x := by cases x <;> exact ⟨by decide, by decide⟩

theorem Conforming.arrives (h : Conforming p) {f : Frame} {rest outs : List Frame}
    {r : Except TransportError Unit} {e : Endpoint} (hq : p.queue x = f :: rest)
    (hrec : (p.ends x).Receives f r outs e) : (p.ends x).Arrives f r outs e := by
  have hrole := h.role_eq x
  have hemits := h.emits x f (by rw [hq]; exact List.mem_cons_self)
  have hhead := h.phase.head hq
  have hhello : f.header.frameType = .Hello → f = helloFrame ∧ x = .Acceptor ∧ p.state x = .AwaitingHello := by
    intro ht
    rcases hhead with (hc | ⟨-, hc⟩) | hhead | ⟨rfl, -⟩
    · exact absurd ht hc.quiet.1
    · exact absurd ht hc.1
    · exact hhead
    · exact absurd ht (by decide)
  have hwelcome : f.header.frameType = .Welcome →
      f = welcomeFrame ∧ x = .Initiator ∧ p.state x = .AwaitingWelcome := by
    intro ht
    rcases hhead with (hc | ⟨-, hc⟩) | ⟨rfl, -⟩ | hhead
    · exact absurd ht hc.quiet.2
    · exact absurd ht hc.2
    · exact absurd ht (by decide)
    · exact hhead
  cases hrec with
  | stream hest ht => exact .stream hest ht
  | early hest ht =>
    rcases hhead with (hc | ⟨hs, -⟩) | ⟨rfl, -⟩ | ⟨rfl, -⟩
    · exact absurd ht hc.not_stream
    · exact absurd hs hest
    · exact absurd ht (by decide)
    · exact absurd ht (by decide)
  | helloed ht hacc =>
    obtain ⟨hf, -, hs⟩ := hhello ht
    exact .helloed hf hs hacc.2.1
  | badHello err ht hacc =>
    obtain ⟨hf, hx, hs⟩ := hhello ht
    exact absurd ⟨by rw [hf]; rfl, hrole.trans hx, hs⟩ hacc
  | welcomed ht hacc =>
    obtain ⟨hf, -, hs⟩ := hwelcome ht
    exact .welcomed hf hs hacc.2.1
  | badWelcome err ht hacc =>
    obtain ⟨hf, hx, hs⟩ := hwelcome ht
    exact absurd ⟨by rw [hf]; rfl, hrole.trans hx, hs⟩ hacc
  | settings r ht => cases hemits <;> simp at ht
  | told err ht => cases hemits <;> simp at ht
  | pinged ht => exact .pinged ht
  | pongless ht => exact .pongless ht
  | ponged ht => exact .ponged ht

theorem Conforming.post (h : Conforming p) {e : Endpoint} {outs rest : List Frame}
    (hrole : e.role = x) (hphase : Phase (p.post x e outs rest)) (hemits : ∀ f ∈ outs, Emits x f)
    (hrest : ∀ f ∈ rest, f ∈ p.queue x) (howns : x.Owns e.nextLocalId) :
    Conforming (p.post x e outs rest) := by
  refine ⟨?_, hphase, ?_, ?_⟩ <;> intro y <;> rcases x.eq_or_peer y with rfl | rfl
  · rw [post_ends, hrole]
  · rw [post_ends_peer, h.role_eq]
  · rw [post_queue]
    exact fun f hf => h.emits y f (hrest f hf)
  · rw [post_queue_peer, Role.peer_peer]
    intro f hf
    have hold := h.emits x.peer f
    rw [Role.peer_peer] at hold
    exact (List.mem_append.mp hf).elim hold (hemits f)
  · rwa [post_ends]
  · rw [post_ends_peer]
    exact h.owns x.peer

theorem Phase.hello (h : Phase p) {e : Endpoint} (hs : p.state .Initiator = .AwaitingHello)
    (he : e.handshakeState = .AwaitingWelcome) :
    Phase (p.post .Initiator e [helloFrame] (p.queue .Initiator)) := by
  cases h with
  | before hi ha hq =>
    refine @Phase.helloed _ (p.queue .Acceptor) [] ?_ ?_ ?_ (hq .Acceptor) (by simp) ?_
    · rw [post_state, he]
    · rw [post_state_of_ne (by decide), ha]
    · rw [post_queue_of_ne (by decide)]
    · rw [post_queue]
      exact hq .Initiator
  | helloed hi => rw [hs] at hi; cases hi
  | welcomed hi => rw [hs] at hi; cases hi
  | established hall => rw [hall] at hs; cases hs

theorem Phase.welcome (h : Phase p) {e : Endpoint} {rest : List Frame}
    (hq : p.queue .Acceptor = helloFrame :: rest) (he : e.handshakeState = .Established) :
    Phase (p.post .Acceptor e [welcomeFrame] rest) := by
  have hmem : helloFrame ∈ p.queue .Acceptor := by rw [hq]; exact List.mem_cons_self
  cases h with
  | before _ _ hall => exact absurd (hall _ _ hmem).quiet hello_not_quiet
  | helloed hi ha heq hpre hpost hother =>
    rcases head_cases (heq.symm.trans hq) with ⟨-, -, rfl⟩ | ⟨pre', rfl, -⟩
    · refine @Phase.welcomed _ (p.queue .Initiator) [] ?_ ?_ ?_ ?_ hother (by simp)
      · rw [post_state_of_ne (by decide), hi]
      · rw [post_state, he]
      · rw [post_queue]
        exact hpost
      · rw [post_queue_of_ne (by decide)]
    · exact absurd (hpre _ List.mem_cons_self).quiet hello_not_quiet
  | welcomed _ _ hother => exact absurd (hother _ hmem).quiet hello_not_quiet
  | established _ hall => exact absurd (hall _ _ hmem) hello_not_quiet

theorem Phase.complete (h : Phase p) {e : Endpoint} {rest : List Frame}
    (hq : p.queue .Initiator = welcomeFrame :: rest) (he : e.handshakeState = .Established) :
    Phase (p.post .Initiator e [] rest) := by
  have hmem : welcomeFrame ∈ p.queue .Initiator := by rw [hq]; exact List.mem_cons_self
  cases h with
  | before _ _ hall => exact absurd (hall _ _ hmem).quiet welcome_not_quiet
  | helloed _ _ _ _ _ hother => exact absurd (hother _ hmem).quiet welcome_not_quiet
  | welcomed hi ha hother heq hpre hpost =>
    rcases head_cases (heq.symm.trans hq) with ⟨-, -, rfl⟩ | ⟨pre', rfl, -⟩
    · refine .established (fun y => ?_) fun y => ?_
      · cases y with
        | Initiator => rw [post_state, he]
        | Acceptor => rw [post_state_of_ne (by decide), ha]
      · cases y with
        | Initiator => rw [post_queue]; exact hpost
        | Acceptor =>
          rw [post_queue_of_ne (by decide), List.append_nil]
          exact fun f hf => (hother f hf).quiet
    · exact absurd (hpre _ List.mem_cons_self).quiet welcome_not_quiet
  | established _ hall => exact absurd (hall _ _ hmem) welcome_not_quiet

theorem Conforming.step (h : Conforming p) {ev : Role × Event} (hstep : Step p ev p') : Conforming p' := by
  cases hstep with
  | wait => exact h
  | @call x _ _ outs _ hacts =>
    have hrole := hacts.role_eq.trans (h.role_eq x)
    refine h.post hrole ?_ (hacts.emits (h.owns x).1) (fun _ hf => hf) (hacts.owns (h.owns x))
    rcases hacts.handshake with ⟨hinit, hs, rfl, he⟩ | ⟨hs, hquiet, hchat⟩
    · obtain rfl : x = .Initiator := (h.role_eq x).symm.trans hinit
      exact h.phase.hello hs he
    · exact h.phase.quiet hs hquiet hchat (.inl rfl)
  | @recv x f rest _ outs _ hq hrec =>
    have hrest : ∀ g ∈ rest, g ∈ p.queue x := by rw [hq]; exact fun g hg => List.mem_cons_of_mem _ hg
    have hrole := h.role_eq x
    have howns := h.owns x
    cases h.arrives hq hrec with
    | stream hest ht =>
      refine h.post hrole (h.phase.quiet rfl (by simp) (by simp) (.inr ⟨f, hq, ?_⟩)) (by simp) hrest howns
      constructor <;> rintro hf <;> rw [hf] at ht <;> cases ht
    | helloed hf hs hx =>
      obtain rfl : x = .Acceptor := hrole.symm.trans hx
      exact h.post hrole (h.phase.welcome (hf ▸ hq) rfl) (by simpa using Emits.welcome) hrest howns
    | welcomed hf hs hx =>
      obtain rfl : x = .Initiator := hrole.symm.trans hx
      exact h.post hrole (h.phase.complete (hf ▸ hq) rfl) (by simp) hrest howns
    | pinged ht =>
      have hf : f.Chatter := .inl ht
      exact h.post hrole (h.phase.quiet rfl (by simp [Frame.Quiet]) (by simp [Frame.Chatter])
        (.inr ⟨f, hq, hf.quiet⟩)) (by simpa using Emits.pong _) hrest howns
    | pongless ht =>
      have hf : f.Chatter := .inl ht
      exact h.post hrole (h.phase.quiet rfl (by simp) (by simp) (.inr ⟨f, hq, hf.quiet⟩)) (by simp) hrest howns
    | ponged ht =>
      have hf : f.Chatter := .inr ht
      exact h.post hrole (h.phase.quiet rfl (by simp) (by simp) (.inr ⟨f, hq, hf.quiet⟩)) (by simp) hrest howns

theorem conforming_of_run {ls : List (Role × Event)} (h : Run Step FrameLink.init ls p) : Conforming p :=
  h.invariant (P := fun _ p => Conforming p) conforming_init fun _ _ _ _ hp hstep => hp.step hstep

theorem Conforming.agreement (h : Conforming p) (hi : p.state .Initiator = .Established) :
    p.state .Acceptor = .Established := by
  cases h.phase with
  | before h' => rw [hi] at h'; cases h'
  | helloed h' => rw [hi] at h'; cases h'
  | welcomed h' => rw [hi] at h'; cases h'
  | established hs => exact hs .Acceptor

end FrameLink

end TrenchDb.Transport
