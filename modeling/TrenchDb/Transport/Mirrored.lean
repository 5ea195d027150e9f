import TrenchDb.Transport.Guarantees

/-!
# What both ends will hold

The frames on their way decide what each end will hold of a stream. By then the two ends
hold it in mirrored states, and the window that one may send is the window that the other
still accepts.
-/

open TrenchDb.Lib.BigEndian TrenchDb.Lib.Incremental TrenchDb.Lib.Lts

namespace TrenchDb.Transport

/-! ## Mirrored states -/

/-- The state of the stream as the other end sees it. -/
def StreamState.mirror : StreamState → StreamState
  | .HalfClosedLocal => .HalfClosedRemote
  | .HalfClosedRemote => .HalfClosedLocal
  | state => state

@[simp] theorem StreamState.mirror_mirror (state : StreamState) : state.mirror.mirror = state := by
  cases state <;> rfl

/-- What arrives does to the state of a stream. -/
def hear : Item → Option StreamState → Option StreamState
  | .opens, none => some .Open
  | .reset, _ => none
  | .close, some .Open => some .HalfClosedRemote
  | .close, some .HalfClosedLocal => none
  | .close, some .Closed => none
  | _, held => held

/-- What `close_stream` leaves of the state of a stream. -/
def shut : Option StreamState → Option StreamState
  | some .Open => some .HalfClosedLocal
  | some .HalfClosedRemote => none
  | some .Closed => none
  | held => held

section States

variable {s : UInt32} {i : Item} {is : List Item} {held : Option Stream} {stream : Stream}
  {state : Option StreamState}

theorem receive_state (s : UInt32) (i : Item) (held : Option Stream) :
    (receive s i held).map Stream.state = hear i (held.map Stream.state) := by
  cases held with
  | none => cases i <;> rfl
  | some stream =>
    cases i with
    | opens | reset | window => rfl
    | data payload =>
      simp only [receive]
      split_ifs <;> rfl
    | close =>
      obtain ⟨id, state, sendWindow, recvWindow, recvQueue⟩ := stream
      cases state <;> rfl

theorem afterLocalClose_state (stream : Stream) :
    stream.afterLocalClose.map Stream.state = shut (some stream.state) := by
  obtain ⟨id, state, sendWindow, recvWindow, recvQueue⟩ := stream
  cases state <;> rfl

theorem hear_shut (hi : i ≠ .opens) : hear i (shut state) = shut (hear i state) := by
  cases i with
  | opens => exact absurd rfl hi
  | data | window | reset => rcases state with _ | _ | _ | _ | _ | _ <;> rfl
  | close => rcases state with _ | _ | _ | _ | _ | _ <;> rfl

theorem mirror_close (state : Option StreamState) :
    (hear .close state).map .mirror = shut (state.map .mirror) := by
  rcases state with _ | _ | _ | _ | _ | _ <;> rfl

end States

/-! ## What will be held -/

/-- What an end holds of the stream `s` once `items` have arrived. -/
def arrived (s : UInt32) (items : List Item) (held : Option Stream) : Option Stream :=
  items.foldl (fun held i => receive s i held) held

/-- What an end holds of the state of a stream once `items` have arrived. -/
def heard (items : List Item) (state : Option StreamState) : Option StreamState :=
  items.foldl (fun state i => hear i state) state

section Arrived

variable {s : UInt32} {items : List Item} {state : Option StreamState}

theorem heard_shut (h : .opens ∉ items) : heard items (shut state) = shut (heard items state) := by
  induction items generalizing state with
  | nil => rfl
  | cons i items ih =>
    have hi : i ≠ .opens := fun heq => h (heq ▸ List.mem_cons_self)
    rw [heard, List.foldl_cons, ← heard, hear_shut hi, ih fun hmem => h (List.mem_cons_of_mem _ hmem)]
    rfl

theorem heard_none (h : .opens ∉ items) : heard items none = none := by
  induction items with
  | nil => rfl
  | cons i items ih =>
    have hi : hear i none = none := by
      cases i with
      | opens => exact absurd List.mem_cons_self h
      | data | close | reset | window => rfl
    rw [heard, List.foldl_cons, hi]
    exact ih fun hmem => h (List.mem_cons_of_mem _ hmem)

end Arrived

namespace Talk

variable {s : UInt32} {t t' : Talk} {x : Role} {ls ks : List (Role × Deed)} {l : Role × Deed}

/-- The state in which `x` will hold the stream. -/
def coming (t : Talk) (x : Role) : Option StreamState := heard (t.line x) ((t.held x).map Stream.state)

/-! ## What a step does to the states -/

/-- A step as far as the states of the stream go. -/
inductive Moves (s : UInt32) (t : Talk) : Talk → Prop
  | opened : t.used = false → Moves s t
      { t.post (opener s) (some (Stream.new s)) [.opens] (t.line (opener s)) with used := true }
  | quiet (x : Role) {held : Option Stream} {outs : List Item} :
      held.map Stream.state = (t.held x).map Stream.state → (∀ state, heard outs state = state) → .opens ∉ outs →
      Moves s t (t.post x held outs (t.line x))
  | closed (x : Role) {stream : Stream} : t.held x = some stream →
      Moves s t (t.post x stream.afterLocalClose [.close] (t.line x))
  | reset (x : Role) {stream : Stream} : t.held x = some stream → Moves s t (t.post x none [.reset] (t.line x))
  | received (x : Role) {i : Item} {rest : List Item} : t.line x = i :: rest →
      Moves s t (t.post x (receive s i (t.held x)) [] rest)

theorem Step.moves (h : Step s t l t') : Moves s t t' := by
  cases h with
  | idle x =>
    have hquiet := @Moves.quiet s t x (t.held x) [] rfl (fun _ => rfl) (by simp)
    rwa [post_self] at hquiet
  | opened hused => exact .opened hused
  | sent x hheld => exact .quiet x (by rw [hheld]; rfl) (fun _ => rfl) (by simp)
  | overflowed x hheld => exact .quiet x (by rw [hheld]; rfl) (fun _ => rfl) (by simp)
  | closed x hheld => exact .closed x hheld
  | reset x hheld => exact .reset x hheld
  | took x hheld hpop =>
    refine .quiet x ?_ (fun _ => by split_ifs <;> rfl) (by split_ifs <;> simp)
    rw [hheld, (Stream.popRecv_some hpop).2]
    rfl
  | received x hline => exact .received x hline

theorem held_of_state {held before : Option Stream} {stream : Stream}
    (hstate : held.map Stream.state = before.map Stream.state) (h : held = some stream) :
    ∃ old, before = some old ∧ old.state = stream.state := by
  rw [h] at hstate
  obtain ⟨old, hold, heq⟩ := Option.map_eq_some_iff.mp hstate.symm
  exact ⟨old, hold, heq⟩

/-! ## The ends mirror each other -/

def Mirrored (t : Talk) : Prop := ∀ x, t.coming x = (t.coming x.peer).map .mirror

theorem mirrored_of (x : Role) (h : t.coming x = (t.coming x.peer).map .mirror) : Mirrored t := by
  intro y
  rcases x.eq_or_peer y with rfl | rfl
  · exact h
  · rw [Role.peer_peer, h, Option.map_map]
    have hid : StreamState.mirror ∘ StreamState.mirror = id := funext StreamState.mirror_mirror
    rw [hid, Option.map_id, id]

theorem coming_post (h : Option Stream) (outs : List Item) :
    (t.post x h outs (t.line x)).coming x = heard (t.line x) (h.map Stream.state) := by
  rw [coming, post_line, post_held]

theorem coming_post_peer (h : Option Stream) (outs rest : List Item) :
    (t.post x h outs rest).coming x.peer = heard outs (t.coming x.peer) := by
  rw [coming, post_line_peer, post_held_peer, coming, heard, List.foldl_append]
  rfl

theorem Mirrored.moves (h : Mirrored t) (hflow : Flow s ls t) (hmoves : Moves s t t') : Mirrored t' := by
  cases hmoves with
  | opened hused =>
    generalize opener s = x
    obtain ⟨-, hline, -⟩ := hflow.fresh hused x
    obtain ⟨hheldp, hlinep, -⟩ := hflow.fresh hused x.peer
    refine mirrored_of x ?_
    rw [show coming { t.post x (some (Stream.new s)) [.opens] (t.line x) with used := true } x = _ from
        coming_post (t := t) (x := x) (some (Stream.new s)) [.opens],
      show coming { t.post x (some (Stream.new s)) [.opens] (t.line x) with used := true } x.peer = _ from
        coming_post_peer (t := t) (x := x) (some (Stream.new s)) [.opens] (t.line x),
      hline, coming, hheldp, hlinep]
    rfl
  | quiet x hstate houts =>
    refine mirrored_of x ?_
    rw [coming_post, coming_post_peer, houts, hstate]
    exact h x
  | @closed x stream hheld =>
    refine mirrored_of x ?_
    rw [coming_post, coming_post_peer, afterLocalClose_state, heard_shut (hflow.settled hheld),
      show heard [.close] (t.coming x.peer) = hear .close (t.coming x.peer) from rfl, mirror_close, ← h x,
      coming, hheld]
    rfl
  | reset x hheld =>
    refine mirrored_of x ?_
    rw [coming_post, coming_post_peer, Option.map_none, heard_none (hflow.settled hheld)]
    rfl
  | received x hline =>
    refine mirrored_of x ?_
    rw [coming_post_peer, coming, post_line, post_held, receive_state]
    have hx := h x
    rw [coming, hline, heard, List.foldl_cons] at hx
    exact hx

theorem mirrored_of_run (h : Run (Step s) init ls t) : Mirrored t := by
  induction h with
  | nil => exact fun _ => rfl
  | snoc hrun hstep ih => exact ih.moves (flow_of_run hrun) hstep.moves

/-! ## What an end has let go of -/

/-- No state in which a stream is held has both sides closed. -/
def Alive (t : Talk) : Prop := ∀ x stream, t.held x = some stream → ¬ stream.state.isClosed

/-- The stream was opened here, and is not held any more in a state with `P`. -/
structure Past (P : StreamState → Prop) (x : Role) (t : Talk) : Prop where
  used : t.used
  open_ : .opens ∉ t.line x
  lost : ∀ stream, t.held x = some stream → ¬ P stream.state

theorem receive_past {P : StreamState → Prop} (hclose : P .HalfClosedRemote → P .Open) {i : Item}
    (hi : i ≠ .opens) {held : Option Stream} {stream : Stream} (h : receive s i held = some stream)
    (hP : P stream.state) : ∃ before, held = some before ∧ P before.state := by
  have hstate := receive_state s i held
  rw [h] at hstate
  cases held with
  | none =>
    cases i with
    | opens => exact absurd rfl hi
    | data | close | reset | window => cases hstate
  | some before =>
    refine ⟨before, rfl, ?_⟩
    cases i with
    | opens => exact absurd rfl hi
    | reset => cases hstate
    | data | window =>
      obtain heq : stream.state = before.state := Option.some.inj hstate
      exact heq ▸ hP
    | close =>
      rw [Option.map_some, Option.map_some] at hstate
      cases hb : before.state <;> rw [hb] at hstate <;> simp only [hear, reduceCtorEq, Option.some.injEq] at hstate
        <;> rw [hstate] at hP
      · exact hclose hP
      · exact hP
      · exact hP

theorem Past.moves {P : StreamState → Prop} (hlocal : P .HalfClosedLocal → P .Open)
    (hremote : P .HalfClosedRemote → P .Open) (h : Past P x t) (hmoves : Moves s t t') : Past P x t' := by
  -- What the other end does leaves this one, and only `open_stream` says `Open`.
  have hpeer : ∀ {y : Role} {held : Option Stream} {outs rest : List Item}, .opens ∉ outs → y ≠ x →
      Past P x (t.post y held outs rest) := by
    intro y held outs rest houts hy
    obtain rfl : x = y.peer := (y.eq_or_peer x).resolve_left (Ne.symm hy)
    refine ⟨h.used, ?_, by rw [post_held_peer]; exact h.lost⟩
    rw [post_line_peer, List.mem_append]
    exact fun hmem => hmem.elim h.open_ houts
  have hself : ∀ {held : Option Stream} {outs : List Item}, (∀ stream, held = some stream → ¬ P stream.state) →
      Past P x (t.post x held outs (t.line x)) := fun hlost =>
    ⟨h.used, by rw [post_line]; exact h.open_, by rw [post_held]; exact hlost⟩
  cases hmoves with
  | opened hused => rw [h.used] at hused; cases hused
  | quiet y hstate _ houts =>
    by_cases hy : y = x
    · subst hy
      refine hself fun stream hstream => ?_
      obtain ⟨old, hold, heq⟩ := held_of_state hstate hstream
      exact heq ▸ h.lost old hold
    · exact hpeer houts hy
  | @closed y stream hheld =>
    by_cases hy : y = x
    · subst hy
      refine hself fun left hleft hP => ?_
      have hstate := afterLocalClose_state stream
      rw [hleft, Option.map_some] at hstate
      have hbefore := h.lost stream hheld
      cases hs : stream.state <;> rw [hs] at hstate hbefore <;>
        simp only [shut, reduceCtorEq, Option.some.injEq] at hstate <;> rw [hstate] at hP
      · exact hbefore (hlocal hP)
      · exact hbefore hP
      · exact hbefore hP
    · exact hpeer (by simp) hy
  | reset y hheld =>
    by_cases hy : y = x
    · subst hy
      exact hself (by simp)
    · exact hpeer (by simp) hy
  | @received y i rest hline =>
    by_cases hy : y = x
    · subst hy
      have hmem := h.open_
      rw [hline, List.mem_cons, not_or] at hmem
      refine ⟨h.used, by rw [post_line]; exact hmem.2, ?_⟩
      rw [post_held]
      intro stream hstream hP
      obtain ⟨before, hbefore, hPb⟩ := receive_past hremote (Ne.symm hmem.1) hstream hP
      exact h.lost before hbefore hPb
    · exact hpeer (by simp) hy

theorem Past.run {P : StreamState → Prop} (hlocal : P .HalfClosedLocal → P .Open)
    (hremote : P .HalfClosedRemote → P .Open) (h : Past P x t) (hrun : Run (Step s) t ls t') : Past P x t' := by
  induction hrun with
  | nil => exact h
  | snoc _ hstep ih => exact ih.moves hlocal hremote hstep.moves

theorem receive_alive {i : Item} {held : Option Stream} {stream : Stream} (h : receive s i held = some stream)
    (hheld : ∀ before, held = some before → ¬ before.state.isClosed) : ¬ stream.state.isClosed := by
  by_cases hi : i = .opens
  · subst hi
    cases held with
    | none =>
      obtain rfl := Option.some.inj h
      simp [Stream.new, StreamState.isClosed]
    | some before => exact hheld stream h
  · -- A `Close` leaves no stream closed that was not closed before.
    intro hclosed
    obtain ⟨before, hbefore, hb⟩ := receive_past (P := fun state => state.isClosed) (fun h => h) hi h hclosed
    exact hheld before hbefore hb

theorem Alive.moves (h : Alive t) (hmoves : Moves s t t') : Alive t' := by
  have hpost : ∀ {x : Role} {held : Option Stream} {outs rest : List Item},
      (∀ stream, held = some stream → ¬ stream.state.isClosed) → Alive (t.post x held outs rest) := by
    intro x held outs rest hheld y stream hy
    rcases x.eq_or_peer y with rfl | rfl
    · rw [post_held] at hy
      exact hheld stream hy
    · rw [post_held_peer] at hy
      exact h x.peer stream hy
  cases hmoves with
  | opened hused =>
    refine @hpost (opener s) (some (Stream.new s)) [.opens] (t.line (opener s)) ?_
    rintro _ ⟨rfl⟩
    simp [Stream.new, StreamState.isClosed]
  | quiet x hstate =>
    refine hpost fun stream hstream => ?_
    obtain ⟨old, hold, heq⟩ := held_of_state hstate hstream
    exact heq ▸ h x old hold
  | @closed x stream hheld =>
    refine hpost fun left hleft => ?_
    have hstate := afterLocalClose_state stream
    have hbefore := h x stream hheld
    rw [hleft, Option.map_some] at hstate
    cases hs : stream.state <;> rw [hs] at hstate hbefore <;>
      simp only [shut, reduceCtorEq, Option.some.injEq] at hstate <;> rw [hstate]
    · decide
    · decide
    · exact hbefore
  | reset => exact hpost (by simp)
  | received x hline => exact hpost fun stream hstream => receive_alive hstream (h x)

theorem alive_of_run (h : Run (Step s) init ls t) : Alive t := by
  induction h with
  | nil => exact fun _ _ hheld => by cases hheld
  | snoc _ hstep ih => exact ih.moves hstep.moves

/-! ## When everything has arrived -/

theorem arrive_all (s : UInt32) (t : Talk) : ∃ ks t', Run (Step s) t ks t' ∧
    (∀ k ∈ ks, k.2 = .accepted ∨ k.2 = .other) ∧ ∀ x, t'.line x = [] ∧ t'.held x = arrived s (t.line x) (t.held x) := by
  have hone : ∀ (t : Talk) (x : Role), ∃ ks t', Run (Step s) t ks t' ∧ (∀ k ∈ ks, k.2 = .accepted ∨ k.2 = .other) ∧
      t'.line x = [] ∧ t'.held x = arrived s (t.line x) (t.held x) ∧
      t'.line x.peer = t.line x.peer ∧ t'.held x.peer = t.held x.peer := by
    intro t x
    generalize hline : t.line x = items
    induction items generalizing t with
    | nil => exact ⟨[], t, .nil, by simp, hline, rfl, rfl, rfl⟩
    | cons i items ih =>
      obtain ⟨ks, t', hrun, hks, hl, hh, hlp, hhp⟩ := ih (t.post x (receive s i (t.held x)) [] items) post_line
      refine ⟨_, t', .cons (.received x hline) hrun, List.forall_mem_cons.mpr ⟨?_, hks⟩, hl, ?_, ?_, ?_⟩
      · dsimp only
        split_ifs
        · exact .inl rfl
        · exact .inr rfl
      · rw [hh, post_held]
        rfl
      · rw [hlp, post_line_peer, List.append_nil]
      · rw [hhp, post_held_peer]
  obtain ⟨ks, t₁, hrun, hks, hl, hh, hlp, hhp⟩ := hone t .Initiator
  obtain ⟨ks', t₂, hrun', hks', hl', hh', hlp', hhp'⟩ := hone t₁ .Acceptor
  refine ⟨ks ++ ks', t₂, hrun.append hrun', List.forall_mem_append.mpr ⟨hks, hks'⟩, fun x => ?_⟩
  cases x with
  | Initiator => exact ⟨hlp'.trans hl, hhp'.trans hh⟩
  | Acceptor =>
    rw [show Role.Initiator.peer = .Acceptor from rfl] at hlp hhp
    exact ⟨hl', by rw [hh', hlp, hhp]⟩

theorem sentBy_arrivals (x : Role) (ls : List (Role × Deed)) (h : ∀ k ∈ ks, k.2 = .accepted ∨ k.2 = .other) :
    sentBy x (ls ++ ks) = sentBy x ls := by
  have hnil : ks.filterMap (fun l => if l.1 = x then l.2.sent? else none) = [] := by
    rw [List.filterMap_eq_nil_iff]
    intro k hk
    rcases h k hk with hd | hd <;> simp [hd, Deed.sent?]
  rw [sentBy, List.filterMap_append, hnil, List.append_nil, sentBy]

theorem tookBy_arrivals (x : Role) (ls : List (Role × Deed)) (h : ∀ k ∈ ks, k.2 = .accepted ∨ k.2 = .other) :
    tookBy x (ls ++ ks) = tookBy x ls := by
  have hnil : ks.filterMap (fun l => if l.1 = x then l.2.took? else none) = [] := by
    rw [List.filterMap_eq_nil_iff]
    intro k hk
    rcases h k hk with hd | hd <;> simp [hd, Deed.took?]
  rw [tookBy, List.filterMap_append, hnil, List.append_nil, tookBy]

end Talk

/-! ## Both ends of a link -/

namespace Link

variable {l l' : Link} {x : Role} {s : UInt32} {ls ks : List (Role × Event)}

/-- What `x` will hold of the stream `s` once the frames on their way to it have arrived. -/
def arriving (l : Link) (x : Role) (s : UInt32) : Option Stream :=
  arrived s (l.about x s) ((l.mgr x).streams.lookup s)

theorem arriving_run (h : Run Step init ls l) (s : UInt32) : ∃ p ks t, Run FrameLink.Step FrameLink.init ls p ∧
    Run (Talk.Step s) (p.talk s) ks t ∧ (∀ k ∈ ks, k.2 = .accepted ∨ k.2 = .other) ∧
    ∀ x, t.line x = [] ∧ t.held x = l.arriving x s := by
  obtain ⟨p, hprun, hrep⟩ := Rep.run h
  obtain ⟨ks, t, hrest, hks, hall⟩ := Talk.arrive_all s (p.talk s)
  refine ⟨p, ks, t, hprun, hrest, hks, fun x => ⟨(hall x).1, ?_⟩⟩
  rw [(hall x).2, arriving, about, hrep.queue_eq]
  simp only [FrameLink.talk, hrep.ends_eq]
  rfl

/-- In every reachable state, once the frames on their way have arrived, both ends hold the stream or
neither does. The states mirror each other, no payload is lost, and what one end may still send is what
the other still accepts. -/
theorem ends_agree (h : Run Step init ls l) (x : Role) (s : UInt32) :
    (l.arriving x s).map Stream.state = (l.arriving x.peer s).map (StreamState.mirror ∘ Stream.state) ∧
    ∀ sx sy, l.arriving x s = some sx → l.arriving x.peer s = some sy →
      ¬ sx.state.isClosed ∧ sentOn x s ls = tookOn x.peer s ls ++ sy.recvQueue ∧
      (sx.state.canSend ↔ sy.state.canReceive) ∧
      (sy.state.canReceive → sx.sendWindow = sy.recvWindow ∧ sy.recvWindow = DEFAULT_WINDOW - bytes sy.recvQueue) := by
  obtain ⟨p, ks, t, hprun, hrest, hks, hall⟩ := arriving_run h s
  have hrun := (FrameLink.talk_run hprun s).append hrest
  have hmirror := Talk.mirrored_of_run hrun x
  simp only [Talk.coming, (hall _).1, (hall _).2, heard, List.foldl_nil] at hmirror
  rw [Option.map_map] at hmirror
  refine ⟨hmirror, fun sx sy hx hy => ?_⟩
  rw [hx, hy] at hmirror
  have hstates : sx.state = sy.state.mirror := Option.some.inj hmirror
  have hhalf := (Talk.flow_of_run hrun).half x
  have hview : ∀ y, t.view s y = t.held y := fun y => Talk.view_eq (by rw [(hall y).1]; simp)
  simp only [hview, (hall _).2, hx, hy, Talk.sentBy_arrivals _ _ hks, Talk.tookBy_arrivals _ _ hks,
    ← sentOn_eq, ← tookOn_eq] at hhalf
  refine ⟨Talk.alive_of_run hrun x sx ((hall x).2.trans hx), ?_, ?_, fun hcan => ?_⟩
  · obtain ⟨rest, hsent, hqueue⟩ := hhalf.content
    rw [hsent, hqueue sy rfl]
    simp [Talk.items, (hall _).1, payloads]
  · rw [hstates]
    cases sy.state <;> decide
  · have hcredit := hhalf.credit sx sy rfl rfl hcan
    have hbound := (hhalf.bound sy rfl).1
    simp only [Talk.items, (hall _).1, List.filter_nil, payloads, List.filterMap_nil, bytes_nil, granted_nil,
      Nat.cast_zero] at hcredit
    omega

theorem ends_agree_exchange : ∃ sx sy, (init.play exchange).2.arriving .Initiator 1 = some sx ∧
    (init.play exchange).2.arriving .Acceptor 1 = some sy ∧ sx.sendWindow = sy.recvWindow := by
  have hx := Option.eq_some_of_isSome (o := (init.play exchange).2.arriving .Initiator 1) (by decide +kernel)
  have hy := Option.eq_some_of_isSome (o := (init.play exchange).2.arriving .Acceptor 1) (by decide +kernel)
  exact ⟨_, _, hx, hy, (((ends_agree exchange_run .Initiator 1).2 _ _ hx hy).2.2.2 (by decide +kernel)).1⟩

/-! ## Streams that were let go -/

/-- `x` has closed the stream `s`. -/
def Shuts (x : Role) (s : UInt32) (ls : List (Role × Event)) : Prop :=
  (x, .called (.closeStream s) (.ok .done)) ∈ ls

/-- `x` has reset the stream `s`. -/
def Resets (x : Role) (s : UInt32) (ls : List (Role × Event)) : Prop :=
  (x, .called (.resetStream s) (.ok .done)) ∈ ls

end Link

namespace FrameLink

variable {p p' : FrameLink} {x : Role} {s : UInt32} {ls : List (Role × Event)}

theorem past_call (hrun : Run Step init ls p) {c : Call} {reply : Reply} {outs : List Frame} {e : Endpoint}
    (hacts : (p.ends x).Acts c reply outs e) {P : StreamState → Prop} {stream : Stream}
    (hheld : (p.ends x).streams.lookup s = some stream)
    (hlost : ∀ left, e.streams.lookup s = some left → ¬ P left.state) :
    Talk.Past P x ((p.post x e outs (p.queue x)).talk s) := by
  have hflow := Talk.flow_of_run (talk_run hrun s)
  have hheld' : (p.talk s).held x = some stream := hheld
  have hused : (p.talk s).used = true := by
    by_contra hu
    have hnone := (hflow.fresh (by simpa using hu) x).1
    rw [hheld'] at hnone
    cases hnone
  have hstep := talk_step (s := s) (conforming_of_run hrun) (.call x hacts)
  refine ⟨?_, ?_, ?_⟩
  · -- An id stays used.
    have hmoves := hstep.moves
    generalize (p.post x e outs (p.queue x)).talk s = t at hmoves
    cases hmoves with
    | opened => rfl
    | quiet | closed | reset | received => exact hused
  · simp only [talk, post_queue]
    exact hflow.settled hheld'
  · simp only [talk, post_ends]
    exact hlost

theorem past_of_shuts (hrun : Run Step init ls p) (h : Link.Shuts x s ls) :
    Talk.Past (fun state => state.canSend) x (p.talk s) := by
  induction hrun with
  | nil => cases h
  | @snoc ls l p p' hrun hstep ih =>
    rcases List.mem_append.mp h with hbefore | hlast
    · exact (ih hbefore).moves (by simp [StreamState.canSend]) (fun h => h)
        (talk_step (conforming_of_run hrun) hstep).moves
    · obtain rfl := List.mem_singleton.mp hlast
      cases hstep with
      | call x hacts =>
        cases hacts with
        | @closed _ stream hest hlook _ =>
          refine past_call hrun (.closed hest hlook (by assumption)) hlook fun left hleft => ?_
          rw [afterClose_lookup, if_pos rfl] at hleft
          exact (Stream.afterLocalClose_some hleft).2.2.2.2

theorem past_of_resets (hrun : Run Step init ls p) (h : Link.Resets x s ls) :
    Talk.Past (fun _ => True) x (p.talk s) := by
  induction hrun with
  | nil => cases h
  | @snoc ls l p p' hrun hstep ih =>
    rcases List.mem_append.mp h with hbefore | hlast
    · exact (ih hbefore).moves id id (talk_step (conforming_of_run hrun) hstep).moves
    · obtain rfl := List.mem_singleton.mp hlast
      cases hstep with
      | call x hacts =>
        cases hacts with
        | @reset _ stream hest hlook =>
          refine past_call hrun (.reset hest hlook) hlook fun left hleft => ?_
          rw [Endpoint.drop, Finmap.lookup_erase] at hleft
          cases hleft

end FrameLink

namespace Link

variable {l : Link} {x : Role} {s : UInt32} {ls : List (Role × Event)}

/-- A stream that both ends have closed, or that one end has reset, is held by neither once the frames on
their way have arrived. -/
theorem let_go_released (h : Run Step init ls l) (hgone : (∀ x, Shuts x s ls) ∨ ∃ x, Resets x s ls) (x : Role) :
    l.arriving x s = none := by
  obtain ⟨p, ks, t, hprun, hrest, -, hall⟩ := arriving_run h s
  have hrun := (FrameLink.talk_run hprun s).append hrest
  have hmirror := Talk.mirrored_of_run hrun x
  simp only [Talk.coming, (hall _).1, (hall _).2, heard, List.foldl_nil] at hmirror
  cases hx : l.arriving x s with
  | none => rfl
  | some stream =>
    exfalso
    rw [hx, Option.map_some] at hmirror
    obtain ⟨state, hstate, hmir⟩ := Option.map_eq_some_iff.mp hmirror.symm
    obtain ⟨other, hother, hos⟩ := Option.map_eq_some_iff.mp hstate
    subst hos
    rcases hgone with hshut | ⟨y, hreset⟩
    · -- Neither end can send, so the stream would be closed on both sides.
      have hmute : ∀ y held, l.arriving y s = some held → ¬ held.state.canSend := fun y held hheld =>
        ((FrameLink.past_of_shuts hprun (hshut y)).run (by simp [StreamState.canSend]) id hrest).lost held
          ((hall y).2.trans hheld)
      have halive := Talk.alive_of_run hrun x stream ((hall x).2.trans hx)
      have hsend := hmute x stream hx
      have hsend' := hmute x.peer other hother
      rw [← hmir] at halive hsend
      revert halive hsend hsend'
      cases other.state <;> decide
    · have hnone : ∀ held, l.arriving y s ≠ some held := fun held hheld =>
        ((FrameLink.past_of_resets hprun hreset).run id id hrest).lost held ((hall y).2.trans hheld) trivial
      rcases x.eq_or_peer y with rfl | rfl
      · exact hnone stream hx
      · exact hnone other hother

/-- Both ends close stream 1; the two `Close` frames have not arrived. -/
def closing : List (Role × Act) :=
  exchange ++ [(.Initiator, .call (.closeStream 1)), (.Acceptor, .call (.closeStream 1))]

theorem let_go_released_closing : ((init.play closing).2.mgr .Acceptor).streams.lookup 1 ≠ none ∧
    (init.play closing).2.arriving .Acceptor 1 = none :=
  ⟨by decide +kernel, let_go_released (play_run (by decide +kernel))
    (.inl fun x => by cases x <;> simp only [Shuts] <;> decide +kernel) .Acceptor⟩

end Link

end TrenchDb.Transport
