import TrenchDb.Transport.Flow

/-!
# Credit, order and refusals on a link

In every run of two managers on one link, whatever the interleaving and the chunks: credit
is conserved, payloads are delivered in order, and no arrival is refused but those for streams
that the receiving end has let go.
-/

open TrenchDb.Lib.Lts

namespace TrenchDb.Transport

/-! ## What was sent and taken -/

def Deed.sent? : Deed → Option (List UInt8)
  | .sent payload => some payload
  | _ => none

def Deed.took? : Deed → Option (List UInt8)
  | .took payload => some payload
  | _ => none

/-- The payloads that `x` has sent. -/
def sentBy (x : Role) (ls : List (Role × Deed)) : List (List UInt8) :=
  ls.filterMap fun l => if l.1 = x then l.2.sent? else none

/-- The payloads that the application at `x` has taken. -/
def tookBy (x : Role) (ls : List (Role × Deed)) : List (List UInt8) :=
  ls.filterMap fun l => if l.1 = x then l.2.took? else none

section Ledger

variable {x y : Role} {ls : List (Role × Deed)} {d : Deed}

theorem sentBy_snoc : sentBy x (ls ++ [(x, d)]) = sentBy x ls ++ d.sent?.toList := by
  rw [sentBy, List.filterMap_append]
  cases hd : d.sent? <;> simp [sentBy, hd]

theorem sentBy_snoc_ne (h : y ≠ x) : sentBy y (ls ++ [(x, d)]) = sentBy y ls := by
  rw [sentBy, List.filterMap_append]
  simp [sentBy, Ne.symm h]

theorem tookBy_snoc : tookBy x (ls ++ [(x, d)]) = tookBy x ls ++ d.took?.toList := by
  rw [tookBy, List.filterMap_append]
  cases hd : d.took? <;> simp [tookBy, hd]

theorem tookBy_snoc_ne (h : y ≠ x) : tookBy y (ls ++ [(x, d)]) = tookBy y ls := by
  rw [tookBy, List.filterMap_append]
  simp [tookBy, Ne.symm h]

end Ledger

namespace Talk

variable {s : UInt32} {t t' : Talk} {x : Role}

/-- The stream at `x`, as it will be once the `Open` on its way has arrived. -/
def view (t : Talk) (s : UInt32) (x : Role) : Option Stream :=
  if .opens ∈ t.line x then some (Stream.new s) else t.held x

/-- What is on its way to `x` behind the `Open`. -/
def items (t : Talk) (x : Role) : List Item := (t.line x).filter fun i => i ≠ .opens

/-! ## The invariant -/

structure Flow (s : UInt32) (ls : List (Role × Deed)) (t : Talk) : Prop where
  fresh : t.used = false → ∀ x, t.held x = none ∧ t.line x = [] ∧ sentBy x ls = [] ∧ tookBy x ls = []
  opening : ∀ x, .opens ∈ t.line x → ∃ rest, t.line x = .opens :: rest ∧ .opens ∉ rest ∧ t.held x = none
  known : t.used → ∀ x, .opens ∉ t.line x → (x, .opened) ∈ ls ∨ (x, .accepted) ∈ ls
  half : ∀ x, Half (t.view s x) (t.view s x.peer) (t.items x.peer) (t.items x) (sentBy x ls) (tookBy x.peer ls)

variable {ls : List (Role × Deed)}

theorem items_eq (h : .opens ∉ t.line x) : t.items x = t.line x := by
  unfold items
  rw [List.filter_eq_self]
  intro i hi
  have hne : i ≠ .opens := fun heq => h (heq ▸ hi)
  simpa using hne

theorem view_eq (h : .opens ∉ t.line x) : t.view s x = t.held x := if_neg h

theorem Flow.settled (h : Flow s ls t) {stream : Stream} (hheld : t.held x = some stream) :
    .opens ∉ t.line x := by
  intro hmem
  obtain ⟨-, -, -, hnone⟩ := h.opening x hmem
  rw [hnone] at hheld
  cases hheld

theorem flow_init (s : UInt32) : Flow s [] init where
  fresh _ _ := ⟨rfl, rfl, rfl, rfl⟩
  opening _ h := by cases h
  known h := by cases h
  half _ := Half.blank

theorem Flow.act (h : Flow s ls t) {stream : Stream} (hheld : t.held x = some stream) {held : Option Stream}
    {outs : List Item} {d : Deed} (houts : .opens ∉ outs)
    (hself : Half held (t.view s x.peer) (t.items x.peer ++ outs) (t.items x)
      (sentBy x ls ++ d.sent?.toList) (tookBy x.peer ls))
    (hpeer : Half (t.view s x.peer) held (t.items x) (t.items x.peer ++ outs)
      (sentBy x.peer ls) (tookBy x ls ++ d.took?.toList)) :
    Flow s (ls ++ [(x, d)]) (t.post x held outs (t.line x)) := by
  have hx := h.settled hheld
  have hview : (t.post x held outs (t.line x)).view s x = held := by rw [view_eq (by simpa using hx), post_held]
  have hviewp : (t.post x held outs (t.line x)).view s x.peer = t.view s x.peer := by
    simp only [view, post_line_peer, post_held_peer, List.mem_append, houts, or_false]
  have hitems : (t.post x held outs (t.line x)).items x = t.items x := by simp [items]
  have hitemsp : (t.post x held outs (t.line x)).items x.peer = t.items x.peer ++ outs := by
    simp only [items, post_line_peer, List.filter_append]
    congr 1
    rw [List.filter_eq_self]
    intro i hi
    have hne : i ≠ .opens := fun heq => houts (heq ▸ hi)
    simpa using hne
  refine ⟨?_, ?_, ?_, ?_⟩
  · intro hused
    have := (h.fresh hused x).1
    rw [this] at hheld
    cases hheld
  · intro y hy
    rcases x.eq_or_peer y with rfl | rfl
    · rw [post_line] at hy
      exact absurd hy hx
    · rw [post_line_peer, List.mem_append] at hy
      obtain ⟨rest, hl, hn, hh⟩ := h.opening x.peer (hy.resolve_right houts)
      refine ⟨rest ++ outs, by rw [post_line_peer, hl]; rfl, ?_, by rw [post_held_peer, hh]⟩
      rw [List.mem_append]
      exact fun hmem => hmem.elim hn houts
  · intro hused y hy
    have hy' : .opens ∉ t.line y := by
      rcases x.eq_or_peer y with rfl | rfl
      · exact hx
      · rw [post_line_peer, List.mem_append] at hy
        exact fun hmem => hy (.inl hmem)
    exact (h.known hused y hy').imp (List.mem_append_left _) (List.mem_append_left _)
  · intro y
    rcases x.eq_or_peer y with rfl | rfl
    · rw [hview, hviewp, hitems, hitemsp, sentBy_snoc, tookBy_snoc_ne (Role.peer_ne y)]
      exact hself
    · rw [Role.peer_peer, hview, hviewp, hitems, hitemsp, sentBy_snoc_ne (Role.peer_ne x), tookBy_snoc]
      exact hpeer

theorem Flow.behind (h : Flow s ls t) {i : Item} {rest : List Item} (hline : t.line x = i :: rest)
    (hi : i ≠ .opens) : .opens ∉ t.line x := by
  intro hmem
  obtain ⟨rest', hl, -⟩ := h.opening x hmem
  rw [hline] at hl
  exact hi (List.cons.inj hl).1

theorem Flow.used (h : Flow s ls t) {i : Item} {rest : List Item} (hline : t.line x = i :: rest) : t.used ≠ false := by
  intro hused
  have hnil := (h.fresh hused x).2.1
  rw [hline] at hnil
  cases hnil

theorem Flow.opening_heard (h : Flow s ls t) {rest : List Item} (hrest : .opens ∉ rest) {held : Option Stream}
    {y : Role} (hy : .opens ∈ (t.post x held [] rest).line y) : ∃ rest', (t.post x held [] rest).line y =
      .opens :: rest' ∧ .opens ∉ rest' ∧ (t.post x held [] rest).held y = none := by
  rcases x.eq_or_peer y with rfl | rfl
  · rw [post_line] at hy
    exact absurd hy hrest
  · rw [post_line_peer, List.append_nil] at hy
    obtain ⟨rest', hl, hn, hh⟩ := h.opening x.peer hy
    exact ⟨rest', by rw [post_line_peer, hl]; simp, hn, by rw [post_held_peer, hh]⟩

theorem Flow.hear (h : Flow s ls t) {i : Item} {rest : List Item} (hline : t.line x = i :: rest)
    (hi : i ≠ .opens) {held : Option Stream}
    (hself : Half held (t.view s x.peer) (t.items x.peer) rest (sentBy x ls) (tookBy x.peer ls))
    (hpeer : Half (t.view s x.peer) held rest (t.items x.peer) (sentBy x.peer ls) (tookBy x ls)) :
    Flow s (ls ++ [(x, .other)]) (t.post x held [] rest) := by
  have hx := h.behind hline hi
  have hrest : .opens ∉ rest := fun hmem => hx (hline ▸ List.mem_cons_of_mem _ hmem)
  have hview : (t.post x held [] rest).view s x = held := by rw [view_eq (by simpa using hrest), post_held]
  have hviewp : (t.post x held [] rest).view s x.peer = t.view s x.peer := by simp [view]
  have hitems : (t.post x held [] rest).items x = rest := by rw [items_eq (by simpa using hrest), post_line]
  have hitemsp : (t.post x held [] rest).items x.peer = t.items x.peer := by simp [items]
  refine ⟨?_, ?_, ?_, ?_⟩
  · exact fun hused => absurd hused (h.used hline)
  · exact fun y => h.opening_heard hrest
  · intro hused y hy
    have hy' : .opens ∉ t.line y := by
      rcases x.eq_or_peer y with rfl | rfl
      · exact hx
      · simpa using hy
    exact (h.known hused y hy').imp (List.mem_append_left _) (List.mem_append_left _)
  · intro y
    rcases x.eq_or_peer y with rfl | rfl
    · rw [hview, hviewp, hitems, hitemsp, sentBy_snoc, tookBy_snoc_ne (Role.peer_ne y)]
      simpa [Deed.sent?] using hself
    · rw [Role.peer_peer, hview, hviewp, hitems, hitemsp, sentBy_snoc_ne (Role.peer_ne x), tookBy_snoc]
      simpa [Deed.took?] using hpeer

theorem Flow.hearOpen (h : Flow s ls t) {rest : List Item} (hline : t.line x = .opens :: rest) :
    t.held x = none ∧
      Flow s (ls ++ [(x, .accepted)]) (t.post x (some (Stream.new s)) [] rest) := by
  have hmem : .opens ∈ t.line x := by rw [hline]; exact List.mem_cons_self
  obtain ⟨rest', hl, hrest, hnone⟩ := h.opening x hmem
  rw [hline] at hl
  obtain rfl := (List.cons.inj hl).2
  have hview : (t.post x (some (Stream.new s)) [] rest).view s x = t.view s x := by
    rw [view_eq (by simpa using hrest), post_held, view, if_pos hmem]
  have hviewp : (t.post x (some (Stream.new s)) [] rest).view s x.peer = t.view s x.peer := by simp [view]
  have hitems : (t.post x (some (Stream.new s)) [] rest).items x = t.items x := by simp [items, hline]
  have hitemsp : (t.post x (some (Stream.new s)) [] rest).items x.peer = t.items x.peer := by simp [items]
  refine ⟨hnone, ?_, ?_, ?_, ?_⟩
  · exact fun hused => absurd hused (h.used hline)
  · exact fun y => h.opening_heard hrest
  · intro hused y hy
    rcases x.eq_or_peer y with rfl | rfl
    · exact .inr (by simp)
    · rw [post_line_peer, List.append_nil] at hy
      exact (h.known hused x.peer hy).imp (List.mem_append_left _) (List.mem_append_left _)
  · intro y
    have hy := h.half y
    rcases x.eq_or_peer y with rfl | rfl
    · rw [hview, hviewp, hitems, hitemsp, sentBy_snoc, tookBy_snoc_ne (Role.peer_ne y)]
      simpa [Deed.sent?] using hy
    · rw [Role.peer_peer] at hy ⊢
      rw [hview, hviewp, hitems, hitemsp, sentBy_snoc_ne (Role.peer_ne x), tookBy_snoc]
      simpa [Deed.took?] using hy

theorem Flow.open_ (h : Flow s ls t) (hused : t.used = false) :
    Flow s (ls ++ [(opener s, .opened)])
      { t.post (opener s) (some (Stream.new s)) [.opens] (t.line (opener s)) with used := true } := by
  generalize opener s = x
  obtain ⟨hheld, hline, hsent, htook⟩ := h.fresh hused x
  obtain ⟨hheldp, hlinep, hsentp, htookp⟩ := h.fresh hused x.peer
  have hl : (t.post x (some (Stream.new s)) [.opens] (t.line x)).line x = [] := post_line.trans hline
  have hlp : (t.post x (some (Stream.new s)) [.opens] (t.line x)).line x.peer = [.opens] := by
    rw [post_line_peer, hlinep]
    rfl
  have hh : (t.post x (some (Stream.new s)) [.opens] (t.line x)).held x = some (Stream.new s) := post_held
  have hhp : (t.post x (some (Stream.new s)) [.opens] (t.line x)).held x.peer = none :=
    post_held_peer.trans hheldp
  generalize t.post x (some (Stream.new s)) [.opens] (t.line x) = t' at hl hlp hh hhp
  have hview : ∀ y, ({ t' with used := true } : Talk).view s y = some (Stream.new s) ∧
      ({ t' with used := true } : Talk).items y = [] := by
    intro y
    rcases x.eq_or_peer y with rfl | rfl
    · simp [view, items, hl, hh]
    · simp [view, items, hlp]
  refine ⟨nofun, ?_, ?_, ?_⟩
  · intro y hy
    rcases x.eq_or_peer y with rfl | rfl
    · rw [hl] at hy
      cases hy
    · exact ⟨[], hlp, by simp, hhp⟩
  · intro _ y hy
    rcases x.eq_or_peer y with rfl | rfl
    · exact .inl (by simp)
    · rw [hlp] at hy
      exact absurd List.mem_cons_self hy
  · intro y
    rw [(hview y).1, (hview y.peer).1, (hview y).2, (hview y.peer).2]
    rcases x.eq_or_peer y with rfl | rfl
    · rw [sentBy_snoc, tookBy_snoc_ne (Role.peer_ne y), hsent, htookp]
      exact Half.init s
    · rw [Role.peer_peer, sentBy_snoc_ne (Role.peer_ne x), tookBy_snoc, hsentp, htook]
      exact Half.init s

theorem Flow.half_self (h : Flow s ls t) {stream : Stream} (hheld : t.held x = some stream) :
    Half (some stream) (t.view s x.peer) (t.items x.peer) (t.items x) (sentBy x ls) (tookBy x.peer ls) := by
  have hview : t.view s x = some stream := (view_eq (h.settled hheld)).trans hheld
  exact hview ▸ h.half x

theorem Flow.half_peer (h : Flow s ls t) {stream : Stream} (hheld : t.held x = some stream) :
    Half (t.view s x.peer) (some stream) (t.items x) (t.items x.peer) (sentBy x.peer ls) (tookBy x ls) := by
  have hview : t.view s x = some stream := (view_eq (h.settled hheld)).trans hheld
  have hhalf := h.half x.peer
  rwa [Role.peer_peer, hview] at hhalf

theorem Flow.idle (h : Flow s ls t) : Flow s (ls ++ [(x, .other)]) t := by
  refine ⟨fun hu y => ?_, h.opening, fun hu y hy => ?_, fun y => ?_⟩
  · obtain ⟨hheld, hline, hsent, htook⟩ := h.fresh hu y
    refine ⟨hheld, hline, ?_, ?_⟩
    · rcases x.eq_or_peer y with rfl | rfl
      · rw [sentBy_snoc, hsent]
        rfl
      · rw [sentBy_snoc_ne (Role.peer_ne x), hsent]
    · rcases x.eq_or_peer y with rfl | rfl
      · rw [tookBy_snoc, htook]
        rfl
      · rw [tookBy_snoc_ne (Role.peer_ne x), htook]
  · exact (h.known hu y hy).imp (List.mem_append_left _) (List.mem_append_left _)
  · have hy := h.half y
    rcases x.eq_or_peer y with rfl | rfl
    · rw [sentBy_snoc, tookBy_snoc_ne (Role.peer_ne y)]
      simpa [Deed.sent?] using hy
    · rw [Role.peer_peer] at hy ⊢
      rw [sentBy_snoc_ne (Role.peer_ne x), tookBy_snoc]
      simpa [Deed.took?] using hy

theorem Flow.closed (h : Flow s ls t) {stream : Stream} (hheld : t.held x = some stream) :
    Flow s (ls ++ [(x, .other)]) (t.post x stream.afterLocalClose [.close] (t.line x)) := by
  refine h.act hheld (by simp) ?_ ?_
  · simp only [Deed.sent?, Option.toList_none, List.append_nil]
    refine ((h.half_self hheld).sender ?_).tells rfl fun _ sa hsa => (Stream.afterLocalClose_some hsa).2.2.2.2
    intro sa hsa
    obtain ⟨hw, -, -, -, hsend⟩ := Stream.afterLocalClose_some hsa
    exact ⟨stream, rfl, hw, fun hcan => absurd hcan hsend⟩
  · simp only [Deed.took?, Option.toList_none, List.append_nil]
    refine ((h.half_peer hheld).receiver ?_).upward _ (by simp [Item.increment])
    intro sb hsb
    obtain ⟨-, hw, hq, hc, -⟩ := Stream.afterLocalClose_some hsb
    exact ⟨stream, rfl, hw, hq, hc⟩

theorem Flow.took (h : Flow s ls t) {stream rest : Stream} {payload : List UInt8} (hheld : t.held x = some stream)
    (hpop : stream.popRecv = (some payload, rest)) : Flow s (ls ++ [(x, .took payload)]) (t.post x (some rest)
      (if stream.state.canReceive ∧ payload ≠ [] then [.window (UInt32.ofNat payload.length)] else [])
      (t.line x)) := by
  have hrest : rest.sendWindow = stream.sendWindow ∧ rest.state = stream.state := by
    rw [(Stream.popRecv_some hpop).2]
    exact ⟨rfl, rfl⟩
  refine h.act hheld (by split_ifs <;> simp) ?_ ((h.half_peer hheld).takes hpop)
  simp only [Deed.sent?, Option.toList_none, List.append_nil]
  have hkept : Half (some rest) (t.view s x.peer) (t.items x.peer) (t.items x) (sentBy x ls) (tookBy x.peer ls) := by
    refine (h.half_self hheld).sender ?_
    rintro sa ⟨rfl⟩
    exact ⟨stream, rfl, hrest.1, fun hsend => hrest.2 ▸ hsend⟩
  split_ifs
  · exact hkept.tells rfl (by simp [Item.ends])
  · simpa using hkept

section Hears

variable {i : Item} {a b : Option Stream} {down up : List Item} {sent got : List (List UInt8)}

theorem sender_hears (h : Half a b down (i :: up) sent got) (hi : i ≠ .opens) :
    Half (receive s i a) b down up sent got := by
  cases i with
  | opens => exact absurd rfl hi
  | data payload =>
    have hup := h.upward up (by simp [Item.increment])
    cases a with
    | none => exact hup
    | some stream =>
      refine hup.sender ?_
      rintro sa hsa
      simp only [receive, Option.some.injEq] at hsa
      refine ⟨stream, rfl, ?_⟩
      split_ifs at hsa <;> subst hsa <;> exact ⟨rfl, id⟩
  | close =>
    have hup := h.upward up (by simp [Item.increment])
    cases a with
    | none => exact hup
    | some stream =>
      refine hup.sender fun sa hsa => ?_
      obtain ⟨hw, -, -, -, hsend⟩ := Stream.afterRemoteClose_some hsa
      exact ⟨stream, rfl, hw, hsend⟩
  | reset => exact (h.upward up (by simp [Item.increment])).sender (by simp [receive])
  | window increment => cases a <;> exact h.regains

theorem receiver_hears (h : Half a b (i :: down) up sent got) (hi : i ≠ .opens) :
    Half a (receive s i b) down up sent got := by
  cases i with
  | opens => exact absurd rfl hi
  | data payload =>
    cases b with
    | none => exact h.losesData
    | some stream =>
      obtain ⟨hcan, -, hkept⟩ := h.hearsData
      simpa only [receive, if_pos hcan] using hkept
  | close =>
    cases b with
    | none => exact h.hears rfl
    | some stream => exact h.hearsClose
  | reset => exact (h.hears rfl).gone
  | window increment =>
    refine (h.hears rfl).receiver ?_
    cases b with
    | none => simp [receive]
    | some stream =>
      rintro sb ⟨rfl⟩
      exact ⟨stream, rfl, rfl, rfl, rfl⟩

end Hears

theorem Flow.received (h : Flow s ls t) {i : Item} {rest : List Item} (hline : t.line x = i :: rest) :
    Flow s (ls ++ [(x, if i = .opens ∧ t.held x = none then .accepted else .other)])
      (t.post x (receive s i (t.held x)) [] rest) := by
  by_cases hi : i = .opens
  · subst hi
    obtain ⟨hnone, hflow⟩ := h.hearOpen hline
    rw [hnone, if_pos ⟨rfl, rfl⟩]
    exact hflow
  · rw [if_neg fun hc => hi hc.1]
    have hx := h.behind hline hi
    have hitems : t.items x = i :: rest := (items_eq hx).trans hline
    have hsender := h.half x
    have hreceiver := h.half x.peer
    rw [view_eq hx, hitems] at hsender
    rw [Role.peer_peer, view_eq hx, hitems] at hreceiver
    exact h.hear hline hi (sender_hears hsender hi) (receiver_hears hreceiver hi)

theorem Flow.step (h : Flow s ls t) {l : Role × Deed} (hstep : Step s t l t') : Flow s (ls ++ [l]) t' := by
  cases hstep with
  | idle x => exact h.idle
  | opened hused => exact h.open_ hused
  | sent x hheld hsend hne hwin =>
    refine h.act hheld (by simp) ((h.half_self hheld).sends hsend hwin) ?_
    simp only [Deed.took?, Option.toList_none, List.append_nil]
    refine ((h.half_peer hheld).receiver ?_).upward _ (by simp [Item.increment])
    rintro sb ⟨rfl⟩
    exact ⟨_, rfl, rfl, rfl, rfl⟩
  | overflowed x hheld hsend hwin hbig =>
    refine h.act hheld (by simp) ?_ ?_
    · simpa [Deed.sent?] using (h.half_self hheld).overflows hsend hwin hbig
    · simp only [Deed.took?, Option.toList_none, List.append_nil]
      refine (h.half_peer hheld).receiver ?_
      rintro sb ⟨rfl⟩
      exact ⟨_, rfl, rfl, rfl, rfl⟩
  | closed x hheld => exact h.closed hheld
  | reset x hheld =>
    refine h.act hheld (by simp) ?_ ?_
    · simp only [Deed.sent?, Option.toList_none, List.append_nil]
      exact ((h.half_self hheld).sender (by simp)).tells rfl (by simp)
    · simp only [Deed.took?, Option.toList_none, List.append_nil]
      exact (h.half_peer hheld).gone.upward _ (by simp [Item.increment])
  | took x hheld hpop => exact h.took hheld hpop
  | received x hline => exact h.received hline

theorem flow_of_run (h : Run (Step s) init ls t) : Flow s ls t :=
  h.invariant (flow_init s) fun _ _ _ _ hflow hstep => hflow.step hstep

end Talk

end TrenchDb.Transport
