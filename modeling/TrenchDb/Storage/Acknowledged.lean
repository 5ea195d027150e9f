import TrenchDb.Storage.Encoding
import TrenchDb.Storage.World

/-!
# Acknowledged changes

A handler answers `ok` whether or not the supervisor took its event. An event that it took is in the queue,
with the runner or in the log, once. An event that it refused is nowhere.
-/

open TrenchDb.Lib.Lts TrenchDb.Rpc TrenchDb.Transport

namespace TrenchDb.Storage

theorem Phase.Op.silent {c : Codecs} {h h' : Heap} {phase phase' : Phase} (hop : Phase.Op c h phase phase' h')
    {r : Request} {response : ResponseEnvelope} (hr : phase.request? = some r)
    (hphase : phase' = .returned (.ok response)) : r.event? = none := by
  cases hop with
  | @missing r' hkey hput hget =>
    obtain rfl : r' = r := Option.some.inj hr
    cases r' with
    | get q | contains q => rfl
    | put q => exact absurd rfl (hput q)
    | update q | delete q => cases hphase
    | addTable q | removeTable q => exact absurd rfl hkey
  | @reads r' id hkey hreads =>
    obtain rfl : r' = r := Option.some.inj hr
    cases r' with
    | get q | contains q => rfl
    | _ => cases hreads
  | refuses | adds | removes =>
    obtain rfl := Option.some.inj hr
    rfl
  | finds | makes | looks | changes => cases hphase

theorem Phase.Op.working {c : Codecs} {h h' : Heap} {phase phase' : Phase} (hop : Phase.Op c h phase phase' h') :
    phase.response = none ∧ ∃ r, phase.request? = some r := by
  cases hop <;> exact ⟨rfl, _, rfl⟩

namespace World

variable {c : Codecs} {w w' : World} {e : Event} {es : List Event} {h : Heap} {spawns : Bool} {i : Nat}
  {payload : List UInt8}

/-- Call `i` is a `put`, `update` or `delete` with this event, and its handler has returned `ok`. -/
def Acknowledged (c : Codecs) (w : World) (i : Nat) (payload : List UInt8) : Prop :=
  ∃ call r response, w.calls.calls[i]? = some call ∧ Request.parse c call.request = .ok r ∧ r.event? = some payload ∧
    call.phase = .returned (.ok response)

/-- What the call has in the log, and what it will have there once the queue is empty. -/
def entriesOf (w : World) (i : Nat) : List (Nat × WalEntry) := w.supervisor.entries.filter fun p => p.1 = i

structure Logged (c : Codecs) (w : World) : Prop where
  quiet : ∀ i, w.calls.response i = none → w.entriesOf i = [] ∧ i ∉ w.lost
  logged : ∀ i payload, Acknowledged c w i payload →
    w.entriesOf i = if i ∈ w.lost then [] else [(i, walEntry payload)]
  short : ∀ task ∈ w.supervisor.inflight, task.payload.length ≤ 2000

theorem Logged.unpublished (hw : Logged c w) (hentries : w'.supervisor.entries = w.supervisor.entries)
    (hinflight : ∀ task ∈ w'.supervisor.inflight, task ∈ w.supervisor.inflight) (hlost : w'.lost = w.lost)
    (hresponse : ∀ i, w'.calls.response i = none → w.calls.response i = none)
    (hacknowledged : ∀ i payload, Acknowledged c w' i payload → Acknowledged c w i payload) : Logged c w' := by
  have hentriesOf : w'.entriesOf = w.entriesOf := by
    funext i
    rw [entriesOf, hentries, entriesOf]
  refine ⟨fun i hi => ?_, fun i payload hi => ?_, fun task htask => hw.short task (hinflight task htask)⟩
  · rw [hentriesOf, hlost]
    exact hw.quiet i (hresponse i hi)
  · rw [hentriesOf, hlost]
    exact hw.logged i payload (hacknowledged i payload hi)

theorem Logged.invoke (hw : Logged c w) {request : RequestEnvelope} {calls : Calls}
    (hnext : w.calls.next c (.invoke request) = some calls) : Logged c { w with calls } := by
  obtain rfl := Option.some.inj hnext
  refine hw.unpublished rfl (fun _ htask => htask) rfl (fun j hj => ?_) fun j payload hj => ?_
  · have hj' := hj
    unfold Calls.response at hj ⊢
    rw [Calls.calls_append] at hj
    split_ifs at hj with hlast
    · simp [hlast]
    · exact hj
  · obtain ⟨call, r, response, hcall, hparse, hevent, hphase⟩ := hj
    rcases Calls.calls_invoke j hcall with hcall | ⟨-, rfl⟩
    · exact ⟨call, r, response, hcall, hparse, hevent, hphase⟩
    · simp only [Phase.start, hparse] at hphase
      cases hphase

theorem Logged.op (hw : Logged c w) (hfaithful : Calls.Faithful c w.calls) {calls : Calls} {changes : List Nat}
    (hnext : w.calls.next c (.op i) = some calls) : Logged c { w with calls, changes } := by
  obtain ⟨call, phase, heap, hi, hop, rfl⟩ := Calls.next_op hnext
  obtain ⟨hanswer, r, hr⟩ := hop.working
  refine hw.unpublished rfl (fun _ htask => htask) rfl (fun j hj => ?_) fun j payload hj => ?_
  · have hmoved : (w.calls.setPhase i call phase).response j = none := hj
    rw [Calls.response_setPhase hi] at hmoved
    split_ifs at hmoved with hsame
    · rw [hsame, Calls.response, hi]
      exact hanswer
    · exact hmoved
  · obtain ⟨call', r', response, hcall, hparse, hevent, hphase⟩ := hj
    have hmoved : (w.calls.setPhase i call phase).calls[j]? = some call' := hcall
    rw [Calls.calls_setPhase hi] at hmoved
    split_ifs at hmoved with hsame
    · obtain rfl := Option.some.inj hmoved
      obtain rfl := Except.ok.inj (hparse.symm.trans (hfaithful i call r hi hr))
      rw [hop.silent hr hphase] at hevent
      cases hevent
    · exact ⟨call', r', response, hmoved, hparse, hevent, hphase⟩

theorem published_entries (hnone : w.entriesOf i = []) (hkept : i ∉ w.lost) :
    (∀ j, j ≠ i → ((w.published i payload spawns).1.entries.filter fun p => p.1 = j) = w.entriesOf j ∧
      (j ∈ (w.published i payload spawns).2 ↔ j ∈ w.lost)) ∧
    ((w.published i payload spawns).1.entries.filter fun p => p.1 = i) =
      (if i ∈ (w.published i payload spawns).2 then [] else [(i, walEntry payload)]) ∧
    ∀ task ∈ (w.published i payload spawns).1.inflight, task ∈ w.supervisor.inflight ∨ task = { id := i, payload } := by
  unfold entriesOf at hnone ⊢
  by_cases hrefuses : w.supervisor.Refuses spawns
  · obtain ⟨hlost, hentries, hinflight⟩ := @published_refused w i payload spawns hrefuses
    rw [hlost, hentries, hinflight, hnone]
    exact ⟨fun j hj => ⟨rfl, by simp [hj]⟩, by simp, fun task htask => .inl htask⟩
  · obtain ⟨hlost, hentries, hinflight⟩ := @published_accepted w i payload spawns hrefuses
    rw [hlost, hentries, hinflight]
    refine ⟨fun j hj => ⟨by simp [List.filter_append, Ne.symm hj], Iff.rfl⟩, ?_, fun task htask => by simpa using htask⟩
    rw [List.filter_append, hnone, if_neg hkept]
    simp

theorem Logged.publish (hw : Logged c w) (hfaithful : Calls.Faithful c w.calls) {r : Request} {calls : Calls}
    (hr : w.calls.pending i = some r) (hpayload : r.event? = some payload)
    (hnext : w.calls.next c (.publish i) = some calls) :
    Logged c { w with
      calls, supervisor := (w.published i payload spawns).1, lost := (w.published i payload spawns).2 } := by
  obtain ⟨call, phase, hi, hpublish, rfl⟩ := Calls.next_publish hnext
  obtain ⟨call', hi', hchanged⟩ := pending_eq hr
  obtain rfl := Option.some.inj (hi.symm.trans hi')
  have hparse := hfaithful i call r hi (by rw [hchanged]; rfl)
  obtain ⟨_, -, -, hreturned⟩ := Phase.publish_cases hpublish
  obtain ⟨hnone, hkept⟩ := hw.quiet i (by simp [Calls.response, hi, hchanged, Phase.response])
  obtain ⟨hother, hself, hinflight⟩ := @published_entries w spawns i payload hnone hkept
  refine ⟨fun j hj => ?_, fun j payload' hj => ?_, fun task htask => ?_⟩
  · have hmoved : (w.calls.setPhase i call phase).response j = none := hj
    rw [Calls.response_setPhase hi, hreturned .new] at hmoved
    split_ifs at hmoved with hsame
    · cases hmoved
    obtain ⟨hentries, hlost⟩ := hother j hsame
    exact ⟨hentries.trans (hw.quiet j hmoved).1, fun hmem => (hw.quiet j hmoved).2 (hlost.mp hmem)⟩
  · obtain ⟨call', r', response, hcall, hparse', hevent, hphase⟩ := hj
    have hmoved : (w.calls.setPhase i call phase).calls[j]? = some call' := hcall
    rw [Calls.calls_setPhase hi] at hmoved
    split_ifs at hmoved with hsame
    · obtain rfl := Option.some.inj hmoved
      obtain rfl := Except.ok.inj (hparse'.symm.trans hparse)
      obtain rfl := Option.some.inj (hpayload.symm.trans hevent)
      rw [hsame]
      exact hself
    · obtain ⟨hentries, hlost⟩ := hother j hsame
      refine hentries.trans ((hw.logged j payload' ⟨call', r', response, hmoved, hparse', hevent, hphase⟩).trans ?_)
      exact if_congr hlost.symm rfl rfl
  · rcases hinflight task htask with htask | rfl
    · exact hw.short task htask
    · exact Request.event_length (Request.parse_ok hparse) hpayload

theorem Logged.turn (hw : Logged c w) {supervisor : EventLoopSupervisor} (hturn : w.supervisor.turn = some supervisor) :
    Logged c { w with supervisor } := by
  obtain ⟨hentries, hinflight⟩ := EventLoopSupervisor.turn_entries hturn hw.short
  exact hw.unpublished hentries hinflight rfl (fun _ hj => hj) fun _ _ hj => hj

theorem Logged.step (hw : Logged c w) (hfaithful : Calls.Faithful c w.calls) (hstep : Step c w e w') : Logged c w' := by
  obtain ⟨request, calls, rfl, hnext, rfl⟩ | ⟨i, calls, rfl, hnext, rfl⟩ |
    ⟨i, spawns, r, payload, calls, rfl, hr, hpayload, hnext, rfl⟩ | ⟨supervisor, rfl, hturn, rfl⟩ := next_cases hstep
  · exact hw.invoke hnext
  · exact hw.op hfaithful hnext
  · exact hw.publish hfaithful hr hpayload hnext
  · exact hw.turn hturn

theorem logged_initial : Logged c (initial h spawns) where
  quiet i _ := by cases spawns <;> exact ⟨rfl, List.not_mem_nil⟩
  logged i payload hi := by
    obtain ⟨call, r, response, hcall, -⟩ := hi
    simp [initial, Calls.initial] at hcall
  short task htask := by cases spawns <;> cases htask

theorem logged_of_run (hrun : Run (Step c) (initial h spawns) es w) : Logged c w := by
  induction hrun with
  | nil => exact logged_initial
  | snoc hrun hstep ih => exact ih.step (faithful_of_run hrun) hstep

theorem lost_step (hstep : Step c w e w') (j : Nat) :
    j ∈ w'.lost ↔ j ∈ w.lost ∨ ∃ spawns', e = .publish j spawns' ∧ w.supervisor.Refuses spawns' := by
  obtain ⟨_, _, rfl, -, rfl⟩ | ⟨_, _, rfl, -, rfl⟩ | ⟨i, spawns', r, payload, calls, rfl, -, -, -, rfl⟩ |
    ⟨_, rfl, -, rfl⟩ :=
    next_cases hstep
  · simp
  · simp
  · have hevent : (∃ spawns'', Event.publish i spawns' = .publish j spawns'' ∧ w.supervisor.Refuses spawns'') ↔
        j = i ∧ w.supervisor.Refuses spawns' := by
      constructor
      · rintro ⟨_, hl, hrefuses⟩
        cases hl
        exact ⟨rfl, hrefuses⟩
      · rintro ⟨rfl, hrefuses⟩
        exact ⟨_, rfl, hrefuses⟩
    rw [hevent]
    by_cases hrefuses : w.supervisor.Refuses spawns'
    · simp [(@published_refused w i payload spawns' hrefuses).1, hrefuses]
    · simp [(@published_accepted w i payload spawns' hrefuses).1, hrefuses]
  · simp

/-- In every state, the event of each acknowledged change that the supervisor took is in the queue, with the
runner or in the log, exactly once, and the others are nowhere. The supervisor refuses an event if its queue
is full, or if it has no runner and cannot spawn one. -/
theorem acknowledged_logged (hrun : Run (Step c) (initial h spawns) es w) :
    (∀ i payload, Acknowledged c w i payload → w.entriesOf i = if i ∈ w.lost then [] else [(i, walEntry payload)]) ∧
      ∀ e w', Step c w e w' → ∀ j,
        j ∈ w'.lost ↔ j ∈ w.lost ∨ ∃ spawns', e = .publish j spawns' ∧ w.supervisor.Refuses spawns' :=
  ⟨(logged_of_run hrun).logged, fun _ _ => lost_step⟩

/-! ## A full queue -/

theorem op_step {call : Call} {phase : Phase} {heap : Heap} (hi : w.calls.calls[i]? = some call)
    (hop : call.phase.op c w.calls.heap = some (phase, heap)) : ∃ w', Step c w (.op i) w' ∧
      w'.calls.calls[i]? = some { call with phase } ∧ w'.calls.calls.length = w.calls.calls.length ∧
      w'.supervisor = w.supervisor := by
  obtain ⟨calls, hnext, hcalls⟩ : ∃ calls, w.calls.next c (.op i) = some calls ∧
      calls.calls = (w.calls.setPhase i call phase).calls :=
    ⟨{ w.calls.setPhase i call phase with heap, bare := call.phase.bareAfter w.calls.heap w.calls.bare },
      by simp [Calls.next, hi, hop], rfl⟩
  refine ⟨{ w with calls, changes := if (calls.pending i).isSome then w.changes ++ [i] else w.changes },
    by simp [Step, next, hnext], ?_, ?_, rfl⟩
  · rw [hcalls, Calls.calls_setPhase hi, if_pos rfl]
  · rw [hcalls]
    simp [Calls.setPhase]

theorem published_supervisor :
    (w.published i payload spawns).1 = w.supervisor.publishStorageEvent { id := i, payload } spawns := by
  unfold published EventLoopSupervisor.publishStorageEvent
  rcases w.supervisor.push { id := i, payload } spawns with ⟨_ | _, _⟩ <;> rfl

theorem publish_step {call : Call} {r : Request} {phase : Phase} (hi : w.calls.calls[i]? = some call)
    (hchanged : call.phase = .changed r) (hpayload : r.event? = some payload)
    (hpublish : call.phase.publish c = some phase) : ∃ w', Step c w (.publish i spawns) w' ∧
      w'.calls.calls[i]? = some { call with phase } ∧ w'.calls.calls.length = w.calls.calls.length ∧
      w'.supervisor = w.supervisor.publishStorageEvent { id := i, payload } spawns := by
  have hnext : w.calls.next c (.publish i) = some (w.calls.setPhase i call phase) := by
    simp [Calls.next, hi, hpublish]
  have hpending : w.calls.pending i = some r := by simp [Calls.pending, hi, hchanged, Phase.pending]
  refine ⟨{ w with
      calls := w.calls.setPhase i call phase
      supervisor := (w.published i payload spawns).1
      lost := (w.published i payload spawns).2 }, by simp [Step, next, hnext, hpending, hpayload], ?_, ?_,
    published_supervisor⟩
  · exact (Calls.calls_setPhase hi i).trans (if_pos rfl)
  · simp [Calls.setPhase]

/-- One `put` from its call to its response. -/
def putRound (spawns : Bool) (i : Nat) : List Event := [.invoke putAlice, .op i, .op i, .publish i spawns]

def aliceEvent : List UInt8 := asBytes ("insert" ++ ":" ++ "users" ++ ":" ++ "alice")

theorem putRound_run (w : World) (spawns : Bool) :
    ∃ w', Run (Step prefixedCodecs) w (putRound spawns w.calls.calls.length) w' ∧
      Acknowledged prefixedCodecs w' w.calls.calls.length aliceEvent ∧
      w'.calls.calls.length = w.calls.calls.length + 1 ∧ w'.supervisor =
        w.supervisor.publishStorageEvent { id := w.calls.calls.length, payload := aliceEvent } spawns := by
  set n := w.calls.calls.length with hn
  let call : Call := { request := putAlice, phase := .called (.put ⟨"users", "alice", [1]⟩), before := w.calls.done }
  let w₁ : World := { w with calls := { w.calls with calls := w.calls.calls ++ [call] } }
  have hstart : Phase.start prefixedCodecs putAlice = call.phase := by
    simp only [Phase.start, parse_putAlice, call]
  have hinvoke : Step prefixedCodecs w (.invoke putAlice) w₁ := by
    simp only [Step, next, Calls.next, hstart]
    rfl
  have hcall : w₁.calls.calls[n]? = some call := List.getElem?_concat_length
  obtain ⟨w₂, hlook, hholding, hlength₂, hsupervisor₂⟩ := @op_step prefixedCodecs w₁ n call _ _ hcall rfl
  obtain ⟨w₃, hchange, hchanged, hlength₃, hsupervisor₃⟩ := @op_step prefixedCodecs w₂ n _ _ _ hholding rfl
  obtain ⟨w₄, hpublish, hreturned, hlength₄, hsupervisor₄⟩ :=
    @publish_step prefixedCodecs w₃ spawns n aliceEvent _ _ _ hchanged rfl rfl rfl
  refine ⟨w₄, .cons hinvoke (.cons hlook (.cons hchange (.single hpublish))), ?_, ?_, ?_⟩
  · exact ⟨_, _, _, hreturned, parse_putAlice, rfl, rfl⟩
  · rw [hlength₄, hlength₃, hlength₂]
    simp [w₁, hn]
  · rw [hsupervisor₄, hsupervisor₃, hsupervisor₂]

theorem acknowledged_logged_put : ∃ w, Run (Step prefixedCodecs) (initial .new true) (putRound true 0) w ∧
    Acknowledged prefixedCodecs w 0 aliceEvent ∧
    w.entriesOf 0 = if 0 ∈ w.lost then [] else [(0, walEntry aliceEvent)] := by
  obtain ⟨w, hrun, hacknowledged, -⟩ := putRound_run (initial .new true) true
  exact ⟨w, hrun, hacknowledged, (acknowledged_logged hrun).1 0 aliceEvent hacknowledged⟩

theorem putRounds_run {n : Nat} (hn : n ≤ QUEUE_CAPACITY) :
    ∃ w, Run (Step prefixedCodecs) (initial .new true) ((List.range n).flatMap (putRound true)) w ∧
      w.calls.calls.length = n ∧ w.supervisor.runner = .waiting ∧ w.supervisor.queue.length = n := by
  induction n with
  | zero => exact ⟨_, .nil, rfl, rfl, rfl⟩
  | succ n ih =>
    obtain ⟨w, hrun, hcalls, hrunner, hqueue⟩ := ih (Nat.le_of_succ_le hn)
    obtain ⟨w', hround, -, hcalls', hsupervisor⟩ := putRound_run w true
    rw [hcalls] at hround hcalls' hsupervisor
    have hroom : producerPush QUEUE_CAPACITY w.supervisor.queue { id := n, payload := aliceEvent } =
        .ok (w.supervisor.queue ++ [{ id := n, payload := aliceEvent }]) := if_neg fun hfull => by omega
    have hpush : w'.supervisor = { w.supervisor with
        queue := w.supervisor.queue ++ [{ id := n, payload := aliceEvent }] } := by
      simp [hsupervisor, EventLoopSupervisor.publishStorageEvent, EventLoopSupervisor.push,
        EventLoopSupervisor.ensureRunnerAlive, hrunner, hroom]
    refine ⟨w', ?_, hcalls', ?_, ?_⟩
    · rw [List.range_succ, List.flatMap_append, List.flatMap_singleton]
      exact hrun.append hround
    · rw [hpush]
      exact hrunner
    · rw [hpush, List.length_append, hqueue]
      rfl

theorem putRound_refused (hw : Logged prefixedCodecs w) (hrefuses : w.supervisor.Refuses spawns) :
    ∃ w', Run (Step prefixedCodecs) w (putRound spawns w.calls.calls.length) w' ∧
      Acknowledged prefixedCodecs w' w.calls.calls.length aliceEvent ∧ w'.entriesOf w.calls.calls.length = [] := by
  obtain ⟨w', hround, hacknowledged, -, hsupervisor⟩ := putRound_run w spawns
  have hquiet := hw.quiet w.calls.calls.length (by simp [Calls.response])
  refine ⟨w', hround, hacknowledged, ?_⟩
  unfold entriesOf
  rw [hsupervisor]
  exact (congrArg (List.filter _) (EventLoopSupervisor.push_refused hrefuses).2.1).trans hquiet.1

/-- The last of 1025 puts is answered with `ok`, and its event is nowhere. So is the event of a `put` that
finds no runner and cannot spawn one. -/
theorem acknowledged_dropped :
    (∃ w, Run (Step prefixedCodecs) (initial .new true) ((List.range (QUEUE_CAPACITY + 1)).flatMap (putRound true)) w ∧
      Acknowledged prefixedCodecs w QUEUE_CAPACITY aliceEvent ∧ w.entriesOf QUEUE_CAPACITY = []) ∧
    ∃ w, Run (Step prefixedCodecs) (initial .new false) (putRound false 0) w ∧
      Acknowledged prefixedCodecs w 0 aliceEvent ∧ w.entriesOf 0 = [] := by
  constructor
  · obtain ⟨w, hrun, hcalls, -, hqueue⟩ := putRounds_run le_rfl
    obtain ⟨w', hround, hdropped⟩ := @putRound_refused w true (logged_of_run hrun) (.inr hqueue.ge)
    rw [hcalls] at hround hdropped
    refine ⟨w', ?_, hdropped⟩
    rw [List.range_succ, List.flatMap_append, List.flatMap_singleton]
    exact hrun.append hround
  · exact putRound_refused logged_initial (.inl ⟨rfl, rfl⟩)

end World

end TrenchDb.Storage
