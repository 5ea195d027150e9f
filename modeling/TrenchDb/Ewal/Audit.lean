import Mathlib.Data.Set.List
import TrenchDb.Ewal.Text
import TrenchDb.Storage.Acknowledged
import TrenchDb.Storage.EventText

/-!
# What the log file tells

The handlers change the store and publish events, the runner of the supervisor takes them to the live log, and the
log is a file. At rest the file holds the events of the acknowledged changes, but for those that were refused, and
it can be read in one way only.
-/

open TrenchDb.Lib.Lts TrenchDb.Rpc TrenchDb.Transport

namespace TrenchDb.Storage

theorem perm_flatMap_filter {α : Type} {key : α → Nat} {l : List α} {n : Nat} (h : ∀ a ∈ l, key a < n) :
    l.Perm ((List.range n).flatMap fun i => l.filter fun a => key a = i) := by
  induction n generalizing l with
  | zero =>
    have hnil : l = [] := List.eq_nil_iff_forall_not_mem.mpr fun a ha => Nat.not_lt_zero _ (h a ha)
    simp [hnil]
  | succ n ih =>
    rw [List.range_succ, List.flatMap_append, List.flatMap_singleton]
    refine (List.filter_append_perm (fun a => decide (key a < n)) l).symm.trans (.append ?_ (.of_eq ?_))
    · refine (ih fun a ha => by simpa using (List.mem_filter.mp ha).2).trans (.of_eq ?_)
      refine List.flatMap_congr fun i hi => ?_
      rw [List.filter_filter]
      refine List.filter_congr fun a _ => ?_
      have hlt := List.mem_range.mp hi
      by_cases heq : key a = i <;> simp [heq, hlt]
    · refine List.filter_congr fun a ha => ?_
      have hlt := h a ha
      by_cases heq : key a = n
      · simp [heq]
      · simp [heq]
        omega

theorem payload_walEntry (payload : List UInt8) : (walEntry payload).payload = payload := by
  unfold walEntry
  split <;> rfl

theorem Request.act_of_event {c : Codecs} {r : Request} {payload : List UInt8} (he : r.event? = some payload)
    (t : Table) : ∃ reply, (r.act c (some t)).1 = .ok reply := by
  cases r with
  | put q | update q | delete q => exact ⟨_, rfl⟩
  | get q | contains q | addTable q | removeTable q => cases he

theorem Request.exists_event {r : Request} {payload : List UInt8} (hr : r.validate = .ok ())
    (he : r.event? = some payload) : payload ∈ Set.range StorageEvent.payload := by
  have htable := validate_table hr
  cases r with
  | put q => exact ⟨⟨.insert, q.table, q.key, htable, validate_key hr rfl⟩, Option.some.inj he⟩
  | update q => exact ⟨⟨.update, q.table, q.key, htable, validate_key hr rfl⟩, Option.some.inj he⟩
  | delete q => exact ⟨⟨.delete, q.table, q.key, htable, validate_key hr rfl⟩, Option.some.inj he⟩
  | get q | contains q | addTable q | removeTable q => cases he

namespace EventLoopSupervisor

variable {s s' : EventLoopSupervisor} {task : Task} {spawns : Bool}

theorem push_dead (hdead : (s.push task spawns).2.runner = .dead) :
    s.runner = .dead ∧ (s.push task spawns).2 = s := by
  unfold push ensureRunnerAlive at hdead ⊢
  cases hrunner : s.runner with
  | dead =>
    rw [hrunner] at hdead
    cases spawns with
    | false => exact ⟨rfl, rfl⟩
    | true => cases hpush : producerPush QUEUE_CAPACITY s.queue task <;> simp [hpush] at hdead
  | waiting | dispatching =>
    rw [hrunner] at hdead
    cases hpush : producerPush QUEUE_CAPACITY s.queue task <;> simp [hpush, hrunner] at hdead

/-- The turns that are left: one to take a task, and one to dispatch it. -/
def work (s : EventLoopSupervisor) : Nat :=
  match s.runner with
  | .dispatching _ => 2 * s.queue.length + 1
  | .waiting | .dead => 2 * s.queue.length

theorem turn_work (h : s.turn = some s') : s.work = s'.work + 1 := by
  obtain ⟨task, queue, hrunner, hqueue, rfl⟩ | ⟨task, hrunner, rfl⟩ := turn_cases h
  · simp [work, hrunner, hqueue]
    omega
  · simp [work, hrunner]

theorem turn_of_work (hattended : s.runner = .dead → s.queue = []) (hwork : 0 < s.work) : ∃ s', s.turn = some s' := by
  unfold work at hwork
  unfold turn
  cases hrunner : s.runner with
  | dispatching task => exact ⟨_, rfl⟩
  | dead => simp [hrunner, hattended hrunner] at hwork
  | waiting =>
    cases hqueue : s.queue with
    | nil => simp [hrunner, hqueue] at hwork
    | cons task queue => exact ⟨_, rfl⟩

theorem inflight_of_work (hwork : s.work = 0) : s.inflight = [] := by
  unfold work at hwork
  unfold inflight
  cases hrunner : s.runner <;> rw [hrunner] at hwork <;> simp_all

end EventLoopSupervisor

namespace World

variable {c : Codecs} {w w' : World} {e : Event} {es : List Event} {h : Heap} {spawns : Bool} {i : Nat}
  {payload : List UInt8}

/-- The event of an acknowledged change that the supervisor took. -/
def taken? (c : Codecs) (w : World) (i : Nat) : Option (List UInt8) :=
  if i ∈ w.lost then none else (w.calls.calls[i]?).bind fun call =>
    match Request.parse c call.request, call.phase with
    | .ok r, .returned (.ok _) => r.event?
    | _, _ => none

/-- These events, in the order of the calls. -/
def takenEvents (c : Codecs) (w : World) : List (List UInt8) :=
  (List.range w.calls.calls.length).filterMap (w.taken? c)

theorem taken?_eq_some : w.taken? c i = some payload ↔ i ∉ w.lost ∧ Acknowledged c w i payload := by
  unfold taken? Acknowledged
  split_ifs with hlost
  · simp [hlost]
  · simp only [hlost, not_false_eq_true, true_and]
    constructor
    · intro h
      obtain ⟨call, hcall, h⟩ := Option.bind_eq_some_iff.mp h
      split at h
      next r response hparse hphase => exact ⟨call, r, response, hcall, hparse, h, hphase⟩
      · cases h
    · intro h
      obtain ⟨call, r, response, hcall, hparse, hevent, hphase⟩ := h
      simp [hcall, hparse, hphase, hevent]

theorem Acknowledged.step (ha : Acknowledged c w i payload) (hstep : Step c w e w') : Acknowledged c w' i payload := by
  obtain ⟨call, r, response, hcall, hparse, hevent, hphase⟩ := ha
  have hanswered : call.phase.response = some (.ok response) := by rw [hphase]; rfl
  suffices hkept : w'.calls.calls[i]? = some call from ⟨call, r, response, hkept, hparse, hevent, hphase⟩
  obtain ⟨request, calls, rfl, hnext, rfl⟩ | ⟨j, calls, rfl, hnext, rfl⟩ |
    ⟨j, spawns, r', payload', calls, rfl, hr, -, hnext, rfl⟩ | ⟨_, rfl, -, rfl⟩ := next_cases hstep
  · obtain rfl := Option.some.inj hnext
    exact (List.getElem?_append_left (List.getElem?_eq_some_iff.mp hcall).1).trans hcall
  · obtain ⟨call', phase, heap, hj, hop, rfl⟩ := Calls.next_op hnext
    refine (Calls.calls_setPhase hj i).trans ((if_neg fun hsame => ?_).trans hcall)
    obtain rfl := Option.some.inj (hcall.symm.trans (hsame ▸ hj))
    exact nomatch hop.working.1.symm.trans hanswered
  · obtain ⟨call', phase, hj, hpublish, rfl⟩ := Calls.next_publish hnext
    refine (Calls.calls_setPhase hj i).trans ((if_neg fun hsame => ?_).trans hcall)
    obtain rfl := Option.some.inj (hcall.symm.trans (hsame ▸ hj))
    obtain ⟨_, hchanged, -⟩ := Phase.publish_cases hpublish
    exact nomatch hchanged.symm.trans hphase
  · exact hcall

/-- What is in the log, or on its way there, is the event of an acknowledged change. -/
def Sourced (c : Codecs) (w : World) : Prop :=
  ∀ p ∈ w.supervisor.entries, p.2 = walEntry p.2.payload ∧ Acknowledged c w p.1 p.2.payload

theorem Sourced.step (hw : Sourced c w) (hfaithful : Calls.Faithful c w.calls) (hlogged : Logged c w)
    (hstep : Step c w e w') : Sourced c w' := by
  have hold : ∀ p ∈ w.supervisor.entries, p.2 = walEntry p.2.payload ∧ Acknowledged c w' p.1 p.2.payload :=
    fun p hp => ⟨(hw p hp).1, (hw p hp).2.step hstep⟩
  obtain ⟨request, calls, rfl, -, rfl⟩ | ⟨j, calls, rfl, -, rfl⟩ |
    ⟨j, spawns, r, payload, calls, rfl, hr, hpayload, hnext, rfl⟩ | ⟨_, rfl, hturn, rfl⟩ := next_cases hstep
  · exact hold
  · exact hold
  · by_cases hrefuses : w.supervisor.Refuses spawns
    · intro p hp
      exact hold p ((@published_refused w j payload spawns hrefuses).2.1 ▸ hp)
    · intro p hp
      have hmem : p ∈ (w.published j payload spawns).1.entries := hp
      rw [(@published_accepted w j payload spawns hrefuses).2.1, List.mem_append, List.mem_singleton] at hmem
      rcases hmem with hmem | rfl
      · exact hold p hmem
      · obtain ⟨call, phase, hj, hpublish, rfl⟩ := Calls.next_publish hnext
        obtain ⟨call', hj', hchanged⟩ := pending_eq hr
        obtain rfl := Option.some.inj (hj.symm.trans hj')
        obtain ⟨r', hphase, -, hreturned⟩ := Phase.publish_cases hpublish
        obtain rfl : r' = r := Phase.changed.inj (hphase.symm.trans hchanged)
        obtain ⟨reply, hreply⟩ := @Request.act_of_event c r' payload hpayload .new
        rw [payload_walEntry]
        refine ⟨rfl, { call with phase }, r', ⟨reply⟩, ?_, hfaithful j call r' hj (by rw [hchanged]; rfl), hpayload, ?_⟩
        · exact (Calls.calls_setPhase hj j).trans (if_pos rfl)
        · rw [hreturned .new, hreply]
          rfl
  · intro p hp
    exact hold p ((EventLoopSupervisor.turn_entries hturn hlogged.short).1 ▸ hp)

theorem sourced_of_run (hrun : Run (Step c) (initial h spawns) es w) : Sourced c w := by
  induction hrun with
  | nil => cases spawns <;> exact fun p hp => absurd hp List.not_mem_nil
  | snoc hrun hstep ih => exact ih.step (faithful_of_run hrun) (logged_of_run hrun) hstep

theorem payloads_perm (hrun : Run (Step c) (initial h spawns) es w) :
    (w.supervisor.entries.map fun p => p.2.payload).Perm (w.takenEvents c) := by
  have hsourced := sourced_of_run hrun
  have hlogged := logged_of_run hrun
  have hlt : ∀ p ∈ w.supervisor.entries, p.1 < w.calls.calls.length := fun p hp => by
    obtain ⟨call, -, -, hcall, -⟩ := (hsourced p hp).2
    exact (List.getElem?_eq_some_iff.mp hcall).1
  refine ((perm_flatMap_filter hlt).map _).trans (.of_eq ?_)
  rw [takenEvents, List.filterMap_eq_flatMap_toList, List.map_flatMap]
  refine List.flatMap_congr fun i _ => ?_
  show (w.entriesOf i).map (fun p => p.2.payload) = (w.taken? c i).toList
  cases htaken : w.taken? c i with
  | some payload =>
    obtain ⟨hkept, hacknowledged⟩ := taken?_eq_some.mp htaken
    rw [hlogged.logged i payload hacknowledged, if_neg hkept, List.map_singleton, payload_walEntry]
    rfl
  | none =>
    refine List.map_eq_nil_iff.mpr (List.eq_nil_iff_forall_not_mem.mpr fun p hp => ?_)
    obtain ⟨hmem, hkey⟩ := List.mem_filter.mp hp
    obtain rfl : p.1 = i := of_decide_eq_true hkey
    have hacknowledged := (hsourced p hmem).2
    by_cases hlost : p.1 ∈ w.lost
    · rw [hlogged.logged _ _ hacknowledged, if_pos hlost] at hp
      exact absurd hp List.not_mem_nil
    · exact nomatch htaken.symm.trans (taken?_eq_some.mpr ⟨hlost, hacknowledged⟩)

/-! ### The runner catches up -/

/-- Without a runner there is nothing to take. -/
def Attended (w : World) : Prop := w.supervisor.runner = .dead → w.supervisor.queue = []

theorem attended_of_run (hrun : Run (Step c) (initial h spawns) es w) : Attended w := by
  induction hrun with
  | nil => exact fun _ => rfl
  | @snoc _ _ w _ _ hstep ih =>
    obtain ⟨_, _, rfl, -, rfl⟩ | ⟨_, _, rfl, -, rfl⟩ | ⟨i, spawns', _, payload, _, rfl, -, -, -, rfl⟩ |
      ⟨_, rfl, hturn, rfl⟩ := next_cases hstep
    · exact ih
    · exact ih
    · unfold Attended
      rw [published_supervisor]
      intro hdead
      obtain ⟨hrunner, hkept⟩ := EventLoopSupervisor.push_dead hdead
      rw [EventLoopSupervisor.publishStorageEvent, hkept]
      exact ih hrunner
    · obtain ⟨_, _, -, -, rfl⟩ | ⟨_, -, rfl⟩ := EventLoopSupervisor.turn_cases hturn
      · exact fun h => Runner.noConfusion h
      · exact fun h => Runner.noConfusion h

theorem catches_up (hrun : Run (Step c) (initial h spawns) es w) :
    ∃ w', Run (Step c) w (List.replicate w.supervisor.work .turn) w' ∧ w'.calls = w.calls ∧ w'.lost = w.lost ∧
      w'.supervisor.inflight = [] ∧ w'.supervisor.wal = w.supervisor.entries := by
  induction hwork : w.supervisor.work generalizing w es with
  | zero =>
    have hrest := EventLoopSupervisor.inflight_of_work hwork
    exact ⟨w, .nil, rfl, rfl, hrest, by rw [EventLoopSupervisor.entries, hrest, List.map_nil, List.append_nil]⟩
  | succ n ih =>
    obtain ⟨supervisor, hturn⟩ := EventLoopSupervisor.turn_of_work (attended_of_run hrun) (by omega)
    have hstep : Step c w .turn { w with supervisor } := by rw [Step, next, hturn]; rfl
    have hless := EventLoopSupervisor.turn_work hturn
    obtain ⟨w', hturns, hcalls, hlost, hrest, hwal⟩ := ih (hrun.snoc hstep) (show supervisor.work = n by omega)
    refine ⟨w', .cons hstep hturns, hcalls, hlost, hrest, hwal.trans ?_⟩
    exact (EventLoopSupervisor.turn_entries hturn (logged_of_run hrun).short).1

end World

end TrenchDb.Storage

namespace TrenchDb.Ewal

open TrenchDb.Storage (World StorageEvent WalEntry walEntry payload_walEntry prefixedCodecs)

/-! ## The file -/

/-- The dispatcher appends each entry, and flushes. -/
def WALWriter.dispatches (w : WALWriter) (entries : List WalEntry) : WALWriter :=
  entries.foldl (fun w data => (w.append data).2.flush) w

/-- The live log behind a supervisor. -/
def logFile (path : String) (file : Option (List UInt8)) (w : World) : List UInt8 :=
  ((WALWriter.init path file).dispatches (w.supervisor.wal.map Prod.snd)).writer.file

theorem WALWriter.file_dispatches {w : WALWriter} {entries : List WalEntry} (hbuf : w.writer.buf = [])
    (hfits : ∀ data ∈ entries, Fits data) :
    (w.dispatches entries).writer.file = w.writer.file ++ entries.flatMap record := by
  induction entries generalizing w with
  | nil => exact (List.append_nil _).symm
  | cons data entries ih =>
    obtain ⟨hfirst, hothers⟩ := List.forall_mem_cons.mp hfits
    have hfile : (w.append data).2.flush.writer.file = w.writer.file ++ record data := by
      show (w.append data).2.writer.written = _
      rw [written_append hfirst, Wal.BufWriter.written, hbuf, List.append_nil]
    rw [dispatches, List.foldl_cons, ← dispatches, ih rfl hothers, hfile, List.append_assoc, List.flatMap_cons]

theorem event_payload_injective : Function.Injective StorageEvent.payload := fun e e' heq =>
  StorageEvent.eq_of_fields (by rw [heq]) (by rw [heq])

theorem flatMap_event_injective :
    Function.Injective fun events : List StorageEvent => (events.map fun e => walEntry e.payload).flatMap record := by
  intro events events' heq
  have hentries := congrArg (List.map WalEntry.payload) (flatMap_record_injective heq)
  simp only [List.map_map] at hentries
  refine List.map_injective_iff.mpr event_payload_injective ?_
  simpa [Function.comp_def, payload_walEntry] using hentries

/-- At rest the file holds the events of the acknowledged changes that the supervisor took, each once, and no other
list of events has these bytes. -/
theorem file_tells {c : Storage.Codecs} {w : World} {es : List Storage.Event} {h : Storage.Heap} {spawns : Bool}
    (path : String) (file : Option (List UInt8)) (hrun : Run (World.Step c) (World.initial h spawns) es w)
    (hrest : w.supervisor.inflight = []) :
    ∃ events : List StorageEvent, (events.map StorageEvent.payload).Perm (w.takenEvents c) ∧
      logFile path file w = file.getD [] ++ (events.map fun e => walEntry e.payload).flatMap record ∧
      ∀ events' : List StorageEvent,
        logFile path file w = file.getD [] ++ (events'.map fun e => walEntry e.payload).flatMap record →
          events' = events := by
  have hwal : w.supervisor.entries = w.supervisor.wal := by
    rw [Storage.EventLoopSupervisor.entries, hrest, List.map_nil, List.append_nil]
  have hsourced := World.sourced_of_run hrun
  rw [World.Sourced, hwal] at hsourced
  -- Each entry of the log is the event of a request that has passed the checks.
  obtain ⟨events, hevents⟩ :
      (w.supervisor.wal.map fun p => p.2.payload) ∈ Set.range (List.map StorageEvent.payload) := by
    rw [Set.range_list_map]
    intro payload hmem
    obtain ⟨p, hp, rfl⟩ := List.mem_map.mp hmem
    obtain ⟨call, r, response, -, hparse, hevent, -⟩ := (hsourced p hp).2
    exact Storage.Request.exists_event (Storage.Request.parse_ok hparse) hevent
  have hentries : (w.supervisor.wal.map Prod.snd) = events.map fun e => walEntry e.payload := by
    have hmap := congrArg (List.map walEntry) hevents
    rw [List.map_map, List.map_map] at hmap
    exact (List.map_congr_left fun p hp => (hsourced p hp).1).trans hmap.symm
  have hfits : ∀ data ∈ events.map (fun e => walEntry e.payload), Fits data := by
    intro data hdata
    obtain ⟨e, -, rfl⟩ := List.mem_map.mp hdata
    rw [Fits, payload_walEntry]
    exact e.payload_length
  have hfile : logFile path file w = file.getD [] ++ (events.map fun e => walEntry e.payload).flatMap record := by
    rw [logFile, hentries]
    exact WALWriter.file_dispatches rfl hfits
  refine ⟨events, ?_, hfile, fun events' h' => ?_⟩
  · rw [hevents, ← hwal]
    exact World.payloads_perm hrun
  · exact flatMap_event_injective (List.append_cancel_left (h'.symm.trans hfile))

theorem file_tells_put : ∃ w, Run (World.Step prefixedCodecs) (World.initial .new true)
      (World.putRound true 0 ++ [.turn, .turn]) w ∧
    ∃ events : List StorageEvent, (events.map StorageEvent.payload).Perm (w.takenEvents prefixedCodecs) ∧
      logFile "wal.log" none w = (events.map fun e => walEntry e.payload).flatMap record := by
  obtain ⟨w, hround, -, -, hsupervisor⟩ := World.putRound_run (World.initial .new true) true
  have hqueue : w.supervisor = { queue := [⟨0, World.aliceEvent⟩], runner := .waiting, wal := [] } := hsupervisor
  obtain ⟨w₁, hfirst, hdispatching⟩ : ∃ w₁, World.Step prefixedCodecs w .turn w₁ ∧
      w₁.supervisor = { queue := [], runner := .dispatching ⟨0, World.aliceEvent⟩, wal := [] } :=
    ⟨_, by rw [World.Step, World.next, hqueue]; rfl, rfl⟩
  obtain ⟨w₂, hsecond, hdone⟩ : ∃ w₂, World.Step prefixedCodecs w₁ .turn w₂ ∧ w₂.supervisor.inflight = [] :=
    ⟨_, by rw [World.Step, World.next, hdispatching]; rfl, rfl⟩
  have hrun := hround.append (.cons hfirst (.single hsecond))
  obtain ⟨events, hperm, hfile, -⟩ := file_tells "wal.log" none hrun hdone
  exact ⟨w₂, hrun, events, hperm, hfile⟩

theorem fits_of_run {c : Storage.Codecs} {w : World} {es : List Storage.Event} {h : Storage.Heap} {spawns : Bool}
    (hrun : Run (World.Step c) (World.initial h spawns) es w) : ∀ p ∈ w.supervisor.entries, Fits p.2 := by
  intro p hp
  obtain ⟨call, r, response, -, hparse, hevent, -⟩ := (World.sourced_of_run hrun p hp).2
  exact Storage.Request.event_length (Storage.Request.parse_ok hparse) hevent

/-- From every state the runner alone comes to rest, in as many turns as the queue asks for. The file keeps what it
has, and gets the events that were on their way, in their order and nothing else. -/
theorem file_catches_up {c : Storage.Codecs} {w : World} {es : List Storage.Event} {h : Storage.Heap} {spawns : Bool}
    (path : String) (file : Option (List UInt8)) (hrun : Run (World.Step c) (World.initial h spawns) es w) :
    ∃ w', Run (World.Step c) w (List.replicate w.supervisor.work .turn) w' ∧ w'.calls = w.calls ∧ w'.lost = w.lost ∧
      w'.supervisor.inflight = [] ∧ logFile path file w' =
        logFile path file w ++ (w.supervisor.inflight.map fun task => walEntry task.payload).flatMap record := by
  obtain ⟨w', hturns, hcalls, hlost, hrest, hwal⟩ := World.catches_up hrun
  refine ⟨w', hturns, hcalls, hlost, hrest, ?_⟩
  have hfits : ∀ data ∈ w.supervisor.entries.map Prod.snd, Fits data := List.forall_mem_map.mpr (fits_of_run hrun)
  have hsplit : w.supervisor.entries.map Prod.snd =
      w.supervisor.wal.map Prod.snd ++ w.supervisor.inflight.map fun task => walEntry task.payload := by
    simp [Storage.EventLoopSupervisor.entries, Function.comp_def]
  rw [hsplit] at hfits
  rw [logFile, logFile, hwal, hsplit, WALWriter.file_dispatches rfl hfits,
    WALWriter.file_dispatches rfl fun data hdata => hfits data (List.mem_append_left _ hdata), List.flatMap_append,
    List.append_assoc]

theorem file_catches_up_put : ∃ w, Run (World.Step prefixedCodecs) (World.initial .new true) (World.putRound true 0) w ∧
    ∃ w', Run (World.Step prefixedCodecs) w [.turn, .turn] w' ∧ w'.supervisor.inflight = [] ∧
      logFile "wal.log" none w' = logFile "wal.log" none w ++ record (walEntry World.aliceEvent) := by
  obtain ⟨w, hround, -, -, hsupervisor⟩ := World.putRound_run (World.initial .new true) true
  have hqueue : w.supervisor = { queue := [⟨0, World.aliceEvent⟩], runner := .waiting, wal := [] } := hsupervisor
  obtain ⟨w', hturns, -, -, hrest, hfile⟩ := file_catches_up "wal.log" none hround
  rw [hqueue] at hturns hfile
  refine ⟨w, hround, w', hturns, hrest, hfile.trans ?_⟩
  simp [Storage.EventLoopSupervisor.inflight]

end TrenchDb.Ewal
