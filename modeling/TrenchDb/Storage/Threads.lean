import TrenchDb.Storage.Supervisor

/-!
# What the threads of a supervisor amount to

While nobody requests a stop a runner ends by a panic only, and without panics the threads do what the
supervisor of `Events` does, for which `push` is one step.
-/

open TrenchDb.Lib.Lts

namespace TrenchDb.Storage.Supervisor

namespace EventLoopSupervisor

variable {capacity : Nat} {s s' : EventLoopSupervisor} {i r : Nat} {loop : EventLoop} {action : Action}
  {actions : List Action} {task : Task}

/-! ## A runner ends by a panic only -/

/-- Nobody has requested a stop. -/
structure Going (s : EventLoopSupervisor) : Prop where
  lifecycle : s.lifecycle = .Created ∨ s.lifecycle = .Running
  running : ∀ loop ∈ s.runners, loop ≠ .spawned → s.lifecycle = .Running
  stays : ∀ loop ∈ s.runners, loop ≠ .leaving

theorem callerStep_frame (h : s.callerStep capacity i = some s') :
    s'.lifecycle = s.lifecycle ∧ ∀ loop ∈ s'.runners, loop = .spawned ∨ loop ∈ s.runners := by
  have hspawn : ∀ phase, ∀ loop ∈ (s.spawnRunner.setPhase i phase).runners, loop = .spawned ∨ loop ∈ s.runners := by
    intro phase loop hmem
    exact (List.mem_append.mp hmem).symm.imp_left List.mem_singleton.mp
  cases callerStep_moves h with
  | enter | goOn | enqueue | leave => exact ⟨rfl, fun _ => .inr⟩
  | spawn => exact ⟨rfl, hspawn _⟩

namespace Going

theorem callerStep (hgoing : s.Going) (h : s.callerStep capacity i = some s') : s'.Going := by
  obtain ⟨hlifecycle, hrunners⟩ := callerStep_frame h
  refine ⟨hlifecycle ▸ hgoing.lifecycle, fun loop hmem hspawned => ?_, fun loop hmem => ?_⟩
  · rw [hlifecycle]
    exact hgoing.running loop ((hrunners loop hmem).resolve_left hspawned) hspawned
  · rcases hrunners loop hmem with rfl | hmem
    · exact nofun
    · exact hgoing.stays loop hmem

theorem pass {loop' : EventLoop} (hgoing : s.Going) (hr : s.runners[r]? = some loop) (hspawned : loop ≠ .spawned)
    (hstays : loop' ≠ .leaving) : Going (s.setLoop r loop') where
  lifecycle := hgoing.lifecycle
  running := fun _ _ _ => hgoing.running loop (List.mem_of_getElem? hr) hspawned
  stays := fun _ hmem => (List.mem_or_eq_of_mem_set hmem).elim (hgoing.stays _) fun heq => heq ▸ hstays

theorem turn {loop' : EventLoop} {queue : List Task} {happened : List Happened} (hgoing : s.Going)
    (hr : s.runners[r]? = some loop) (hspawned : loop ≠ .spawned) (hstays : loop' ≠ .leaving) :
    Going (({ s with queue }.record happened).setLoop r loop') where
  lifecycle := (hgoing.pass hr hspawned hstays).lifecycle
  running := (hgoing.pass hr hspawned hstays).running
  stays := (hgoing.pass hr hspawned hstays).stays

theorem start (hgoing : s.Going) :
    Going ({ s with lifecycle := Lifecycle.start s.lifecycle }.setLoop r .continuing) := by
  have hrunning : Lifecycle.start s.lifecycle = .Running := by
    rcases hgoing.lifecycle with hlifecycle | hlifecycle <;> rw [hlifecycle] <;> rfl
  refine ⟨.inr hrunning, fun _ _ _ => hrunning, fun loop hmem => ?_⟩
  exact (List.mem_or_eq_of_mem_set hmem).elim (hgoing.stays loop) fun heq => heq ▸ nofun

theorem loopStep {turn : Turn} (hgoing : s.Going) (h : s.loopStep r turn = some s') : s'.Going := by
  cases loopStep_moves h with
  | start => exact hgoing.start
  | pass hr hspawned _ _ hstays =>
    exact hgoing.pass hr hspawned (hstays (hgoing.running _ (List.mem_of_getElem? hr) hspawned))
  | take hr | returned hr | panicked hr => exact hgoing.turn hr nofun nofun
  | stop hr => exact absurd rfl (hgoing.stays _ (List.mem_of_getElem? hr))

theorem step (hgoing : s.Going) (h : Step capacity s action s') : s'.Going := by
  unfold Step act at h
  cases action with
  | call i request =>
    dsimp only at h
    split_ifs at h
    obtain rfl := Option.some.inj h
    exact ⟨hgoing.lifecycle, hgoing.running, hgoing.stays⟩
  | caller i => exact hgoing.callerStep h
  | runner r turn => exact hgoing.loopStep h

end Going

/-- No runner leaves its loop: those that are gone had a panic. -/
theorem never_leaving (h : Run (Step capacity) .new actions s) : ∀ loop ∈ s.runners, loop ≠ .leaving :=
  (@Run.invariant _ _ _ _ _ _ (fun _ (s : EventLoopSupervisor) => s.Going) h ⟨.inl rfl, nofun, nofun⟩
    fun _ _ _ _ hgoing hstep => hgoing.step hstep).stays

/-! ## The supervisor as one step -/

/-- The supervisor of which `push` is one step. A runner that has still to be spawned counts as waiting. -/
def atomic (s : EventLoopSupervisor) : Storage.EventLoopSupervisor :=
  { queue := s.queue
    runner := match s.inDispatch with
      | task :: _ => .dispatching task
      | [] => .waiting
    wal := (s.history.filterMap returned?).foldl Storage.EventLoopSupervisor.dispatch [] }

/-- It accepts a task, or its runner takes a turn. -/
def Atomic (a a' : Storage.EventLoopSupervisor) : Prop :=
  (∃ task, a.push task true = (.ok (), a')) ∨ a.turn = some a'

theorem atomic_not_dead : s.atomic.runner ≠ .dead := by
  unfold atomic
  cases s.inDispatch <;> exact nofun

theorem push_alive {a : Storage.EventLoopSupervisor} {queue : List Task} (halive : a.runner ≠ .dead)
    (hpush : producerPush QUEUE_CAPACITY a.queue task = .ok queue) :
    a.push task true = (.ok (), { a with queue }) := by
  unfold Storage.EventLoopSupervisor.push Storage.EventLoopSupervisor.ensureRunnerAlive
  cases hrunner : a.runner with
  | dead => exact absurd hrunner halive
  | waiting | dispatching => simp [hpush, hrunner]

theorem callerStep_atomic (h : s.callerStep QUEUE_CAPACITY i = some s') :
    s'.atomic = s.atomic ∨ Atomic s.atomic s'.atomic := by
  have hspawn : ∀ phase, (s.spawnRunner.setPhase i phase).atomic = s.atomic := by
    intro phase
    simp only [atomic, show (s.spawnRunner.setPhase i phase).inDispatch = s.inDispatch from inDispatch_spawnRunner]
    rfl
  cases callerStep_moves h with
  | enter | goOn => exact .inl rfl
  | spawn => exact .inl (hspawn _)
  | @enqueue task _ _ hpush =>
    refine .inr (.inl ⟨task, ?_⟩)
    rw [push_alive atomic_not_dead hpush]
    simp [atomic, inDispatch, record, setPhase, List.filterMap_cons, returned?]
  | @leave accepted _ =>
    left
    cases accepted <;> simp [atomic, inDispatch, record, setPhase, List.filterMap_cons, returned?]

theorem atomic_pass {loop' : EventLoop} {lifecycle : State} (hinv : s.Inv) (hr : s.runners[r]? = some loop)
    (hlive : loop ≠ .finished) (htask : loop'.task? = loop.task?) :
    ({ s with lifecycle }.setLoop r loop').atomic = s.atomic := by
  have hsame : ({ s with lifecycle }.setLoop r loop').inDispatch = s.inDispatch := by
    rw [hinv.inDispatch_live hr hlive, ← htask]
    exact hinv.inDispatch_set hr hlive loop'
  simp only [atomic, hsame]
  rfl

theorem atomic_take {queue : List Task} (hinv : s.Inv) (hr : s.runners[r]? = some .receiving)
    (hqueue : s.queue = task :: queue) :
    s.atomic.turn = some (({ s with queue }.record [.started task]).setLoop r (.dispatching task)).atomic := by
  have hlive : EventLoop.receiving ≠ .finished := by decide
  have hnone : s.inDispatch = [] := hinv.inDispatch_live hr hlive
  have htask : (({ s with queue }.record [.started task]).setLoop r (.dispatching task)).inDispatch = [task] :=
    hinv.inDispatch_set hr hlive (.dispatching task)
  simp only [atomic, htask, hnone, hqueue, Storage.EventLoopSupervisor.turn]
  simp [record, setLoop, List.filterMap_cons, returned?]

theorem atomic_returned (hinv : s.Inv) (hr : s.runners[r]? = some (.dispatching task)) :
    s.atomic.turn = some ((s.record [.returned task]).setLoop r .checking).atomic := by
  have hlive : EventLoop.dispatching task ≠ .finished := by simp
  have htask : s.inDispatch = [task] := hinv.inDispatch_live hr hlive
  have hnone : ((s.record [.returned task]).setLoop r .checking).inDispatch = [] :=
    hinv.inDispatch_set hr hlive .checking
  simp only [atomic, htask, hnone, Storage.EventLoopSupervisor.turn]
  simp [record, setLoop, returned?]

theorem loopStep_atomic {turn : Turn} (hinv : s.Inv) (h : s.loopStep r turn = some s') (hpanic : turn ≠ .panic) :
    s'.atomic = s.atomic ∨ Atomic s.atomic s'.atomic := by
  cases loopStep_moves h with
  | start hr => exact .inl (atomic_pass hinv hr (by decide) rfl)
  | pass hr _ hlive htask _ => exact .inl (atomic_pass hinv hr hlive htask)
  | take hr hqueue => exact .inr (.inr (atomic_take hinv hr hqueue))
  | returned hr => exact .inr (.inr (atomic_returned hinv hr))
  | panicked _ hturn => exact absurd hturn hpanic
  | stop hr => exact .inl (atomic_pass hinv hr (by decide) rfl)

/-- Without a panic, what the threads do is what the supervisor with a single step for `push` can do. -/
theorem refines_atomic (h : Run (Step QUEUE_CAPACITY) .new actions s) (hpanic : ∀ r, .runner r .panic ∉ actions) :
    Relation.ReflTransGen Atomic (.start true) s.atomic := by
  induction h with
  | nil => exact .refl
  | @snoc actions action s s' hrun hstep ih =>
    have hreach := ih fun r hmem => hpanic r (List.mem_append_left _ hmem)
    have hsim : s'.atomic = s.atomic ∨ Atomic s.atomic s'.atomic := by
      unfold Step act at hstep
      cases action with
      | call i request =>
        dsimp only at hstep
        split_ifs at hstep
        obtain rfl := Option.some.inj hstep
        exact .inl rfl
      | caller i => exact callerStep_atomic hstep
      | runner r turn => exact loopStep_atomic (Inv.run hrun) hstep fun hturn => hpanic r (by simp [hturn])
    rcases hsim with heq | hatomic
    · rwa [heq]
    · exact hreach.tail hatomic

end EventLoopSupervisor

end TrenchDb.Storage.Supervisor
