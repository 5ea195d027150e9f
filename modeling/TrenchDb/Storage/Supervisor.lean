import TrenchDb.Lib.Lts
import TrenchDb.Lib.Slots
import TrenchDb.Storage.Events

/-!
# The supervisor and its threads

`EventLoopSupervisor` of `engine/src/events/loops.rs` thread by thread: callers of `push` and `start`
under the lock of the handle, and every runner that was ever spawned, in any order of steps. Nobody
requests a stop, and spawning a thread works.
-/

open TrenchDb.Lib TrenchDb.Lib.Lts

namespace TrenchDb.Storage.Supervisor

/-! ## The lifecycle -/

/-- `events::State`. -/
inductive State
  | Created
  | Running
  | Stopping
  | Stopped
  deriving DecidableEq, Repr

namespace Lifecycle

def start : State → State
  | .Created => .Running
  | .Running => .Running
  | .Stopping => .Stopping
  | .Stopped => .Stopped

def shouldContinue : State → Bool
  | .Running | .Stopping => true
  | .Created | .Stopped => false

def completeShutdown : State → State
  | .Stopping | .Running => .Stopped
  | .Created => .Created
  | .Stopped => .Stopped

end Lifecycle

/-! ## The threads -/

/-- Where a runner is. It takes the lock of the queue at `receiving` and at `waiting`, and `is_finished`
is true of it at `finished` only. -/
inductive EventLoop
  | spawned
  | continuing
  | receiving
  | waiting
  | dispatching (task : Task)
  | checking
  | leaving
  | returning
  | finished
  deriving DecidableEq, Repr

/-- The task that the runner dispatches. -/
def EventLoop.task? : EventLoop → Option Task
  | .dispatching task => some task
  | .spawned | .continuing | .receiving | .waiting | .checking | .leaving | .returning | .finished => none

inductive Call
  | push (task : Task)
  | start
  deriving DecidableEq, Repr

/-- Where a thread is that calls the supervisor. From `looking` on it holds the lock of the handle. A
`push` that leaves with a task has accepted it. -/
inductive Phase
  | outside
  | entering (call : Call)
  | looking (call : Call)
  | spawning (call : Call)
  | enqueuing (task : Task)
  | lookingAgain (task : Task)
  | spawningAgain (task : Task)
  | leaving (accepted : Option Task)
  deriving DecidableEq, Repr

namespace Phase

/-- The thread has the lock of the handle. -/
def holds : Phase → Bool
  | .outside | .entering _ => false
  | .looking _ | .spawning _ | .enqueuing _ | .lookingAgain _ | .spawningAgain _ | .leaving _ => true

/-- The thread has seen that there is no live runner, and spawns one next. -/
def spawns : Phase → Bool
  | .spawning _ | .spawningAgain _ => true
  | .outside | .entering _ | .looking _ | .enqueuing _ | .lookingAgain _ | .leaving _ => false

/-- The task that is in the queue and whose `push` has not returned. -/
def enqueued? : Phase → Option Task
  | .lookingAgain task | .spawningAgain task => some task
  | .leaving accepted => accepted
  | .outside | .entering _ | .looking _ | .spawning _ | .enqueuing _ => none

end Phase

/-- What happened to a task. -/
inductive Happened
  | accepted (task : Task)
  | pushed (task : Task)
  | started (task : Task)
  | returned (task : Task)
  | panicked (task : Task)
  deriving DecidableEq, Repr

/-- The supervisor with the threads that use it. `handle` and `runners` name a runner by the number of its
spawn. `history` is a record that no step reads. -/
structure EventLoopSupervisor where
  lifecycle : State
  queue : List Task
  handle : Option Nat
  lock : Option Nat
  runners : List EventLoop
  callers : Nat → Phase
  history : List Happened

namespace EventLoopSupervisor

def new : EventLoopSupervisor :=
  { lifecycle := .Created, queue := [], handle := none, lock := none, runners := [], callers := fun _ => .outside,
    history := [] }

def setPhase (s : EventLoopSupervisor) (i : Nat) (phase : Phase) : EventLoopSupervisor :=
  { s with callers := Function.update s.callers i phase }

def setLoop (s : EventLoopSupervisor) (r : Nat) (loop : EventLoop) : EventLoopSupervisor :=
  { s with runners := s.runners.set r loop }

def record (s : EventLoopSupervisor) (happened : List Happened) : EventLoopSupervisor :=
  { s with history := s.history ++ happened }

/-! ### Callers -/

def runnerIsDead (s : EventLoopSupervisor) : Bool :=
  match s.handle with
  | some r => s.runners[r]? == some .finished
  | none => true

def spawnRunner (s : EventLoopSupervisor) : EventLoopSupervisor :=
  { s with runners := s.runners ++ [.spawned], handle := some s.runners.length }

/-- After the first look at the runner. `start` is done then. -/
def looked : Call → Phase
  | .push task => .enqueuing task
  | .start => .leaving none

/-- The next step of a caller, in `push` or in `ensure_runner_alive`. -/
def callerStep (capacity : Nat) (s : EventLoopSupervisor) (i : Nat) : Option EventLoopSupervisor :=
  match s.callers i with
  | .outside => none
  | .entering call =>
    match s.lock with
    | some _ => none
    | none => some ({ s with lock := some i }.setPhase i (.looking call))
  | .looking call => some (s.setPhase i (if s.runnerIsDead then .spawning call else looked call))
  | .spawning call => some (s.spawnRunner.setPhase i (looked call))
  | .enqueuing task =>
    match producerPush capacity s.queue task with
    | .ok queue => some (({ s with queue }.record [.accepted task]).setPhase i (.lookingAgain task))
    | .error _ => some (s.setPhase i (.leaving none))
  | .lookingAgain task => some (s.setPhase i (if s.runnerIsDead then .spawningAgain task else .leaving (some task)))
  | .spawningAgain task => some (s.spawnRunner.setPhase i (.leaving (some task)))
  | .leaving accepted => some (({ s with lock := none }.record (accepted.toList.map .pushed)).setPhase i .outside)

/-! ### Runners -/

/-- How a runner goes on: a wait may time out, and a dispatch may panic. -/
inductive Turn
  | go
  | timeout
  | panic
  deriving DecidableEq, Repr

/-- The next step of a runner: `EventLoop::run` inside of `catch_unwind`. -/
def loopStep (s : EventLoopSupervisor) (r : Nat) (turn : Turn) : Option EventLoopSupervisor :=
  match s.runners[r]?, turn with
  | some .spawned, .go => some ({ s with lifecycle := Lifecycle.start s.lifecycle }.setLoop r .continuing)
  | some .continuing, .go =>
    some (s.setLoop r (if Lifecycle.shouldContinue s.lifecycle then .receiving else .leaving))
  | some .receiving, .go =>
    match s.queue with
    | task :: queue => some (({ s with queue }.record [.started task]).setLoop r (.dispatching task))
    | [] => some (s.setLoop r .waiting)
  | some .waiting, .go => some (s.setLoop r .receiving)
  | some .waiting, .timeout => some (s.setLoop r .checking)
  | some (.dispatching task), .go => some ((s.record [.returned task]).setLoop r .checking)
  | some (.dispatching task), .panic => some ((s.record [.panicked task]).setLoop r .returning)
  | some .checking, .go =>
    some (s.setLoop r (if s.lifecycle = .Stopping ∧ s.queue = [] then .leaving else .continuing))
  | some .leaving, .go => some ({ s with lifecycle := Lifecycle.completeShutdown s.lifecycle }.setLoop r .returning)
  | some .returning, .go => some (s.setLoop r .finished)
  | _, _ => none

/-! ### All threads -/

inductive Action
  | call (i : Nat) (call : Call)
  | caller (i : Nat)
  | runner (r : Nat) (turn : Turn)
  deriving DecidableEq, Repr

def act (capacity : Nat) (s : EventLoopSupervisor) : Action → Option EventLoopSupervisor
  | .call i call => if s.callers i = .outside then some (s.setPhase i (.entering call)) else none
  | .caller i => s.callerStep capacity i
  | .runner r turn => s.loopStep r turn

def Step (capacity : Nat) (s : EventLoopSupervisor) (action : Action) (s' : EventLoopSupervisor) : Prop :=
  s.act capacity action = some s'

/-! ## What became of the tasks -/

def accepted? : Happened → Option Task
  | .accepted task => some task
  | .pushed _ | .started _ | .returned _ | .panicked _ => none

def pushed? : Happened → Option Task
  | .pushed task => some task
  | .accepted _ | .started _ | .returned _ | .panicked _ => none

def started? : Happened → Option Task
  | .started task => some task
  | .accepted _ | .pushed _ | .returned _ | .panicked _ => none

def returned? : Happened → Option Task
  | .returned task => some task
  | .accepted _ | .pushed _ | .started _ | .panicked _ => none

def panicked? : Happened → Option Task
  | .panicked task => some task
  | .accepted _ | .pushed _ | .started _ | .returned _ => none

/-- The dispatch is over, one way or the other. -/
def ended? (happened : Happened) : Option Task := returned? happened <|> panicked? happened

/-- The tasks that runners dispatch now. -/
def inDispatch (s : EventLoopSupervisor) : List Task := s.runners.filterMap EventLoop.task?

/-- The tasks whose `push` has put them into the queue and still holds the lock. -/
def returning (s : EventLoopSupervisor) : List Task := (s.lock.bind fun i => (s.callers i).enqueued?).toList

theorem ended_perm (history : List Happened) :
    (history.filterMap ended?).Perm (history.filterMap returned? ++ history.filterMap panicked?) := by
  induction history with
  | nil => exact .nil
  | cons happened history ih =>
    cases happened with
    | accepted | pushed | started => exact ih
    | returned task => exact ih.cons task
    | panicked task => exact (ih.cons task).trans List.perm_middle.symm

/-! ## What a step can do -/

/-- A step of caller `i`. It spawns a runner only after it has seen that there is none that lives. -/
inductive CallerMoves (capacity : Nat) (s : EventLoopSupervisor) (i : Nat) : EventLoopSupervisor → Prop
  | enter {request : Call} : s.callers i = .entering request → s.lock = none →
      CallerMoves capacity s i ({ s with lock := some i }.setPhase i (.looking request))
  | goOn {phase : Phase} : (s.callers i).holds = true → phase.enqueued? = (s.callers i).enqueued? →
      (phase.spawns = true → s.runnerIsDead = true) → CallerMoves capacity s i (s.setPhase i phase)
  | spawn {phase : Phase} : (s.callers i).spawns = true → phase.enqueued? = (s.callers i).enqueued? →
      phase.spawns = false → CallerMoves capacity s i (s.spawnRunner.setPhase i phase)
  | enqueue {task : Task} {queue : List Task} : s.callers i = .enqueuing task →
      producerPush capacity s.queue task = .ok queue →
      CallerMoves capacity s i (({ s with queue }.record [.accepted task]).setPhase i (.lookingAgain task))
  | leave {accepted : Option Task} : s.callers i = .leaving accepted →
      CallerMoves capacity s i (({ s with lock := none }.record (accepted.toList.map .pushed)).setPhase i .outside)

/-- A step of runner `r`. It goes to `leaving` only where the lifecycle tells it to. -/
inductive LoopMoves (s : EventLoopSupervisor) (r : Nat) (turn : Turn) : EventLoopSupervisor → Prop
  | start : s.runners[r]? = some .spawned →
      LoopMoves s r turn ({ s with lifecycle := Lifecycle.start s.lifecycle }.setLoop r .continuing)
  | pass {loop loop' : EventLoop} : s.runners[r]? = some loop → loop ≠ .spawned → loop ≠ .finished →
      loop'.task? = loop.task? → (s.lifecycle = .Running → loop' ≠ .leaving) →
      LoopMoves s r turn (s.setLoop r loop')
  | take {task : Task} {queue : List Task} : s.runners[r]? = some .receiving → s.queue = task :: queue →
      LoopMoves s r turn (({ s with queue }.record [.started task]).setLoop r (.dispatching task))
  | returned {task : Task} : s.runners[r]? = some (.dispatching task) →
      LoopMoves s r turn ((s.record [.returned task]).setLoop r .checking)
  | panicked {task : Task} : s.runners[r]? = some (.dispatching task) → turn = .panic →
      LoopMoves s r turn ((s.record [.panicked task]).setLoop r .returning)
  | stop : s.runners[r]? = some .leaving →
      LoopMoves s r turn ({ s with lifecycle := Lifecycle.completeShutdown s.lifecycle }.setLoop r .returning)

variable {capacity : Nat} {s s' : EventLoopSupervisor} {i r : Nat} {phase : Phase} {loop : EventLoop}
  {action : Action} {actions : List Action} {task : Task}

theorem callerStep_moves (h : s.callerStep capacity i = some s') : s.CallerMoves capacity i s' := by
  unfold callerStep at h
  split at h
  next => cases h
  next request hphase =>
    split at h
    next => cases h
    next hlock =>
      obtain rfl := Option.some.inj h
      exact .enter hphase hlock
  next request hphase =>
    obtain rfl := Option.some.inj h
    refine .goOn (by rw [hphase]; rfl) ?_ ?_
    · rw [hphase]
      split_ifs
      · rfl
      · cases request <;> rfl
    · intro hspawns
      by_contra hdead
      rw [if_neg hdead] at hspawns
      cases request <;> cases hspawns
  next request hphase =>
    obtain rfl := Option.some.inj h
    exact .spawn (by rw [hphase]; rfl) (by rw [hphase]; cases request <;> rfl) (by cases request <;> rfl)
  next task hphase =>
    split at h
    next queue hpush =>
      obtain rfl := Option.some.inj h
      exact .enqueue hphase hpush
    next =>
      obtain rfl := Option.some.inj h
      exact .goOn (by rw [hphase]; rfl) (by rw [hphase]; rfl) nofun
  next task hphase =>
    obtain rfl := Option.some.inj h
    refine .goOn (by rw [hphase]; rfl) ?_ ?_
    · rw [hphase]
      split_ifs <;> rfl
    · intro hspawns
      by_contra hdead
      rw [if_neg hdead] at hspawns
      cases hspawns
  next task hphase =>
    obtain rfl := Option.some.inj h
    exact .spawn (by rw [hphase]; rfl) (by rw [hphase]; rfl) rfl
  next accepted hphase =>
    obtain rfl := Option.some.inj h
    exact .leave hphase

theorem loopStep_moves {turn : Turn} (h : s.loopStep r turn = some s') : s.LoopMoves r turn s' := by
  unfold loopStep at h
  split at h
  next hr =>
    obtain rfl := Option.some.inj h
    exact .start hr
  next hr =>
    obtain rfl := Option.some.inj h
    refine .pass hr nofun nofun (by split_ifs <;> rfl) ?_
    intro hrunning
    rw [hrunning]
    exact nofun
  next hr =>
    split at h
    next task queue hqueue =>
      obtain rfl := Option.some.inj h
      exact .take hr hqueue
    next =>
      obtain rfl := Option.some.inj h
      exact .pass hr nofun nofun rfl nofun
  next hr =>
    obtain rfl := Option.some.inj h
    exact .pass hr nofun nofun rfl nofun
  next hr =>
    obtain rfl := Option.some.inj h
    exact .pass hr nofun nofun rfl nofun
  next task hr =>
    obtain rfl := Option.some.inj h
    exact .returned hr
  next task hr =>
    obtain rfl := Option.some.inj h
    exact .panicked hr rfl
  next hr =>
    obtain rfl := Option.some.inj h
    refine .pass hr nofun nofun (by split_ifs <;> rfl) ?_
    intro hrunning
    rw [hrunning]
    exact nofun
  next hr =>
    obtain rfl := Option.some.inj h
    exact .stop hr
  next hr =>
    obtain rfl := Option.some.inj h
    exact .pass hr nofun nofun rfl nofun
  next => cases h

/-! ## The invariant -/

structure Inv (s : EventLoopSupervisor) : Prop where
  sole : ∀ (r : Nat) (loop : EventLoop), s.runners[r]? = some loop → loop ≠ .finished → s.handle = some r
  locked : ∀ i, (s.callers i).holds = true → s.lock = some i
  clear : ∀ i, (s.callers i).spawns = true → ∀ loop ∈ s.runners, loop = .finished
  dispatches : s.history.filterMap started? = s.history.filterMap ended? ++ s.inDispatch
  fifo : s.history.filterMap accepted? = s.history.filterMap started? ++ s.queue
  pushes : s.history.filterMap accepted? = s.history.filterMap pushed? ++ s.returning

theorem returning_setPhase (h : phase.enqueued? = (s.callers i).enqueued?) :
    (s.setPhase i phase).returning = s.returning := by
  have hupdate : ∀ j, (Function.update s.callers i phase j).enqueued? = (s.callers j).enqueued? :=
    (Function.forall_update_iff s.callers fun j p => p.enqueued? = (s.callers j).enqueued?).mpr ⟨h, fun _ _ => rfl⟩
  simp only [returning, setPhase, hupdate]

theorem inDispatch_spawnRunner : s.spawnRunner.inDispatch = s.inDispatch := by
  simp [spawnRunner, inDispatch, EventLoop.task?, List.filterMap_cons]

theorem update_phase (p : Phase → Bool) {P : Nat → Prop} (hself : p phase = true → P i)
    (hothers : ∀ j, j ≠ i → p (s.callers j) = true → P j) :
    ∀ j, p (Function.update s.callers i phase j) = true → P j :=
  (Function.forall_update_iff s.callers fun j phase => p phase = true → P j).mpr ⟨hself, hothers⟩

theorem holds_of_spawns (h : phase.spawns = true) : phase.holds = true := by
  cases phase with
  | spawning | spawningAgain => rfl
  | outside | entering | looking | enqueuing | lookingAgain | leaving => cases h

namespace Inv

theorem new : Inv .new := by
  constructor <;> simp [EventLoopSupervisor.new, Phase.holds, Phase.spawns, inDispatch, returning]

theorem all_finished (hinv : s.Inv) (hdead : s.runnerIsDead = true) : ∀ loop ∈ s.runners, loop = .finished := by
  intro loop hmem
  obtain ⟨r, hr⟩ := List.mem_iff_getElem?.mp hmem
  by_contra hne
  have hhandle := hinv.sole r loop hr hne
  simp only [runnerIsDead, hhandle, hr, beq_iff_eq, Option.some.injEq] at hdead
  exact hne hdead

theorem unique {r' : Nat} {loop' : EventLoop} (hinv : s.Inv) (hr : s.runners[r]? = some loop)
    (hr' : s.runners[r']? = some loop') (hlive : loop ≠ .finished) (hlive' : loop' ≠ .finished) : r = r' := by
  have hhandle := hinv.sole r loop hr hlive
  rw [hinv.sole r' loop' hr' hlive'] at hhandle
  exact (Option.some.inj hhandle).symm

theorem holder {j : Nat} (hinv : s.Inv) (hi : (s.callers i).holds = true) (hj : (s.callers j).holds = true) :
    j = i := by
  have hlock := hinv.locked i hi
  rw [hinv.locked j hj] at hlock
  exact Option.some.inj hlock

theorem returning_holder (hinv : s.Inv) (hi : (s.callers i).holds = true) :
    s.returning = (s.callers i).enqueued?.toList := by
  simp [returning, hinv.locked i hi]

theorem others (hinv : s.Inv) (hi : (s.callers i).holds = true) {j : Nat} (hne : j ≠ i) :
    (s.callers j).holds = false ∧ (s.callers j).spawns = false := by
  have hholds : (s.callers j).holds = false := Bool.eq_false_iff.mpr fun hj => hne (hinv.holder hi hj)
  exact ⟨hholds, Bool.eq_false_iff.mpr fun hj => by simp [holds_of_spawns hj] at hholds⟩

/-! ### Steps of a caller -/

theorem call {request : Call} (hinv : s.Inv) (hphase : s.callers i = .outside) :
    Inv (s.setPhase i (.entering request)) where
  sole := hinv.sole
  locked := update_phase Phase.holds nofun fun j _ => hinv.locked j
  clear := update_phase Phase.spawns nofun fun j _ => hinv.clear j
  dispatches := hinv.dispatches
  fifo := hinv.fifo
  pushes := by rw [returning_setPhase (by rw [hphase]; rfl)]; exact hinv.pushes

theorem enter {request : Call} (hinv : s.Inv) (hlock : s.lock = none) :
    Inv ({ s with lock := some i }.setPhase i (.looking request)) where
  sole := hinv.sole
  locked := update_phase Phase.holds (fun _ => rfl) fun j _ hj => by simp [hinv.locked j hj] at hlock
  clear := update_phase Phase.spawns nofun fun j _ => hinv.clear j
  dispatches := hinv.dispatches
  fifo := hinv.fifo
  pushes := by
    have hpushes := hinv.pushes
    simp only [returning, hlock] at hpushes
    simpa [setPhase, returning, Phase.enqueued?] using hpushes

theorem goOn (hinv : s.Inv) (hi : (s.callers i).holds = true) (hqueued : phase.enqueued? = (s.callers i).enqueued?)
    (hclear : phase.spawns = true → ∀ loop ∈ s.runners, loop = .finished) : Inv (s.setPhase i phase) where
  sole := hinv.sole
  locked := update_phase Phase.holds (fun _ => hinv.locked i hi) fun j _ => hinv.locked j
  clear := update_phase Phase.spawns hclear fun j _ => hinv.clear j
  dispatches := hinv.dispatches
  fifo := hinv.fifo
  pushes := by rw [returning_setPhase hqueued]; exact hinv.pushes

theorem spawn (hinv : s.Inv) (hspawns : (s.callers i).spawns = true)
    (hqueued : phase.enqueued? = (s.callers i).enqueued?) (hclear : phase.spawns = false) :
    Inv (s.spawnRunner.setPhase i phase) where
  sole := by
    intro r loop hr hlive
    have hfinished := hinv.clear i hspawns
    obtain hlt | hge := Nat.lt_or_ge r s.runners.length
    · have hold : (s.runners ++ [.spawned])[r]? = s.runners[r]? := List.getElem?_append_left hlt
      exact absurd (hfinished loop (List.mem_of_getElem? (hold ▸ hr))) hlive
    · have hlen := (List.getElem?_eq_some_iff.mp hr).1
      simp only [spawnRunner, setPhase, List.length_append, List.length_singleton] at hlen
      rw [show r = s.runners.length by omega]
      rfl
  locked := update_phase Phase.holds (fun _ => hinv.locked i (holds_of_spawns hspawns)) fun j _ => hinv.locked j
  clear := update_phase Phase.spawns (fun h => by simp [hclear] at h) fun j hne hj =>
    absurd hj (Bool.eq_false_iff.mp (hinv.others (holds_of_spawns hspawns) hne).2)
  dispatches := by
    rw [show (s.spawnRunner.setPhase i phase).inDispatch = s.inDispatch from inDispatch_spawnRunner]
    exact hinv.dispatches
  fifo := hinv.fifo
  pushes := by rw [@returning_setPhase s.spawnRunner _ _ hqueued]; exact hinv.pushes

theorem enqueue (hinv : s.Inv) (hphase : s.callers i = .enqueuing task) :
    Inv (({ s with queue := s.queue ++ [task] }.record [.accepted task]).setPhase i (.lookingAgain task)) where
  sole := hinv.sole
  locked := update_phase Phase.holds (fun _ => hinv.locked i (by rw [hphase]; rfl)) fun j _ => hinv.locked j
  clear := update_phase Phase.spawns nofun fun j _ => hinv.clear j
  dispatches := by
    simp only [record, setPhase, List.filterMap_append]
    simpa [inDispatch, List.filterMap_cons, started?, ended?, returned?, panicked?] using hinv.dispatches
  fifo := by
    simp only [record, setPhase, List.filterMap_append, hinv.fifo]
    simp [List.filterMap_cons, accepted?, started?]
  pushes := by
    have hholds : (s.callers i).holds = true := by rw [hphase]; rfl
    have hpushes := hinv.pushes
    rw [hinv.returning_holder hholds, hphase] at hpushes
    simp only [record, setPhase, List.filterMap_append, hpushes]
    simp [List.filterMap_cons, returning, accepted?, pushed?, Phase.enqueued?, hinv.locked i hholds]

theorem leave {accepted : Option Task} (hinv : s.Inv) (hphase : s.callers i = .leaving accepted) :
    Inv (({ s with lock := none }.record (accepted.toList.map .pushed)).setPhase i .outside) := by
  have hholds : (s.callers i).holds = true := by rw [hphase]; rfl
  have hpushes := hinv.pushes
  rw [hinv.returning_holder hholds, hphase] at hpushes
  have hhistory : ∀ f : Happened → Option Task, (s.history ++ accepted.toList.map Happened.pushed).filterMap f =
      s.history.filterMap f ++ accepted.toList.filterMap fun task => f (.pushed task) := by
    intro f
    rw [List.filterMap_append, List.filterMap_map]
    rfl
  exact {
    sole := hinv.sole
    locked := update_phase Phase.holds nofun fun j hne hj =>
      absurd hj (Bool.eq_false_iff.mp (hinv.others hholds hne).1)
    clear := update_phase Phase.spawns nofun fun j _ => hinv.clear j
    dispatches := by
      simp only [record, setPhase, hhistory]
      simpa [inDispatch, started?, ended?, returned?, panicked?] using hinv.dispatches
    fifo := by
      simp only [record, setPhase, hhistory]
      simpa [accepted?, started?] using hinv.fifo
    pushes := by
      simp only [record, setPhase, hhistory, hpushes]
      simp [returning, accepted?, pushed?, Phase.enqueued?] }

theorem callerStep (hinv : s.Inv) (h : s.callerStep capacity i = some s') : s'.Inv := by
  cases callerStep_moves h with
  | enter hphase hlock => exact hinv.enter hlock
  | goOn hi hqueued hdead => exact hinv.goOn hi hqueued fun hspawns => hinv.all_finished (hdead hspawns)
  | spawn hspawns hqueued hclear => exact hinv.spawn hspawns hqueued hclear
  | enqueue hphase hpush =>
    unfold producerPush at hpush
    split_ifs at hpush
    obtain rfl := Except.ok.inj hpush
    exact hinv.enqueue hphase
  | leave hphase => exact hinv.leave hphase

/-! ### Steps of a runner -/

theorem inDispatch_set (hinv : s.Inv) (hr : s.runners[r]? = some loop) (hlive : loop ≠ .finished)
    (loop' : EventLoop) : (s.runners.set r loop').filterMap EventLoop.task? = loop'.task?.toList := by
  refine Slots.filterMap_set_sole _ (List.getElem?_eq_some_iff.mp hr).1 ?_ loop'
  intro q hne other hq
  by_contra htask
  refine hne (hinv.unique hq hr (fun hfinished => htask ?_) hlive)
  rw [hfinished]
  rfl

theorem inDispatch_live (hinv : s.Inv) (hr : s.runners[r]? = some loop) (hlive : loop ≠ .finished) :
    s.inDispatch = loop.task?.toList := by
  obtain ⟨hlt, hloop⟩ := List.getElem?_eq_some_iff.mp hr
  have hset := hinv.inDispatch_set hr hlive loop
  rwa [← hloop, List.set_getElem_self, hloop] at hset

theorem inDispatch_le (hinv : s.Inv) : s.inDispatch.length ≤ 1 := by
  by_cases hlive : ∃ loop ∈ s.runners, loop ≠ .finished
  · obtain ⟨loop, hmem, hne⟩ := hlive
    obtain ⟨r, hr⟩ := List.mem_iff_getElem?.mp hmem
    rw [hinv.inDispatch_live hr hne]
    exact Option.length_toList_le
  · have hnone : s.inDispatch = [] := List.filterMap_eq_nil_iff.mpr fun loop hmem => by
      rw [not_not.mp fun hne => hlive ⟨loop, hmem, hne⟩]
      rfl
    simp [hnone]

theorem turn {loop' : EventLoop} {lifecycle : State} {queue : List Task} {happened : List Happened} (hinv : s.Inv)
    (hr : s.runners[r]? = some loop) (hlive : loop ≠ .finished)
    (hdispatches : (s.history ++ happened).filterMap started? =
      (s.history ++ happened).filterMap ended? ++ loop'.task?.toList)
    (hfifo : (s.history ++ happened).filterMap accepted? = (s.history ++ happened).filterMap started? ++ queue)
    (hpushes : (s.history ++ happened).filterMap accepted? =
      (s.history ++ happened).filterMap pushed? ++ s.returning) :
    Inv (({ s with lifecycle, queue }.record happened).setLoop r loop') where
  sole := by
    intro q other hq hne
    by_cases heq : q = r
    · rw [heq]
      exact hinv.sole r loop hr hlive
    · exact hinv.sole q other (by rwa [← List.getElem?_set_ne (Ne.symm heq)]) hne
  locked := hinv.locked
  clear := fun j hj => absurd (hinv.clear j hj loop (List.mem_of_getElem? hr)) hlive
  dispatches := hdispatches.trans (congrArg _ (hinv.inDispatch_set hr hlive loop').symm)
  fifo := hfifo
  pushes := hpushes

theorem pass {loop' : EventLoop} {lifecycle : State} (hinv : s.Inv) (hr : s.runners[r]? = some loop)
    (hlive : loop ≠ .finished) (htask : loop'.task? = loop.task?) :
    Inv ({ s with lifecycle }.setLoop r loop') := by
  have hdispatches := hinv.dispatches
  rw [hinv.inDispatch_live hr hlive, ← htask] at hdispatches
  have hsame : s.history ++ [] = s.history := List.append_nil _
  have hturn := @turn _ _ _ loop' lifecycle s.queue [] hinv hr hlive
  simp only [record, hsame] at hturn
  exact hturn hdispatches hinv.fifo hinv.pushes

theorem dispatched {loop' : EventLoop} {happened : Happened} (hinv : s.Inv)
    (hr : s.runners[r]? = some (.dispatching task)) (hover : happened = .returned task ∨ happened = .panicked task)
    (htask : loop'.task? = none) : Inv ((s.record [happened]).setLoop r loop') := by
  have hdispatches := hinv.dispatches
  have hfifo := hinv.fifo
  have hpushes := hinv.pushes
  rw [hinv.inDispatch_live hr nofun] at hdispatches
  refine @Inv.turn _ _ _ _ s.lifecycle s.queue [happened] hinv hr nofun ?_ ?_ ?_
  · simp only [List.filterMap_append, hdispatches, htask]
    rcases hover with rfl | rfl <;>
      simp [List.filterMap_cons, EventLoop.task?, started?, ended?, returned?, panicked?]
  · simp only [List.filterMap_append, hfifo]
    rcases hover with rfl | rfl <;> simp [List.filterMap_cons, accepted?, started?]
  · simp only [List.filterMap_append, hpushes]
    rcases hover with rfl | rfl <;> simp [List.filterMap_cons, accepted?, pushed?]

theorem take {queue : List Task} (hinv : s.Inv) (hr : s.runners[r]? = some .receiving)
    (hqueue : s.queue = task :: queue) :
    Inv (({ s with queue }.record [.started task]).setLoop r (.dispatching task)) := by
  have hdispatches := hinv.dispatches
  have hfifo := hinv.fifo
  rw [hinv.inDispatch_live hr nofun] at hdispatches
  refine @Inv.turn _ _ _ _ s.lifecycle _ _ hinv hr nofun ?_ ?_ ?_
  · simp only [List.filterMap_append, hdispatches]
    simp [EventLoop.task?, started?, ended?, returned?, panicked?]
  · simp only [List.filterMap_append, hfifo, hqueue]
    simp [List.filterMap_cons, accepted?, started?]
  · simp only [List.filterMap_append, hinv.pushes]
    simp [List.filterMap_cons, accepted?, pushed?]

theorem loopStep {turn : Turn} (hinv : s.Inv) (h : s.loopStep r turn = some s') : s'.Inv := by
  cases loopStep_moves h with
  | start hr => exact hinv.pass hr nofun rfl
  | pass hr _ hlive htask _ => exact hinv.pass hr hlive htask
  | take hr hqueue => exact hinv.take hr hqueue
  | returned hr => exact hinv.dispatched hr (.inl rfl) rfl
  | panicked hr _ => exact hinv.dispatched hr (.inr rfl) rfl
  | stop hr => exact hinv.pass hr nofun rfl

theorem step (hinv : s.Inv) (h : Step capacity s action s') : s'.Inv := by
  unfold Step act at h
  cases action with
  | call i request =>
    dsimp only at h
    split_ifs at h with hphase
    obtain rfl := Option.some.inj h
    exact hinv.call hphase
  | caller i => exact hinv.callerStep h
  | runner r turn => exact hinv.loopStep h

theorem run (h : Run (Step capacity) .new actions s) : s.Inv :=
  @Run.invariant _ _ _ _ _ _ (fun _ s => s.Inv) h .new fun _ _ _ _ hinv hstep => hinv.step hstep

end Inv

/-! ## Dispatch is sequential and in order -/

/-- The tasks whose push was accepted are, in that order, those whose dispatch is over, the one that is
dispatched, and those in the queue. -/
theorem dispatched_in_order (h : Run (Step capacity) .new actions s) :
    (∀ (r r' : Nat) (loop loop' : EventLoop), s.runners[r]? = some loop → s.runners[r']? = some loop' →
      loop ≠ .finished → loop' ≠ .finished → r = r') ∧
    s.history.filterMap accepted? = s.history.filterMap ended? ++ s.inDispatch ++ s.queue ∧
    s.history.filterMap started? = s.history.filterMap ended? ++ s.inDispatch ∧ s.inDispatch.length ≤ 1 ∧
    (s.history.filterMap accepted?).Perm (s.history.filterMap returned? ++ s.history.filterMap panicked? ++
      s.inDispatch ++ s.queue) ∧
    s.history.filterMap accepted? = s.history.filterMap pushed? ++ s.returning := by
  have hinv := Inv.run h
  have haccepted := hinv.fifo
  rw [hinv.dispatches] at haccepted
  refine ⟨fun r r' loop loop' => hinv.unique, haccepted, hinv.dispatches, hinv.inDispatch_le, ?_, hinv.pushes⟩
  rw [haccepted]
  exact ((ended_perm s.history).append_right _).append_right _

/-- Two callers, and a runner that a panic kills between two tasks. -/
def panickedRun : List Action :=
  [.call 0 (.push ⟨1, []⟩), .call 1 (.push ⟨2, []⟩), .caller 1, .caller 1, .caller 1, .caller 1,
    .runner 0 .go, .runner 0 .go, .runner 0 .go, .caller 1, .caller 1, .caller 0, .runner 0 .panic, .runner 0 .go,
    .caller 0, .caller 0, .caller 0, .caller 0, .caller 0, .runner 1 .go, .runner 1 .go, .runner 1 .go]

theorem dispatched_in_order_panicked :
    let s := played (act 1024) .new panickedRun
    s.history.filterMap accepted? = s.history.filterMap ended? ++ s.inDispatch ++ s.queue ∧
      s.history.filterMap panicked? = [⟨2, []⟩] ∧ s.inDispatch = [⟨1, []⟩] := by
  have hrun : Run (Step 1024) .new panickedRun (played (act 1024) .new panickedRun) :=
    run_played (fun _ _ _ h => h) (by decide +kernel)
  exact ⟨(dispatched_in_order hrun).2.1, by decide +kernel, by decide +kernel⟩

end EventLoopSupervisor

end TrenchDb.Storage.Supervisor
