import TrenchDb.Lib.Slots
import TrenchDb.Storage.Supervisor

/-!
# The supervisor, with stops and spawns that fail

`EventLoopSupervisor` of `engine/src/events/loops.rs` as in `Supervisor`, and beyond it: `request_stop`,
which joins the runner under the lock of the handle, threads that cannot be spawned, and a runner that reads
the lifecycle and the queue one after the other.
-/

open TrenchDb.Lib TrenchDb.Lib.Lts
open TrenchDb.Storage.Supervisor (State)
open TrenchDb.Storage.Supervisor.EventLoopSupervisor (Turn)

namespace TrenchDb.Storage.Shutdown

/-! ## The lifecycle -/

/-- `events::StopPolicy`. -/
inductive StopPolicy
  | Graceful
  | Immediate
  deriving DecidableEq, Repr

/-- `Lifecycle::request_stop`. -/
def requestStop : State → StopPolicy → State
  | .Created, .Graceful => .Stopping
  | .Created, .Immediate => .Stopped
  | .Running, .Graceful => .Stopping
  | .Running, .Immediate => .Stopped
  | .Stopping, _ => .Stopping
  | .Stopped, _ => .Stopped

/-! ## The threads -/

/-- A task in the queue. `call` numbers the pushes as they get the lock, and no step reads it. -/
structure Item where
  call : Nat
  task : Task
  deriving DecidableEq, Repr

/-- Where a runner is. At `checking` it reads the lifecycle, at `checkingQueue` the queue. -/
inductive EventLoop
  | spawned
  | continuing
  | receiving
  | waiting
  | dispatching (item : Item)
  | checking
  | checkingQueue
  | leaving
  | returning
  | finished
  deriving DecidableEq, Repr

/-- The task that the runner dispatches. -/
def EventLoop.item? : EventLoop → Option Item
  | .dispatching item => some item
  | .spawned | .continuing | .receiving | .waiting | .checking | .checkingQueue | .leaving | .returning
  | .finished => none

/-- How a call returns: a push, `request_stop` of thread `i`, or `start`. -/
inductive Outcome
  | pushed (item : Item)
  | failed (item : Item) (error : PushError)
  | stopped (i : Nat)
  | ensured
  deriving DecidableEq, Repr

/-- What happened to a task, and how calls returned. -/
inductive Happened
  | accepted (item : Item)
  | started (item : Item)
  | returned (item : Item)
  | panicked (item : Item)
  | left (outcome : Outcome)
  deriving DecidableEq, Repr

/-- A call of the supervisor. -/
inductive Request
  | push (task : Task)
  | start
  | requestStop
  deriving DecidableEq, Repr

/-- Where a thread is that uses the supervisor, but for what it does with the lock. -/
inductive Caller
  | outside
  | entering (task : Option Task)
  | requesting
  | enteringStop
  | inside
  deriving DecidableEq, Repr

/-- Where a call begins. -/
def Request.caller : Request → Caller
  | .push task => .entering (some task)
  | .start => .entering none
  | .requestStop => .requesting

/-- Where the thread is that has the lock of the handle. `none` stands for `start`, which pushes nothing. -/
inductive Holder
  | looking (item : Option Item)
  | spawning (item : Option Item)
  | enqueuing (item : Item)
  | lookingAgain (item : Item)
  | spawningAgain (item : Item)
  | taking
  | joining (r : Nat)
  | leaving (outcome : Outcome)
  deriving DecidableEq, Repr

namespace Holder

/-- The task that is still to be put into the queue. -/
def item? : Holder → Option Item
  | .looking item | .spawning item => item
  | .enqueuing item => some item
  | .lookingAgain _ | .spawningAgain _ | .taking | .joining _ | .leaving _ => none

/-- The thread has seen that there is no live runner, and spawns one next. -/
def spawns : Holder → Bool
  | .spawning _ | .spawningAgain _ => true
  | .looking _ | .enqueuing _ | .lookingAgain _ | .taking | .joining _ | .leaving _ => false

/-- The task that is in the queue, and whose `push` has not failed so far. -/
def queued? : Holder → Option Item
  | .lookingAgain item | .spawningAgain item | .leaving (.pushed item) => some item
  | .looking _ | .spawning _ | .enqueuing _ | .taking | .joining _ | .leaving _ => none

/-- The runner that the thread waits for. -/
def joins? : Holder → Option Nat
  | .joining r => some r
  | .looking _ | .spawning _ | .enqueuing _ | .lookingAgain _ | .spawningAgain _ | .taking | .leaving _ => none

/-- After the first look at the runner. `start` is done then. -/
def looked : Option Item → Holder
  | some item => .enqueuing item
  | none => .leaving .ensured

/-- After a spawn that failed before the task was put into the queue. -/
def refused : Option Item → Holder
  | some item => .leaving (.failed item .Spawn)
  | none => .leaving .ensured

end Holder

/-- The supervisor with the threads that use it. `lock` has the thread that holds the lock of the handle.
`history` is a record that no step reads. -/
structure EventLoopSupervisor where
  lifecycle : State
  queue : List Item
  handle : Option Nat
  lock : Option (Nat × Holder)
  runners : List EventLoop
  callers : Nat → Caller
  calls : Nat
  history : List Happened

namespace EventLoopSupervisor

def new : EventLoopSupervisor :=
  { lifecycle := .Created, queue := [], handle := none, lock := none, runners := [], callers := fun _ => .outside,
    calls := 0, history := [] }

def setCaller (s : EventLoopSupervisor) (i : Nat) (caller : Caller) : EventLoopSupervisor :=
  { s with callers := Function.update s.callers i caller }

def setLoop (s : EventLoopSupervisor) (r : Nat) (loop : EventLoop) : EventLoopSupervisor :=
  { s with runners := s.runners.set r loop }

def record (s : EventLoopSupervisor) (happened : List Happened) : EventLoopSupervisor :=
  { s with history := s.history ++ happened }

/-- Thread `i` has the lock. -/
def hold (s : EventLoopSupervisor) (i : Nat) (holder : Holder) : EventLoopSupervisor :=
  { s with lock := some (i, holder) }

/-! ### Callers -/

def runnerIsDead (s : EventLoopSupervisor) : Bool :=
  match s.handle with
  | some r => s.runners[r]? == some .finished
  | none => true

def spawnRunner (s : EventLoopSupervisor) : EventLoopSupervisor :=
  { s with runners := s.runners ++ [.spawned], handle := some s.runners.length }

/-- There is no room for a task. A capacity of 0 is none. -/
def Full (capacity : Nat) (s : EventLoopSupervisor) : Prop := 0 < capacity ∧ capacity ≤ s.queue.length

instance (capacity : Nat) (s : EventLoopSupervisor) : Decidable (s.Full capacity) := inferInstanceAs (Decidable (_ ∧ _))

def callerStep (s : EventLoopSupervisor) (i : Nat) : Option EventLoopSupervisor :=
  match s.callers i, s.lock with
  | .entering (some task), none =>
    some (({ s with calls := s.calls + 1 }.hold i (.looking (some ⟨s.calls, task⟩))).setCaller i .inside)
  | .entering none, none => some ((s.hold i (.looking none)).setCaller i .inside)
  | .requesting, _ => some ({ s with lifecycle := requestStop s.lifecycle .Graceful }.setCaller i .enteringStop)
  | .enteringStop, none => some ((s.hold i .taking).setCaller i .inside)
  | _, _ => none

/-- The next step of the thread that has the lock. `spawns` tells whether a thread can be spawned. -/
def holderStep (capacity : Nat) (s : EventLoopSupervisor) (spawns : Bool) : Option EventLoopSupervisor :=
  match s.lock with
  | none => none
  | some (i, .looking item) => some (s.hold i (if s.runnerIsDead then .spawning item else .looked item))
  | some (i, .spawning item) =>
    some (if spawns then s.spawnRunner.hold i (.looked item) else s.hold i (.refused item))
  | some (i, .enqueuing item) =>
    if s.Full capacity then some (s.hold i (.leaving (.failed item .Full)))
    else some (({ s with queue := s.queue ++ [item] }.record [.accepted item]).hold i (.lookingAgain item))
  | some (i, .lookingAgain item) =>
    some (s.hold i (if s.runnerIsDead then .spawningAgain item else .leaving (.pushed item)))
  | some (i, .spawningAgain item) =>
    some (if spawns then s.spawnRunner.hold i (.leaving (.pushed item))
      else s.hold i (.leaving (.failed item .Spawn)))
  | some (i, .taking) =>
    match s.handle with
    | some r => some ({ s with handle := none }.hold i (.joining r))
    | none => some (s.hold i (.leaving (.stopped i)))
  | some (i, .joining r) =>
    if s.runners[r]? = some .finished then some (s.hold i (.leaving (.stopped i))) else none
  | some (i, .leaving outcome) => some (({ s with lock := none }.record [.left outcome]).setCaller i .outside)

/-! ### Runners -/

/-- The next step of a runner: `EventLoop::run` inside of `catch_unwind`. -/
def loopStep (s : EventLoopSupervisor) (r : Nat) (turn : Turn) : Option EventLoopSupervisor :=
  match s.runners[r]?, turn with
  | some .spawned, .go => some ({ s with lifecycle := Supervisor.Lifecycle.start s.lifecycle }.setLoop r .continuing)
  | some .continuing, .go =>
    some (s.setLoop r (if Supervisor.Lifecycle.shouldContinue s.lifecycle then .receiving else .leaving))
  | some .receiving, .go =>
    match s.queue with
    | item :: queue => some (({ s with queue }.record [.started item]).setLoop r (.dispatching item))
    | [] => some (s.setLoop r .waiting)
  | some .waiting, .go => some (s.setLoop r .receiving)
  | some .waiting, .timeout => some (s.setLoop r .checking)
  | some (.dispatching item), .go => some ((s.record [.returned item]).setLoop r .checking)
  | some (.dispatching item), .panic => some ((s.record [.panicked item]).setLoop r .returning)
  | some .checking, .go => some (s.setLoop r (if s.lifecycle = .Stopping then .checkingQueue else .continuing))
  | some .checkingQueue, .go => some (s.setLoop r (if s.queue = [] then .leaving else .continuing))
  | some .leaving, .go =>
    some ({ s with lifecycle := Supervisor.Lifecycle.completeShutdown s.lifecycle }.setLoop r .returning)
  | some .returning, .go => some (s.setLoop r .finished)
  | _, _ => none

/-! ### All threads -/

inductive Action
  | call (i : Nat) (request : Request)
  | caller (i : Nat)
  | holder (spawns : Bool)
  | runner (r : Nat) (turn : Turn)
  deriving DecidableEq, Repr

def act (capacity : Nat) (s : EventLoopSupervisor) : Action → Option EventLoopSupervisor
  | .call i request => if s.callers i = .outside then some (s.setCaller i request.caller) else none
  | .caller i => s.callerStep i
  | .holder spawns => s.holderStep capacity spawns
  | .runner r turn => s.loopStep r turn

def Step (capacity : Nat) (s : EventLoopSupervisor) (action : Action) (s' : EventLoopSupervisor) : Prop :=
  s.act capacity action = some s'

/-! ## What became of the tasks -/

def accepted? : Happened → Option Item
  | .accepted item => some item
  | .started _ | .returned _ | .panicked _ | .left _ => none

def started? : Happened → Option Item
  | .started item => some item
  | .accepted _ | .returned _ | .panicked _ | .left _ => none

def returned? : Happened → Option Item
  | .returned item => some item
  | .accepted _ | .started _ | .panicked _ | .left _ => none

def panicked? : Happened → Option Item
  | .panicked item => some item
  | .accepted _ | .started _ | .returned _ | .left _ => none

/-- The dispatch is over, one way or the other. -/
def ended? (happened : Happened) : Option Item := returned? happened <|> panicked? happened

/-- The tasks that runners dispatch now. -/
def inDispatch (s : EventLoopSupervisor) : List Item := s.runners.filterMap EventLoop.item?

/-- The runner that the handle names, or that a stop waits for. -/
def joinable (s : EventLoopSupervisor) : Option Nat := (s.lock.bind fun lock => lock.2.joins?).or s.handle

/-- The task of the thread that has the lock, while it is not in the queue. -/
def unqueued? (s : EventLoopSupervisor) : Option Item := s.lock.bind fun lock => lock.2.item?

/-! ## What a step can do -/

variable {capacity : Nat} {s s' : EventLoopSupervisor} {i r : Nat} {loop loop' : EventLoop} {holder holder' : Holder}
  {action : Action} {actions : List Action} {item : Item} {spawns : Bool} {turn : Turn}

/-- The holder of the lock, thread `i`, goes on, and nothing else changes. -/
inductive GoesOn (capacity : Nat) (s : EventLoopSupervisor) (i : Nat) (spawns : Bool) : Holder → Holder → Prop
  | dead {item : Option Item} : s.runnerIsDead = true → GoesOn capacity s i spawns (.looking item) (.spawning item)
  | alive {item : Option Item} : s.runnerIsDead = false → GoesOn capacity s i spawns (.looking item) (.looked item)
  | refused {item : Option Item} : spawns = false → GoesOn capacity s i spawns (.spawning item) (.refused item)
  | full {item : Item} : s.Full capacity →
      GoesOn capacity s i spawns (.enqueuing item) (.leaving (.failed item .Full))
  | deadAgain {item : Item} : s.runnerIsDead = true →
      GoesOn capacity s i spawns (.lookingAgain item) (.spawningAgain item)
  | aliveAgain {item : Item} : s.runnerIsDead = false →
      GoesOn capacity s i spawns (.lookingAgain item) (.leaving (.pushed item))
  | refusedAgain {item : Item} : spawns = false →
      GoesOn capacity s i spawns (.spawningAgain item) (.leaving (.failed item .Spawn))
  | nothingToJoin : s.handle = none → GoesOn capacity s i spawns .taking (.leaving (.stopped i))
  | joined {r : Nat} : s.runners[r]? = some .finished →
      GoesOn capacity s i spawns (.joining r) (.leaving (.stopped i))

inductive HolderMoves (capacity : Nat) (s : EventLoopSupervisor) (spawns : Bool) : EventLoopSupervisor → Prop
  | goOn {i : Nat} {holder holder' : Holder} : s.lock = some (i, holder) →
      GoesOn capacity s i spawns holder holder' → HolderMoves capacity s spawns (s.hold i holder')
  | spawn {i : Nat} {item : Option Item} : s.lock = some (i, .spawning item) →
      HolderMoves capacity s spawns (s.spawnRunner.hold i (.looked item))
  | spawnAgain {i : Nat} {item : Item} : s.lock = some (i, .spawningAgain item) →
      HolderMoves capacity s spawns (s.spawnRunner.hold i (.leaving (.pushed item)))
  | enqueue {i : Nat} {item : Item} : s.lock = some (i, .enqueuing item) → ¬ s.Full capacity →
      HolderMoves capacity s spawns
        (({ s with queue := s.queue ++ [item] }.record [.accepted item]).hold i (.lookingAgain item))
  | take {i r : Nat} : s.lock = some (i, .taking) → s.handle = some r →
      HolderMoves capacity s spawns ({ s with handle := none }.hold i (.joining r))
  | leave {i : Nat} {outcome : Outcome} : s.lock = some (i, .leaving outcome) →
      HolderMoves capacity s spawns (({ s with lock := none }.record [.left outcome]).setCaller i .outside)

inductive CallerMoves (s : EventLoopSupervisor) (i : Nat) : EventLoopSupervisor → Prop
  | push {task : Task} : s.lock = none → CallerMoves s i
      (({ s with calls := s.calls + 1 }.hold i (.looking (some ⟨s.calls, task⟩))).setCaller i .inside)
  | start : s.lock = none → CallerMoves s i ((s.hold i (.looking none)).setCaller i .inside)
  | request : s.callers i = .requesting →
      CallerMoves s i ({ s with lifecycle := requestStop s.lifecycle .Graceful }.setCaller i .enteringStop)
  | stop : s.callers i = .enteringStop → s.lock = none → CallerMoves s i ((s.hold i .taking).setCaller i .inside)

/-- A runner goes on, and nothing else changes. -/
inductive Passes (s : EventLoopSupervisor) : EventLoop → EventLoop → Prop
  | receive : Supervisor.Lifecycle.shouldContinue s.lifecycle = true → Passes s .continuing .receiving
  | ended : Supervisor.Lifecycle.shouldContinue s.lifecycle = false → Passes s .continuing .leaving
  | sleep : s.queue = [] → Passes s .receiving .waiting
  | wake : Passes s .waiting .receiving
  | timeout : Passes s .waiting .checking
  | stopping : s.lifecycle = .Stopping → Passes s .checking .checkingQueue
  | going : s.lifecycle ≠ .Stopping → Passes s .checking .continuing
  | drained : s.queue = [] → Passes s .checkingQueue .leaving
  | more : s.queue ≠ [] → Passes s .checkingQueue .continuing
  | gone : Passes s .returning .finished

inductive LoopMoves (s : EventLoopSupervisor) (r : Nat) (turn : Turn) : EventLoopSupervisor → Prop
  | start : s.runners[r]? = some .spawned →
      LoopMoves s r turn ({ s with lifecycle := Supervisor.Lifecycle.start s.lifecycle }.setLoop r .continuing)
  | pass {loop loop' : EventLoop} : s.runners[r]? = some loop → Passes s loop loop' →
      LoopMoves s r turn (s.setLoop r loop')
  | take {item : Item} {queue : List Item} : s.runners[r]? = some .receiving → s.queue = item :: queue →
      LoopMoves s r turn (({ s with queue }.record [.started item]).setLoop r (.dispatching item))
  | returned {item : Item} : s.runners[r]? = some (.dispatching item) →
      LoopMoves s r turn ((s.record [.returned item]).setLoop r .checking)
  | panicked {item : Item} : s.runners[r]? = some (.dispatching item) → turn = .panic →
      LoopMoves s r turn ((s.record [.panicked item]).setLoop r .returning)
  | leave : s.runners[r]? = some .leaving → LoopMoves s r turn
      ({ s with lifecycle := Supervisor.Lifecycle.completeShutdown s.lifecycle }.setLoop r .returning)

theorem callerStep_moves (h : s.callerStep i = some s') : s.CallerMoves i s' := by
  unfold callerStep at h
  split at h
  next task hcaller hlock =>
    obtain rfl := Option.some.inj h
    exact .push hlock
  next hcaller hlock =>
    obtain rfl := Option.some.inj h
    exact .start hlock
  next hcaller =>
    obtain rfl := Option.some.inj h
    exact .request hcaller
  next hcaller hlock =>
    obtain rfl := Option.some.inj h
    exact .stop hcaller hlock
  next => cases h

theorem holderStep_moves (h : s.holderStep capacity spawns = some s') : s.HolderMoves capacity spawns s' := by
  unfold holderStep at h
  split at h
  next => cases h
  next i item hlock =>
    obtain rfl := Option.some.inj h
    cases hdead : s.runnerIsDead with
    | true => exact .goOn hlock (.dead hdead)
    | false => exact .goOn hlock (.alive hdead)
  next i item hlock =>
    obtain rfl := Option.some.inj h
    cases spawns with
    | true => exact .spawn hlock
    | false => exact .goOn hlock (.refused rfl)
  next i item hlock =>
    split_ifs at h with hfull
    · obtain rfl := Option.some.inj h
      exact .goOn hlock (.full hfull)
    · obtain rfl := Option.some.inj h
      exact .enqueue hlock hfull
  next i item hlock =>
    obtain rfl := Option.some.inj h
    cases hdead : s.runnerIsDead with
    | true => exact .goOn hlock (.deadAgain hdead)
    | false => exact .goOn hlock (.aliveAgain hdead)
  next i item hlock =>
    obtain rfl := Option.some.inj h
    cases spawns with
    | true => exact .spawnAgain hlock
    | false => exact .goOn hlock (.refusedAgain rfl)
  next i hlock =>
    split at h
    next r hhandle =>
      obtain rfl := Option.some.inj h
      exact .take hlock hhandle
    next hhandle =>
      obtain rfl := Option.some.inj h
      exact .goOn hlock (.nothingToJoin hhandle)
  next i r hlock =>
    split_ifs at h with hfinished
    obtain rfl := Option.some.inj h
    exact .goOn hlock (.joined hfinished)
  next i outcome hlock =>
    obtain rfl := Option.some.inj h
    exact .leave hlock

theorem loopStep_moves (h : s.loopStep r turn = some s') : s.LoopMoves r turn s' := by
  unfold loopStep at h
  split at h
  next hr =>
    obtain rfl := Option.some.inj h
    exact .start hr
  next hr =>
    obtain rfl := Option.some.inj h
    cases hgoes : Supervisor.Lifecycle.shouldContinue s.lifecycle with
    | true => exact .pass hr (.receive hgoes)
    | false => exact .pass hr (.ended hgoes)
  next hr =>
    split at h
    next item queue hqueue =>
      obtain rfl := Option.some.inj h
      exact .take hr hqueue
    next hqueue =>
      obtain rfl := Option.some.inj h
      exact .pass hr (.sleep hqueue)
  next hr =>
    obtain rfl := Option.some.inj h
    exact .pass hr .wake
  next hr =>
    obtain rfl := Option.some.inj h
    exact .pass hr .timeout
  next item hr =>
    obtain rfl := Option.some.inj h
    exact .returned hr
  next item hr =>
    obtain rfl := Option.some.inj h
    exact .panicked hr rfl
  next hr =>
    obtain rfl := Option.some.inj h
    split_ifs with hstopping
    · exact .pass hr (.stopping hstopping)
    · exact .pass hr (.going hstopping)
  next hr =>
    obtain rfl := Option.some.inj h
    split_ifs with hqueue
    · exact .pass hr (.drained hqueue)
    · exact .pass hr (.more hqueue)
  next hr =>
    obtain rfl := Option.some.inj h
    exact .leave hr
  next hr =>
    obtain rfl := Option.some.inj h
    exact .pass hr .gone
  next => cases h

/-! ## The invariant -/

/-- There is one live runner at most, and the tasks go through the queue in order. -/
structure Inv (s : EventLoopSupervisor) : Prop where
  sole : ∀ (r : Nat) (loop : EventLoop), s.runners[r]? = some loop → loop ≠ .finished → s.joinable = some r
  clear : ∀ (i : Nat) (holder : Holder), s.lock = some (i, holder) → holder.spawns = true →
    ∀ loop ∈ s.runners, loop = .finished
  dispatches : s.history.filterMap started? = s.history.filterMap ended? ++ s.inDispatch
  fifo : s.history.filterMap accepted? = s.history.filterMap started? ++ s.queue
  numbered : ∀ item, s.unqueued? = some item → item.call < s.calls
  fresh : ∀ a ∈ s.history.filterMap accepted?, a.call < s.calls ∧ ∀ item, s.unqueued? = some item → a.call < item.call
  once : (s.history.filterMap accepted?).Pairwise fun a b => a.call < b.call
  queued : ∀ (i : Nat) (holder : Holder) (item : Item), s.lock = some (i, holder) → holder.queued? = some item →
    item ∈ s.history.filterMap accepted?
  pushes : ∀ item, .left (.pushed item) ∈ s.history → item ∈ s.history.filterMap accepted?

theorem joinable_eq (hlock : s.lock = some (i, holder)) : s.joinable = holder.joins?.or s.handle := by
  simp [joinable, hlock]

theorem unqueued_eq (hlock : s.lock = some (i, holder)) : s.unqueued? = holder.item? := by
  simp [unqueued?, hlock]

theorem joinable_free (hlock : s.lock = none) : s.joinable = s.handle := by
  simp [joinable, hlock]

theorem GoesOn.keeps_item (h : GoesOn capacity s i spawns holder holder') (hitem : holder'.item? = some item) :
    holder.item? = some item := by
  cases h with
  | dead => exact hitem
  | @alive given =>
    cases given with
    | none => cases hitem
    | some given => exact hitem
  | @refused given => cases given <;> cases hitem
  | full | deadAgain | aliveAgain | refusedAgain | nothingToJoin | joined => cases hitem

theorem GoesOn.keeps_queued (h : GoesOn capacity s i spawns holder holder') (hitem : holder'.queued? = some item) :
    holder.queued? = some item := by
  cases h with
  | @alive given => cases given <;> cases hitem
  | @refused given => cases given <;> cases hitem
  | deadAgain | aliveAgain => exact hitem
  | dead | full | refusedAgain | nothingToJoin | joined => cases hitem

theorem GoesOn.sees_dead (h : GoesOn capacity s i spawns holder holder') (hspawns : holder'.spawns = true) :
    s.runnerIsDead = true ∧ holder.joins? = none := by
  cases h with
  | dead hdead => exact ⟨hdead, rfl⟩
  | deadAgain hdead => exact ⟨hdead, rfl⟩
  | @alive given => cases given <;> cases hspawns
  | @refused given => cases given <;> cases hspawns
  | full | aliveAgain | refusedAgain | nothingToJoin | joined => cases hspawns

theorem GoesOn.lets_go (h : GoesOn capacity s i spawns holder holder') : holder'.joins? = none ∧
    ∀ r, holder.joins? = some r → s.runners[r]? = some .finished := by
  cases h with
  | @joined r hfinished =>
    refine ⟨rfl, fun q hq => ?_⟩
    obtain rfl := Option.some.inj hq
    exact hfinished
  | @alive given => cases given <;> exact ⟨rfl, nofun⟩
  | @refused given => cases given <;> exact ⟨rfl, nofun⟩
  | dead | full | deadAgain | aliveAgain | refusedAgain | nothingToJoin => exact ⟨rfl, nofun⟩

namespace Inv

theorem new : Inv .new := by
  constructor <;> simp [EventLoopSupervisor.new, inDispatch, unqueued?]

theorem unique {r' : Nat} (hinv : s.Inv) (hr : s.runners[r]? = some loop) (hr' : s.runners[r']? = some loop')
    (hlive : loop ≠ .finished) (hlive' : loop' ≠ .finished) : r = r' := by
  have hjoinable := hinv.sole r loop hr hlive
  rw [hinv.sole r' loop' hr' hlive'] at hjoinable
  exact (Option.some.inj hjoinable).symm

theorem all_finished (hinv : s.Inv) (hlock : s.lock = some (i, holder)) (hjoins : holder.joins? = none)
    (hdead : s.runnerIsDead = true) : ∀ loop ∈ s.runners, loop = .finished := by
  intro loop hmem
  obtain ⟨r, hr⟩ := List.mem_iff_getElem?.mp hmem
  by_contra hne
  have hhandle := hinv.sole r loop hr hne
  rw [joinable_eq hlock, hjoins, Option.none_or] at hhandle
  simp only [runnerIsDead, hhandle, hr, beq_iff_eq, Option.some.injEq] at hdead
  exact hne hdead

/-! ### Steps of the holder -/

theorem relock (hinv : s.Inv) {lock : Option (Nat × Holder)} {handle : Option Nat} {calls : Nat}
    (hcalls : s.calls ≤ calls)
    (hsole : ∀ r loop, s.runners[r]? = some loop → loop ≠ .finished →
      joinable { s with lock, handle, calls } = some r)
    (hclear : ∀ i holder, lock = some (i, holder) → holder.spawns = true → ∀ loop ∈ s.runners, loop = .finished)
    (hitem : ∀ item, unqueued? { s with lock, handle, calls } = some item →
      s.unqueued? = some item ∨ s.calls ≤ item.call ∧ item.call < calls)
    (hqueued : ∀ i holder item, lock = some (i, holder) → holder.queued? = some item →
      item ∈ s.history.filterMap accepted?) : Inv { s with lock, handle, calls } where
  sole := hsole
  clear := hclear
  dispatches := hinv.dispatches
  fifo := hinv.fifo
  numbered := by
    intro item hunqueued
    rcases hitem item hunqueued with hold | hnew
    · exact (hinv.numbered item hold).trans_le hcalls
    · exact hnew.2
  fresh := by
    intro a ha
    obtain ⟨hlt, hbefore⟩ := hinv.fresh a ha
    refine ⟨hlt.trans_le hcalls, fun item hunqueued => ?_⟩
    rcases hitem item hunqueued with hold | hnew
    · exact hbefore item hold
    · exact hlt.trans_le hnew.1
  once := hinv.once
  queued := hqueued
  pushes := hinv.pushes

theorem goOn (hinv : s.Inv) (hlock : s.lock = some (i, holder)) (h : GoesOn capacity s i spawns holder holder') :
    Inv (s.hold i holder') := by
  obtain ⟨hjoins', hjoins⟩ := h.lets_go
  refine hinv.relock (Nat.le_refl _) ?_ ?_ ?_ ?_
  · intro r loop hr hne
    have hjoinable := hinv.sole r loop hr hne
    rw [joinable_eq hlock] at hjoinable
    show holder'.joins?.or s.handle = some r
    rw [hjoins', Option.none_or]
    cases hholder : holder.joins? with
    | none => rwa [hholder, Option.none_or] at hjoinable
    | some q =>
      rw [hholder, Option.some_or] at hjoinable
      obtain rfl := Option.some.inj hjoinable
      have hfinished := hjoins q hholder
      rw [hr] at hfinished
      exact absurd (Option.some.inj hfinished) hne
  · intro j given heq hspawns
    obtain ⟨-, rfl⟩ := Prod.mk.inj (Option.some.inj heq)
    obtain ⟨hdead, hnone⟩ := h.sees_dead hspawns
    exact hinv.all_finished hlock hnone hdead
  · intro item hitem
    exact .inl (by rw [unqueued_eq hlock]; exact h.keeps_item hitem)
  · intro j given item heq hitem
    obtain ⟨-, rfl⟩ := Prod.mk.inj (Option.some.inj heq)
    exact hinv.queued i holder item hlock (h.keeps_queued hitem)

theorem spawn (hinv : s.Inv) (hlock : s.lock = some (i, holder)) (hspawns : holder.spawns = true)
    (hjoins : holder'.joins? = none) (hspawns' : holder'.spawns = false)
    (hitem : ∀ item, holder'.item? = some item → holder.item? = some item)
    (hqueued : ∀ item, holder'.queued? = some item → holder.queued? = some item) :
    Inv (s.spawnRunner.hold i holder') where
  sole := by
    intro r loop hr hne
    show holder'.joins?.or (some s.runners.length) = some r
    rw [hjoins, Option.none_or]
    simp only [hold, spawnRunner, List.getElem?_append] at hr
    split_ifs at hr with hlt
    · exact absurd (hinv.clear i holder hlock hspawns loop (List.mem_of_getElem? hr)) hne
    · simp only [List.getElem?_singleton] at hr
      split_ifs at hr with hzero
      exact congrArg some (by omega)
  clear := by
    intro j given heq hgiven
    obtain ⟨-, rfl⟩ := Prod.mk.inj (Option.some.inj heq)
    rw [hspawns'] at hgiven
    cases hgiven
  dispatches := by
    have hsame : (s.spawnRunner.hold i holder').inDispatch = s.inDispatch := by
      simp [inDispatch, hold, spawnRunner, EventLoop.item?, List.filterMap_cons]
    rw [hsame]
    exact hinv.dispatches
  fifo := hinv.fifo
  numbered := fun item hunqueued => hinv.numbered item (by rw [unqueued_eq hlock]; exact hitem item hunqueued)
  fresh := fun a ha => ⟨(hinv.fresh a ha).1, fun item hunqueued =>
    (hinv.fresh a ha).2 item (by rw [unqueued_eq hlock]; exact hitem item hunqueued)⟩
  once := hinv.once
  queued := by
    intro j given item heq hgiven
    obtain ⟨-, rfl⟩ := Prod.mk.inj (Option.some.inj heq)
    exact hinv.queued i holder item hlock (hqueued item hgiven)
  pushes := hinv.pushes

theorem enqueue (hinv : s.Inv) (hlock : s.lock = some (i, .enqueuing item)) :
    Inv (({ s with queue := s.queue ++ [item] }.record [.accepted item]).hold i (.lookingAgain item)) := by
  have hunqueued : s.unqueued? = some item := by
    rw [unqueued_eq hlock]
    rfl
  have haccepted : (s.history ++ [Happened.accepted item]).filterMap accepted? =
      s.history.filterMap accepted? ++ [item] := by
    simp [accepted?]
  refine
    { sole := ?_, clear := ?_, dispatches := ?_, fifo := ?_, numbered := nofun, fresh := ?_, once := ?_, queued := ?_,
      pushes := ?_ }
  · intro r loop hr hne
    rw [← hinv.sole r loop hr hne, joinable_eq hlock]
    rfl
  · intro j given heq hspawns
    obtain ⟨-, rfl⟩ := Prod.mk.inj (Option.some.inj heq)
    cases hspawns
  · have hdispatches := hinv.dispatches
    simp only [hold, record, List.filterMap_append]
    simpa [inDispatch, List.filterMap_cons, started?, ended?, returned?, panicked?] using hdispatches
  · simp only [hold, record, haccepted, hinv.fifo]
    simp [List.filterMap_cons, started?]
  · intro a ha
    refine ⟨?_, nofun⟩
    simp only [hold, record, haccepted, List.mem_append, List.mem_singleton] at ha
    rcases ha with ha | rfl
    · exact (hinv.fresh a ha).1
    · exact hinv.numbered a hunqueued
  · simp only [hold, record, haccepted, List.pairwise_append, List.pairwise_singleton, true_and, List.mem_singleton]
    refine ⟨hinv.once, fun a ha b hb => ?_⟩
    rw [hb]
    exact (hinv.fresh a ha).2 item hunqueued
  · intro j given other heq hgiven
    obtain ⟨-, rfl⟩ := Prod.mk.inj (Option.some.inj heq)
    obtain rfl := Option.some.inj hgiven
    simp only [hold, record, haccepted]
    exact List.mem_append_right _ (List.mem_singleton_self _)
  · intro other hpushed
    simp only [hold, record, haccepted, List.mem_append, List.mem_singleton, reduceCtorEq, or_false] at hpushed ⊢
    exact .inl (hinv.pushes other hpushed)

theorem take (hinv : s.Inv) (hlock : s.lock = some (i, .taking)) (hhandle : s.handle = some r) :
    Inv ({ s with handle := none }.hold i (.joining r)) := by
  refine hinv.relock (Nat.le_refl _) ?_ ?_ nofun ?_
  · intro q loop hq hne
    rw [← hinv.sole q loop hq hne, joinable_eq hlock, hhandle]
    rfl
  · intro j given heq hspawns
    obtain ⟨-, rfl⟩ := Prod.mk.inj (Option.some.inj heq)
    cases hspawns
  · intro j given item heq hqueued
    obtain ⟨-, rfl⟩ := Prod.mk.inj (Option.some.inj heq)
    cases hqueued

theorem leave {outcome : Outcome} (hinv : s.Inv) (hlock : s.lock = some (i, .leaving outcome)) :
    Inv (({ s with lock := none }.record [.left outcome]).setCaller i .outside) := by
  have haccepted : (s.history ++ [Happened.left outcome]).filterMap accepted? = s.history.filterMap accepted? := by
    simp [accepted?]
  refine
    { sole := ?_, clear := nofun, dispatches := ?_, fifo := ?_, numbered := nofun, fresh := ?_, once := ?_,
      queued := nofun, pushes := ?_ }
  · intro r loop hr hne
    rw [← hinv.sole r loop hr hne, joinable_eq hlock]
    rfl
  · have hdispatches := hinv.dispatches
    simp only [setCaller, record, List.filterMap_append]
    simpa [inDispatch, List.filterMap_cons, started?, ended?, returned?, panicked?] using hdispatches
  · simp only [setCaller, record, haccepted, hinv.fifo]
    simp [List.filterMap_cons, started?]
  · intro a ha
    exact ⟨(hinv.fresh a (haccepted ▸ ha)).1, nofun⟩
  · exact haccepted.symm ▸ hinv.once
  · intro item hpushed
    show item ∈ (s.history ++ [Happened.left outcome]).filterMap accepted?
    rw [haccepted]
    rcases List.mem_append.mp hpushed with hpushed | hnow
    · exact hinv.pushes item hpushed
    · obtain rfl := Happened.left.inj (List.mem_singleton.mp hnow)
      exact hinv.queued i _ item hlock rfl

theorem holderStep (hinv : s.Inv) (h : s.holderStep capacity spawns = some s') : s'.Inv := by
  cases holderStep_moves h with
  | goOn hlock hnext => exact hinv.goOn hlock hnext
  | @spawn _ given hlock =>
    cases given with
    | some item =>
      refine hinv.spawn hlock rfl rfl rfl (fun _ hitem => hitem) ?_
      exact nofun
    | none => exact hinv.spawn hlock rfl rfl rfl nofun nofun
  | spawnAgain hlock =>
    refine hinv.spawn hlock rfl rfl rfl ?_ fun _ hqueued => hqueued
    exact nofun
  | enqueue hlock => exact hinv.enqueue hlock
  | take hlock hhandle => exact hinv.take hlock hhandle
  | leave hlock => exact hinv.leave hlock

/-! ### Steps of a caller without the lock -/

theorem congr (hinv : s.Inv) {callers : Nat → Caller} {lifecycle : State} : Inv { s with callers, lifecycle } :=
  { hinv with }

theorem enter (hinv : s.Inv) (hlock : s.lock = none) {calls : Nat} (hcalls : s.calls ≤ calls)
    (hjoins : holder.joins? = none) (hspawns : holder.spawns = false) (hqueued : holder.queued? = none)
    (hitem : ∀ item, holder.item? = some item → s.calls ≤ item.call ∧ item.call < calls) :
    Inv ({ s with calls }.hold i holder) := by
  refine hinv.relock hcalls ?_ ?_ ?_ ?_
  · intro r loop hr hne
    show holder.joins?.or s.handle = some r
    rw [hjoins, Option.none_or, ← joinable_free hlock]
    exact hinv.sole r loop hr hne
  · intro j given heq hgiven
    obtain ⟨-, rfl⟩ := Prod.mk.inj (Option.some.inj heq)
    rw [hspawns] at hgiven
    cases hgiven
  · exact fun item hunqueued => .inr (hitem item hunqueued)
  · intro j given item heq hgiven
    obtain ⟨-, rfl⟩ := Prod.mk.inj (Option.some.inj heq)
    rw [hqueued] at hgiven
    cases hgiven

theorem callerStep (hinv : s.Inv) (h : s.callerStep i = some s') : s'.Inv := by
  cases callerStep_moves h with
  | @push task hlock =>
    refine (hinv.enter hlock (Nat.le_succ _) rfl rfl rfl fun item hitem => ?_).congr
    obtain rfl := Option.some.inj hitem
    exact ⟨Nat.le_refl _, Nat.lt_succ_self _⟩
  | start hlock =>
    refine (hinv.enter hlock (Nat.le_refl _) rfl rfl rfl ?_).congr
    exact nofun
  | request => exact hinv.congr
  | stop _ hlock =>
    refine (hinv.enter hlock (Nat.le_refl _) rfl rfl rfl ?_).congr
    exact nofun

/-! ### Steps of a runner -/

theorem inDispatch_set (hinv : s.Inv) (hr : s.runners[r]? = some loop) (hlive : loop ≠ .finished)
    (loop' : EventLoop) : (s.runners.set r loop').filterMap EventLoop.item? = loop'.item?.toList := by
  refine Slots.filterMap_set_sole _ (List.getElem?_eq_some_iff.mp hr).1 ?_ loop'
  intro q hne other hq
  by_contra hitem
  refine hne (hinv.unique hq hr (fun hfinished => hitem ?_) hlive)
  rw [hfinished]
  rfl

theorem inDispatch_live (hinv : s.Inv) (hr : s.runners[r]? = some loop) (hlive : loop ≠ .finished) :
    s.inDispatch = loop.item?.toList := by
  obtain ⟨hlt, hloop⟩ := List.getElem?_eq_some_iff.mp hr
  have hset := hinv.inDispatch_set hr hlive loop
  rwa [← hloop, List.set_getElem_self, hloop] at hset

theorem takes_turn {lifecycle : State} {queue : List Item} {happened : List Happened} (hinv : s.Inv)
    (hr : s.runners[r]? = some loop) (hlive : loop ≠ .finished)
    (haccepted : happened.filterMap accepted? = [])
    (hdispatches : (s.history ++ happened).filterMap started? =
      (s.history ++ happened).filterMap ended? ++ loop'.item?.toList)
    (hfifo : s.history.filterMap started? ++ s.queue = (s.history ++ happened).filterMap started? ++ queue)
    (hpushes : ∀ outcome, .left outcome ∉ happened) :
    Inv (({ s with lifecycle, queue }.record happened).setLoop r loop') := by
  have hsame : (s.history ++ happened).filterMap accepted? = s.history.filterMap accepted? := by
    rw [List.filterMap_append, haccepted, List.append_nil]
  refine
    { sole := ?_, clear := ?_, dispatches := ?_, fifo := ?_, numbered := hinv.numbered, fresh := ?_, once := ?_,
      queued := ?_, pushes := ?_ }
  · intro q other hq hne
    by_cases heq : q = r
    · rw [heq]
      exact hinv.sole r loop hr hlive
    · exact hinv.sole q other (by rwa [← List.getElem?_set_ne (Ne.symm heq)]) hne
  · exact fun j holder hlock hspawns => absurd (hinv.clear j holder hlock hspawns loop (List.mem_of_getElem? hr)) hlive
  · exact hdispatches.trans (congrArg _ (hinv.inDispatch_set hr hlive loop').symm)
  · exact (hsame.trans hinv.fifo).trans hfifo
  · exact fun a ha => hinv.fresh a (hsame ▸ ha)
  · exact hsame.symm ▸ hinv.once
  · exact fun j holder item hlock hqueued => hsame.symm ▸ hinv.queued j holder item hlock hqueued
  · intro item hpushed
    refine hsame.symm ▸ hinv.pushes item ?_
    exact (List.mem_append.mp hpushed).resolve_right (hpushes _)

theorem pass {lifecycle : State} (hinv : s.Inv) (hr : s.runners[r]? = some loop) (hlive : loop ≠ .finished)
    (hitem : loop'.item? = loop.item?) : Inv ({ s with lifecycle }.setLoop r loop') := by
  have hdispatches := hinv.dispatches
  rw [hinv.inDispatch_live hr hlive, ← hitem] at hdispatches
  have hsame : s.history ++ [] = s.history := List.append_nil _
  have hturn := @takes_turn _ r loop loop' lifecycle s.queue [] hinv hr hlive rfl
  simp only [record, hsame] at hturn
  exact hturn hdispatches trivial nofun

theorem dispatched {happened : Happened} (hinv : s.Inv) (hr : s.runners[r]? = some (.dispatching item))
    (hended : happened = .returned item ∨ happened = .panicked item) (hitem : loop'.item? = none) :
    Inv ((s.record [happened]).setLoop r loop') := by
  have hdispatches := hinv.dispatches
  rw [hinv.inDispatch_live hr nofun] at hdispatches
  refine @Inv.takes_turn _ _ _ _ s.lifecycle s.queue [happened] hinv hr nofun ?_ ?_ ?_ ?_
  · rcases hended with rfl | rfl <;> rfl
  · simp only [List.filterMap_append, hdispatches, hitem]
    rcases hended with rfl | rfl <;>
      simp [List.filterMap_cons, EventLoop.item?, started?, ended?, returned?, panicked?]
  · rcases hended with rfl | rfl <;> simp [List.filterMap_cons, started?]
  · rcases hended with rfl | rfl <;> simp

theorem takes {queue : List Item} (hinv : s.Inv) (hr : s.runners[r]? = some .receiving)
    (hqueue : s.queue = item :: queue) :
    Inv (({ s with queue }.record [.started item]).setLoop r (.dispatching item)) := by
  have hdispatches := hinv.dispatches
  rw [hinv.inDispatch_live hr nofun] at hdispatches
  refine @Inv.takes_turn _ _ _ _ s.lifecycle _ _ hinv hr nofun rfl ?_ ?_ ?_
  · simp only [List.filterMap_append, hdispatches]
    simp [EventLoop.item?, started?, ended?, returned?, panicked?]
  · simp [hqueue, started?]
  · simp

theorem loopStep (hinv : s.Inv) (h : s.loopStep r turn = some s') : s'.Inv := by
  cases loopStep_moves h with
  | start hr => exact hinv.pass hr nofun rfl
  | pass hr hpass => cases hpass <;> exact hinv.pass hr nofun rfl
  | take hr hqueue => exact hinv.takes hr hqueue
  | returned hr => exact hinv.dispatched hr (.inl rfl) rfl
  | panicked hr _ => exact hinv.dispatched hr (.inr rfl) rfl
  | leave hr => exact hinv.pass hr nofun rfl

theorem step (hinv : s.Inv) (h : Step capacity s action s') : s'.Inv := by
  unfold Step act at h
  cases action with
  | call i request =>
    dsimp only at h
    split_ifs at h
    obtain rfl := Option.some.inj h
    exact hinv.congr
  | caller i => exact hinv.callerStep h
  | holder spawns => exact hinv.holderStep h
  | runner r turn => exact hinv.loopStep h

theorem run (h : Run (Step capacity) .new actions s) : s.Inv :=
  @Run.invariant _ _ _ _ _ _ (fun _ s => s.Inv) h .new fun _ _ _ _ hinv hstep => hinv.step hstep

end Inv

end EventLoopSupervisor

end TrenchDb.Storage.Shutdown
