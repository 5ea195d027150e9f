import TrenchDb.Storage.GracefulStop
import TrenchDb.Storage.Threads

/-!
# The supervisor that nobody stops

Without `request_stop`, and while threads can be spawned, the supervisor of `Shutdown` does what that of
`Supervisor` does: what is proved there holds of it too.
-/

open TrenchDb.Lib.Lts

namespace TrenchDb.Storage.Shutdown

/-! ## What the smaller model keeps -/

def EventLoop.forget : EventLoop → Supervisor.EventLoop
  | .spawned => .spawned
  | .continuing => .continuing
  | .receiving => .receiving
  | .waiting => .waiting
  | .dispatching item => .dispatching item.task
  | .checking | .checkingQueue => .checking
  | .leaving => .leaving
  | .returning => .returning
  | .finished => .finished

/-- The call that the thread is in. -/
def callOf : Option Item → Supervisor.Call
  | some item => .push item.task
  | none => .start

def Holder.phase : Holder → Supervisor.Phase
  | .looking item => .looking (callOf item)
  | .spawning item => .spawning (callOf item)
  | .enqueuing item => .enqueuing item.task
  | .lookingAgain item => .lookingAgain item.task
  | .spawningAgain item => .spawningAgain item.task
  | .leaving (.pushed item) => .leaving (some item.task)
  | .leaving (.failed _ _) | .leaving (.stopped _) | .leaving .ensured => .leaving none
  | .taking | .joining _ => .outside

def Caller.phase : Caller → Supervisor.Phase
  | .entering (some task) => .entering (.push task)
  | .entering none => .entering .start
  | .outside | .requesting | .enteringStop | .inside => .outside

def Happened.forget : Happened → Option Supervisor.Happened
  | .accepted item => some (.accepted item.task)
  | .started item => some (.started item.task)
  | .returned item => some (.returned item.task)
  | .panicked item => some (.panicked item.task)
  | .left (.pushed item) => some (.pushed item.task)
  | .left (.failed _ _) | .left (.stopped _) | .left .ensured => none

namespace EventLoopSupervisor

variable {capacity : Nat} {s s' : EventLoopSupervisor} {i r : Nat} {holder holder' : Holder} {action : Action}
  {actions : List Action} {turn : Supervisor.EventLoopSupervisor.Turn}

/-- Where thread `i` is. -/
def phaseOf (s : EventLoopSupervisor) (i : Nat) : Supervisor.Phase :=
  match s.lock with
  | some (j, holder) => if i = j then holder.phase else (s.callers i).phase
  | none => (s.callers i).phase

/-- The numbers of the pushes are forgotten, and who waits for a runner. -/
def forget (s : EventLoopSupervisor) : Supervisor.EventLoopSupervisor :=
  { lifecycle := s.lifecycle
    queue := s.queue.map Item.task
    handle := s.handle
    lock := s.lock.map Prod.fst
    runners := s.runners.map EventLoop.forget
    callers := s.phaseOf
    history := s.history.filterMap Happened.forget }

/-- Nobody calls `request_stop`, and a thread can be spawned. -/
def unstopped (_ : EventLoopSupervisor) : Action → Bool
  | .call _ .requestStop | .holder false => false
  | .call _ (.push _) | .call _ .start | .caller _ | .holder true | .runner _ _ => true

/-- Nobody has requested a stop. -/
structure Unstopped (s : EventLoopSupervisor) : Prop where
  lifecycle : s.lifecycle ≠ .Stopping
  checking : ∀ loop ∈ s.runners, loop ≠ .checkingQueue
  callers : ∀ i, (s.callers i).stops = false
  lock : ∀ i holder, s.lock = some (i, holder) → holder.stops = false ∧ s.callers i = .inside

/-! ## The parts of a step -/

theorem forget_hold (hlock : s.lock = some (i, holder)) (holder' : Holder) :
    (s.hold i holder').forget = s.forget.setPhase i holder'.phase := by
  unfold forget Supervisor.EventLoopSupervisor.setPhase
  simp only [hold, hlock, Option.map_some, Supervisor.EventLoopSupervisor.mk.injEq, true_and, and_true]
  funext j
  by_cases hj : j = i
  · subst hj
    simp [phaseOf]
  · simp [phaseOf, hlock, hj]

theorem forget_setLoop (s : EventLoopSupervisor) (r : Nat) (loop : EventLoop) :
    (s.setLoop r loop).forget = s.forget.setLoop r loop.forget := by
  simp [forget, setLoop, Supervisor.EventLoopSupervisor.setLoop, List.map_set]
  rfl

theorem forget_record (s : EventLoopSupervisor) (happened : List Happened) :
    (s.record happened).forget = s.forget.record (happened.filterMap Happened.forget) := by
  simp [forget, record, Supervisor.EventLoopSupervisor.record]
  rfl

theorem forget_spawnRunner (s : EventLoopSupervisor) : s.spawnRunner.forget = s.forget.spawnRunner := by
  simp [forget, spawnRunner, Supervisor.EventLoopSupervisor.spawnRunner, EventLoop.forget]
  rfl

theorem forget_setCaller (hfree : ∀ holder, s.lock ≠ some (i, holder)) (caller : Caller) :
    (s.setCaller i caller).forget = s.forget.setPhase i caller.phase := by
  unfold forget Supervisor.EventLoopSupervisor.setPhase
  simp only [setCaller, Supervisor.EventLoopSupervisor.mk.injEq, true_and, and_true]
  funext j
  by_cases hj : j = i
  · subst hj
    cases hlock : s.lock with
    | none => simp [phaseOf]
    | some lock =>
      have hne : j ≠ lock.1 := by
        rintro rfl
        exact hfree lock.2 hlock
      simp [phaseOf, hne]
  · simp [phaseOf, hj]

theorem forget_enter (hlock : s.lock = none) (calls : Nat) (holder : Holder) :
    (({ s with calls }.hold i holder).setCaller i .inside).forget =
      ({ s.forget with lock := some i }).setPhase i holder.phase := by
  unfold forget Supervisor.EventLoopSupervisor.setPhase
  simp only [hold, setCaller, Option.map_some, Supervisor.EventLoopSupervisor.mk.injEq, true_and, and_true]
  funext j
  by_cases hj : j = i
  · subst hj
    simp [phaseOf]
  · simp [phaseOf, hlock, hj]

theorem forget_leave {outcome : Outcome} (hlock : s.lock = some (i, .leaving outcome)) :
    (({ s with lock := none }.record [.left outcome]).setCaller i .outside).forget =
      ({ s.forget with lock := none }.record ([Happened.left outcome].filterMap Happened.forget)).setPhase i
        .outside := by
  unfold forget Supervisor.EventLoopSupervisor.setPhase Supervisor.EventLoopSupervisor.record
  simp only [record, setCaller, List.filterMap_append, Option.map_none, Supervisor.EventLoopSupervisor.mk.injEq,
    true_and, and_true]
  funext j
  by_cases hj : j = i
  · subst hj
    simp [phaseOf, Caller.phase]
  · simp [phaseOf, hlock, hj]

theorem runnerIsDead_forget (s : EventLoopSupervisor) : s.forget.runnerIsDead = s.runnerIsDead := by
  unfold Supervisor.EventLoopSupervisor.runnerIsDead runnerIsDead forget
  dsimp only
  cases s.handle with
  | none => rfl
  | some r =>
    simp only [List.getElem?_map]
    cases s.runners[r]? with
    | none => rfl
    | some loop => cases loop <;> rfl

theorem producerPush_forget (capacity : Nat) (s : EventLoopSupervisor) (item : Item) :
    producerPush capacity s.forget.queue item.task =
      if s.Full capacity then .error .Full else .ok ((s.queue ++ [item]).map Item.task) := by
  unfold producerPush Full
  simp [forget]

/-! ## One step for one step -/

theorem loopStep_forget (hunstopped : s.Unstopped) (h : s.loopStep r turn = some s') :
    s.forget.loopStep r turn = some s'.forget := by
  have hget : s.forget.runners[r]? = s.runners[r]?.map EventLoop.forget := List.getElem?_map
  unfold Supervisor.EventLoopSupervisor.loopStep
  rw [hget]
  unfold loopStep at h
  split at h
  next hr =>
    obtain rfl := Option.some.inj h
    rw [hr, forget_setLoop]
    rfl
  next hr =>
    obtain rfl := Option.some.inj h
    rw [hr, forget_setLoop, apply_ite EventLoop.forget]
    rfl
  next hr =>
    rw [hr]
    split at h
    next item queue hqueue =>
      obtain rfl := Option.some.inj h
      rw [forget_setLoop, forget_record]
      simp only [Option.map_some, EventLoop.forget, forget, hqueue, List.map_cons]
      rfl
    next hqueue =>
      obtain rfl := Option.some.inj h
      rw [forget_setLoop]
      simp only [Option.map_some, EventLoop.forget, forget, hqueue, List.map_nil]
  next hr =>
    obtain rfl := Option.some.inj h
    rw [hr, forget_setLoop]
    rfl
  next hr =>
    obtain rfl := Option.some.inj h
    rw [hr, forget_setLoop]
    rfl
  next item hr =>
    obtain rfl := Option.some.inj h
    rw [hr, forget_setLoop, forget_record]
    rfl
  next item hr =>
    obtain rfl := Option.some.inj h
    rw [hr, forget_setLoop, forget_record]
    rfl
  next hr =>
    -- Nobody has requested a stop, so the runner goes on, with or without a look at the queue.
    obtain rfl := Option.some.inj h
    rw [hr, forget_setLoop, if_neg hunstopped.lifecycle]
    simp only [Option.map_some, EventLoop.forget]
    rw [if_neg fun hstop => hunstopped.lifecycle hstop.1]
  next hr => exact absurd rfl (hunstopped.checking _ (List.mem_of_getElem? hr))
  next hr =>
    obtain rfl := Option.some.inj h
    rw [hr, forget_setLoop]
    rfl
  next hr =>
    obtain rfl := Option.some.inj h
    rw [hr, forget_setLoop]
    rfl
  next => cases h

theorem holderStep_forget (hunstopped : s.Unstopped) (h : s.holderStep capacity true = some s') :
    ∃ i, s.forget.callerStep capacity i = some s'.forget := by
  have hphase : ∀ {i holder}, s.lock = some (i, holder) → s.forget.callers i = holder.phase := by
    intro i holder hlock
    simp [forget, phaseOf, hlock]
  unfold holderStep at h
  split at h
  next => cases h
  next i item hlock =>
    obtain rfl := Option.some.inj h
    refine ⟨i, ?_⟩
    unfold Supervisor.EventLoopSupervisor.callerStep
    rw [hphase hlock, forget_hold hlock]
    simp only [Holder.phase, runnerIsDead_forget]
    cases s.runnerIsDead <;> cases item <;> rfl
  next i item hlock =>
    obtain rfl := Option.some.inj h
    refine ⟨i, ?_⟩
    unfold Supervisor.EventLoopSupervisor.callerStep
    rw [hphase hlock, if_pos rfl, forget_hold (show s.spawnRunner.lock = _ from hlock), forget_spawnRunner]
    cases item <;> rfl
  next i item hlock =>
    refine ⟨i, ?_⟩
    unfold Supervisor.EventLoopSupervisor.callerStep
    rw [hphase hlock]
    simp only [Holder.phase, producerPush_forget]
    split_ifs at h ⊢ with hfull
    · obtain rfl := Option.some.inj h
      rw [forget_hold hlock]
      rfl
    · obtain rfl := Option.some.inj h
      rw [forget_hold (show ({ s with queue := s.queue ++ [item] }.record [.accepted item]).lock = _ from hlock),
        forget_record]
      rfl
  next i item hlock =>
    obtain rfl := Option.some.inj h
    refine ⟨i, ?_⟩
    unfold Supervisor.EventLoopSupervisor.callerStep
    rw [hphase hlock, forget_hold hlock]
    simp only [Holder.phase, runnerIsDead_forget]
    cases s.runnerIsDead <;> rfl
  next i item hlock =>
    obtain rfl := Option.some.inj h
    refine ⟨i, ?_⟩
    unfold Supervisor.EventLoopSupervisor.callerStep
    rw [hphase hlock, if_pos rfl, forget_hold (show s.spawnRunner.lock = _ from hlock), forget_spawnRunner]
    rfl
  next i hlock => cases (hunstopped.lock _ _ hlock).1
  next i r hlock => cases (hunstopped.lock _ _ hlock).1
  next i outcome hlock =>
    obtain rfl := Option.some.inj h
    refine ⟨i, ?_⟩
    unfold Supervisor.EventLoopSupervisor.callerStep
    rw [hphase hlock, forget_leave hlock]
    cases outcome <;> rfl

theorem callerStep_forget (hunstopped : s.Unstopped) (h : s.callerStep i = some s') :
    s.forget.callerStep capacity i = some s'.forget := by
  have hphase : s.lock = none → s.forget.callers i = (s.callers i).phase := by
    intro hlock
    simp [forget, phaseOf, hlock]
  have hfree : s.lock = none → s.forget.lock = none := by
    intro hlock
    simp [forget, hlock]
  have hstops := hunstopped.callers i
  unfold callerStep at h
  split at h
  next task hcaller hlock =>
    obtain rfl := Option.some.inj h
    unfold Supervisor.EventLoopSupervisor.callerStep
    rw [hphase hlock, hcaller]
    simp only [Caller.phase, hfree hlock]
    exact congrArg some (forget_enter hlock (s.calls + 1) (.looking (some ⟨s.calls, task⟩))).symm
  next hcaller hlock =>
    obtain rfl := Option.some.inj h
    unfold Supervisor.EventLoopSupervisor.callerStep
    rw [hphase hlock, hcaller]
    simp only [Caller.phase, hfree hlock]
    exact congrArg some (forget_enter hlock s.calls (.looking none)).symm
  next hcaller =>
    rw [hcaller] at hstops
    cases hstops
  next hcaller hlock =>
    rw [hcaller] at hstops
    cases hstops
  next => cases h

theorem call_forget (hunstopped : s.Unstopped) (houtside : s.callers i = .outside) {request : Request}
    {call : Supervisor.Call} (hcall : request.caller.phase = .entering call) :
    Supervisor.EventLoopSupervisor.Step capacity s.forget (.call i call) (s.setCaller i request.caller).forget := by
  have hfree : ∀ holder, s.lock ≠ some (i, holder) := by
    intro holder hlock
    have hinside := (hunstopped.lock i holder hlock).2
    rw [houtside] at hinside
    cases hinside
  have hphase : s.forget.callers i = .outside := by
    simp only [forget, phaseOf]
    split
    next j holder hlock =>
      have hne : i ≠ j := by
        rintro rfl
        exact hfree holder hlock
      rw [if_neg hne, houtside, Caller.phase]
    next => rw [houtside, Caller.phase]
  unfold Supervisor.EventLoopSupervisor.Step Supervisor.EventLoopSupervisor.act
  dsimp only
  rw [if_pos hphase, forget_setCaller hfree, hcall]

/-! ## Nobody has requested a stop -/

namespace Unstopped

theorem new : Unstopped .new := by
  constructor <;> simp [EventLoopSupervisor.new, Caller.stops]

theorem call (hunstopped : s.Unstopped) (houtside : s.callers i = .outside) {caller : Caller}
    (hcaller : caller.stops = false) : Unstopped (s.setCaller i caller) where
  lifecycle := hunstopped.lifecycle
  checking := hunstopped.checking
  callers := (Function.forall_update_iff s.callers fun _ caller => caller.stops = false).mpr
    ⟨hcaller, fun j _ => hunstopped.callers j⟩
  lock := by
    intro j holder hlock
    obtain ⟨hstops, hinside⟩ := hunstopped.lock j holder hlock
    refine ⟨hstops, ?_⟩
    have hne : j ≠ i := by
      rintro rfl
      rw [houtside] at hinside
      cases hinside
    exact (Function.update_of_ne hne _ _).trans hinside

theorem enter {calls : Nat} (hunstopped : s.Unstopped) (holder : Holder) (hholder : holder.stops = false) :
    Unstopped (({ s with calls }.hold i holder).setCaller i .inside) where
  lifecycle := hunstopped.lifecycle
  checking := hunstopped.checking
  callers := (Function.forall_update_iff s.callers fun _ caller => caller.stops = false).mpr
    ⟨rfl, fun j _ => hunstopped.callers j⟩
  lock := by
    intro j holder' hlock
    obtain ⟨rfl, rfl⟩ := Prod.mk.inj (Option.some.inj hlock)
    exact ⟨hholder, Function.update_self _ _ _⟩

theorem rehold {queue : List Item} {runners : List EventLoop} {handle : Option Nat} {history : List Happened}
    (hunstopped : s.Unstopped) (hlock : s.lock = some (i, holder)) (hholder : holder'.stops = false)
    (hrunners : ∀ loop ∈ runners, loop ∈ s.runners ∨ loop = .spawned) :
    Unstopped ({ s with queue, runners, handle, history }.hold i holder') where
  lifecycle := hunstopped.lifecycle
  checking := by
    intro loop hmem
    rcases hrunners loop hmem with hold | rfl
    · exact hunstopped.checking loop hold
    · simp
  callers := hunstopped.callers
  lock := by
    intro j holder'' heq
    obtain ⟨rfl, rfl⟩ := Prod.mk.inj (Option.some.inj heq)
    exact ⟨hholder, (hunstopped.lock i holder hlock).2⟩

theorem holderStep (hunstopped : s.Unstopped) (h : s.holderStep capacity true = some s') : s'.Unstopped := by
  have hspawned : ∀ loop ∈ s.runners ++ [EventLoop.spawned], loop ∈ s.runners ∨ loop = .spawned := by
    intro loop hmem
    exact (List.mem_append.mp hmem).imp_right List.mem_singleton.mp
  cases holderStep_moves h with
  | goOn hlock hnext =>
    exact hunstopped.rehold hlock (hnext.plain (hunstopped.lock _ _ hlock).1) fun _ => .inl
  | @spawn _ given hlock => exact hunstopped.rehold hlock (by cases given <;> rfl) hspawned
  | spawnAgain hlock => exact hunstopped.rehold hlock rfl hspawned
  | enqueue hlock => exact hunstopped.rehold hlock rfl fun _ => .inl
  | take hlock => cases (hunstopped.lock _ _ hlock).1
  | leave hlock =>
    exact ⟨hunstopped.lifecycle, hunstopped.checking,
      (Function.forall_update_iff s.callers fun _ caller => caller.stops = false).mpr
        ⟨rfl, fun j _ => hunstopped.callers j⟩, by rintro _ _ ⟨⟩⟩

theorem setLoop {lifecycle : Supervisor.State} {queue : List Item} {history : List Happened} {loop : EventLoop}
    (hunstopped : s.Unstopped) (hlifecycle : lifecycle ≠ .Stopping) (hloop : loop ≠ .checkingQueue) :
    Unstopped ({ s with lifecycle, queue, history }.setLoop r loop) where
  lifecycle := hlifecycle
  checking := by
    intro loop' hmem
    rcases List.mem_or_eq_of_mem_set hmem with hold | rfl
    · exact hunstopped.checking loop' hold
    · exact hloop
  callers := hunstopped.callers
  lock := hunstopped.lock

theorem loopStep (hunstopped : s.Unstopped) (h : s.loopStep r turn = some s') : s'.Unstopped := by
  have hlifecycle := hunstopped.lifecycle
  cases loopStep_moves h with
  | start =>
    refine hunstopped.setLoop ?_ (by simp)
    cases hstate : s.lifecycle <;> simp_all [Supervisor.Lifecycle.start]
  | pass hr hpass =>
    refine hunstopped.setLoop hlifecycle ?_
    cases hpass with
    | stopping hstopping => exact absurd hstopping hlifecycle
    | receive | ended | sleep | wake | timeout | going | drained | more | gone => simp
  | take | returned | panicked => exact hunstopped.setLoop hlifecycle (by simp)
  | leave =>
    refine hunstopped.setLoop ?_ (by simp)
    cases hstate : s.lifecycle <;> simp_all [Supervisor.Lifecycle.completeShutdown]

end Unstopped

theorem step_forget (hunstopped : s.Unstopped) (h : Guarded (Step capacity) unstopped s action s') :
    s'.Unstopped ∧ ∃ action', Supervisor.EventLoopSupervisor.Step capacity s.forget action' s'.forget ∧
      ∀ r, action' = .runner r .panic → action = .runner r .panic := by
  obtain ⟨hstep, haction⟩ := h
  unfold Step act at hstep
  cases action with
  | call i request =>
    dsimp only at hstep
    split at hstep
    next houtside =>
      obtain rfl := Option.some.inj hstep
      cases request with
      | push task => exact ⟨hunstopped.call houtside rfl, _, call_forget hunstopped houtside rfl, by simp⟩
      | start => exact ⟨hunstopped.call houtside rfl, _, call_forget hunstopped houtside rfl, by simp⟩
      | requestStop => cases haction
    next => cases hstep
  | caller i =>
    refine ⟨?_, .caller i, callerStep_forget hunstopped hstep, by simp⟩
    have hstops := hunstopped.callers i
    cases callerStep_moves hstep with
    | push | start => exact hunstopped.enter _ rfl
    | request hcaller | stop hcaller =>
      rw [hcaller] at hstops
      cases hstops
  | holder spawns =>
    cases spawns with
    | true =>
      obtain ⟨i, hcaller⟩ := holderStep_forget hunstopped hstep
      exact ⟨hunstopped.holderStep hstep, .caller i, hcaller, by simp⟩
    | false => cases haction
  | runner r turn =>
    refine ⟨hunstopped.loopStep hstep, .runner r turn, loopStep_forget hunstopped hstep, fun r heq => ?_⟩
    obtain ⟨rfl, rfl⟩ := Supervisor.EventLoopSupervisor.Action.runner.inj heq
    rfl

theorem run_forget (h : Run (Guarded (Step capacity) unstopped) .new actions s) :
    s.Unstopped ∧ ∃ actions', Run (Supervisor.EventLoopSupervisor.Step capacity) .new actions' s.forget ∧
      ∀ r, .runner r .panic ∈ actions' → .runner r .panic ∈ actions := by
  induction h with
  | nil => exact ⟨.new, [], .nil, by simp⟩
  | snoc _ hstep ih =>
    obtain ⟨hunstopped, actions', hrun, hpanics⟩ := ih
    obtain ⟨hunstopped', action', hstep', hpanic⟩ := step_forget hunstopped hstep
    refine ⟨hunstopped', _, hrun.snoc hstep', fun r hmem => ?_⟩
    rcases List.mem_append.mp hmem with hbefore | hlast
    · exact List.mem_append_left _ (hpanics r hbefore)
    · exact List.mem_append_right _ (List.mem_singleton.mpr (hpanic r (List.mem_singleton.mp hlast).symm).symm)

/-- And without a panic it is what the supervisor can do of which `push` is one step. -/
theorem unstopped_atomic (h : Run (Guarded (Step QUEUE_CAPACITY) unstopped) .new actions s)
    (hpanic : ∀ r, .runner r .panic ∉ actions) :
    Relation.ReflTransGen Supervisor.EventLoopSupervisor.Atomic (.start true) s.forget.atomic := by
  obtain ⟨-, actions', hrun, hpanics⟩ := run_forget h
  exact Supervisor.EventLoopSupervisor.refines_atomic hrun fun r hmem => hpanic r (hpanics r hmem)

end EventLoopSupervisor

end TrenchDb.Storage.Shutdown
