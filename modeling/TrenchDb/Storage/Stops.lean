import TrenchDb.Storage.Shutdown

/-!
# Tasks that are accepted too late, and pushes that fail

A push does not look at the lifecycle, so a task may be accepted too late; and a push that fails at its
second spawn has put its task into the queue.
-/

open TrenchDb.Lib.Lts
open TrenchDb.Storage.Supervisor (State)
open TrenchDb.Storage.Supervisor.EventLoopSupervisor (Turn)

namespace TrenchDb.Storage.Shutdown

namespace EventLoopSupervisor

variable {capacity : Nat} {s s' : EventLoopSupervisor} {i r : Nat} {loop loop' : EventLoop} {holder : Holder}
  {action : Action} {actions : List Action} {item : Item} {spawns : Bool} {turn : Turn}

/-! ## Tasks that come too late -/

/-- The runner has looked at the queue for the last time. -/
def Late (s : EventLoopSupervisor) : Prop := s.lifecycle = .Stopped ∨ .leaving ∈ s.runners

instance : Decidable s.Late := inferInstanceAs (Decidable (_ ∨ _))

/-- The step does not put a task into the queue late. -/
def timely (capacity : Nat) (s : EventLoopSupervisor) (action : Action) : Bool :=
  match action, s.lock with
  | .holder _, some (_, .enqueuing _) => decide (s.Full capacity) || !decide s.Late
  | _, _ => true

/-- Once the lifecycle is `Stopped` and no runner executes, no task waits whose push returned `Ok`. -/
def NoDeadTask (s : EventLoopSupervisor) : Prop :=
  s.lifecycle = .Stopped → (∀ loop ∈ s.runners, loop = .finished) →
    ∀ item ∈ s.queue, .left (.pushed item) ∉ s.history

/-- Nothing waits once the runner has looked for the last time. -/
structure Drained (s : EventLoopSupervisor) : Prop where
  late : s.Late → s.queue = []
  begun : ∀ loop ∈ s.runners, loop ≠ .spawned → s.lifecycle ≠ .Created

theorem stopped_requestStop {lifecycle : State} :
    requestStop lifecycle .Graceful = .Stopped ↔ lifecycle = .Stopped := by
  cases lifecycle <;> simp [requestStop]

theorem requestStop_ne_created (lifecycle : State) : requestStop lifecycle .Graceful ≠ .Created := by
  cases lifecycle <;> simp [requestStop]

theorem stopped_start {lifecycle : State} : Supervisor.Lifecycle.start lifecycle = .Stopped ↔ lifecycle = .Stopped := by
  cases lifecycle <;> simp [Supervisor.Lifecycle.start]

theorem start_ne_created (lifecycle : State) : Supervisor.Lifecycle.start lifecycle ≠ .Created := by
  cases lifecycle <;> simp [Supervisor.Lifecycle.start]

theorem completeShutdown_eq {lifecycle : State} (h : lifecycle ≠ .Created) :
    Supervisor.Lifecycle.completeShutdown lifecycle = .Stopped := by
  cases lifecycle with
  | Created => exact absurd rfl h
  | Running | Stopping | Stopped => rfl

theorem stopped_of_over {lifecycle : State} (h : Supervisor.Lifecycle.shouldContinue lifecycle = false)
    (hbegun : lifecycle ≠ .Created) : lifecycle = .Stopped := by
  cases lifecycle with
  | Created => exact absurd rfl hbegun
  | Running | Stopping => cases h
  | Stopped => rfl

theorem late_setLoop {lifecycle : State} {history : List Happened}
    (h : Late ({ s with lifecycle, history }.setLoop r loop')) :
    lifecycle = .Stopped ∨ loop' = .leaving ∨ .leaving ∈ s.runners := by
  rcases h with hstopped | hleaving
  · exact .inl hstopped
  · exact .inr ((List.mem_or_eq_of_mem_set hleaving).symm.imp_left Eq.symm)

theorem late_spawn : s.spawnRunner.Late ↔ s.Late := by
  simp [Late, spawnRunner]

namespace Drained

theorem setLoop {lifecycle : State} {history : List Happened} (hdrained : s.Drained)
    (hlifecycle : lifecycle = .Stopped → s.queue = []) (hleaving : loop' = .leaving → s.queue = [])
    (hbegun : lifecycle ≠ .Created) : Drained ({ s with lifecycle, history }.setLoop r loop') where
  late := by
    intro hlate
    rcases late_setLoop hlate with hstopped | hloop | hmem
    · exact hlifecycle hstopped
    · exact hleaving hloop
    · exact hdrained.late (.inr hmem)
  begun := fun _ _ _ => hbegun

theorem loopStep (hdrained : s.Drained) (h : s.loopStep r turn = some s') : s'.Drained := by
  have hbegun : ∀ {loop}, s.runners[r]? = some loop → loop ≠ .spawned → s.lifecycle ≠ .Created := fun hr =>
    hdrained.begun _ (List.mem_of_getElem? hr)
  have hstopped : s.lifecycle = .Stopped → s.queue = [] := fun h => hdrained.late (.inl h)
  cases loopStep_moves h with
  | start hr => exact hdrained.setLoop (fun h => hstopped (stopped_start.mp h)) nofun (start_ne_created _)
  | pass hr hpass =>
    cases hpass with
    | ended hended =>
      have hcreated := hbegun hr nofun
      exact hdrained.setLoop hstopped (fun _ => hstopped (stopped_of_over hended hcreated)) hcreated
    | drained hqueue => exact hdrained.setLoop hstopped (fun _ => hqueue) (hbegun hr nofun)
    | receive | sleep | wake | timeout | stopping | going | more | gone =>
      exact hdrained.setLoop hstopped nofun (hbegun hr nofun)
  | @take item queue hr hqueue =>
    have hnone : ∀ {p : Prop}, (p → s.queue = []) → ¬ p := by
      intro p hempty hp
      rw [hempty hp] at hqueue
      cases hqueue
    refine ⟨fun hlate => ?_, fun _ _ _ => hbegun hr nofun⟩
    rcases hlate with hstop | hleaving
    · exact absurd hstop (hnone hstopped)
    · have hmem := (List.mem_or_eq_of_mem_set hleaving).resolve_right nofun
      exact absurd hmem (hnone fun hmem => hdrained.late (.inr hmem))
  | returned hr => exact hdrained.setLoop hstopped nofun (hbegun hr nofun)
  | panicked hr => exact hdrained.setLoop hstopped nofun (hbegun hr nofun)
  | leave hr => exact hdrained.setLoop (fun _ => hdrained.late (.inr (List.mem_of_getElem? hr))) nofun (by
      rw [completeShutdown_eq (hbegun hr nofun)]
      exact nofun)

theorem holderStep (hdrained : s.Drained) (h : s.holderStep capacity spawns = some s')
    (htimely : s.timely capacity (.holder spawns) = true) : s'.Drained := by
  have hspawn : s.spawnRunner.Drained := by
    refine ⟨fun hlate => hdrained.late (late_spawn.mp hlate), fun loop hmem hne => ?_⟩
    rcases List.mem_append.mp hmem with hmem | hnew
    · exact hdrained.begun loop hmem hne
    · exact absurd (List.mem_singleton.mp hnew) hne
  cases holderStep_moves h with
  | goOn | take | leave => exact ⟨hdrained.late, hdrained.begun⟩
  | spawn | spawnAgain => exact ⟨hspawn.late, hspawn.begun⟩
  | enqueue hlock hroom =>
    have hearly : ¬ s.Late := by simpa [timely, hlock, hroom] using htimely
    exact ⟨fun hlate => absurd hlate hearly, hdrained.begun⟩

theorem step (hdrained : s.Drained) (h : Guarded (Step capacity) (timely capacity) s action s') : s'.Drained := by
  obtain ⟨hstep, htimely⟩ := h
  unfold Step act at hstep
  cases action with
  | call i request =>
    dsimp only at hstep
    split_ifs at hstep
    obtain rfl := Option.some.inj hstep
    exact ⟨hdrained.late, hdrained.begun⟩
  | caller i =>
    cases callerStep_moves hstep with
    | push | start | stop => exact ⟨hdrained.late, hdrained.begun⟩
    | request =>
      refine ⟨fun hlate => hdrained.late ?_, fun _ _ _ => requestStop_ne_created _⟩
      exact hlate.imp_left stopped_requestStop.mp
  | holder spawns => exact hdrained.holderStep hstep htimely
  | runner r turn => exact hdrained.loopStep hstep

end Drained

/-- Where no push puts its task into the queue late, no task is left in a dead queue. -/
theorem no_dead_task (h : Run (Guarded (Step capacity) (timely capacity)) .new actions s) : s.NoDeadTask := by
  have hdrained : s.Drained := by
    refine @Run.invariant _ _ _ _ _ _ (fun _ (s : EventLoopSupervisor) => s.Drained) h ⟨fun _ => rfl, nofun⟩ ?_
    exact fun _ _ _ _ hdrained hstep => hdrained.step hstep
  intro hstopped _ item hmem
  rw [hdrained.late (.inl hstopped)] at hmem
  cases hmem

/-- A push that returns, and a stop that drains its task. -/
def stoppedRun : List Action :=
  [.call 0 (.push ⟨1, []⟩), .caller 0, .holder true, .holder true, .holder true, .holder true, .holder true,
    .call 1 .requestStop, .runner 0 .go, .runner 0 .go, .caller 1, .runner 0 .go, .caller 1, .holder true,
    .runner 0 .go, .runner 0 .go, .runner 0 .go, .runner 0 .go, .runner 0 .go, .holder true, .holder true]

/-- One more push, once the stop has returned: its runner ends before it looks at the queue. -/
def latePush : List Action :=
  [.call 0 (.push ⟨2, []⟩), .caller 0, .holder true, .holder true, .holder true, .holder true, .holder true,
    .runner 1 .go, .runner 1 .go, .runner 1 .go, .runner 1 .go]

theorem no_dead_task_stopped :
    let s := played (guarded (act 1024) (timely 1024)) .new stoppedRun
    s.lifecycle = .Stopped ∧ s.NoDeadTask :=
  ⟨by decide +kernel, no_dead_task (run_guarded (fun _ _ _ h => h) (by decide +kernel))⟩

theorem late_push_dead : ¬ ∀ (capacity : Nat) (actions : List Action) (s : EventLoopSupervisor),
    Run (Step capacity) .new actions s → s.NoDeadTask := by
  intro hall
  have hrun : Run (Step 1024) .new (stoppedRun ++ latePush) (played (act 1024) .new (stoppedRun ++ latePush)) :=
    run_played (fun _ _ _ h => h) (by decide +kernel)
  exact hall 1024 _ _ hrun (by decide +kernel) (by decide +kernel) ⟨1, ⟨2, []⟩⟩ (by decide +kernel) (by decide +kernel)

/-! ## Pushes that fail -/

/-- The step does not fail to replace a runner that died after a push put its task into the queue. -/
def respawns (s : EventLoopSupervisor) (action : Action) : Bool :=
  match action, s.lock with
  | .holder spawns, some (_, .spawningAgain _) => spawns
  | _, _ => true

/-- A task whose push returned an error is not in the queue, and was never dispatched. -/
def FailedLeavesNothing (s : EventLoopSupervisor) : Prop :=
  ∀ item error, .left (.failed item error) ∈ s.history → item ∉ s.queue ∧ .started item ∉ s.history

/-- The push of this task has failed, or fails. -/
def Failing (s : EventLoopSupervisor) (item : Item) : Prop :=
  ∃ error, .left (.failed item error) ∈ s.history ∨ ∃ i, s.lock = some (i, .leaving (.failed item error))

/-- Tasks whose push fails are none of those that are in the queue, or on their way to it. -/
def Traceless (s : EventLoopSupervisor) : Prop :=
  ∀ item, s.Failing item → item.call < s.calls ∧ item ∉ s.history.filterMap accepted? ∧
    ∀ other, s.unqueued? = some other → item.call ≠ other.call

theorem unqueued_not_accepted (hinv : s.Inv) (hitem : s.unqueued? = some item) :
    item.call < s.calls ∧ item ∉ s.history.filterMap accepted? :=
  ⟨hinv.numbered item hitem, fun hmem => Nat.lt_irrefl _ ((hinv.fresh item hmem).2 item hitem)⟩

theorem GoesOn.fails {error : PushError} {holder' : Holder} (h : GoesOn capacity s i spawns holder holder')
    (hfailed : holder' = .leaving (.failed item error)) :
    holder.item? = some item ∨ spawns = false ∧ holder = .spawningAgain item := by
  cases h with
  | @alive given => cases given <;> cases hfailed
  | @refused given =>
    cases given with
    | none => cases hfailed
    | some given =>
      cases hfailed
      exact .inl rfl
  | full =>
    cases hfailed
    exact .inl rfl
  | refusedAgain hspawns =>
    cases hfailed
    exact .inr ⟨hspawns, rfl⟩
  | dead | deadAgain | aliveAgain | nothingToJoin | joined => cases hfailed

namespace Traceless

theorem mono (htraceless : s.Traceless) (hfailing : ∀ item, s'.Failing item → s.Failing item)
    (hcalls : s.calls ≤ s'.calls)
    (haccepted : s'.history.filterMap accepted? = s.history.filterMap accepted?)
    (hunqueued : ∀ item, s'.unqueued? = some item → s.unqueued? = some item ∨ s.calls ≤ item.call) :
    s'.Traceless := by
  intro item hitem
  obtain ⟨hlt, hmem, hother⟩ := htraceless item (hfailing item hitem)
  refine ⟨hlt.trans_le hcalls, haccepted ▸ hmem, fun other hunq => ?_⟩
  rcases hunqueued other hunq with hold | hnew
  · exact hother other hold
  · omega

theorem goOn {holder' : Holder} (htraceless : s.Traceless) (hinv : s.Inv) (hlock : s.lock = some (i, holder))
    (h : GoesOn capacity s i spawns holder holder') (hspawns : ∀ item, holder = .spawningAgain item → spawns = true) :
    Traceless (s.hold i holder') := by
  rintro item ⟨error, hfailed | ⟨j, hleaving⟩⟩
  · obtain ⟨hlt, hmem, hother⟩ := htraceless item ⟨error, .inl hfailed⟩
    refine ⟨hlt, hmem, fun other hunqueued => hother other ?_⟩
    rw [unqueued_eq hlock]
    exact h.keeps_item hunqueued
  · obtain ⟨-, hholder⟩ := Prod.mk.inj (Option.some.inj hleaving)
    have hitem := (h.fails hholder).resolve_right fun hbad => by simp [hspawns item hbad.2] at hbad
    obtain ⟨hlt, hmem⟩ := unqueued_not_accepted hinv ((unqueued_eq hlock).trans hitem)
    refine ⟨hlt, hmem, ?_⟩
    rw [hholder]
    exact nofun

theorem enqueue (htraceless : s.Traceless) (hlock : s.lock = some (i, .enqueuing item)) :
    Traceless (({ s with queue := s.queue ++ [item] }.record [.accepted item]).hold i (.lookingAgain item)) := by
  rintro failed ⟨error, hfailed | ⟨j, hleaving⟩⟩
  · have hold : .left (.failed failed error) ∈ s.history := by
      simpa [hold, record] using hfailed
    obtain ⟨hlt, hmem, hother⟩ := htraceless failed ⟨error, .inl hold⟩
    refine ⟨hlt, ?_, fun _ hunqueued => by cases hunqueued⟩
    have hne : failed ≠ item := fun heq => hother item ((unqueued_eq hlock).trans rfl) (congrArg Item.call heq)
    simpa [EventLoopSupervisor.hold, record, accepted?, hne] using hmem
  · cases (Prod.mk.inj (Option.some.inj hleaving)).2

theorem holderStep (htraceless : s.Traceless) (hinv : s.Inv) (h : s.holderStep capacity spawns = some s')
    (hspawns : s.respawns (.holder spawns) = true) : s'.Traceless := by
  cases holderStep_moves h with
  | goOn hlock hnext =>
    refine htraceless.goOn hinv hlock hnext fun item hholder => ?_
    simpa [respawns, hlock, hholder] using hspawns
  | @spawn i given hlock =>
    refine htraceless.mono ?_ (Nat.le_refl _) rfl fun item hitem => .inl ?_
    · rintro item ⟨error, hfailed | ⟨j, hleaving⟩⟩
      · exact ⟨error, .inl hfailed⟩
      · cases given <;> cases (Prod.mk.inj (Option.some.inj hleaving)).2
    · rw [unqueued_eq hlock]
      cases given with
      | some given => exact hitem
      | none => cases hitem
  | spawnAgain =>
    refine htraceless.mono ?_ (Nat.le_refl _) rfl nofun
    rintro item ⟨error, hfailed | ⟨j, hleaving⟩⟩
    · exact ⟨error, .inl hfailed⟩
    · cases (Prod.mk.inj (Option.some.inj hleaving)).2
  | enqueue hlock => exact htraceless.enqueue hlock
  | take =>
    refine htraceless.mono ?_ (Nat.le_refl _) rfl nofun
    rintro item ⟨error, hfailed | ⟨j, hleaving⟩⟩
    · exact ⟨error, .inl hfailed⟩
    · cases (Prod.mk.inj (Option.some.inj hleaving)).2
  | @leave i outcome hlock =>
    refine htraceless.mono ?_ (Nat.le_refl _) (by simp [setCaller, record, accepted?]) nofun
    rintro item ⟨error, hfailed | ⟨j, hleaving⟩⟩
    · rcases List.mem_append.mp hfailed with hfailed | hnow
      · exact ⟨error, .inl hfailed⟩
      · obtain rfl := Happened.left.inj (List.mem_singleton.mp hnow)
        exact ⟨error, .inr ⟨i, hlock⟩⟩
    · cases hleaving

theorem callerStep (htraceless : s.Traceless) (h : s.callerStep i = some s') : s'.Traceless := by
  have hfailing : ∀ {holder calls callers}, (∀ outcome, holder ≠ .leaving outcome) →
      ∀ item, Failing { s with lock := some (i, holder), calls, callers } item → s.Failing item := by
    rintro holder calls callers hne item ⟨error, hfailed | ⟨j, hleaving⟩⟩
    · exact ⟨error, .inl hfailed⟩
    · exact absurd (Prod.mk.inj (Option.some.inj hleaving)).2 (hne _)
  cases callerStep_moves h with
  | push =>
    refine htraceless.mono (hfailing nofun) (Nat.le_succ _) rfl fun item hitem => .inr ?_
    obtain rfl := Option.some.inj hitem
    exact Nat.le_refl _
  | start => exact htraceless.mono (hfailing nofun) (Nat.le_refl _) rfl nofun
  | request => exact htraceless
  | stop => exact htraceless.mono (hfailing nofun) (Nat.le_refl _) rfl nofun

theorem loopStep (htraceless : s.Traceless) (h : s.loopStep r turn = some s') : s'.Traceless := by
  have hrecord : ∀ {lifecycle queue runners happened}, accepted? happened = none →
      (∀ outcome, happened ≠ .left outcome) →
      Traceless { s.record [happened] with lifecycle, queue, runners } := by
    intro lifecycle queue runners happened hnone hne
    refine htraceless.mono ?_ (Nat.le_refl _) (by simp [record, hnone]) fun _ hitem => .inl hitem
    rintro item ⟨error, hfailed | hleaving⟩
    · refine ⟨error, .inl ((List.mem_append.mp hfailed).resolve_right fun hnow => ?_)⟩
      exact hne _ (List.mem_singleton.mp hnow).symm
    · exact ⟨error, .inr hleaving⟩
  cases loopStep_moves h with
  | start | pass | leave => exact htraceless
  | take => exact hrecord rfl (by simp)
  | returned => exact hrecord rfl (by simp)
  | panicked => exact hrecord rfl (by simp)

theorem step (htraceless : s.Traceless) (hinv : s.Inv) (h : Guarded (Step capacity) respawns s action s') :
    s'.Traceless := by
  obtain ⟨hstep, hspawns⟩ := h
  unfold Step act at hstep
  cases action with
  | call i request =>
    dsimp only at hstep
    split_ifs at hstep
    obtain rfl := Option.some.inj hstep
    exact htraceless
  | caller i => exact htraceless.callerStep hstep
  | holder spawns => exact htraceless.holderStep hinv hstep hspawns
  | runner r turn => exact htraceless.loopStep hstep

end Traceless

/-- Where the second spawn of a push never fails, a push that fails leaves nothing. -/
theorem failed_leaves_nothing (h : Run (Guarded (Step capacity) respawns) .new actions s) :
    s.FailedLeavesNothing := by
  have hboth : s.Inv ∧ s.Traceless := by
    refine @Run.invariant _ _ _ _ _ _ (fun _ (s : EventLoopSupervisor) => s.Inv ∧ s.Traceless) h
      ⟨.new, by simp [Traceless, Failing, EventLoopSupervisor.new]⟩ ?_
    exact fun _ _ _ _ hboth hstep => ⟨hboth.1.step hstep.1, hboth.2.step hboth.1 hstep⟩
  obtain ⟨hinv, htraceless⟩ := hboth
  intro item error hfailed
  obtain ⟨-, hmem, -⟩ := htraceless item ⟨error, .inl hfailed⟩
  rw [hinv.fifo, List.mem_append, not_or] at hmem
  refine ⟨hmem.2, fun hstarted => hmem.1 ?_⟩
  exact List.mem_filterMap.mpr ⟨_, hstarted, rfl⟩

/-- No thread can be spawned for the runner. -/
def refusedRun : List Action := [.call 0 (.push ⟨1, []⟩), .caller 0, .holder true, .holder false, .holder true]

theorem failed_leaves_nothing_refused :
    let s := played (guarded (act 1024) respawns) .new refusedRun
    .left (.failed ⟨0, ⟨1, []⟩⟩ .Spawn) ∈ s.history ∧ ⟨0, ⟨1, []⟩⟩ ∉ s.queue ∧ .started ⟨0, ⟨1, []⟩⟩ ∉ s.history := by
  have hfailed :
      .left (.failed ⟨0, ⟨1, []⟩⟩ .Spawn) ∈ (played (guarded (act 1024) respawns) .new refusedRun).history := by
    decide +kernel
  exact ⟨hfailed, failed_leaves_nothing (run_guarded (fun _ _ _ h => h) (by decide +kernel)) _ _ hfailed⟩

/-- The runner dies while the second push puts its task into the queue, and no thread can be spawned then.
The next one that is spawned dispatches the task. -/
def orphanedRun : List Action :=
  [.call 0 (.push ⟨1, []⟩), .caller 0, .holder true, .holder true, .holder true, .holder true, .holder true,
    .call 1 (.push ⟨2, []⟩), .caller 1, .holder true, .holder true, .runner 0 .go, .runner 0 .go, .runner 0 .go,
    .runner 0 .panic, .runner 0 .go, .holder true, .holder false, .holder true,
    .call 0 .start, .caller 0, .holder true, .holder true, .holder true, .runner 1 .go, .runner 1 .go, .runner 1 .go]

theorem failed_push_dispatched : ¬ ∀ (capacity : Nat) (actions : List Action) (s : EventLoopSupervisor),
    Run (Step capacity) .new actions s → s.FailedLeavesNothing := by
  intro hall
  have hrun : Run (Step 1024) .new orphanedRun (played (act 1024) .new orphanedRun) :=
    run_played (fun _ _ _ h => h) (by decide +kernel)
  have hnothing := hall 1024 _ _ hrun ⟨1, ⟨2, []⟩⟩ .Spawn (by decide +kernel)
  exact hnothing.2 (by decide +kernel)

end EventLoopSupervisor

end TrenchDb.Storage.Shutdown
