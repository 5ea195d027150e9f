import TrenchDb.Storage.Stops

/-!
# A graceful stop drains the queue

One `request_stop`, in any order with a runner that was started and with pushes: once it has returned, what
was in the queue when it was called has been dispatched.
-/

open TrenchDb.Lib.Lts
open TrenchDb.Storage.Supervisor (State)
open TrenchDb.Storage.Supervisor.EventLoopSupervisor (Turn)

namespace TrenchDb.Storage.Shutdown

/-- The thread is in `request_stop`. -/
def Caller.stops : Caller → Bool
  | .requesting | .enteringStop => true
  | .outside | .entering _ | .inside => false

/-- The holder of the lock is in `request_stop`. -/
def Holder.stops : Holder → Bool
  | .taking | .joining _ | .leaving (.stopped _) => true
  | .looking _ | .spawning _ | .enqueuing _ | .lookingAgain _ | .spawningAgain _ | .leaving _ => false

/-- The runner has not begun to end. -/
def EventLoop.early : EventLoop → Bool
  | .spawned | .continuing | .receiving | .waiting | .dispatching _ | .checking => true
  | .checkingQueue | .leaving | .returning | .finished => false

namespace EventLoopSupervisor

variable {capacity : Nat} {s s' s₀ s₁ : EventLoopSupervisor} {i j r : Nat} {loop loop' : EventLoop}
  {holder holder' : Holder} {action : Action} {before after : List Action} {item : Item} {spawns : Bool} {turn : Turn}

/-- The action neither requests a stop nor is a panic. -/
def plain (_ : EventLoopSupervisor) : Action → Bool
  | .call _ .requestStop | .runner _ .panic => false
  | .call _ (.push _) | .call _ .start | .caller _ | .holder _ | .runner _ .go | .runner _ .timeout => true

/-- A step that neither requests a stop nor is a panic. -/
def PlainStep (capacity : Nat) : EventLoopSupervisor → Action → EventLoopSupervisor → Prop :=
  Guarded (Step capacity) plain

/-! ## All along -/

/-- A runner that is gone has shut the lifecycle down. -/
structure Calm (s : EventLoopSupervisor) : Prop where
  inside : ∀ i holder, s.lock = some (i, holder) → s.callers i = .inside
  begun : ∀ loop ∈ s.runners, loop ≠ .spawned → s.lifecycle ≠ .Created
  gone : ∀ loop ∈ s.runners, loop = .returning ∨ loop = .finished → s.lifecycle = .Stopped
  returns : s.history.filterMap ended? = s.history.filterMap returned?

namespace Calm

theorem new : Calm .new := by
  constructor <;> simp [EventLoopSupervisor.new]

theorem setLoop {lifecycle : State} {queue : List Item} {happened : List Happened} (hcalm : s.Calm)
    (hstopped : s.lifecycle = .Stopped → lifecycle = .Stopped) (hbegun : lifecycle ≠ .Created)
    (hgone : loop' = .returning ∨ loop' = .finished → lifecycle = .Stopped)
    (hreturns : happened.filterMap ended? = happened.filterMap returned?) :
    Calm (({ s with lifecycle, queue }.record happened).setLoop r loop') where
  inside := hcalm.inside
  begun := fun _ _ _ => hbegun
  gone := by
    intro loop hmem hloop
    rcases List.mem_or_eq_of_mem_set hmem with hmem | rfl
    · exact hstopped (hcalm.gone loop hmem hloop)
    · exact hgone hloop
  returns := by
    simp only [EventLoopSupervisor.setLoop, EventLoopSupervisor.record, List.filterMap_append, hcalm.returns, hreturns]

theorem pass {lifecycle : State} (hcalm : s.Calm) (hstopped : s.lifecycle = .Stopped → lifecycle = .Stopped)
    (hbegun : lifecycle ≠ .Created) (hgone : loop' = .returning ∨ loop' = .finished → lifecycle = .Stopped) :
    Calm ({ s with lifecycle }.setLoop r loop') := by
  have hset := @setLoop s r loop' lifecycle s.queue [] hcalm hstopped hbegun hgone rfl
  simpa only [EventLoopSupervisor.record, List.append_nil] using hset

theorem loopStep (hcalm : s.Calm) (h : s.loopStep r turn = some s') (hplain : turn ≠ .panic) : s'.Calm := by
  have hbegun : ∀ {loop}, s.runners[r]? = some loop → loop ≠ .spawned → s.lifecycle ≠ .Created := fun hr =>
    hcalm.begun _ (List.mem_of_getElem? hr)
  cases loopStep_moves h with
  | start hr => exact hcalm.pass stopped_start.mpr (start_ne_created _) (by simp)
  | pass hr hpass =>
    cases hpass with
    | gone => exact hcalm.pass id (hbegun hr (by simp)) fun _ => hcalm.gone _ (List.mem_of_getElem? hr) (.inl rfl)
    | receive | ended | sleep | wake | timeout | stopping | going | drained | more =>
      exact hcalm.pass id (hbegun hr (by simp)) (by simp)
  | take hr => exact hcalm.setLoop id (hbegun hr (by simp)) (by simp) (by simp [ended?, returned?, panicked?])
  | returned hr => exact hcalm.setLoop id (hbegun hr (by simp)) (by simp) (by simp [ended?, returned?])
  | panicked _ hturn => exact absurd hturn hplain
  | leave hr =>
    have hcomplete := completeShutdown_eq (hbegun hr (by simp))
    exact hcalm.pass (fun _ => hcomplete) (by simp [hcomplete]) fun _ => hcomplete

theorem spawnRunner (hcalm : s.Calm) : s.spawnRunner.Calm where
  inside := hcalm.inside
  begun := by
    intro loop hmem hne
    rcases List.mem_append.mp hmem with hmem | hnew
    · exact hcalm.begun loop hmem hne
    · exact absurd (List.mem_singleton.mp hnew) hne
  gone := by
    intro loop hmem hloop
    rcases List.mem_append.mp hmem with hmem | hnew
    · exact hcalm.gone loop hmem hloop
    · obtain rfl := List.mem_singleton.mp hnew
      simp at hloop
  returns := hcalm.returns

theorem rehold {handle : Option Nat} (hcalm : s.Calm) (hlock : s.lock = some (i, holder)) :
    Calm ({ s with handle }.hold i holder') where
  inside := by
    intro j given heq
    obtain ⟨rfl, -⟩ := Prod.mk.inj (Option.some.inj heq)
    exact hcalm.inside i holder hlock
  begun := hcalm.begun
  gone := hcalm.gone
  returns := hcalm.returns

theorem record {queue : List Item} (hcalm : s.Calm) (happened : Happened) (hnone : ended? happened = none)
    (hreturned : returned? happened = none) : Calm ({ s with queue }.record [happened]) where
  inside := hcalm.inside
  begun := hcalm.begun
  gone := hcalm.gone
  returns := by simp [EventLoopSupervisor.record, hcalm.returns, hnone, hreturned]

theorem holderStep (hcalm : s.Calm) (h : s.holderStep capacity spawns = some s') : s'.Calm := by
  cases holderStep_moves h with
  | goOn hlock => exact hcalm.rehold hlock
  | spawn hlock => exact hcalm.spawnRunner.rehold hlock
  | spawnAgain hlock => exact hcalm.spawnRunner.rehold hlock
  | @enqueue _ item hlock => exact (@record s (s.queue ++ [item]) hcalm (.accepted item) rfl rfl).rehold hlock
  | take hlock => exact hcalm.rehold hlock
  | @leave _ outcome =>
    have hleft := (@record s s.queue hcalm (.left outcome) rfl rfl).returns
    exact ⟨nofun, hcalm.begun, hcalm.gone, hleft⟩

theorem callerStep (hcalm : s.Calm) (h : s.callerStep i = some s') : s'.Calm := by
  have henter : ∀ {holder calls}, Calm (({ s with calls }.hold i holder).setCaller i .inside) := by
    intro holder calls
    refine ⟨?_, hcalm.begun, hcalm.gone, hcalm.returns⟩
    intro j given heq
    obtain ⟨rfl, -⟩ := Prod.mk.inj (Option.some.inj heq)
    simp [setCaller]
  cases callerStep_moves h with
  | push | start | stop => exact henter
  | request hcaller =>
    refine ⟨?_, fun _ _ _ => requestStop_ne_created _, ?_, hcalm.returns⟩
    · intro j holder hlock
      have hj := hcalm.inside j holder hlock
      have hne : j ≠ i := by
        rintro rfl
        rw [hcaller] at hj
        cases hj
      simpa [setCaller, hne] using hj
    · exact fun loop hmem hloop => stopped_requestStop.mpr (hcalm.gone loop hmem hloop)

theorem call {caller : Caller} (hcalm : s.Calm) (houtside : s.callers i = .outside) : Calm (s.setCaller i caller) := by
  refine ⟨?_, hcalm.begun, hcalm.gone, hcalm.returns⟩
  intro j holder hlock
  have hj := hcalm.inside j holder hlock
  have hne : j ≠ i := by
    rintro rfl
    rw [houtside] at hj
    cases hj
  simpa [setCaller, hne] using hj

theorem step (hcalm : s.Calm) (h : PlainStep capacity s action s') : s'.Calm := by
  obtain ⟨hstep, hplain⟩ := h
  unfold Step act at hstep
  cases action with
  | call i request =>
    dsimp only at hstep
    split_ifs at hstep with houtside
    obtain rfl := Option.some.inj hstep
    exact hcalm.call houtside
  | caller i => exact hcalm.callerStep hstep
  | holder spawns => exact hcalm.holderStep hstep
  | runner r turn =>
    refine hcalm.loopStep hstep ?_
    rintro rfl
    cases hplain

end Calm

/-! ## Before the stop -/

/-- Nobody has requested a stop. -/
structure Going (s : EventLoopSupervisor) : Prop where
  lifecycle : s.lifecycle = .Created ∨ s.lifecycle = .Running
  early : ∀ loop ∈ s.runners, loop.early = true
  callers : ∀ i, (s.callers i).stops = false
  lock : ∀ i holder, s.lock = some (i, holder) → holder.stops = false
  returned : ∀ i, .left (.stopped i) ∉ s.history

theorem GoesOn.plain (h : GoesOn capacity s i spawns holder holder') (hplain : holder.stops = false) :
    holder'.stops = false := by
  cases h with
  | @alive given => cases given <;> rfl
  | @refused given => cases given <;> rfl
  | nothingToJoin | joined => cases hplain
  | dead | full | deadAgain | aliveAgain | refusedAgain => rfl

namespace Going

theorem loopStep (hgoing : s.Going) (hcalm : s.Calm) (h : s.loopStep r turn = some s') (hplain : turn ≠ .panic) :
    s'.Going := by
  have hearly : ∀ {loop'} (runners : List EventLoop), loop'.early = true → runners = s.runners.set r loop' →
      ∀ loop ∈ runners, loop.early = true := by
    rintro loop' runners hloop' rfl loop hmem
    exact (List.mem_or_eq_of_mem_set hmem).elim (hgoing.early loop) fun heq => heq ▸ hloop'
  have hat : ∀ {loop}, s.runners[r]? = some loop → loop.early = true := fun hr =>
    hgoing.early _ (List.mem_of_getElem? hr)
  cases loopStep_moves h with
  | start =>
    refine ⟨?_, hearly _ rfl rfl, hgoing.callers, hgoing.lock, hgoing.returned⟩
    rcases hgoing.lifecycle with hlifecycle | hlifecycle <;>
      simp [setLoop, hlifecycle, Supervisor.Lifecycle.start]
  | pass hr hpass =>
    have hrunning : s.lifecycle = .Running := by
      refine hgoing.lifecycle.resolve_left (hcalm.begun _ (List.mem_of_getElem? hr) ?_)
      cases hpass <;> simp
    cases hpass with
    | ended hended =>
      rw [hrunning] at hended
      cases hended
    | stopping hstopping =>
      rw [hrunning] at hstopping
      cases hstopping
    | drained | more | gone => cases hat hr
    | receive | sleep | wake | timeout | going =>
      exact ⟨hgoing.lifecycle, hearly _ rfl rfl, hgoing.callers, hgoing.lock, hgoing.returned⟩
  | take =>
    exact ⟨hgoing.lifecycle, hearly _ rfl rfl, hgoing.callers, hgoing.lock, fun i => by
      simpa [setLoop, record] using hgoing.returned i⟩
  | returned =>
    exact ⟨hgoing.lifecycle, hearly _ rfl rfl, hgoing.callers, hgoing.lock, fun i => by
      simpa [setLoop, record] using hgoing.returned i⟩
  | panicked _ hturn => exact absurd hturn hplain
  | leave hr => cases hat hr

theorem rehold {queue : List Item} {history : List Happened} (hgoing : s.Going) (hholder : holder.stops = false)
    (hreturned : ∀ i, .left (.stopped i) ∉ history) : Going ({ s with queue, history }.hold i holder) where
  lifecycle := hgoing.lifecycle
  early := hgoing.early
  callers := hgoing.callers
  lock := by
    intro j given heq
    obtain ⟨-, rfl⟩ := Prod.mk.inj (Option.some.inj heq)
    exact hholder
  returned := hreturned

theorem spawnRunner (hgoing : s.Going) : s.spawnRunner.Going where
  lifecycle := hgoing.lifecycle
  early := by
    intro loop hmem
    rcases List.mem_append.mp hmem with hmem | hnew
    · exact hgoing.early loop hmem
    · rw [List.mem_singleton.mp hnew]
      rfl
  callers := hgoing.callers
  lock := hgoing.lock
  returned := hgoing.returned

theorem setCaller {caller : Caller} (hgoing : s.Going) (hcaller : caller.stops = false) :
    Going (s.setCaller i caller) where
  lifecycle := hgoing.lifecycle
  early := hgoing.early
  callers := (Function.forall_update_iff s.callers fun _ caller => caller.stops = false).mpr
    ⟨hcaller, fun j _ => hgoing.callers j⟩
  lock := hgoing.lock
  returned := hgoing.returned

theorem holderStep (hgoing : s.Going) (h : s.holderStep capacity spawns = some s') : s'.Going := by
  cases holderStep_moves h with
  | goOn hlock hnext => exact hgoing.rehold (hnext.plain (hgoing.lock _ _ hlock)) hgoing.returned
  | @spawn _ given => cases given <;> exact hgoing.spawnRunner.rehold rfl hgoing.returned
  | spawnAgain => exact hgoing.spawnRunner.rehold rfl hgoing.returned
  | enqueue => exact hgoing.rehold rfl fun i => by simpa [record] using hgoing.returned i
  | take hlock => cases hgoing.lock _ _ hlock
  | leave hlock =>
    have hplain := hgoing.lock _ _ hlock
    refine @setCaller _ _ _ ⟨hgoing.lifecycle, hgoing.early, hgoing.callers, by rintro _ _ ⟨⟩, fun i hmem => ?_⟩ rfl
    rcases List.mem_append.mp hmem with hmem | hnow
    · exact hgoing.returned i hmem
    · obtain rfl := Happened.left.inj (List.mem_singleton.mp hnow)
      cases hplain

theorem callerStep (hgoing : s.Going) (h : s.callerStep i = some s') : s'.Going := by
  have hrefuse : ∀ {caller}, s.callers i = caller → caller.stops ≠ true := by
    rintro caller rfl
    simp [hgoing.callers i]
  cases callerStep_moves h with
  | push => exact Going.setCaller ⟨hgoing.lifecycle, hgoing.early, hgoing.callers, fun j given heq => by
      obtain ⟨-, rfl⟩ := Prod.mk.inj (Option.some.inj heq)
      rfl, hgoing.returned⟩ rfl
  | start => exact (hgoing.rehold rfl hgoing.returned).setCaller rfl
  | request hcaller => exact absurd rfl (hrefuse hcaller)
  | stop hcaller => exact absurd rfl (hrefuse hcaller)

theorem step (hgoing : s.Going) (hcalm : s.Calm) (h : PlainStep capacity s action s') : s'.Going := by
  obtain ⟨hstep, hplain⟩ := h
  unfold Step act at hstep
  cases action with
  | call i request =>
    dsimp only at hstep
    split_ifs at hstep
    obtain rfl := Option.some.inj hstep
    cases request with
    | push | start => exact hgoing.setCaller rfl
    | requestStop => cases hplain
  | caller i => exact hgoing.callerStep hstep
  | holder spawns => exact hgoing.holderStep hstep
  | runner r turn =>
    refine hgoing.loopStep hcalm hstep ?_
    rintro rfl
    cases hplain

end Going

/-! ## From the stop on -/

/-- Thread `i` has requested a stop, and nobody else does. `tasks` were in the queue by then. -/
structure Draining (tasks : List Item) (i : Nat) (s : EventLoopSupervisor) : Prop where
  accepted : tasks <+: s.history.filterMap accepted?
  late : s.Late → tasks <+: s.history.filterMap returned?
  handle : (s.callers i).stops = true ∨ s.lock = some (i, .taking) → s.handle ≠ none
  callers : ∀ j, j ≠ i → (s.callers j).stops = false
  lock : ∀ j holder, j ≠ i → s.lock = some (j, holder) → holder.stops = false
  stopped : (∃ j k, s.lock = some (j, .leaving (.stopped k))) ∨ (∃ k, .left (.stopped k) ∈ s.history) →
    s.lifecycle = .Stopped

variable {tasks : List Item}

theorem drained_returned (hinv : s.Inv) (hcalm : s.Calm) (hr : s.runners[r]? = some .checkingQueue)
    (hqueue : s.queue = []) : s.history.filterMap accepted? = s.history.filterMap returned? := by
  rw [hinv.fifo, hinv.dispatches, hqueue, hcalm.returns, hinv.inDispatch_live hr nofun]
  simp [EventLoop.item?]

namespace Draining

theorem setLoop {lifecycle : State} {queue : List Item} {happened : List Happened} (hdraining : s.Draining tasks i)
    (haccepted : happened.filterMap accepted? = []) (hleft : ∀ outcome, .left outcome ∉ happened)
    (hstopped : s.lifecycle = .Stopped → lifecycle = .Stopped)
    (hlate : lifecycle = .Stopped ∨ loop' = .leaving ∨ .leaving ∈ s.runners →
      tasks <+: s.history.filterMap returned?) :
    Draining tasks i (({ s with lifecycle, queue }.record happened).setLoop r loop') where
  accepted := by
    simpa only [EventLoopSupervisor.setLoop, record, List.filterMap_append, haccepted, List.append_nil]
      using hdraining.accepted
  late := by
    intro h
    simp only [EventLoopSupervisor.setLoop, record, List.filterMap_append]
    exact (hlate (@late_setLoop s r loop' lifecycle (s.history ++ happened) h)).trans (List.prefix_append _ _)
  handle := hdraining.handle
  callers := hdraining.callers
  lock := hdraining.lock
  stopped := by
    rintro (hlock | ⟨k, hmem⟩)
    · exact hstopped (hdraining.stopped (.inl hlock))
    · exact hstopped (hdraining.stopped (.inr ⟨k, (List.mem_append.mp hmem).resolve_right (hleft _)⟩))

theorem pass {lifecycle : State} (hdraining : s.Draining tasks i)
    (hstopped : s.lifecycle = .Stopped → lifecycle = .Stopped)
    (hlate : lifecycle = .Stopped ∨ loop' = .leaving ∨ .leaving ∈ s.runners →
      tasks <+: s.history.filterMap returned?) : Draining tasks i ({ s with lifecycle }.setLoop r loop') := by
  have hset := @setLoop s i r loop' tasks lifecycle s.queue [] hdraining rfl nofun hstopped hlate
  simpa only [record, List.append_nil] using hset

theorem loopStep (hdraining : s.Draining tasks i) (hinv : s.Inv) (hcalm : s.Calm)
    (h : s.loopStep r turn = some s') : s'.Draining tasks i := by
  have hbefore : ∀ {loop' : EventLoop}, loop' ≠ .leaving →
      s.lifecycle = .Stopped ∨ loop' = .leaving ∨ .leaving ∈ s.runners → tasks <+: s.history.filterMap returned? := by
    rintro loop' hne (hstopped | hloop | hmem)
    · exact hdraining.late (.inl hstopped)
    · exact absurd hloop hne
    · exact hdraining.late (.inr hmem)
  cases loopStep_moves h with
  | start =>
    exact hdraining.pass stopped_start.mpr fun hlate => @hbefore .continuing nofun (hlate.imp_left stopped_start.mp)
  | pass hr hpass =>
    cases hpass with
    | ended hended =>
      have hstopped := stopped_of_over hended (hcalm.begun _ (List.mem_of_getElem? hr) nofun)
      exact hdraining.pass id fun _ => hdraining.late (.inl hstopped)
    | drained hqueue =>
      refine hdraining.pass id fun _ => ?_
      rw [← drained_returned hinv hcalm hr hqueue]
      exact hdraining.accepted
    | receive | sleep | wake | timeout | stopping | going | more | gone => exact hdraining.pass id (hbefore nofun)
  | take => exact hdraining.setLoop rfl nofun id (hbefore nofun)
  | returned => exact hdraining.setLoop rfl nofun id (hbefore nofun)
  | panicked => exact hdraining.setLoop rfl nofun id (hbefore nofun)
  | leave hr =>
    have hcomplete := completeShutdown_eq (hcalm.begun _ (List.mem_of_getElem? hr) nofun)
    exact hdraining.pass (fun _ => hcomplete) fun _ => hdraining.late (.inr (List.mem_of_getElem? hr))

theorem spawnRunner (hdraining : s.Draining tasks i) : s.spawnRunner.Draining tasks i where
  accepted := hdraining.accepted
  late := fun hlate => hdraining.late (late_spawn.mp hlate)
  handle := fun _ => nofun
  callers := hdraining.callers
  lock := hdraining.lock
  stopped := hdraining.stopped

theorem rehold (hdraining : s.Draining tasks i) {handle : Option Nat} {j : Nat}
    (hhandle : (s.callers i).stops = true ∨ (j = i ∧ holder = .taking) → handle ≠ none)
    (hplain : j ≠ i → holder.stops = false) (hstopped : ∀ k, holder = .leaving (.stopped k) → s.lifecycle = .Stopped) :
    Draining tasks i ({ s with handle }.hold j holder) where
  accepted := hdraining.accepted
  late := hdraining.late
  handle := by
    rintro (hcaller | hlock)
    · exact hhandle (.inl hcaller)
    · exact hhandle (.inr (Prod.mk.inj (Option.some.inj hlock)))
  callers := hdraining.callers
  lock := by
    intro k given hne heq
    obtain ⟨rfl, rfl⟩ := Prod.mk.inj (Option.some.inj heq)
    exact hplain hne
  stopped := by
    rintro (⟨k, l, hlock⟩ | hleft)
    · exact hstopped l (Prod.mk.inj (Option.some.inj hlock)).2
    · exact hdraining.stopped (.inr hleft)

theorem record {queue : List Item} (hdraining : s.Draining tasks i) (happened : Happened)
    (hstopped : ∀ k, happened = .left (.stopped k) → s.lifecycle = .Stopped) :
    Draining tasks i ({ s with queue }.record [happened]) where
  accepted := by
    simp only [EventLoopSupervisor.record, List.filterMap_append]
    exact hdraining.accepted.trans (List.prefix_append _ _)
  late := by
    intro hlate
    simp only [EventLoopSupervisor.record, List.filterMap_append]
    exact (hdraining.late hlate).trans (List.prefix_append _ _)
  handle := hdraining.handle
  callers := hdraining.callers
  lock := hdraining.lock
  stopped := by
    rintro (hlock | ⟨k, hmem⟩)
    · exact hdraining.stopped (.inl hlock)
    · rcases List.mem_append.mp hmem with hmem | hnow
      · exact hdraining.stopped (.inr ⟨k, hmem⟩)
      · exact hstopped k (List.mem_singleton.mp hnow).symm

theorem setCaller {caller : Caller} (hdraining : s.Draining tasks i)
    (hcaller : caller.stops = true → j = i ∧ s.handle ≠ none) : Draining tasks i (s.setCaller j caller) where
  accepted := hdraining.accepted
  late := hdraining.late
  handle := by
    rintro (hstops | hlock)
    · by_cases heq : i = j
      · simp only [EventLoopSupervisor.setCaller, heq, Function.update_self] at hstops
        exact (hcaller hstops).2
      · simp only [EventLoopSupervisor.setCaller, Function.update_of_ne heq] at hstops
        exact hdraining.handle (.inl hstops)
    · exact hdraining.handle (.inr hlock)
  callers := by
    refine (Function.forall_update_iff s.callers fun k caller => k ≠ i → caller.stops = false).mpr ⟨?_, ?_⟩
    · exact fun hne => Bool.eq_false_iff.mpr fun hstops => hne (hcaller hstops).1
    · exact fun k _ hne => hdraining.callers k hne
  lock := hdraining.lock
  stopped := hdraining.stopped

theorem goOn (hdraining : s.Draining tasks i) (hcalm : s.Calm) (hlock : s.lock = some (j, holder))
    (h : GoesOn capacity s j spawns holder holder') : Draining tasks i (s.hold j holder') := by
  refine hdraining.rehold ?_ (fun hne => h.plain (hdraining.lock j holder hne hlock)) fun k hleaving => ?_
  · rintro (hstops | ⟨-, htaking⟩)
    · exact hdraining.handle (.inl hstops)
    · cases h with
      | @alive given => cases given <;> cases htaking
      | @refused given => cases given <;> cases htaking
      | dead | full | deadAgain | aliveAgain | refusedAgain | nothingToJoin | joined => cases htaking
  · cases h with
    | @alive given => cases given <;> cases hleaving
    | @refused given => cases given <;> cases hleaving
    | dead | full | deadAgain | aliveAgain | refusedAgain => cases hleaving
    | nothingToJoin hnone =>
      have hself : j = i := by
        by_contra hne
        cases hdraining.lock j _ hne hlock
      exact absurd hnone (hdraining.handle (.inr (hself ▸ hlock)))
    | joined hfinished => exact hcalm.gone _ (List.mem_of_getElem? hfinished) (.inr rfl)

theorem holderStep (hdraining : s.Draining tasks i) (hcalm : s.Calm) (h : s.holderStep capacity spawns = some s') :
    s'.Draining tasks i := by
  cases holderStep_moves h with
  | goOn hlock hnext => exact hdraining.goOn hcalm hlock hnext
  | @spawn _ given =>
    refine hdraining.spawnRunner.rehold (fun _ => nofun) ?_ ?_
    · cases given <;> exact fun _ => rfl
    · cases given <;> exact nofun
  | spawnAgain => exact hdraining.spawnRunner.rehold (fun _ => nofun) (fun _ => rfl) nofun
  | @enqueue j item hlock =>
    have hrecord := @record s i tasks (s.queue ++ [item]) hdraining (.accepted item) nofun
    refine hrecord.rehold ?_ (fun _ => rfl) nofun
    rintro (hstops | ⟨-, htaking⟩)
    · exact hdraining.handle (.inl hstops)
    · cases htaking
  | @take j r hlock =>
    have hself : j = i := by
      by_contra hne
      cases hdraining.lock j _ hne hlock
    refine hdraining.rehold ?_ (fun hne => absurd hself hne) nofun
    rintro (hstops | ⟨-, htaking⟩)
    · rw [hself.symm, hcalm.inside j _ hlock] at hstops
      cases hstops
    · cases htaking
  | @leave j outcome hlock =>
    have hrecord := @record s i tasks s.queue hdraining (.left outcome) fun k hleft =>
      hdraining.stopped (.inl ⟨j, k, by rw [hlock, Happened.left.inj hleft]⟩)
    have hfree : Draining tasks i { s.record [.left outcome] with lock := none } := by
      refine ⟨hrecord.accepted, hrecord.late, ?_, hrecord.callers, nofun, ?_⟩
      · rintro (hstops | hnone)
        · exact hdraining.handle (.inl hstops)
        · cases hnone
      · rintro (⟨k, l, hnone⟩ | hleft)
        · cases hnone
        · exact hrecord.stopped (.inr hleft)
    exact hfree.setCaller nofun

theorem callerStep (hdraining : s.Draining tasks i) (h : s.callerStep j = some s') : s'.Draining tasks i := by
  have hself : (s.callers j).stops = true → j = i ∧ s.handle ≠ none := by
    intro hstops
    have heq : j = i := by
      by_contra hne
      rw [hdraining.callers j hne] at hstops
      cases hstops
    exact ⟨heq, hdraining.handle (.inl (heq ▸ hstops))⟩
  have henter : ∀ {holder calls}, (holder = .taking → j = i ∧ s.handle ≠ none) → holder.stops = false ∨ j = i →
      (∀ k, holder ≠ .leaving (.stopped k)) →
      Draining tasks i (({ s with calls }.hold j holder).setCaller j .inside) := by
    intro holder calls htaking hplain hleaving
    refine setCaller ⟨hdraining.accepted, hdraining.late, ?_, hdraining.callers, ?_, ?_⟩ nofun
    · rintro (hstops | hlock)
      · exact hdraining.handle (.inl hstops)
      · exact (htaking (Prod.mk.inj (Option.some.inj hlock)).2).2
    · intro k given hne heq
      obtain ⟨rfl, rfl⟩ := Prod.mk.inj (Option.some.inj heq)
      exact hplain.resolve_right hne
    · rintro (⟨k, l, hlock⟩ | hleft)
      · exact absurd (Prod.mk.inj (Option.some.inj hlock)).2 (hleaving l)
      · exact hdraining.stopped (.inr hleft)
  cases callerStep_moves h with
  | push => exact henter nofun (.inl rfl) nofun
  | start => exact henter nofun (.inl rfl) nofun
  | request hcaller =>
    have hcalls := hself (by rw [hcaller]; rfl)
    refine setCaller ⟨hdraining.accepted, ?_, hdraining.handle, hdraining.callers, hdraining.lock, ?_⟩ fun _ => hcalls
    · exact fun hlate => hdraining.late (hlate.imp_left stopped_requestStop.mp)
    · exact fun hleft => stopped_requestStop.mpr (hdraining.stopped hleft)
  | stop hcaller =>
    have hcalls := hself (by rw [hcaller]; rfl)
    exact henter (fun _ => hcalls) (.inr hcalls.1) nofun

theorem step (hdraining : s.Draining tasks i) (hinv : s.Inv) (hcalm : s.Calm) (h : PlainStep capacity s action s') :
    s'.Draining tasks i := by
  obtain ⟨hstep, hplain⟩ := h
  unfold Step act at hstep
  cases action with
  | call j request =>
    dsimp only at hstep
    split_ifs at hstep
    obtain rfl := Option.some.inj hstep
    cases request with
    | push | start => exact hdraining.setCaller nofun
    | requestStop => cases hplain
  | caller j => exact hdraining.callerStep hstep
  | holder spawns => exact hdraining.holderStep hcalm hstep
  | runner r turn => exact hdraining.loopStep hinv hcalm hstep

end Draining

/-! ## The whole stop -/

theorem draining_of_going (hinv : s.Inv) (hgoing : s.Going) (hstarted : s.runners ≠ [])
    (hstop : Step capacity s (.call i .requestStop) s') :
    s'.Draining (s.history.filterMap accepted?) i := by
  obtain ⟨loop, hmem⟩ := List.exists_mem_of_ne_nil _ hstarted
  obtain ⟨r, hr⟩ := List.mem_iff_getElem?.mp hmem
  have hearly := hgoing.early loop hmem
  have hhandle : s.handle ≠ none := by
    have hjoinable := hinv.sole r loop hr (by rintro rfl; cases hearly)
    cases hlock : s.lock with
    | none =>
      rw [joinable_free hlock] at hjoinable
      simp [hjoinable]
    | some lock =>
      have hplain := hgoing.lock lock.1 lock.2 hlock
      have hjoins : lock.2.joins? = none := by
        cases hholder : lock.2 <;> rw [hholder] at hplain <;> first | rfl | cases hplain
      rw [@joinable_eq _ lock.1 lock.2 hlock, hjoins, Option.none_or] at hjoinable
      simp [hjoinable]
  unfold Step act at hstop
  dsimp only at hstop
  split_ifs at hstop
  obtain rfl := Option.some.inj hstop
  have hnotlate : ¬ s.Late := by
    rintro (hstopped | hleaving)
    · rcases hgoing.lifecycle with hlifecycle | hlifecycle <;> simp [hlifecycle] at hstopped
    · cases hgoing.early _ hleaving
  refine Draining.setCaller ⟨List.prefix_refl _, fun hlate => absurd hlate hnotlate, fun _ => hhandle, ?_, ?_, ?_⟩
    fun _ => ⟨rfl, hhandle⟩
  · exact fun j _ => hgoing.callers j
  · exact fun j holder _ => hgoing.lock j holder
  · rintro (⟨j, k, hlock⟩ | ⟨k, hleft⟩)
    · cases hgoing.lock _ _ hlock
    · exact absurd hleft (hgoing.returned k)

theorem going_run (h : Run (PlainStep capacity) .new before s) : s.Inv ∧ s.Calm ∧ s.Going := by
  refine @Run.invariant _ _ _ _ _ _ (fun _ (s : EventLoopSupervisor) => s.Inv ∧ s.Calm ∧ s.Going) h
    ⟨.new, .new, .inl rfl, nofun, fun _ => rfl, nofun, nofun⟩ ?_
  rintro - t action u ⟨hinv, hcalm, hgoing⟩ hstep
  exact ⟨hinv.step hstep.1, hcalm.step hstep, hgoing.step hcalm hstep⟩

theorem draining_run (hinv : s.Inv) (hcalm : s.Calm) (hdraining : s.Draining tasks i)
    (h : Run (PlainStep capacity) s after s') : s'.Inv ∧ s'.Calm ∧ s'.Draining tasks i := by
  refine @Run.invariant _ _ _ _ _ _ (fun _ (s : EventLoopSupervisor) => s.Inv ∧ s.Calm ∧ s.Draining tasks i) h
    ⟨hinv, hcalm, hdraining⟩ ?_
  rintro - t action u ⟨hinv, hcalm, hdraining⟩ hstep
  exact ⟨hinv.step hstep.1, hcalm.step hstep, hdraining.step hinv hcalm hstep⟩

theorem returned_prefix (hinv : s.Inv) (hcalm : s.Calm) :
    s.history.filterMap returned? <+: s.history.filterMap started? ∧
      s.history.filterMap started? <+: s.history.filterMap accepted? := by
  rw [hinv.fifo, hinv.dispatches, hcalm.returns]
  exact ⟨List.prefix_append _ _, List.prefix_append _ _⟩

theorem accepted_nodup (hinv : s.Inv) : (s.history.filterMap accepted?).Nodup := by
  refine hinv.once.imp fun {a b} hlt heq => ?_
  rw [heq] at hlt
  exact Nat.lt_irrefl _ hlt

/-- Once a graceful stop has returned, the tasks that had been accepted when it was called are those that were
dispatched first, in the order of the queue. -/
theorem graceful_stop_drains (hbefore : Run (PlainStep capacity) .new before s₀) (hstarted : s₀.runners ≠ [])
    (hstop : Step capacity s₀ (.call i .requestStop) s₁) (hafter : Run (PlainStep capacity) s₁ after s)
    (hreturned : .left (.stopped i) ∈ s.history) :
    s.lifecycle = .Stopped ∧
      s₀.history.filterMap accepted? <+: s.history.filterMap returned? ∧
      s.history.filterMap returned? <+: s.history.filterMap accepted? ∧
      ∀ item, .left (.pushed item) ∈ s₀.history →
        (s.history.filterMap started?).count item = 1 ∧ (s.history.filterMap returned?).count item = 1 := by
  obtain ⟨hinv₀, hcalm₀, hgoing⟩ := going_run hbefore
  have hinv₁ := hinv₀.step hstop
  have hcalm₁ : s₁.Calm := by
    unfold Step act at hstop
    dsimp only at hstop
    split_ifs at hstop with houtside
    obtain rfl := Option.some.inj hstop
    exact hcalm₀.call houtside
  obtain ⟨hinv, hcalm, hdraining⟩ := draining_run hinv₁ hcalm₁ (draining_of_going hinv₀ hgoing hstarted hstop) hafter
  have hstopped := hdraining.stopped (.inr ⟨i, hreturned⟩)
  have hdrained := hdraining.late (.inl hstopped)
  obtain ⟨hstarts, haccepts⟩ := returned_prefix hinv hcalm
  have hnodup := accepted_nodup hinv
  refine ⟨hstopped, hdrained, hstarts.trans haccepts, fun item hpushed => ?_⟩
  have hmem := hdrained.subset (hinv₀.pushes item hpushed)
  exact ⟨List.count_eq_one_of_mem (hnodup.sublist haccepts.sublist) (hstarts.subset hmem),
    List.count_eq_one_of_mem (hnodup.sublist (hstarts.trans haccepts).sublist) hmem⟩

/-- Two pushes. The runner that was spawned for the first one has not begun. -/
def pushedTwice : List Action :=
  [.call 0 (.push ⟨1, []⟩), .caller 0, .holder true, .holder true, .holder true, .holder true, .holder true,
    .call 0 (.push ⟨2, []⟩), .caller 0, .holder true, .holder true, .holder true, .holder true]

/-- The runner begins after the stop, and drains the queue. -/
def drainedRun : List Action :=
  [.caller 1, .caller 1, .holder true, .runner 0 .go, .runner 0 .go, .runner 0 .go, .runner 0 .go, .runner 0 .go,
    .runner 0 .go, .runner 0 .go, .runner 0 .go, .runner 0 .go, .runner 0 .go, .runner 0 .go, .runner 0 .go,
    .runner 0 .go, .holder true, .holder true]

theorem graceful_stop_drains_twice :
    let s₀ := played (guarded (act 1024) plain) .new pushedTwice
    let s₁ := played (act 1024) s₀ [.call 1 .requestStop]
    let s := played (guarded (act 1024) plain) s₁ drainedRun
    s.lifecycle = .Stopped ∧ (s.history.filterMap returned?).count ⟨1, ⟨2, []⟩⟩ = 1 := by
  intro s₀ s₁ s
  have hbefore : Run (PlainStep 1024) .new pushedTwice s₀ := run_guarded (fun _ _ _ h => h) (by decide +kernel)
  have hstop : Step 1024 s₀ (.call 1 .requestStop) s₁ := rfl
  have hafter : Run (PlainStep 1024) s₁ drainedRun s := run_guarded (fun _ _ _ h => h) (by decide +kernel)
  have hdrains := graceful_stop_drains hbefore (by decide +kernel) hstop hafter (by decide +kernel)
  exact ⟨hdrains.1, (hdrains.2.2.2 _ (by decide +kernel)).2⟩

end EventLoopSupervisor

end TrenchDb.Storage.Shutdown
