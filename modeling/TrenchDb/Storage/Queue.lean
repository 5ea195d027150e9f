import Mathlib.Algebra.Group.Nat.Defs
import Mathlib.Tactic.SplitIfs
import TrenchDb.Lib.Lts
import TrenchDb.Lib.Slots

/-!
# The queue and its locks

`engine/src/events/queue.rs`, `producer.rs` and `consumer.rs`: any number of threads that push and receive,
with the lock of the queue, that of the statistics, and the condition variable. A thread has a lock while it
is at a place where it holds it.
-/

open TrenchDb.Lib TrenchDb.Lib.Lts

namespace TrenchDb.Storage.Shared

/-! ## Statistics -/

/-- The counters wrap around. -/
structure QueueStats where
  totalPushed : UInt64
  totalPopped : UInt64
  maxQueueSize : UInt64
  deriving DecidableEq, Repr

namespace QueueStats

/-- What `ProducerHandle::push` counts. `len` is the length of the queue then. -/
def push (stats : QueueStats) (len : Nat) : QueueStats :=
  { stats with totalPushed := stats.totalPushed + 1, maxQueueSize := max stats.maxQueueSize (.ofNat len) }

/-- `ConsumerHandle::record_pop`. -/
def recordPop (stats : QueueStats) : QueueStats := { stats with totalPopped := stats.totalPopped + 1 }

end QueueStats

/-! ## Threads -/

/-- The ways to receive. -/
inductive Receive
  | recv
  | recvTimeout
  | tryRecv
  deriving DecidableEq, Repr

/-- Where a thread is. A push locks the queue, puts its item there, counts it under the lock of the statistics,
unlocks the queue and notifies; a receive locks the queue and takes an item or sleeps. -/
inductive Place (α : Type)
  | outside
  | pushLocking (item : α)
  | pushing (item : α)
  | full (item : α)
  | counting (wasEmpty : Bool)
  | updating (wasEmpty : Bool)
  | unlocking (wasEmpty : Bool)
  | notifying
  | popLocking (receive : Receive) (timedOut : Bool)
  | popping (receive : Receive)
  | asleep (receive : Receive)
  | recording (receive : Receive)
  | updatingPop (receive : Receive)
  | leaving (receive : Receive)
  deriving DecidableEq, Repr

namespace Place

variable {α : Type}

/-- The thread has the lock of the queue. -/
def holds : Place α → Bool
  | .pushing _ | .full _ | .counting _ | .updating _ | .unlocking _ | .popping _ | .recording _ | .updatingPop _
  | .leaving _ => true
  | .outside | .pushLocking _ | .notifying | .popLocking _ _ | .asleep _ => false

/-- The thread has the lock of the statistics. -/
def holdsStats : Place α → Bool
  | .updating _ | .updatingPop _ => true
  | .outside | .pushLocking _ | .pushing _ | .full _ | .counting _ | .unlocking _ | .notifying | .popLocking _ _
  | .popping _ | .asleep _ | .recording _ | .leaving _ => false

/-- Its item is in the queue and not counted. -/
def uncounted : Place α → Bool
  | .counting _ | .updating _ => true
  | .outside | .pushLocking _ | .pushing _ | .full _ | .unlocking _ | .notifying | .popLocking _ _ | .popping _
  | .asleep _ | .recording _ | .updatingPop _ | .leaving _ => false

/-- Its item is out of the queue and not counted. -/
def unrecorded : Place α → Bool
  | .recording _ | .updatingPop _ => true
  | .outside | .pushLocking _ | .pushing _ | .full _ | .counting _ | .updating _ | .unlocking _ | .notifying
  | .popLocking _ _ | .popping _ | .asleep _ | .leaving _ => false

/-- The thread sleeps, and is not notified. -/
def sleeps : Place α → Bool
  | .asleep _ => true
  | .outside | .pushLocking _ | .pushing _ | .full _ | .counting _ | .updating _ | .unlocking _ | .notifying
  | .popLocking _ _ | .popping _ | .recording _ | .updatingPop _ | .leaving _ => false

/-- A push that may still find that there is no room. -/
def refuses : Place α → Bool
  | .pushLocking _ | .pushing _ | .full _ => true
  | .outside | .counting _ | .updating _ | .unlocking _ | .notifying | .popLocking _ _ | .popping _ | .asleep _
  | .recording _ | .updatingPop _ | .leaving _ => false

end Place

/-- The queue with the threads that use it. `accepted` and `popped` are records that no step reads. -/
structure Queue (α : Type) where
  queue : List α
  stats : QueueStats
  threads : List (Place α)
  accepted : List α
  popped : List α

inductive Operation (α : Type)
  | push (item : α)
  | receive (kind : Receive)
  deriving DecidableEq, Repr

/-- Where an operation begins. -/
def Operation.place {α : Type} : Operation α → Place α
  | .push item => .pushLocking item
  | .receive kind => .popLocking kind false

/-- `step` is the next step of thread `i`, where it is not to notify. A sleeper may be woken by itself, and
that of `recv_timeout` may run out of time. -/
inductive Action (α : Type)
  | call (i : Nat) (operation : Operation α)
  | step (i : Nat)
  | notify (i : Nat) (target : Option Nat)
  | wake (j : Nat)
  | timeout (j : Nat)
  deriving DecidableEq, Repr

namespace Queue

variable {α : Type}

/-- A new queue, and `n` threads. -/
def new (n : Nat) : Queue α :=
  { queue := [], stats := { totalPushed := 0, totalPopped := 0, maxQueueSize := 0 }
    threads := List.replicate n .outside, accepted := [], popped := [] }

def setPlace (s : Queue α) (i : Nat) (place : Place α) : Queue α := { s with threads := s.threads.set i place }

/-- The lock of the queue is free. -/
def Free (s : Queue α) : Prop := s.threads.countP Place.holds = 0

/-- The lock of the statistics is free. -/
def StatsFree (s : Queue α) : Prop := s.threads.countP Place.holdsStats = 0

instance (s : Queue α) : Decidable s.Free := inferInstanceAs (Decidable (_ = _))
instance (s : Queue α) : Decidable s.StatsFree := inferInstanceAs (Decidable (_ = _))

/-- There is no room for an item. A capacity of 0 is none. -/
def Full (capacity : Nat) (s : Queue α) : Prop := 0 < capacity ∧ capacity ≤ s.queue.length

instance (capacity : Nat) (s : Queue α) : Decidable (s.Full capacity) := inferInstanceAs (Decidable (_ ∧ _))

/-- The next step of thread `i`, in `push`, `recv`, `recv_timeout` or `try_recv`. -/
def threadStep (capacity : Nat) (s : Queue α) (i : Nat) : Option (Queue α) :=
  match s.threads[i]? with
  | some (.pushLocking item) => if s.Free then some (s.setPlace i (.pushing item)) else none
  | some (.pushing item) =>
    if s.Full capacity then some (s.setPlace i (.full item))
    else
      some ({ s with queue := s.queue ++ [item], accepted := s.accepted ++ [item] }.setPlace i
        (.counting s.queue.isEmpty))
  | some (.full _) => some (s.setPlace i .outside)
  | some (.counting wasEmpty) => if s.StatsFree then some (s.setPlace i (.updating wasEmpty)) else none
  | some (.updating wasEmpty) =>
    some ({ s with stats := s.stats.push s.queue.length }.setPlace i (.unlocking wasEmpty))
  | some (.unlocking wasEmpty) => some (s.setPlace i (if wasEmpty then .notifying else .outside))
  | some (.popLocking receive timedOut) =>
    if s.Free then some (s.setPlace i (if timedOut then .leaving receive else .popping receive)) else none
  | some (.popping receive) =>
    match s.queue with
    | item :: queue => some ({ s with queue, popped := s.popped ++ [item] }.setPlace i (.recording receive))
    | [] => some (s.setPlace i (if receive = .tryRecv then .leaving receive else .asleep receive))
  | some (.recording receive) => if s.StatsFree then some (s.setPlace i (.updatingPop receive)) else none
  | some (.updatingPop receive) => some ({ s with stats := s.stats.recordPop }.setPlace i (.leaving receive))
  | some (.leaving _) => some (s.setPlace i .outside)
  | some .outside | some .notifying | some (.asleep _) | none => none

/-- `notify_one`: one of the threads that sleep, if there is any. -/
def notify (s : Queue α) (i : Nat) (target : Option Nat) : Option (Queue α) :=
  match s.threads[i]?, target with
  | some .notifying, some j =>
    match s.threads[j]? with
    | some (.asleep receive) => some ((s.setPlace j (.popLocking receive false)).setPlace i .outside)
    | _ => none
  | some .notifying, none => if s.threads.countP Place.sleeps = 0 then some (s.setPlace i .outside) else none
  | _, _ => none

def act (capacity : Nat) (s : Queue α) : Action α → Option (Queue α)
  | .call i operation =>
    match s.threads[i]? with
    | some .outside => some (s.setPlace i operation.place)
    | _ => none
  | .step i => s.threadStep capacity i
  | .notify i target => s.notify i target
  | .wake j =>
    match s.threads[j]? with
    | some (.asleep receive) => some (s.setPlace j (.popLocking receive false))
    | _ => none
  | .timeout j =>
    match s.threads[j]? with
    | some (.asleep .recvTimeout) => some (s.setPlace j (.popLocking .recvTimeout true))
    | _ => none

def Step (capacity : Nat) (s : Queue α) (action : Action α) (s' : Queue α) : Prop := s.act capacity action = some s'

/-! ## What a step can do -/

variable {capacity n : Nat} {s s' : Queue α} {i j : Nat} {place place' : Place α} {action : Action α}
  {actions : List (Action α)} {item : α}

/-- A thread moves on, and neither the queue nor the statistics change. -/
inductive Passes (capacity : Nat) (s : Queue α) : Place α → Place α → Prop
  | pushLock {item : α} : s.Free → Passes capacity s (.pushLocking item) (.pushing item)
  | full {item : α} : s.Full capacity → Passes capacity s (.pushing item) (.full item)
  | refuse {item : α} : Passes capacity s (.full item) .outside
  | count {wasEmpty : Bool} : s.StatsFree → Passes capacity s (.counting wasEmpty) (.updating wasEmpty)
  | unlock : Passes capacity s (.unlocking true) .notifying
  | done : Passes capacity s (.unlocking false) .outside
  | unheard : s.threads.countP Place.sleeps = 0 → Passes capacity s .notifying .outside
  | popLock {receive : Receive} : s.Free → Passes capacity s (.popLocking receive false) (.popping receive)
  | expire {receive : Receive} : s.Free → Passes capacity s (.popLocking receive true) (.leaving receive)
  | sleep {receive : Receive} : s.queue = [] → Passes capacity s (.popping receive) (.asleep receive)
  | nothing {receive : Receive} : s.queue = [] → Passes capacity s (.popping receive) (.leaving receive)
  | record {receive : Receive} : s.StatsFree → Passes capacity s (.recording receive) (.updatingPop receive)
  | leave {receive : Receive} : Passes capacity s (.leaving receive) .outside
  | wake {receive : Receive} : Passes capacity s (.asleep receive) (.popLocking receive false)
  | timeout {receive : Receive} : Passes capacity s (.asleep receive) (.popLocking receive true)

inductive Moves (capacity : Nat) (s : Queue α) (action : Action α) : Queue α → Prop
  | pass {i : Nat} {place place' : Place α} : s.threads[i]? = some place → Passes capacity s place place' →
      Moves capacity s action (s.setPlace i place')
  | enqueue {i : Nat} {item : α} : action = .step i → s.threads[i]? = some (.pushing item) → ¬ s.Full capacity →
      Moves capacity s action ({ s with queue := s.queue ++ [item], accepted := s.accepted ++ [item] }.setPlace i
        (.counting s.queue.isEmpty))
  | update {i : Nat} {wasEmpty : Bool} : s.threads[i]? = some (.updating wasEmpty) →
      Moves capacity s action ({ s with stats := s.stats.push s.queue.length }.setPlace i (.unlocking wasEmpty))
  | pop {i : Nat} {receive : Receive} {item : α} {queue : List α} : s.threads[i]? = some (.popping receive) →
      s.queue = item :: queue →
      Moves capacity s action ({ s with queue, popped := s.popped ++ [item] }.setPlace i (.recording receive))
  | updatePop {i : Nat} {receive : Receive} : s.threads[i]? = some (.updatingPop receive) →
      Moves capacity s action ({ s with stats := s.stats.recordPop }.setPlace i (.leaving receive))
  | notify {i j : Nat} {receive : Receive} : s.threads[i]? = some .notifying →
      s.threads[j]? = some (.asleep receive) →
      Moves capacity s action ((s.setPlace j (.popLocking receive false)).setPlace i .outside)

theorem threadStep_moves (h : s.threadStep capacity i = some s') : s.Moves capacity (.step i) s' := by
  unfold threadStep at h
  split at h
  next item hi =>
    split_ifs at h with hfree
    obtain rfl := Option.some.inj h
    exact .pass hi (.pushLock hfree)
  next item hi =>
    split_ifs at h with hfull
    · obtain rfl := Option.some.inj h
      exact .pass hi (.full hfull)
    · obtain rfl := Option.some.inj h
      exact .enqueue rfl hi hfull
  next hi =>
    obtain rfl := Option.some.inj h
    exact .pass hi .refuse
  next wasEmpty hi =>
    split_ifs at h with hfree
    obtain rfl := Option.some.inj h
    exact .pass hi (.count hfree)
  next wasEmpty hi =>
    obtain rfl := Option.some.inj h
    exact .update hi
  next wasEmpty hi =>
    obtain rfl := Option.some.inj h
    cases wasEmpty with
    | true => exact .pass hi .unlock
    | false => exact .pass hi .done
  next receive timedOut hi =>
    by_cases hfree : s.Free
    · rw [if_pos hfree] at h
      obtain rfl := Option.some.inj h
      cases timedOut with
      | true => exact .pass hi (.expire hfree)
      | false => exact .pass hi (.popLock hfree)
    · rw [if_neg hfree] at h
      cases h
  next receive hi =>
    split at h
    next item queue hqueue =>
      obtain rfl := Option.some.inj h
      exact .pop hi hqueue
    next hqueue =>
      obtain rfl := Option.some.inj h
      split_ifs
      · exact .pass hi (.nothing hqueue)
      · exact .pass hi (.sleep hqueue)
  next receive hi =>
    split_ifs at h with hfree
    obtain rfl := Option.some.inj h
    exact .pass hi (.record hfree)
  next receive hi =>
    obtain rfl := Option.some.inj h
    exact .updatePop hi
  next hi =>
    obtain rfl := Option.some.inj h
    exact .pass hi .leave
  all_goals cases h

theorem step_moves (h : Step capacity s action s') :
    (∃ i operation, action = .call i operation ∧ s.threads[i]? = some .outside ∧ s' = s.setPlace i operation.place) ∨
      s.Moves capacity action s' := by
  unfold Step act at h
  cases action with
  | call i operation =>
    dsimp only at h
    split at h
    next hi =>
      exact .inl ⟨i, operation, rfl, hi, (Option.some.inj h).symm⟩
    next => cases h
  | step i => exact .inr (threadStep_moves h)
  | notify i target =>
    dsimp only at h
    unfold Queue.notify at h
    split at h
    next j hi =>
      split at h
      next receive hj =>
        obtain rfl := Option.some.inj h
        exact .inr (.notify hi hj)
      next => cases h
    next hi =>
      split_ifs at h with hnobody
      obtain rfl := Option.some.inj h
      exact .inr (.pass hi (.unheard hnobody))
    next => cases h
  | wake j =>
    dsimp only at h
    split at h
    next receive hj =>
      obtain rfl := Option.some.inj h
      exact .inr (.pass hj .wake)
    next => cases h
  | timeout j =>
    dsimp only at h
    split at h
    next hj =>
      obtain rfl := Option.some.inj h
      exact .inr (.pass hj .timeout)
    next => cases h

/-! ## The accounts -/

theorem toNat_max (a b : UInt64) : (max a b).toNat = max a.toNat b.toNat := by
  show (if a ≤ b then b else a).toNat = _
  rw [Nat.max_def]
  simp only [UInt64.le_iff_toNat_le]
  split_ifs <;> rfl

/-- What the statistics lack is what the thread that has the lock has still to count. -/
structure Accounts (capacity : Nat) (s : Queue α) : Prop where
  alone : s.threads.countP Place.holds ≤ 1
  counted : s.threads.countP Place.uncounted ≤ s.accepted.length
  pushed : s.stats.totalPushed.toNat = (s.accepted.length - s.threads.countP Place.uncounted) % 2 ^ 64
  recorded : s.threads.countP Place.unrecorded ≤ s.popped.length
  popped : s.stats.totalPopped.toNat = (s.popped.length - s.threads.countP Place.unrecorded) % 2 ^ 64
  fifo : s.accepted = s.popped ++ s.queue
  room : 0 < capacity → s.queue.length ≤ capacity
  seen : s.accepted.length < 2 ^ 64 → s.threads.countP Place.uncounted = 0 →
    s.queue.length ≤ s.stats.maxQueueSize.toNat
  most : s.accepted.length < 2 ^ 64 → s.stats.maxQueueSize.toNat ≤ s.stats.totalPushed.toNat

theorem countP_le_of_imp {p q : Place α → Bool} (h : ∀ place, p place = true → q place = true)
    (l : List (Place α)) : l.countP p ≤ l.countP q :=
  List.countP_mono_left fun place _ => h place

theorem counts_set (hi : s.threads[i]? = some place) (place' : Place α) :
    (s.threads.set i place').countP Place.holds + place.holds.toNat =
        s.threads.countP Place.holds + place'.holds.toNat ∧
      (s.threads.set i place').countP Place.uncounted + place.uncounted.toNat =
        s.threads.countP Place.uncounted + place'.uncounted.toNat ∧
      (s.threads.set i place').countP Place.unrecorded + place.unrecorded.toNat =
        s.threads.countP Place.unrecorded + place'.unrecorded.toNat :=
  ⟨Slots.countP_set_add _ hi _, Slots.countP_set_add _ hi _, Slots.countP_set_add _ hi _⟩

theorem holds_of_uncounted (place : Place α) (h : place.uncounted = true) : place.holds = true := by
  cases place <;> first | rfl | cases h

theorem holds_of_unrecorded (place : Place α) (h : place.unrecorded = true) : place.holds = true := by
  cases place <;> first | rfl | cases h

namespace Accounts

theorem new : Accounts capacity (new n : Queue α) := by
  constructor <;> simp [Queue.new, List.countP_replicate, Place.holds, Place.uncounted, Place.unrecorded]

theorem replace (haccounts : s.Accounts capacity) (hi : s.threads[i]? = some place)
    (hone : s.threads.countP Place.holds + place'.holds.toNat ≤ 1 + place.holds.toNat)
    (hcounted : place'.uncounted = place.uncounted) (hrecorded : place'.unrecorded = place.unrecorded) :
    Accounts capacity (s.setPlace i place') := by
  obtain ⟨hholds, huncounted, hunrecorded⟩ := counts_set hi place'
  rw [hcounted] at huncounted
  rw [hrecorded] at hunrecorded
  obtain ⟨halone, hcounted', hpushed, hrecorded', hpopped, hfifo, hroom, hseen, hmost⟩ := haccounts
  exact
    { alone := by simp only [setPlace]; omega
      counted := by simp only [setPlace]; omega
      pushed := by simp only [setPlace]; omega
      recorded := by simp only [setPlace]; omega
      popped := by simp only [setPlace]; omega
      fifo := hfifo
      room := hroom
      seen := fun hfew hnone => hseen hfew (by simp only [setPlace] at hnone; omega)
      most := hmost }

theorem pass (haccounts : s.Accounts capacity) (hi : s.threads[i]? = some place)
    (h : Passes capacity s place place') : Accounts capacity (s.setPlace i place') := by
  have halone := haccounts.alone
  have hone : s.threads.countP Place.holds + place'.holds.toNat ≤ 1 + place.holds.toNat := by
    cases h with
    | pushLock hfree | popLock hfree | expire hfree =>
      rw [show s.threads.countP Place.holds = 0 from hfree]
      simp [Place.holds]
    | full | refuse | count | unlock | done | unheard | sleep | nothing | record | leave | wake | timeout =>
      simp [Place.holds]
      omega
  cases h <;> exact haccounts.replace hi hone rfl rfl

theorem call (haccounts : s.Accounts capacity) (hi : s.threads[i]? = some .outside) (operation : Operation α) :
    Accounts capacity (s.setPlace i operation.place) := by
  cases operation <;> exact haccounts.replace hi haccounts.alone rfl rfl

theorem enqueue (haccounts : s.Accounts capacity) (hi : s.threads[i]? = some (.pushing item))
    (hroom : ¬ s.Full capacity) (wasEmpty : Bool) :
    Accounts capacity ({ s with queue := s.queue ++ [item], accepted := s.accepted ++ [item] }.setPlace i
      (.counting wasEmpty)) := by
  obtain ⟨hholds, huncounted, hunrecorded⟩ := counts_set hi (.counting wasEmpty)
  simp only [Place.holds, Place.uncounted, Place.unrecorded, Bool.toNat_true, Bool.toNat_false]
    at hholds huncounted hunrecorded
  obtain ⟨halone, hcounted, hpushed, hrecorded, hpopped, hfifo, hcapacity, -, hmost⟩ := haccounts
  refine
    { alone := by simp only [setPlace]; omega
      counted := by simp only [setPlace, List.length_append, List.length_singleton]; omega
      pushed := by simp only [setPlace, List.length_append, List.length_singleton]; omega
      recorded := by simp only [setPlace]; omega
      popped := by simp only [setPlace]; omega
      fifo := by simp only [setPlace, hfifo, List.append_assoc]
      room := ?_
      seen := fun _ hnone => by simp only [setPlace] at hnone; omega
      most := fun hfew => hmost ?_ }
  · intro hpos
    simp only [setPlace, List.length_append, List.length_singleton]
    unfold Full at hroom
    omega
  · simp only [setPlace, List.length_append] at hfew
    omega

theorem update {wasEmpty : Bool} (haccounts : s.Accounts capacity) (hi : s.threads[i]? = some (.updating wasEmpty)) :
    Accounts capacity ({ s with stats := s.stats.push s.queue.length }.setPlace i (.unlocking wasEmpty)) := by
  obtain ⟨hholds, huncounted, hunrecorded⟩ := counts_set hi (.unlocking wasEmpty)
  have hle := countP_le_of_imp holds_of_uncounted s.threads
  simp only [Place.holds, Place.uncounted, Place.unrecorded, Bool.toNat_true, Bool.toNat_false]
    at hholds huncounted hunrecorded
  obtain ⟨halone, hcounted, hpushed, hrecorded, hpopped, hfifo, hcapacity, -, hmost⟩ := haccounts
  have hlen : s.queue.length ≤ s.accepted.length := by
    rw [hfifo, List.length_append]
    exact Nat.le_add_left _ _
  have hcount : (s.stats.push s.queue.length).totalPushed.toNat = (s.stats.totalPushed.toNat + 1) % 2 ^ 64 :=
    UInt64.toNat_add _ _
  have hmax : (s.stats.push s.queue.length).maxQueueSize.toNat =
      max s.stats.maxQueueSize.toNat (s.queue.length % 2 ^ 64) := by
    rw [QueueStats.push, toNat_max, UInt64.toNat_ofNat']
  -- The thread is the only one that has still to count its item.
  exact
    { alone := by simp only [setPlace]; omega
      counted := by simp only [setPlace]; omega
      pushed := by simp only [setPlace, hcount]; omega
      recorded := by simp only [setPlace]; omega
      popped := by simp only [setPlace, QueueStats.push]; omega
      fifo := hfifo
      room := hcapacity
      seen := fun hfew _ => by simp only [setPlace, hmax] at hfew ⊢; omega
      most := fun hfew => by
        have hold := hmost hfew
        simp only [setPlace, hcount, hmax] at hfew ⊢
        omega }

theorem pop {receive : Receive} {queue : List α} (haccounts : s.Accounts capacity)
    (hi : s.threads[i]? = some (.popping receive)) (hqueue : s.queue = item :: queue) :
    Accounts capacity ({ s with queue, popped := s.popped ++ [item] }.setPlace i (.recording receive)) := by
  obtain ⟨hholds, huncounted, hunrecorded⟩ := counts_set hi (.recording receive)
  simp only [Place.holds, Place.uncounted, Place.unrecorded, Bool.toNat_true, Bool.toNat_false]
    at hholds huncounted hunrecorded
  obtain ⟨halone, hcounted, hpushed, hrecorded, hpopped, hfifo, hcapacity, hseen, hmost⟩ := haccounts
  rw [hqueue, List.length_cons] at hcapacity hseen
  exact
    { alone := by simp only [setPlace]; omega
      counted := by simp only [setPlace]; omega
      pushed := by simp only [setPlace]; omega
      recorded := by simp only [setPlace, List.length_append, List.length_singleton]; omega
      popped := by simp only [setPlace, List.length_append, List.length_singleton]; omega
      fifo := by simp only [setPlace, hfifo, hqueue, List.append_assoc, List.singleton_append]
      room := fun hpos => Nat.le_of_succ_le (hcapacity hpos)
      seen := fun hfew hnone => Nat.le_of_succ_le (hseen hfew (by simp only [setPlace] at hnone; omega))
      most := hmost }

theorem updatePop {receive : Receive} (haccounts : s.Accounts capacity)
    (hi : s.threads[i]? = some (.updatingPop receive)) :
    Accounts capacity ({ s with stats := s.stats.recordPop }.setPlace i (.leaving receive)) := by
  obtain ⟨hholds, huncounted, hunrecorded⟩ := counts_set hi (.leaving receive)
  simp only [Place.holds, Place.uncounted, Place.unrecorded, Bool.toNat_true, Bool.toNat_false]
    at hholds huncounted hunrecorded
  obtain ⟨halone, hcounted, hpushed, hrecorded, hpopped, hfifo, hcapacity, hseen, hmost⟩ := haccounts
  have hcount : s.stats.recordPop.totalPopped.toNat = (s.stats.totalPopped.toNat + 1) % 2 ^ 64 := UInt64.toNat_add _ _
  exact
    { alone := by simp only [setPlace]; omega
      counted := by simp only [setPlace]; omega
      pushed := by simp only [setPlace, QueueStats.recordPop]; omega
      recorded := by simp only [setPlace]; omega
      popped := by simp only [setPlace, hcount]; omega
      fifo := hfifo
      room := hcapacity
      seen := fun hfew hnone => hseen hfew (by simp only [setPlace] at hnone; omega)
      most := hmost }

theorem notify {receive : Receive} (haccounts : s.Accounts capacity) (hi : s.threads[i]? = some .notifying)
    (hj : s.threads[j]? = some (.asleep receive)) :
    Accounts capacity ((s.setPlace j (.popLocking receive false)).setPlace i .outside) := by
  have hne : j ≠ i := by
    rintro rfl
    rw [hi] at hj
    cases hj
  have hwoken := haccounts.pass hj .wake
  have hstays : (s.setPlace j (.popLocking receive false)).threads[i]? = some .notifying := by
    rw [setPlace, List.getElem?_set_ne hne]
    exact hi
  exact hwoken.replace hstays hwoken.alone rfl rfl

theorem step (haccounts : s.Accounts capacity) (h : Step capacity s action s') : s'.Accounts capacity := by
  rcases step_moves h with ⟨i, operation, -, hi, rfl⟩ | hmoves
  · exact haccounts.call hi operation
  · cases hmoves with
    | pass hi hpass => exact haccounts.pass hi hpass
    | enqueue _ hi hroom => exact haccounts.enqueue hi hroom _
    | update hi => exact haccounts.update hi
    | pop hi hqueue => exact haccounts.pop hi hqueue
    | updatePop hi => exact haccounts.updatePop hi
    | notify hi hj => exact haccounts.notify hi hj

theorem run (h : Run (Step capacity) (.new n) actions s) : s.Accounts capacity :=
  @Run.invariant _ _ _ _ _ _ (fun _ s => s.Accounts capacity) h .new fun _ _ _ _ haccounts hstep =>
    haccounts.step hstep

end Accounts

/-! ## A push that finds no room -/

/-- Thread `i` is in a push that may still find that there is no room. -/
def MayRefuse (s : Queue α) (i : Nat) : Prop := ∃ place, s.threads[i]? = some place ∧ place.refuses = true

theorem Passes.refuses (h : Passes capacity s place place') (hrefuses : place'.refuses = true) :
    place.refuses = true := by
  cases h <;> first | rfl | cases hrefuses

theorem mayRefuse_setPlace (hi : s.threads[i]? = some place) (hmay : MayRefuse (s.setPlace i place') j)
    (hplace : place'.refuses = true → place.refuses = true) : s.MayRefuse j := by
  obtain ⟨at', hj, hrefuses⟩ := hmay
  have hlt := (List.getElem?_eq_some_iff.mp hi).1
  by_cases heq : i = j
  · subst heq
    rw [setPlace, List.getElem?_set_self hlt] at hj
    obtain rfl := Option.some.inj hj
    exact ⟨place, hi, hplace hrefuses⟩
  · rw [setPlace, List.getElem?_set_ne heq] at hj
    exact ⟨at', hj, hrefuses⟩

theorem mayRefuse_before (h : Step capacity s action s') (hcall : ∀ operation, action ≠ .call i operation)
    (hmay : s'.MayRefuse i) : s.MayRefuse i := by
  rcases step_moves h with ⟨k, operation, rfl, -, rfl⟩ | hmoves
  · have hne : k ≠ i := by
      rintro rfl
      exact hcall operation rfl
    unfold MayRefuse at hmay
    rwa [setPlace, List.getElem?_set_ne hne] at hmay
  · cases hmoves with
    | pass hk hpass => exact mayRefuse_setPlace hk hmay hpass.refuses
    | enqueue _ hk => exact mayRefuse_setPlace hk hmay nofun
    | update hk => exact mayRefuse_setPlace hk hmay nofun
    | pop hk => exact mayRefuse_setPlace hk hmay nofun
    | updatePop hk => exact mayRefuse_setPlace hk hmay nofun
    | @notify k l receive hk hl =>
      have hne : l ≠ k := by
        rintro rfl
        rw [hk] at hl
        cases hl
      have hstays : (s.setPlace l (.popLocking receive false)).threads[k]? = some .notifying := by
        rw [setPlace, List.getElem?_set_ne hne]
        exact hk
      exact mayRefuse_setPlace hl (mayRefuse_setPlace hstays hmay nofun) nofun

theorem mayRefuse_same (h : Step capacity s (.step i) s') (hbefore : s.MayRefuse i) (hafter : s'.MayRefuse i) :
    s'.queue = s.queue ∧ s'.stats = s.stats := by
  obtain ⟨place, hi, hrefuses⟩ := hbefore
  replace h : s.threadStep capacity i = some s' := h
  unfold threadStep at h
  cases place with
  | pushLocking item =>
    simp only [hi] at h
    split_ifs at h
    obtain rfl := Option.some.inj h
    exact ⟨rfl, rfl⟩
  | pushing item =>
    simp only [hi] at h
    split_ifs at h
    · obtain rfl := Option.some.inj h
      exact ⟨rfl, rfl⟩
    · -- The item is in the queue, so there was room.
      obtain rfl := Option.some.inj h
      obtain ⟨at', hat, hrefuses⟩ := hafter
      rw [setPlace, List.getElem?_set_self (List.getElem?_eq_some_iff.mp hi).1] at hat
      obtain rfl := Option.some.inj hat
      cases hrefuses
  | full item =>
    simp only [hi] at h
    obtain rfl := Option.some.inj h
    exact ⟨rfl, rfl⟩
  | outside | counting | updating | unlocking | notifying | popLocking | popping | asleep | recording | updatingPop
  | leaving => cases hrefuses

theorem full_same {a b : Queue α} {after : List (Action α)} (hstep : Step capacity a (.step i) b)
    (hafter : Run (Step capacity) b after s) (hcalls : ∀ operation, .call i operation ∉ after)
    (hfull : s.threads[i]? = some (.full item)) : b.queue = a.queue ∧ b.stats = a.stats := by
  have hb : b.MayRefuse i := by
    have hs : s.MayRefuse i := ⟨_, hfull, rfl⟩
    clear hfull
    induction hafter with
    | nil => exact hs
    | @snoc actions action t u _ hlast ih =>
      refine ih (fun operation hmem => hcalls operation (List.mem_append_left _ hmem)) ?_
      refine mayRefuse_before hlast (fun operation heq => hcalls operation ?_) hs
      rw [heq]
      exact List.mem_append_right _ (List.mem_singleton_self _)
  exact mayRefuse_same hstep (mayRefuse_before hstep nofun hb) hb

/-! ## Whenever the lock is free -/

/-- The accounts of the queue, and what a push has done that returns `Full`. The counters wrap around: what they
say of sizes holds of the first 2^64 - 1 items. -/
theorem queue_accounting (h : Run (Step capacity) (.new n) actions s) :
    (s.Free →
      s.stats.totalPushed = s.stats.totalPopped + .ofNat s.queue.length ∧ s.popped ++ s.queue = s.accepted ∧
        (0 < capacity → s.queue.length ≤ capacity) ∧
        (s.accepted.length < 2 ^ 64 →
          s.stats.totalPushed.toNat = s.stats.totalPopped.toNat + s.queue.length ∧
            s.queue.length ≤ s.stats.maxQueueSize.toNat ∧
            s.stats.maxQueueSize.toNat ≤ s.stats.totalPushed.toNat)) ∧
      ∀ (i : Nat) (item : α) (a b : Queue α) (before after : List (Action α)),
        s.threads[i]? = some (.full item) → actions = before ++ .step i :: after →
        (∀ operation, .call i operation ∉ after) → Run (Step capacity) (.new n) before a →
        Step capacity a (.step i) b → Run (Step capacity) b after s → b.queue = a.queue ∧ b.stats = a.stats := by
  have haccounts := Accounts.run h
  refine ⟨fun hfree => ?_, fun i item a b before after hfull _ hcalls _ hstep hafter =>
    full_same hstep hafter hcalls hfull⟩
  have huncounted : s.threads.countP Place.uncounted = 0 :=
    Nat.le_zero.mp (hfree ▸ countP_le_of_imp holds_of_uncounted s.threads)
  have hunrecorded : s.threads.countP Place.unrecorded = 0 :=
    Nat.le_zero.mp (hfree ▸ countP_le_of_imp holds_of_unrecorded s.threads)
  have hlength := congrArg List.length haccounts.fifo
  have hpushed := haccounts.pushed
  have hpopped := haccounts.popped
  rw [List.length_append] at hlength
  refine ⟨?_, haccounts.fifo.symm, haccounts.room,
    fun hfew => ⟨by omega, haccounts.seen hfew huncounted, haccounts.most hfew⟩⟩
  rw [← UInt64.toNat_inj, UInt64.toNat_add, UInt64.toNat_ofNat']
  omega

/-- One item finds room and is received, and of two more the second does not. -/
def crowdedRun : List (Action Nat) :=
  [.call 1 (.receive .recv), .step 1, .step 1, .call 0 (.push 7), .step 0, .step 0, .step 0, .step 0, .step 0,
    .notify 0 (some 1), .step 1, .step 1, .step 1, .step 1, .step 1, .call 0 (.push 8), .step 0, .step 0, .step 0,
    .step 0, .step 0, .notify 0 none, .call 0 (.push 9), .step 0, .step 0, .step 0]

theorem queue_accounting_crowded :
    let s := played (act 1) (new 2) crowdedRun
    s.stats.totalPushed.toNat = s.stats.totalPopped.toNat + s.queue.length ∧ s.popped = [7] ∧ s.queue = [8] := by
  have hrun : Run (Step 1) (new 2) crowdedRun (played (act 1) (new 2) crowdedRun) :=
    run_played (fun _ _ _ h => h) (by decide +kernel)
  exact ⟨(((queue_accounting hrun).1 (by decide +kernel)).2.2.2 (by decide +kernel)).1, by decide +kernel,
    by decide +kernel⟩

/-! ## The counters wrap around -/

/-- One thread pushes an item, and takes it back. -/
def turnover : List (Action Nat) :=
  [.call 0 (.push 7), .step 0, .step 0, .step 0, .step 0, .step 0, .notify 0 none, .call 0 (.receive .tryRecv), .step 0,
    .step 0, .step 0, .step 0, .step 0]

theorem turnover_run (stats : QueueStats) (accepted popped : List Nat) :
    Run (Step 0) { queue := [], stats, threads := [.outside], accepted, popped } turnover
      { queue := [], stats := (stats.push 1).recordPop, threads := [.outside], accepted := accepted ++ [7]
        popped := popped ++ [7] } :=
  run_of_foldlM (fun _ _ _ h => h) rfl

theorem turnovers_run (k : Nat) : ∃ (actions : List (Action Nat)) (s : Queue Nat), Run (Step 0) (new 1) actions s ∧
    s.queue = [] ∧ s.threads = [.outside] ∧ s.stats.totalPushed = .ofNat k ∧
    (0 < k → 1 ≤ s.stats.maxQueueSize.toNat) := by
  induction k with
  | zero => exact ⟨[], new 1, .nil, rfl, rfl, rfl, fun h => absurd h (Nat.lt_irrefl 0)⟩
  | succ k ih =>
    obtain ⟨actions, ⟨queue, stats, threads, accepted, popped⟩, hrun, rfl, rfl, hpushed, -⟩ := ih
    refine ⟨_, _, hrun.append (turnover_run stats accepted popped), rfl, rfl, ?_, fun _ => ?_⟩
    · show stats.totalPushed + 1 = _
      rw [show stats.totalPushed = .ofNat k from hpushed, UInt64.ofNat_add]
      rfl
    · show 1 ≤ (max stats.maxQueueSize 1).toNat
      rw [toNat_max]
      exact Nat.le_max_right _ _

theorem queue_accounting_wraps : ¬ ∀ (capacity n : Nat) (actions : List (Action Nat)) (s : Queue Nat),
    Run (Step capacity) (new n) actions s → s.Free →
      s.stats.totalPushed.toNat = s.stats.totalPopped.toNat + s.queue.length ∧ s.popped ++ s.queue = s.accepted ∧
        (0 < capacity → s.queue.length ≤ capacity) ∧ s.queue.length ≤ s.stats.maxQueueSize.toNat ∧
        s.stats.maxQueueSize.toNat ≤ s.stats.totalPushed.toNat := by
  intro h
  obtain ⟨actions, s, hrun, -, hthreads, hpushed, hmax⟩ := turnovers_run (2 ^ 64)
  obtain ⟨-, -, -, -, hmost⟩ := h 0 1 actions s hrun (by rw [Free, hthreads]; rfl)
  rw [hpushed] at hmost
  exact absurd (Nat.le_trans (hmax (by decide)) hmost) (by decide)

end Queue

end TrenchDb.Storage.Shared
