import TrenchDb.Storage.Queue

/-!
# Lost wake-ups

A push notifies only where it finds the queue empty. With several consumers one of them may sleep on while
an item waits that nobody will wake it for.
-/

open TrenchDb.Lib TrenchDb.Lib.Lts

namespace TrenchDb.Storage.Shared

namespace Place

variable {α : Type}

/-- The thread receives, and does not sleep: it is notified or awake. One that has run out of time looks no more
into the queue, and does not count. -/
def receives : Place α → Bool
  | .popLocking _ false | .popping _ | .recording _ | .updatingPop _ | .leaving _ => true
  | .outside | .pushLocking _ | .pushing _ | .full _ | .counting _ | .updating _ | .unlocking _ | .notifying
  | .popLocking _ true | .asleep _ => false

/-- It is to look into the queue. -/
def searches : Place α → Bool
  | .popLocking _ false | .popping _ => true
  | .outside | .pushLocking _ | .pushing _ | .full _ | .counting _ | .updating _ | .unlocking _ | .notifying
  | .popLocking _ true | .asleep _ | .recording _ | .updatingPop _ | .leaving _ => false

/-- The thread has put an item into the empty queue, and has still to notify. -/
def owes : Place α → Bool
  | .counting true | .updating true | .unlocking true | .notifying => true
  | .outside | .pushLocking _ | .pushing _ | .full _ | .counting false | .updating false | .unlocking false
  | .popLocking _ _ | .popping _ | .asleep _ | .recording _ | .updatingPop _ | .leaving _ => false

/-- The thread is in a receive. -/
def consumes : Place α → Bool
  | .popLocking _ _ | .popping _ | .asleep _ | .recording _ | .updatingPop _ | .leaving _ => true
  | .outside | .pushLocking _ | .pushing _ | .full _ | .counting _ | .updating _ | .unlocking _ | .notifying => false

end Place

namespace Queue

variable {α : Type} {capacity n : Nat} {s s' : Queue α} {i j : Nat} {place place' : Place α} {action : Action α}
  {actions : List (Action α)} {item : α}

/-- The consumers that sleep and are not notified. -/
def asleep (s : Queue α) : Nat := s.threads.countP Place.sleeps

/-- The consumers inside of a receive that are notified or awake. -/
def awake (s : Queue α) : Nat := s.threads.countP Place.receives

/-- Those of them that have still to look into the queue. -/
def searching (s : Queue α) : Nat := s.threads.countP Place.searches

/-- The notifications that pushes have still to send. -/
def owed (s : Queue α) : Nat := s.threads.countP Place.owes

/-- While a consumer sleeps that nobody is to notify, every item has a consumer that is notified or awake,
or that will be notified. -/
def NoLostWakeUp (s : Queue α) : Prop := s.owed < s.asleep → s.queue.length ≤ s.awake + s.owed

/-- A push that finds the queue not empty, and so notifies nobody, finds every sleeper notified before long, or a
consumer on its way that has no item to take yet. -/
def heeded (capacity : Nat) (s : Queue α) (action : Action α) : Bool :=
  match action with
  | .step i =>
    match s.threads[i]? with
    | some (.pushing _) =>
      decide (s.Full capacity) || s.queue.isEmpty || decide (s.asleep ≤ s.owed) ||
        decide (s.queue.length < s.searching + s.owed)
    | _ => true
  | .call _ _ | .notify _ _ | .wake _ | .timeout _ => true

/-- Every item has a consumer that is to look into the queue, or a notification under way. -/
def Covered (s : Queue α) : Prop := s.owed < s.asleep → s.queue.length ≤ s.searching + s.owed

theorem searches_receives (place : Place α) (h : place.searches = true) : place.receives = true := by
  cases place with
  | popLocking receive timedOut =>
    cases timedOut with
    | true => cases h
    | false => rfl
  | popping => rfl
  | outside | pushLocking | pushing | full | counting | updating | unlocking | notifying | asleep | recording
  | updatingPop | leaving => cases h

theorem receives_cases (place : Place α) (h : place.receives = true) :
    place.searches = true ∨ place.holds = true := by
  cases place with
  | popLocking receive timedOut =>
    cases timedOut with
    | true => cases h
    | false => exact .inl rfl
  | popping | recording | updatingPop | leaving => exact .inr rfl
  | outside | pushLocking | pushing | full | counting | updating | unlocking | notifying | asleep => cases h

theorem Covered.noLostWakeUp (hcovered : s.Covered) : s.NoLostWakeUp := by
  intro hasleep
  have hle := countP_le_of_imp searches_receives s.threads
  have hlen := hcovered hasleep
  unfold searching at hlen
  unfold awake
  omega

theorem wakeCounts_set (hi : s.threads[i]? = some place) (place' : Place α) :
    (s.threads.set i place').countP Place.sleeps + place.sleeps.toNat =
        s.threads.countP Place.sleeps + place'.sleeps.toNat ∧
      (s.threads.set i place').countP Place.searches + place.searches.toNat =
        s.threads.countP Place.searches + place'.searches.toNat ∧
      (s.threads.set i place').countP Place.owes + place.owes.toNat =
        s.threads.countP Place.owes + place'.owes.toNat :=
  ⟨Slots.countP_set_add _ hi _, Slots.countP_set_add _ hi _, Slots.countP_set_add _ hi _⟩

/-! ## Every item stays covered -/

namespace Covered

theorem new : Covered (new n : Queue α) := by
  intro _
  exact Nat.zero_le _

theorem call (hcovered : s.Covered) (hi : s.threads[i]? = some .outside) (operation : Operation α) :
    Covered (s.setPlace i operation.place) := by
  obtain ⟨hsleeps, hsearches, howes⟩ := wakeCounts_set hi operation.place
  unfold Covered asleep searching owed at hcovered ⊢
  cases operation <;>
    simp only [Operation.place, Place.sleeps, Place.searches, Place.owes, Bool.toNat_true, Bool.toNat_false, setPlace]
      at hsleeps hsearches howes ⊢ <;>
    omega

theorem pass (hcovered : s.Covered) (hi : s.threads[i]? = some place) (h : Passes capacity s place place') :
    Covered (s.setPlace i place') := by
  obtain ⟨hsleeps, hsearches, howes⟩ := wakeCounts_set hi place'
  unfold Covered asleep searching owed at hcovered ⊢
  cases h with
  | sleep hqueue | nothing hqueue =>
    intro _
    simp only [setPlace, hqueue]
    exact Nat.zero_le _
  | unheard hnobody =>
    simp only [Place.sleeps, Bool.toNat_false, setPlace] at hsleeps ⊢
    omega
  | @count wasEmpty =>
    cases wasEmpty <;>
      simp only [Place.sleeps, Place.searches, Place.owes, Bool.toNat_true, Bool.toNat_false, setPlace]
        at hsleeps hsearches howes ⊢ <;>
      omega
  | pushLock | full | refuse | unlock | done | popLock | expire | record | leave | wake | timeout =>
    simp only [Place.sleeps, Place.searches, Place.owes, Bool.toNat_true, Bool.toNat_false, setPlace]
      at hsleeps hsearches howes ⊢
    omega

theorem enqueue (hi : s.threads[i]? = some (.pushing item)) (hroom : ¬ s.Full capacity)
    (hheeded : s.heeded capacity (.step i) = true) :
    Covered ({ s with queue := s.queue ++ [item], accepted := s.accepted ++ [item] }.setPlace i
      (.counting s.queue.isEmpty)) := by
  obtain ⟨hsleeps, hsearches, howes⟩ := wakeCounts_set hi (.counting s.queue.isEmpty)
  simp only [heeded, hi, decide_eq_false hroom, Bool.false_or, Bool.or_eq_true, decide_eq_true_eq] at hheeded
  unfold Covered
  unfold asleep searching owed at hheeded ⊢
  cases hempty : s.queue.isEmpty with
  | true =>
    rw [hempty] at hsleeps hsearches howes
    simp only [Place.sleeps, Place.searches, Place.owes, Bool.toNat_true, Bool.toNat_false, setPlace,
      List.isEmpty_iff.mp hempty, List.nil_append, List.length_singleton] at hsleeps hsearches howes ⊢
    omega
  | false =>
    rw [hempty] at hsleeps hsearches howes hheeded
    simp only [Place.sleeps, Place.searches, Place.owes, Bool.toNat_false, setPlace, List.length_append,
      List.length_singleton, Bool.false_eq_true, false_or] at hsleeps hsearches howes hheeded ⊢
    omega

theorem update {wasEmpty : Bool} (hcovered : s.Covered) (hi : s.threads[i]? = some (.updating wasEmpty)) :
    Covered ({ s with stats := s.stats.push s.queue.length }.setPlace i (.unlocking wasEmpty)) := by
  obtain ⟨hsleeps, hsearches, howes⟩ := wakeCounts_set hi (.unlocking wasEmpty)
  unfold Covered asleep searching owed at hcovered ⊢
  cases wasEmpty <;>
    simp only [Place.sleeps, Place.searches, Place.owes, Bool.toNat_true, Bool.toNat_false, setPlace]
      at hsleeps hsearches howes ⊢ <;>
    omega

theorem pop {receive : Receive} {queue : List α} (hcovered : s.Covered)
    (hi : s.threads[i]? = some (.popping receive)) (hqueue : s.queue = item :: queue) :
    Covered ({ s with queue, popped := s.popped ++ [item] }.setPlace i (.recording receive)) := by
  obtain ⟨hsleeps, hsearches, howes⟩ := wakeCounts_set hi (.recording receive)
  unfold Covered asleep searching owed at hcovered ⊢
  rw [hqueue, List.length_cons] at hcovered
  simp only [Place.sleeps, Place.searches, Place.owes, Bool.toNat_true, Bool.toNat_false, setPlace]
    at hsleeps hsearches howes ⊢
  omega

theorem updatePop {receive : Receive} (hcovered : s.Covered) (hi : s.threads[i]? = some (.updatingPop receive)) :
    Covered ({ s with stats := s.stats.recordPop }.setPlace i (.leaving receive)) := by
  obtain ⟨hsleeps, hsearches, howes⟩ := wakeCounts_set hi (.leaving receive)
  unfold Covered asleep searching owed at hcovered ⊢
  simp only [Place.sleeps, Place.searches, Place.owes, Bool.toNat_false, setPlace] at hsleeps hsearches howes ⊢
  omega

theorem notify {receive : Receive} (hcovered : s.Covered) (hi : s.threads[i]? = some .notifying)
    (hj : s.threads[j]? = some (.asleep receive)) :
    Covered ((s.setPlace j (.popLocking receive false)).setPlace i .outside) := by
  have hne : j ≠ i := by
    rintro rfl
    rw [hi] at hj
    cases hj
  have hstays : (s.threads.set j (.popLocking receive false))[i]? = some .notifying := by
    rw [List.getElem?_set_ne hne]
    exact hi
  obtain ⟨hsleeps, hsearches, howes⟩ := wakeCounts_set hj (.popLocking receive false)
  obtain ⟨hsleeps', hsearches', howes'⟩ :=
    @wakeCounts_set _ (s.setPlace j (.popLocking receive false)) i .notifying hstays .outside
  unfold Covered asleep searching owed at hcovered ⊢
  simp only [Place.sleeps, Place.searches, Place.owes, Bool.toNat_true, Bool.toNat_false, setPlace]
    at hsleeps hsearches howes hsleeps' hsearches' howes' ⊢
  omega

theorem step (hcovered : s.Covered) (h : Guarded (Step capacity) (heeded capacity) s action s') : s'.Covered := by
  obtain ⟨hstep, hheeded⟩ := h
  rcases step_moves hstep with ⟨i, operation, -, hi, rfl⟩ | hmoves
  · exact hcovered.call hi operation
  · cases hmoves with
    | pass hi hpass => exact hcovered.pass hi hpass
    | enqueue haction hi hroom => exact enqueue hi hroom (haction ▸ hheeded)
    | update hi => exact hcovered.update hi
    | pop hi hqueue => exact hcovered.pop hi hqueue
    | updatePop hi => exact hcovered.updatePop hi
    | notify hi hj => exact hcovered.notify hi hj

theorem run (h : Run (Guarded (Step capacity) (heeded capacity)) (.new n) actions s) : s.Covered :=
  @Run.invariant _ _ _ _ _ _ (fun _ s => s.Covered) h .new fun _ _ _ _ hcovered hstep => hcovered.step hstep

end Covered

/-! ## The pushes that lose a wake-up -/

/-- Where every push is heeded, no wake-up is lost. Without a notification under way there are as many consumers
notified or awake as items, or none sleeps. -/
theorem no_lost_wake_up (h : Run (Guarded (Step capacity) (heeded capacity)) (.new n) actions s) :
    s.NoLostWakeUp ∧ (s.owed = 0 → 0 < s.asleep → s.queue.length ≤ s.awake) := by
  have hnone := (Covered.run h).noLostWakeUp
  refine ⟨hnone, fun howed hasleep => ?_⟩
  have hlen := hnone (howed ▸ hasleep)
  omega

theorem awake_le_searching (haccounts : s.Accounts capacity) (hi : s.threads[i]? = some (.pushing item)) :
    s.awake ≤ s.searching := by
  have hholds := Slots.countP_set_add Place.holds hi .outside
  have hreceives := Slots.countP_set_add Place.receives hi .outside
  have hsearches := Slots.countP_set_add Place.searches hi .outside
  simp only [Place.holds, Place.receives, Place.searches, Bool.toNat_true, Bool.toNat_false]
    at hholds hreceives hsearches
  have halone := haccounts.alone
  -- The push has the lock, so none of the others has.
  have hothers : (s.threads.set i .outside).countP Place.holds = 0 := by omega
  have hle := List.countP_mono_left fun place hmem hreceive =>
    (receives_cases place hreceive).resolve_right (List.countP_eq_zero.mp hothers place hmem)
  unfold awake searching
  omega

/-- The condition is exact: a push that is not heeded loses a wake-up. -/
theorem lost_of_not_heeded (h : Run (Step capacity) (.new n) actions s) (hstep : Step capacity s action s')
    (hheeded : s.heeded capacity action = false) : ¬ s'.NoLostWakeUp := by
  unfold heeded at hheeded
  split at hheeded
  next i =>
    split at hheeded
    next item hi =>
      simp only [Bool.or_eq_false_iff, decide_eq_false_iff_not] at hheeded
      obtain ⟨⟨⟨hfull, hempty⟩, hasleep⟩, hlen⟩ := hheeded
      have hawake := awake_le_searching (Accounts.run h) hi
      replace hstep : s.threadStep capacity i = some s' := hstep
      unfold threadStep at hstep
      simp only [hi, if_neg hfull, hempty] at hstep
      obtain rfl := Option.some.inj hstep
      have hsleeps := Slots.countP_set_add Place.sleeps hi (.counting false)
      have hreceives := Slots.countP_set_add Place.receives hi (.counting false)
      have howes := Slots.countP_set_add Place.owes hi (.counting false)
      intro hnone
      unfold NoLostWakeUp at hnone
      unfold asleep owed at hasleep
      unfold searching owed at hlen
      unfold awake at hawake
      unfold searching at hawake
      simp only [asleep, awake, owed, Place.sleeps, Place.receives, Place.owes, Bool.toNat_false, setPlace,
        List.length_append, List.length_singleton] at hsleeps hreceives howes hnone
      omega
    next => cases hheeded
  all_goals cases hheeded

/-- One of two consumers that sleep is woken by a push. -/
def heededRun : List (Action Nat) :=
  [.call 0 (.receive .recv), .step 0, .step 0, .call 1 (.receive .recv), .step 1, .step 1, .call 2 (.push 7), .step 2,
    .step 2, .step 2, .step 2, .step 2, .notify 2 (some 0)]

theorem no_lost_wake_up_heeded :
    let s := played (guarded (act 0) (heeded 0)) (new 3) heededRun
    s.queue = [7] ∧ s.asleep = 1 ∧ s.queue.length ≤ s.awake := by
  have hrun : Run (Guarded (Step 0) (heeded 0)) (new 3) heededRun
      (played (guarded (act 0) (heeded 0)) (new 3) heededRun) :=
    run_guarded (fun _ _ _ h => h) (by decide +kernel)
  exact ⟨by decide +kernel, by decide +kernel, (no_lost_wake_up hrun).2 (by decide +kernel) (by decide +kernel)⟩

/-! ## One consumer -/

/-- Only thread `c` receives, as the runner of a supervisor does. -/
def soleConsumer (c : Nat) (_ : Queue α) (action : Action α) : Bool :=
  match action with
  | .call i (.receive _) => decide (i = c)
  | .call _ (.push _) | .step _ | .notify _ _ | .wake _ | .timeout _ => true

def SoleConsumer (c : Nat) (s : Queue α) : Prop :=
  ∀ j place, s.threads[j]? = some place → place.consumes = true → j = c

variable {c : Nat}

theorem Passes.consumes (h : Passes capacity s place place') (hconsumes : place'.consumes = true) :
    place.consumes = true := by
  cases h <;> first | rfl | cases hconsumes

namespace SoleConsumer

theorem new : SoleConsumer c (new n : Queue α) := by
  intro j place hj hconsumes
  rw [Queue.new, List.getElem?_replicate] at hj
  split at hj
  · obtain rfl := Option.some.inj hj
    cases hconsumes
  · cases hj

theorem setPlace (hsole : s.SoleConsumer c) (hi : s.threads[i]? = some place)
    (hplace : place'.consumes = true → place.consumes = true ∨ i = c) : SoleConsumer c (s.setPlace i place') := by
  intro j at' hj hconsumes
  by_cases heq : i = j
  · subst heq
    rw [Queue.setPlace, List.getElem?_set_self (List.getElem?_eq_some_iff.mp hi).1] at hj
    obtain rfl := Option.some.inj hj
    exact (hplace hconsumes).elim (hsole i place hi) id
  · rw [Queue.setPlace, List.getElem?_set_ne heq] at hj
    exact hsole j at' hj hconsumes

theorem step (hsole : s.SoleConsumer c) (h : Guarded (Step capacity) (soleConsumer c) s action s') :
    s'.SoleConsumer c := by
  obtain ⟨hstep, haction⟩ := h
  rcases step_moves hstep with ⟨i, operation, rfl, hi, rfl⟩ | hmoves
  · refine hsole.setPlace hi fun hconsumes => ?_
    cases operation with
    | push => cases hconsumes
    | receive => exact .inr (of_decide_eq_true haction)
  · cases hmoves with
    | pass hi hpass => exact hsole.setPlace hi fun hconsumes => .inl (hpass.consumes hconsumes)
    | enqueue _ hi | update hi => exact hsole.setPlace hi (by simp [Place.consumes])
    | pop hi | updatePop hi => exact hsole.setPlace hi fun _ => .inl rfl
    | @notify i j receive hi hj =>
      have hne : j ≠ i := by
        rintro rfl
        rw [hi] at hj
        cases hj
      have hwoken : SoleConsumer c (s.setPlace j (.popLocking receive false)) := hsole.setPlace hj fun _ => .inl rfl
      have hstays : (s.setPlace j (.popLocking receive false)).threads[i]? = some .notifying := by
        rw [Queue.setPlace, List.getElem?_set_ne hne]
        exact hi
      exact hwoken.setPlace hstays (by simp [Place.consumes])

theorem asleep_or_searching (hsole : s.SoleConsumer c) : s.asleep = 0 ∨ s.asleep = 1 ∧ s.searching = 0 := by
  have hothers : ∀ place ∈ s.threads.set c .outside, place.consumes ≠ true := by
    intro place hmem hconsumes
    obtain ⟨j, hj⟩ := List.mem_iff_getElem?.mp hmem
    by_cases heq : c = j
    · subst heq
      rw [List.getElem?_set_self (by simpa using (List.getElem?_eq_some_iff.mp hj).1)] at hj
      obtain rfl := Option.some.inj hj
      cases hconsumes
    · rw [List.getElem?_set_ne heq] at hj
      exact heq (hsole j place hj hconsumes).symm
  have hnone : ∀ {p : Place α → Bool}, (∀ place, p place = true → place.consumes = true) →
      (s.threads.set c .outside).countP p = 0 := fun hp =>
    List.countP_eq_zero.mpr fun place hmem htrue => hothers place hmem (hp place htrue)
  have hasleep := hnone (p := Place.sleeps) fun place => by cases place <;> simp [Place.sleeps, Place.consumes]
  have hsearch := hnone (p := Place.searches) fun place => by
    cases place <;> simp [Place.searches, Place.consumes]
  unfold asleep searching
  cases hc : s.threads[c]? with
  | none =>
    rw [List.set_eq_of_length_le (List.getElem?_eq_none_iff.mp hc)] at hasleep
    exact .inl hasleep
  | some place =>
    obtain ⟨hsleeps, hsearches, -⟩ := wakeCounts_set hc .outside
    rw [hasleep, Nat.zero_add, Place.sleeps, Bool.toNat_false, Nat.add_zero] at hsleeps
    rw [hsearch, Nat.zero_add, Place.searches, Bool.toNat_false, Nat.add_zero] at hsearches
    rw [← hsleeps, ← hsearches]
    cases place with
    | asleep => exact .inr ⟨rfl, rfl⟩
    | outside | pushLocking | pushing | full | counting | updating | unlocking | notifying | popLocking | popping
    | recording | updatingPop | leaving => exact .inl rfl

/-- So every push is heeded: while the consumer sleeps the queue is empty, or somebody is to notify it. -/
theorem heeded (hsole : s.SoleConsumer c) (hcovered : s.Covered) (action : Action α) :
    s.heeded capacity action = true := by
  unfold Queue.heeded
  split
  · split
    · have hcases := hsole.asleep_or_searching
      simp only [Bool.or_eq_true, decide_eq_true_eq]
      by_cases howed : s.asleep ≤ s.owed
      · exact .inl (.inr howed)
      · have hlen := hcovered (Nat.not_le.mp howed)
        have hempty : s.queue.length = 0 := by omega
        exact .inl (.inl (.inr (by rw [List.length_eq_zero_iff.mp hempty]; rfl)))
    · rfl
  all_goals rfl

end SoleConsumer

theorem sole_consumer_hears (h : Run (Guarded (Step capacity) (soleConsumer c)) (.new n) actions s) :
    s.NoLostWakeUp := by
  have hboth : s.SoleConsumer c ∧ s.Covered := by
    refine @Run.invariant _ _ _ _ _ _ (fun _ (s : Queue α) => s.SoleConsumer c ∧ s.Covered) h ⟨.new, .new⟩ ?_
    exact fun _ _ action _ hboth hstep =>
      ⟨hboth.1.step hstep, hboth.2.step ⟨hstep.1, hboth.1.heeded hboth.2 action⟩⟩
  exact hboth.2.noLostWakeUp

/-! ## Two consumers -/

/-- Two pushes, and the second before the consumer that the first has notified has the lock again. -/
def lostRun : List (Action Nat) :=
  heededRun ++ [.call 2 (.push 8), .step 2, .step 2, .step 2, .step 2, .step 2]

/-- The second consumer sleeps on, and nobody will notify it of the second item. -/
theorem second_push_unheard :
    Run (Step 0) (new 3) lostRun (played (act 0) (new 3) lostRun) ∧
      (let s := played (act 0) (new 3) lostRun
       s.queue = [7, 8] ∧ s.asleep = 1 ∧ s.awake = 1 ∧ s.owed = 0 ∧ s.threads[2]? = some .outside ∧
         ¬ s.NoLostWakeUp) := by
  refine ⟨run_played (fun _ _ _ h => h) (by decide +kernel), by decide +kernel, by decide +kernel, by decide +kernel,
    by decide +kernel, by decide +kernel, ?_⟩
  unfold NoLostWakeUp
  decide +kernel

end Queue

end TrenchDb.Storage.Shared
