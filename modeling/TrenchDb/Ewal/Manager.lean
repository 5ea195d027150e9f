import TrenchDb.Ewal.Writer
import TrenchDb.Lib.Lts
import TrenchDb.Lib.Slots
import Mathlib.Tactic.SplitIfs

/-!
# The manager of the live log

`engine/src/walmanager/writers.rs`: one writer for the whole process, behind a lock. Most of the functions that
reach it try the lock, and fail where another thread has it.
-/

open TrenchDb.Lib TrenchDb.Lib.Lts
open TrenchDb.Storage (WalEntry WalError)

namespace TrenchDb.Ewal

/-! ## The manager -/

structure WalManager where
  writer : Option WALWriter
  deriving DecidableEq, Repr

namespace WalManager

def default : WalManager := { writer := none }

def createWriter (m : WalManager) (path : String) (file : Option (List UInt8)) : Except WalError Unit × WalManager :=
  match m.writer with
  | some _ => (.error (.InvalidPayload "WAL writer already created"), m)
  | none => (.ok (), { writer := some (.init path file) })

def isInitialized (m : WalManager) : Bool := m.writer.isSome

def notCreated : WalError := .InvalidPayload "WAL writer has not been created"

def withWriter (m : WalManager) (f : WALWriter → Except WalError Unit × WALWriter) :
    Except WalError Unit × WalManager :=
  match m.writer with
  | none => (.error notCreated, m)
  | some writer => ((f writer).1, { writer := some (f writer).2 })

def append (m : WalManager) (entry : WalEntry) : Except WalError Unit × WalManager := m.withWriter (·.append entry)

def appendBatch (m : WalManager) (entries : List WalEntry) : Except WalError Unit × WalManager :=
  m.withWriter (·.appendBatch entries)

def flush (m : WalManager) : Except WalError Unit × WalManager := m.withWriter fun w => (.ok (), w.flush)

def sync (m : WalManager) : Except WalError Unit × WalManager := m.withWriter fun w => (.ok (), w.sync)

def position (m : WalManager) : Except WalError Nat :=
  match m.writer with
  | none => .error notCreated
  | some writer => .ok writer.getPosition

def path (m : WalManager) : Except WalError String :=
  match m.writer with
  | none => .error notCreated
  | some writer => .ok writer.path

end WalManager

/-! ## The functions of the module -/

/-- `init_wal_manager` finds the file as it is then. -/
inductive ManagerCall
  | initWalManager (path : String) (file : Option (List UInt8))
  | isInitialized
  | append (entry : WalEntry)
  | appendBatch (entries : List WalEntry)
  | flush
  | sync
  | position
  | path
  deriving DecidableEq, Repr

inductive Answer
  | done
  | initialized (yes : Bool)
  | position (position : Nat)
  | path (path : String)
  deriving DecidableEq, Repr

namespace ManagerCall

/-- The function waits for the lock. The others only try it. -/
def waits : ManagerCall → Bool
  | .initWalManager _ _ | .isInitialized => true
  | .append _ | .appendBatch _ | .flush | .sync | .position | .path => false

/-- What the function does with the manager that it has locked. -/
def perform (m : WalManager) : ManagerCall → Except WalError Answer × WalManager
  | .initWalManager logPath file =>
    ((m.createWriter logPath file).1.map fun _ => .done, (m.createWriter logPath file).2)
  | .isInitialized => (.ok (.initialized m.isInitialized), m)
  | .append entry => ((m.append entry).1.map fun _ => .done, (m.append entry).2)
  | .appendBatch entries => ((m.appendBatch entries).1.map fun _ => .done, (m.appendBatch entries).2)
  | .flush => (m.flush.1.map fun _ => .done, m.flush.2)
  | .sync => (m.sync.1.map fun _ => .done, m.sync.2)
  | .position => (m.position.map .position, m)
  | .path => (m.path.map .path, m)

/-- The error of a lock that is taken. Its text speaks of one that is poisoned. -/
def lockPoisoned : WalError := .InvalidPayload "WAL manager lock poisoned"

/-- The entries that the call is to append. -/
def entries : ManagerCall → List WalEntry
  | .append entry => [entry]
  | .appendBatch entries => entries
  | .initWalManager _ _ | .isInitialized | .flush | .sync | .position | .path => []

end ManagerCall

/-! ## Threads -/

/-- A thread in a call, before the lock or with it. `dispatches` is set in the append of a dispatch, which a flush
follows. -/
inductive Thread
  | idle
  | locking (call : ManagerCall) (dispatches : Bool)
  | holding (call : ManagerCall) (dispatches : Bool)
  deriving DecidableEq, Repr

def Thread.holds : Thread → Bool
  | .holding _ _ => true
  | .idle | .locking _ _ => false

/-- The manager and the threads that use it. `returned` is a record that no step reads: the calls that have returned,
oldest first, with what they returned. -/
structure System where
  manager : WalManager
  threads : List Thread
  returned : List (ManagerCall × Except WalError Answer)

inductive Action
  | call (i : Nat) (call : ManagerCall)
  | dispatch (i : Nat) (payload : List UInt8)
  | lock (i : Nat)
  | perform (i : Nat)
  deriving DecidableEq, Repr

namespace System

/-- The manager has a writer, and `n` threads may use it. -/
def initialized (n : Nat) (w : WALWriter) : System :=
  { manager := { writer := some w }, threads := List.replicate n .idle, returned := [] }

def Free (s : System) : Prop := s.threads.countP Thread.holds = 0

instance (s : System) : Decidable s.Free := inferInstanceAs (Decidable (_ = _))

def setThread (s : System) (i : Nat) (thread : Thread) : System := { s with threads := s.threads.set i thread }

def return_ (s : System) (call : ManagerCall) (result : Except WalError Answer) : System :=
  { s with returned := s.returned ++ [(call, result)] }

def act (s : System) : Action → Option System
  | .call i call =>
    match s.threads[i]? with
    | some .idle => some (s.setThread i (.locking call false))
    | _ => none
  | .dispatch i payload =>
    match s.threads[i]? with
    | some .idle => some (s.setThread i (.locking (.append (Storage.walEntry payload)) true))
    | _ => none
  | .lock i =>
    match s.threads[i]? with
    | some (.locking call dispatches) =>
      if s.Free then some (s.setThread i (.holding call dispatches))
      else if call.waits then none
      else some ((s.return_ call (.error ManagerCall.lockPoisoned)).setThread i .idle)
    | _ => none
  | .perform i =>
    match s.threads[i]? with
    | some (.holding call dispatches) =>
      match call.perform s.manager with
      | (result, manager) =>
        some (({ s with manager }.return_ call result).setThread i
          (if dispatches && result.isOk then .locking .flush false else .idle))
    | _ => none

def Step (s : System) (action : Action) (s' : System) : Prop := s.act action = some s'

/-! ## What a step can do -/

variable {s s' : System} {i n : Nat} {action : Action} {actions : List Action} {w : WALWriter} {before : List UInt8}

inductive Moves (s : System) : Action → System → Prop
  | moves {action : Action} {i : Nat} {thread : Thread} : Moves s action (s.setThread i thread)
  | refused {i : Nat} {call : ManagerCall} {dispatches : Bool} : s.threads[i]? = some (.locking call dispatches) →
      ¬ s.Free → call.waits = false →
      Moves s (.lock i) ((s.return_ call (.error ManagerCall.lockPoisoned)).setThread i .idle)
  | performed {i : Nat} {call : ManagerCall} {dispatches : Bool} {thread : Thread} :
      s.threads[i]? = some (.holding call dispatches) →
      Moves s (.perform i)
        (({ s with manager := (call.perform s.manager).2 }.return_ call (call.perform s.manager).1).setThread i thread)

theorem step_moves (h : Step s action s') : s.Moves action s' := by
  unfold Step act at h
  cases action with
  | call i call =>
    dsimp only at h
    split at h
    next =>
      obtain rfl := Option.some.inj h
      exact .moves
    next => cases h
  | dispatch i payload =>
    dsimp only at h
    split at h
    next =>
      obtain rfl := Option.some.inj h
      exact .moves
    next => cases h
  | lock i =>
    dsimp only at h
    split at h
    next call dispatches hi =>
      split_ifs at h with hfree hwaits
      · obtain rfl := Option.some.inj h
        exact .moves
      · obtain rfl := Option.some.inj h
        exact .refused hi hfree (Bool.eq_false_iff.mpr hwaits)
    next => cases h
  | perform i =>
    dsimp only at h
    split at h
    next call dispatches hi =>
      obtain rfl := Option.some.inj h
      exact .performed hi
    next => cases h

/-! ## Appends that land -/

/-- What was written to the log since it was as `before` is the records of calls that have returned, one after
another, each with the place of its call in `returned`. An append that fits has returned `Ok`, and has one record.
A flush brings the buffer into the file. -/
def Landed (before : List UInt8) (s : System) : Prop :=
  ∃ (w : WALWriter) (records : List (Nat × WalEntry)), s.manager.writer = some w ∧
    w.writer.written = before ++ records.flatMap (fun r => record r.2) ∧
    (∀ k entry, (k, entry) ∈ records → ∃ call result, s.returned[k]? = some (call, result) ∧ entry ∈ call.entries) ∧
    ∀ k entry result, s.returned[k]? = some (.append entry, result) → Fits entry →
      result = .ok .done ∧ records.filter (·.1 = k) = [(k, entry)]

/-- An append that fits finds the lock free. -/
def uncontended (s : System) (action : Action) : Bool :=
  match action with
  | .lock i =>
    match s.threads[i]? with
    | some (.locking (.append entry) _) => decide (Fits entry → s.Free)
    | _ => true
  | .call _ _ | .dispatch _ _ | .perform _ => true

theorem perform_spec (call : ManagerCall) (w : WALWriter) :
    ∃ (w' : WALWriter) (taken : List WalEntry), (call.perform { writer := some w }).2 = { writer := some w' } ∧
      w'.writer.written = w.writer.written ++ taken.flatMap record ∧ (∀ entry ∈ taken, entry ∈ call.entries) ∧
      ∀ entry, call = .append entry → Fits entry →
        (call.perform { writer := some w }).1 = .ok .done ∧ taken = [entry] := by
  cases call with
  | initWalManager | isInitialized | sync | position | path =>
    exact ⟨w, [], rfl, (List.append_nil _).symm, nofun, nofun⟩
  | flush =>
    refine ⟨w.flush, [], rfl, ?_, nofun, nofun⟩
    rw [WALWriter.flush, Wal.BufWriter.written_flush]
    exact (List.append_nil _).symm
  | append entry =>
    by_cases hfits : Fits entry
    · refine ⟨(w.append entry).2, [entry], rfl, ?_, ?_, ?_⟩
      · rw [WALWriter.written_append hfits, List.flatMap_singleton]
      · rintro e hmem
        exact hmem
      · rintro e heq -
        obtain rfl := ManagerCall.append.inj heq
        refine ⟨?_, rfl⟩
        simp only [ManagerCall.perform, WalManager.append, WalManager.withWriter, WALWriter.append_fits hfits]
        rfl
    · refine ⟨w, [], ?_, (List.append_nil _).symm, nofun, ?_⟩
      · simp only [ManagerCall.perform, WalManager.append, WalManager.withWriter, WALWriter.append_of_not_fits hfits]
      · rintro e heq hfit
        obtain rfl := ManagerCall.append.inj heq
        exact absurd hfit hfits
  | appendBatch entries =>
    obtain ⟨taken, hprefix, -, -, hwritten, -⟩ := w.appendBatch_spec entries
    exact ⟨(w.appendBatch entries).2, taken, rfl, hwritten, fun entry hmem => hprefix.subset hmem, nofun⟩

namespace Landed

theorem new (n : Nat) (w : WALWriter) : Landed w.writer.written (initialized n w) :=
  ⟨w, [], rfl, (List.append_nil _).symm, nofun, nofun⟩

theorem return_ {call : ManagerCall} {result : Except WalError Answer} {manager : WalManager}
    (hlanded : Landed before s)
    (hcall : ∀ w, s.manager.writer = some w → ∃ (w' : WALWriter) (taken : List WalEntry),
      manager.writer = some w' ∧ w'.writer.written = w.writer.written ++ taken.flatMap record ∧
        (∀ entry ∈ taken, entry ∈ call.entries) ∧
        ∀ entry, call = .append entry → Fits entry → result = .ok .done ∧ taken = [entry]) :
    Landed before ({ s with manager }.return_ call result) := by
  obtain ⟨w, records, hw, hwritten, hfrom, hland⟩ := hlanded
  obtain ⟨w', taken, hw', hwritten', htaken, happend⟩ := hcall w hw
  have hlt : ∀ {k entry}, (k, entry) ∈ records → k < s.returned.length := fun hmem => by
    obtain ⟨call, result, hk, -⟩ := hfrom _ _ hmem
    exact (List.getElem?_eq_some_iff.mp hk).1
  refine ⟨w', records ++ taken.map (s.returned.length, ·), hw', ?_, fun k entry hmem => ?_,
    fun k entry result' hk hfits => ?_⟩
  · rw [hwritten', hwritten, List.flatMap_append, List.flatMap_map, List.append_assoc]
  · rcases List.mem_append.mp hmem with hold | hnew
    · obtain ⟨call', result', hk, hentry⟩ := hfrom k entry hold
      exact ⟨call', result', (List.getElem?_append_left (hlt hold)).trans hk, hentry⟩
    · obtain ⟨entry', hentry, heq⟩ := List.mem_map.mp hnew
      obtain ⟨rfl, rfl⟩ := Prod.mk.inj heq
      exact ⟨call, result, List.getElem?_concat_length, htaken _ hentry⟩
  · rw [List.filter_append]
    simp only [System.return_] at hk
    by_cases hlast : k = s.returned.length
    · subst hlast
      rw [List.getElem?_concat_length] at hk
      obtain ⟨rfl, rfl⟩ := Prod.mk.inj (Option.some.inj hk)
      obtain ⟨hok, rfl⟩ := happend entry rfl hfits
      have hnone : records.filter (·.1 = s.returned.length) = [] := by
        refine List.filter_eq_nil_iff.mpr fun r hmem heq => ?_
        have hbelow := hlt hmem
        rw [of_decide_eq_true heq] at hbelow
        exact Nat.lt_irrefl _ hbelow
      rw [hnone]
      exact ⟨hok, by simp⟩
    · have hbelow : k < s.returned.length := by
        have hle := (List.getElem?_eq_some_iff.mp hk).1
        rw [List.length_append, List.length_singleton] at hle
        omega
      rw [List.getElem?_append_left hbelow] at hk
      obtain ⟨hok, hone⟩ := hland k entry result' hk hfits
      have hnone : (taken.map (s.returned.length, ·)).filter (·.1 = k) = [] := by
        refine List.filter_eq_nil_iff.mpr fun r hmem heq => ?_
        obtain ⟨entry', -, rfl⟩ := List.mem_map.mp hmem
        exact hlast (of_decide_eq_true heq).symm
      rw [hone, hnone]
      exact ⟨hok, rfl⟩

theorem step (hlanded : Landed before s) (h : Guarded Step uncontended s action s') : Landed before s' := by
  obtain ⟨hstep, hfree⟩ := h
  cases step_moves hstep with
  | moves => exact hlanded
  | @refused i call dispatches hi htaken hwaits =>
    refine hlanded.return_ fun w hw => ⟨w, [], hw, (List.append_nil _).symm, nofun, ?_⟩
    -- An append that fits would have found the lock free.
    rintro entry rfl hfits
    simp only [uncontended, hi, decide_eq_true_eq] at hfree
    exact absurd (hfree hfits) htaken
  | @performed i call dispatches thread hi =>
    refine hlanded.return_ fun w hw => ?_
    have hmanager : s.manager = { writer := some w } := congrArg WalManager.mk hw
    obtain ⟨w', taken, hw', hspec⟩ := perform_spec call w
    rw [hmanager]
    exact ⟨w', taken, congrArg WalManager.writer hw', hspec⟩

end Landed

/-- Where every append that fits finds the lock free, each has returned `Ok` and has its record in the log. -/
theorem uncontended_appends_land (h : Run (Guarded Step uncontended) (.initialized n w) actions s) :
    Landed w.writer.written s :=
  @Run.invariant _ _ _ _ _ _ (fun _ s => Landed w.writer.written s) h (.new n w) fun _ _ _ _ hlanded hstep =>
    hlanded.step hstep

/-- The condition is exact: an append that fits and finds the lock taken fails. -/
theorem contended_append_fails (hstep : Step s action s') (hcontended : uncontended s action = false) :
    ¬ Landed before s' := by
  unfold uncontended at hcontended
  split at hcontended
  next i =>
    split at hcontended
    next entry dispatches hi =>
      obtain ⟨hfits, htaken⟩ := Classical.not_imp.mp (of_decide_eq_false hcontended)
      replace hstep : s.act (.lock i) = some s' := hstep
      simp only [act, hi, if_neg htaken] at hstep
      obtain rfl := Option.some.inj hstep
      rintro ⟨w, records, -, -, -, hland⟩
      exact nomatch (hland s.returned.length entry _ List.getElem?_concat_length hfits).1
    next => cases hcontended
  all_goals cases hcontended

/-- A flush that returns `Ok` has brought everything that was written into the file. -/
theorem flush_reaches_file {dispatches : Bool} (hw : s.manager.writer = some w)
    (hi : s.threads[i]? = some (.holding .flush dispatches)) (hstep : Step s (.perform i) s') :
    s'.manager.writer = some w.flush ∧ w.flush.writer.file = w.writer.written := by
  have hmanager : s.manager = { writer := some w } := congrArg WalManager.mk hw
  replace hstep : s.act (.perform i) = some s' := hstep
  simp only [act, hi, hmanager] at hstep
  obtain rfl := Option.some.inj hstep
  exact ⟨rfl, rfl⟩

/-- The event `insert:t:k`. -/
def event : List UInt8 := Transport.asBytes "insert:t:k"

/-- One thread dispatches an event, and then another asks for the position. -/
def quietRun : List Action :=
  [.dispatch 0 event, .lock 0, .perform 0, .lock 0, .perform 0, .call 1 .position, .lock 1, .perform 1]

theorem uncontended_appends_land_quiet :
    let w := WALWriter.init "a/wal.log" none
    Landed w.writer.written (played (guarded act uncontended) (.initialized 2 w) quietRun) ∧
      (played (guarded act uncontended) (.initialized 2 w) quietRun).returned.map Prod.fst =
        [.append (Storage.walEntry event), .flush, .position] := by
  have hrun : Run (Guarded Step uncontended) (.initialized 2 (WALWriter.init "a/wal.log" none)) quietRun
      (played (guarded act uncontended) (.initialized 2 (WALWriter.init "a/wal.log" none)) quietRun) :=
    run_guarded (fun _ _ _ h => h) (by decide +kernel)
  exact ⟨uncontended_appends_land hrun, by decide +kernel⟩

/-- The other thread asks for the position while the event is dispatched. -/
def contendedRun : List Action := [.call 1 .position, .lock 1, .dispatch 0 event, .lock 0, .perform 1]

/-- The entry of the event is lost. -/
theorem position_loses_event :
    let w := WALWriter.init "a/wal.log" none
    let s := played act (.initialized 2 w) contendedRun
    Run Step (.initialized 2 w) contendedRun s ∧ Fits (Storage.walEntry event) ∧
      s.returned = [(.append (Storage.walEntry event), .error (.InvalidPayload "WAL manager lock poisoned")),
        (.position, .ok (.position 8))] ∧
      s.threads = [.idle, .idle] ∧ s.manager.writer.map (·.writer.written) = some [] := by
  refine ⟨run_played (fun _ _ _ h => h) (by decide +kernel), by decide +kernel, by decide +kernel, by decide +kernel,
    by decide +kernel⟩

end System

end TrenchDb.Ewal
