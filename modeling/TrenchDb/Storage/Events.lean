import TrenchDb.Lib.Delimited
import TrenchDb.Storage.Requests

/-!
# From a storage event to the log

`engine/src/events`, `engine/src/walmanager` and `engine/src/ewal`: the queue of the supervisor, its
runner, and the entries that the dispatcher appends.
-/

open TrenchDb.Lib TrenchDb.Transport

namespace TrenchDb.Storage

/-! ## Log entries -/

structure WalEntry where
  payload : List UInt8
  key : Option (List UInt8)
  operation : Option UInt8
  checksum : Option UInt32
  deriving DecidableEq, Repr

inductive WalError
  | InvalidPayload (message : String)
  deriving DecidableEq, Repr

/-- The byte of `:`. -/
def colon : UInt8 := 58

def opCode (op : List UInt8) : Option UInt8 :=
  if op = asBytes "insert" then some 1
  else if op = asBytes "delete" then some 2
  else if op = asBytes "update" then some 3
  else none

/-- `table:key`. -/
def compositeKey (table key : List UInt8) : List UInt8 := table ++ colon :: key

/-- The entry that `Dispatcher::dispatch` makes of `op:table:key`. -/
def walEntry (payload : List UInt8) : WalEntry :=
  match payload.splitOn colon with
  | op :: table :: key :: _ =>
    { payload, key := some (compositeKey table key), operation := opCode op, checksum := none }
  | _ => { payload, key := none, operation := none, checksum := none }

/-- `WALWriter::append`, with writes to the file that succeed. -/
def WALWriter.append {ε : Type} (entries : List ε) (entry : ε) (payload : List UInt8) : Except WalError (List ε) :=
  if 2000 < payload.length then
    .error (.InvalidPayload "WAL entry exceeds maximum size of 2000 bytes")
  else
    .ok (entries ++ [entry])

/-! ## The bytes of an event -/

theorem isNameChar_val {c : Char} (h : isNameChar c = true) : c.toNat ≤ 122 ∧ c.toNat ≠ 58 := by
  simp only [isNameChar, Bool.or_eq_true, Bool.and_eq_true, decide_eq_true_eq, beq_iff_eq, Char.le_def,
    UInt32.le_iff_toNat_le] at h
  rcases h with ((((h | h) | h) | h) | h) | h
  · have hge : 97 ≤ c.toNat := h.1
    have hle : c.toNat ≤ 122 := h.2
    omega
  · have hge : 65 ≤ c.toNat := h.1
    have hle : c.toNat ≤ 90 := h.2
    omega
  · have hle : c.toNat ≤ 57 := h.2
    omega
  all_goals subst h; decide

theorem colon_not_mem_utf8EncodeChar {c : Char} (h : isNameChar c = true) : colon ∉ String.utf8EncodeChar c :=
  fun hmem => (isNameChar_val h).2 (toNat_of_ascii_mem hmem (by decide))

theorem colon_not_mem {text field : String} {max : Nat} (h : validateText text field max = .ok ()) :
    colon ∉ asBytes text := by
  obtain ⟨-, -, hall⟩ := validateText_ok.mp h
  rw [asBytes_toList, List.mem_flatMap]
  rintro ⟨c, hc, hmem⟩
  exact colon_not_mem_utf8EncodeChar (List.all_eq_true.mp hall c hc) hmem

/-- `:` ends the name of the table, so the pair can be read back. -/
theorem compositeKey_injective {table table' key key' : List UInt8} (htable : colon ∉ table) (htable' : colon ∉ table')
    (h : compositeKey table key = compositeKey table' key') : table = table' ∧ key = key' := by
  obtain ⟨hsame, hrest⟩ := append_delimiter_inj htable htable' (by simp) (by simp) h
  exact ⟨hsame, (List.cons.inj hrest).2⟩

theorem walEntry_event {op table key : String} (hop : colon ∉ asBytes op) (htable : colon ∉ asBytes table)
    (hkey : colon ∉ asBytes key) : walEntry (asBytes (op ++ ":" ++ table ++ ":" ++ key)) =
      { payload := asBytes (op ++ ":" ++ table ++ ":" ++ key)
        key := some (compositeKey (asBytes table) (asBytes key))
        operation := opCode (asBytes op)
        checksum := none } := by
  have hcolon : asBytes ":" = [colon] := by decide +kernel
  have hsplit : (asBytes (op ++ ":" ++ table ++ ":" ++ key)).splitOn colon =
      [asBytes op, asBytes table, asBytes key] := by
    simp only [asBytes_append, hcolon, List.append_assoc, List.cons_append, List.nil_append]
    rw [List.splitOn_append_cons_self_of_not_mem hop, List.splitOn_append_cons_self_of_not_mem htable,
      List.splitOn_eq_singleton hkey]
  unfold walEntry
  rw [hsplit]

theorem eventText_length {op table key field : String} (hop : (asBytes op).length ≤ 6)
    (htable : validateName table field = .ok ()) (hkey : validateKey key = .ok ()) :
    (asBytes (op ++ ":" ++ table ++ ":" ++ key)).length ≤ 2000 := by
  have hcolon : (asBytes ":").length = 1 := by decide +kernel
  have htableLength := (validateText_ok.mp htable).2.1
  have hkeyLength := (validateText_ok.mp hkey).2.1
  rw [← asBytes_length] at htableLength hkeyLength
  unfold MAX_TABLE_NAME_LEN at htableLength
  unfold MAX_KEY_NAME_LEN at hkeyLength
  simp only [asBytes_append, List.length_append, hcolon]
  omega

namespace Request

/-- The operation code of the entry that the request leaves. -/
def operation : Request → Option UInt8
  | .put _ => some 1
  | .delete _ => some 2
  | .update _ => some 3
  | _ => none

theorem walEntry_of_event {r : Request} {e : List UInt8} {key : String} (hr : r.validate = .ok ())
    (he : r.event? = some e) (hkey : r.key? = some key) : walEntry e =
      { payload := e
        key := some (compositeKey (asBytes r.table) (asBytes key))
        operation := r.operation
        checksum := none } := by
  have htable := colon_not_mem (validate_table hr)
  have hcolon := colon_not_mem (validate_key hr hkey)
  cases r with
  | put q =>
    obtain rfl := Option.some.inj he
    obtain rfl := Option.some.inj hkey
    exact @walEntry_event "insert" q.table q.key (by decide +kernel) htable hcolon
  | update q =>
    obtain rfl := Option.some.inj he
    obtain rfl := Option.some.inj hkey
    exact @walEntry_event "update" q.table q.key (by decide +kernel) htable hcolon
  | delete q =>
    obtain rfl := Option.some.inj he
    obtain rfl := Option.some.inj hkey
    exact @walEntry_event "delete" q.table q.key (by decide +kernel) htable hcolon
  | get q | contains q | addTable q | removeTable q => cases he

theorem event_length {r : Request} {e : List UInt8} (hr : r.validate = .ok ()) (he : r.event? = some e) :
    e.length ≤ 2000 := by
  have htable := validate_table hr
  cases r with
  | put q =>
    obtain rfl := Option.some.inj he
    exact eventText_length (by decide +kernel) htable (validate_key hr rfl)
  | update q =>
    obtain rfl := Option.some.inj he
    exact eventText_length (by decide +kernel) htable (validate_key hr rfl)
  | delete q =>
    obtain rfl := Option.some.inj he
    exact eventText_length (by decide +kernel) htable (validate_key hr rfl)
  | get q | contains q | addTable q | removeTable q => cases he

end Request

/-! ## The supervisor -/

/-- `events::Task`. The id is drawn when the event is published: it stands for the call that did. -/
structure Task where
  id : Nat
  payload : List UInt8
  deriving DecidableEq, Repr

inductive PushError
  | Full
  | Spawn
  deriving DecidableEq, Repr

/-- The thread that runs the event loop. -/
inductive Runner
  | dead
  | waiting
  | dispatching (task : Task)
  deriving DecidableEq, Repr

/-- The capacity that `MemoryStore::new` gives the queue. -/
def QUEUE_CAPACITY : Nat := 1024

/-- The supervisor with its runner, and the initialised WAL manager behind it. Each entry of the log
carries the id of its task. -/
structure EventLoopSupervisor where
  queue : List Task
  runner : Runner
  wal : List (Nat × WalEntry)
  deriving DecidableEq, Repr

/-- `ProducerHandle::push`. A capacity of 0 is none. -/
def producerPush (capacity : Nat) (queue : List Task) (item : Task) : Except PushError (List Task) :=
  if 0 < capacity ∧ capacity ≤ queue.length then .error .Full else .ok (queue ++ [item])

namespace EventLoopSupervisor

/-- A new supervisor. The thread may fail to start. -/
def start (spawns : Bool) : EventLoopSupervisor :=
  { queue := [], runner := if spawns then .waiting else .dead, wal := [] }

/-- The runner is spawned if it is dead, and if that works. -/
def ensureRunnerAlive (s : EventLoopSupervisor) (spawns : Bool) : Except PushError EventLoopSupervisor :=
  match s.runner with
  | .dead => if spawns then .ok { s with runner := .waiting } else .error .Spawn
  | .waiting | .dispatching _ => .ok s

/-- `push`, under the lock of the handle. The second look at the runner finds it alive. -/
def push (s : EventLoopSupervisor) (task : Task) (spawns : Bool) : Except PushError Unit × EventLoopSupervisor :=
  match s.ensureRunnerAlive spawns with
  | .error e => (.error e, s)
  | .ok s' =>
    match producerPush QUEUE_CAPACITY s'.queue task with
    | .error e => (.error e, s')
    | .ok queue => (.ok (), { s' with queue })

/-- `publish_storage_event`: an error is printed and dropped. -/
def publishStorageEvent (s : EventLoopSupervisor) (task : Task) (spawns : Bool) : EventLoopSupervisor :=
  (s.push task spawns).2

/-- `Dispatcher::dispatch`: an entry that the log refuses is printed and dropped. -/
def dispatch (wal : List (Nat × WalEntry)) (task : Task) : List (Nat × WalEntry) :=
  match WALWriter.append wal (task.id, walEntry task.payload) task.payload with
  | .ok wal => wal
  | .error _ => wal

/-- One turn of `EventLoop::run`: it takes a task, or is done with one. -/
def turn (s : EventLoopSupervisor) : Option EventLoopSupervisor :=
  match s.runner, s.queue with
  | .waiting, task :: queue => some { s with queue, runner := .dispatching task }
  | .waiting, [] => none
  | .dispatching task, _ => some { s with runner := .waiting, wal := dispatch s.wal task }
  | .dead, _ => none

/-! ### What is on its way -/

/-- The task of the runner, and those in the queue. -/
def inflight (s : EventLoopSupervisor) : List Task :=
  match s.runner with
  | .dispatching task => task :: s.queue
  | .waiting | .dead => s.queue

/-- The log, with the entries that the tasks on their way will leave. -/
def entries (s : EventLoopSupervisor) : List (Nat × WalEntry) :=
  s.wal ++ s.inflight.map fun task => (task.id, walEntry task.payload)

/-- The supervisor does not take an event now. -/
def Refuses (s : EventLoopSupervisor) (spawns : Bool) : Prop :=
  (s.runner = .dead ∧ spawns = false) ∨ QUEUE_CAPACITY ≤ s.queue.length

variable {s s' : EventLoopSupervisor} {task : Task} {spawns : Bool}

theorem push_refused (h : s.Refuses spawns) :
    (∃ e, (s.push task spawns).1 = .error e) ∧ (s.push task spawns).2.entries = s.entries ∧
      (s.push task spawns).2.inflight = s.inflight := by
  have hfull : QUEUE_CAPACITY ≤ s.queue.length → producerPush QUEUE_CAPACITY s.queue task = .error .Full := fun hle =>
    if_pos ⟨by decide, hle⟩
  unfold push ensureRunnerAlive
  cases hrunner : s.runner with
  | dead =>
    cases spawns with
    | false => exact ⟨⟨_, rfl⟩, rfl, rfl⟩
    | true =>
      have hle : QUEUE_CAPACITY ≤ s.queue.length := h.resolve_left (by simp)
      simp [hfull hle, entries, inflight, hrunner]
  | waiting | dispatching =>
    have hle : QUEUE_CAPACITY ≤ s.queue.length := h.resolve_left (by simp [hrunner])
    simp [hfull hle]

theorem push_accepted (h : ¬ s.Refuses spawns) :
    (s.push task spawns).1 = .ok () ∧ (s.push task spawns).2.entries = s.entries ++ [(task.id, walEntry task.payload)] ∧
      (s.push task spawns).2.inflight = s.inflight ++ [task] := by
  obtain ⟨hspawns, hroom⟩ := not_or.mp h
  have hpush : producerPush QUEUE_CAPACITY s.queue task = .ok (s.queue ++ [task]) := if_neg fun hfull => hroom hfull.2
  unfold push ensureRunnerAlive
  cases hrunner : s.runner with
  | dead =>
    cases spawns with
    | false => exact absurd ⟨hrunner, rfl⟩ hspawns
    | true => simp [hpush, entries, inflight, hrunner]
  | waiting | dispatching => simp [hpush, entries, inflight, hrunner]

theorem turn_cases (h : s.turn = some s') :
    (∃ task queue, s.runner = .waiting ∧ s.queue = task :: queue ∧ s' = { s with queue, runner := .dispatching task }) ∨
      ∃ task, s.runner = .dispatching task ∧ s' = { s with runner := .waiting, wal := dispatch s.wal task } := by
  unfold turn at h
  split at h
  next task queue hrunner hqueue => exact .inl ⟨task, queue, hrunner, hqueue, (Option.some.inj h).symm⟩
  next => cases h
  next task hrunner => exact .inr ⟨task, hrunner, (Option.some.inj h).symm⟩
  next => cases h

theorem turn_entries (h : s.turn = some s') (hshort : ∀ task ∈ s.inflight, task.payload.length ≤ 2000) :
    s'.entries = s.entries ∧ ∀ task ∈ s'.inflight, task ∈ s.inflight := by
  obtain ⟨task, queue, hrunner, hqueue, rfl⟩ | ⟨task, hrunner, rfl⟩ := turn_cases h
  · simp [entries, inflight, hrunner, hqueue]
  · have hle : ¬ 2000 < task.payload.length := not_lt.mpr (hshort task (by simp [inflight, hrunner]))
    refine ⟨by simp [entries, inflight, hrunner, dispatch, WALWriter.append, hle], fun t ht => ?_⟩
    simp only [inflight, hrunner] at ht ⊢
    exact List.mem_cons_of_mem _ ht

theorem dispatch_sublist {wal : List (Nat × WalEntry)} :
    (dispatch wal task).Sublist (wal ++ [(task.id, walEntry task.payload)]) := by
  unfold dispatch WALWriter.append
  split_ifs
  · exact List.sublist_append_left _ _
  · exact .refl _

theorem turn_sublist (h : s.turn = some s') : s'.entries.Sublist s.entries := by
  obtain ⟨task, queue, hrunner, hqueue, rfl⟩ | ⟨task, hrunner, rfl⟩ := turn_cases h
  · simp [entries, inflight, hrunner, hqueue]
  · have hsub := (@dispatch_sublist task s.wal).append_right (s.queue.map fun task => (task.id, walEntry task.payload))
    simpa [entries, inflight, hrunner] using hsub

end EventLoopSupervisor

end TrenchDb.Storage
