import TrenchDb.Storage.Store
import TrenchDb.Wal.Reader

/-!
# Replay

`engine/src/wal/replay.rs`: a log is read into a store, up to its end or to the first record that is not
whole or not as it was written.
-/

open TrenchDb.Lib TrenchDb.Lib.BigEndian TrenchDb.Storage

namespace TrenchDb.Wal

/-! ## Stores -/

/-- `dyn Table<String, Vec<u8>>` over the states `σ`, and `dyn Storage` of the handles that it returns. -/
structure Table (σ : Type) where
  Handle : Type
  get : σ → String → Option Handle
  create : σ → String → Handle × σ
  remove : σ → String → σ
  insertKey : σ → Handle → String → List UInt8 → σ
  updateKey : σ → Handle → String → List UInt8 → σ
  removeKey : σ → Handle → String → σ

def applyEntry {σ : Type} (T : Table σ) (store : σ) : WalEntry → σ
  | .CreateTable table => (T.create store table).2
  | .RemoveTable table => T.remove store table
  | .Insert table key value => T.insertKey (T.create store table).2 (T.create store table).1 key value
  | .Update table key value => T.updateKey (T.create store table).2 (T.create store table).1 key value
  | .Delete table key =>
    match T.get store table with
    | some tableStore => T.removeKey store tableStore key
    | none => store

/-- `MemoryStore` as a `Table`. A handle is the collection under a name, which the store shares. -/
def memoryTable : Table (MemoryStore String (List UInt8)) :=
  { Handle := String × Collection String (List UInt8)
    get := fun s table => (s.get table).map fun c => (table, c)
    create := fun s table => ((table, (s.create table).1), (s.create table).2)
    remove := fun s table => s.remove table
    insertKey := fun s h key value => s.share h.1 (h.2.insert key value)
    updateKey := fun s h key value => s.share h.1 (h.2.update key value)
    removeKey := fun s h key => s.share h.1 (h.2.remove key).2 }

/-! ## The loop -/

structure ReplaySummary where
  entriesApplied : Nat
  finalPosition : Nat
  truncatedAt : Option Nat
  corruptionDetectedAt : Option Nat
  deriving DecidableEq, Repr

/-- `ReplaySummary::default`. -/
def ReplaySummary.default : ReplaySummary :=
  { entriesApplied := 0, finalPosition := 0, truncatedAt := none, corruptionDetectedAt := none }

/-- What a lenient replay notes of the error that stops it. -/
def ReplaySummary.stopped (summary : ReplaySummary) (startPosition : Nat) : WalError → ReplaySummary
  | .UnexpectedEof => { summary with truncatedAt := some startPosition }
  | .CorruptEntry position _ => { summary with corruptionDetectedAt := some position }
  | _ => summary

variable {σ : Type}

/-- The loop of `replay_with_mode`. The entries before an error stay applied. -/
def replayLoop (T : Table σ) (mode : ReplayMode) (reader : WalReader) (summary : ReplaySummary) (store : σ) :
    Except WalError ReplaySummary × σ :=
  match _ : reader.nextEntry with
  | (.ok (some entry), reader') =>
    replayLoop T mode reader'
      { summary with entriesApplied := summary.entriesApplied + 1, finalPosition := reader'.position }
      (applyEntry T store entry)
  | (.ok none, _) => (.ok summary, store)
  | (.error err, _) =>
    match mode with
    | .Strict => (.error err, store)
    | .Lenient => (.ok (summary.stopped reader.position err), store)
termination_by reader.rest.length
decreasing_by exact WalReader.nextEntry_rest_lt ‹_›

/-- `none` is a file that is not there. -/
def replayWithMode (T : Table σ) (store : σ) (file : Option (List UInt8)) (mode : ReplayMode) :
    Except WalError ReplaySummary × σ :=
  match file with
  | none => (.ok .default, store)
  | some bytes =>
    match WalReader.open (some bytes) with
    | .error err => (.error err, store)
    | .ok reader => replayLoop T mode reader { ReplaySummary.default with finalPosition := WAL_HEADER_SIZE } store

def replay (T : Table σ) (store : σ) (file : Option (List UInt8)) : Except WalError ReplaySummary × σ :=
  replayWithMode T store file .Lenient

/-! ## One step of the loop -/

section Loop

variable {T : Table σ} {mode : ReplayMode} {reader reader' : WalReader} {summary : ReplaySummary} {store : σ}
  {entry : WalEntry} {err : WalError} {entries : List WalEntry} {file tail : List UInt8}

theorem replayLoop_entry (h : reader.nextEntry = (.ok (some entry), reader')) :
    replayLoop T mode reader summary store = replayLoop T mode reader'
      { summary with entriesApplied := summary.entriesApplied + 1, finalPosition := reader'.position }
      (applyEntry T store entry) := by
  rw [replayLoop]
  split
  · rename_i heq
    rw [h] at heq
    cases heq
    rfl
  · rename_i heq
    rw [h] at heq
    cases heq
  · rename_i heq
    rw [h] at heq
    cases heq

theorem replayLoop_end (h : reader.nextEntry = (.ok none, reader')) :
    replayLoop T mode reader summary store = (.ok summary, store) := by
  rw [replayLoop]
  split <;> simp_all

theorem replayLoop_error (h : reader.nextEntry = (.error err, reader')) :
    replayLoop T mode reader summary store =
      (match mode with
      | .Strict => .error err
      | .Lenient => .ok (summary.stopped reader.position err), store) := by
  rw [replayLoop]
  split
  · simp_all
  · simp_all
  · cases mode <;> simp_all

/-! ## Whole records -/

/-- The summary while nothing went wrong. -/
def progress (entriesApplied finalPosition : Nat) : ReplaySummary :=
  { entriesApplied, finalPosition, truncatedAt := none, corruptionDetectedAt := none }

/-- The reader at some position of the file. -/
def WalReader.at (position : Nat) (rest : List UInt8) : WalReader := { start rest with position }

theorem replayLoop_records (hfits : ∀ e ∈ entries, Fits e) (m position : Nat) :
    replayLoop T mode (WalReader.at position (entries.flatMap record ++ tail)) (progress m position) store =
      replayLoop T mode (WalReader.at (position + (entries.flatMap record).length) tail)
        (progress (m + entries.length) (position + (entries.flatMap record).length))
        (entries.foldl (applyEntry T) store) := by
  induction entries generalizing m position store with
  | nil => rfl
  | cons entry entries ih =>
    obtain ⟨hfirst, hrest⟩ := List.forall_mem_cons.mp hfits
    rw [List.flatMap_cons, List.append_assoc, replayLoop_entry (WalReader.nextEntry_record hfirst rfl rfl rfl)]
    have hstep := @ih (applyEntry T store entry) hrest (m + 1) (position + (record entry).length)
    rw [List.length_append, List.length_cons, List.foldl_cons, ← Nat.add_assoc, Nat.add_comm entries.length,
      ← Nat.add_assoc, ← hstep]
    rfl

theorem replay_valid (hheader : validateHeader file = .ok ()) (hfits : ∀ e ∈ entries, Fits e)
    (hfile : file.drop WAL_HEADER_SIZE = entries.flatMap record ++ tail) :
    replayWithMode T store (some file) mode =
      replayLoop T mode (.at (WAL_HEADER_SIZE + (entries.flatMap record).length) tail)
        (progress entries.length (WAL_HEADER_SIZE + (entries.flatMap record).length))
        (entries.foldl (applyEntry T) store) := by
  have hopen : WalReader.open (some file) = .ok (.at WAL_HEADER_SIZE (file.drop WAL_HEADER_SIZE)) := by
    unfold WalReader.open WalReader.openWithOptions
    simp only [hheader]
    rfl
  have hstep := @replayLoop_records σ T mode store entries tail hfits 0 WAL_HEADER_SIZE
  rw [Nat.zero_add] at hstep
  unfold replayWithMode
  simp only [hopen, hfile]
  exact hstep

theorem replay_invalid (hheader : validateHeader file = .error err) :
    replayWithMode T store (some file) mode = (.error err, store) := by
  have hopen : WalReader.open (some file) = .error err := by
    unfold WalReader.open WalReader.openWithOptions
    simp only [hheader]
    rfl
  unfold replayWithMode
  simp only [hopen]

theorem replay_logFile (hfits : ∀ e ∈ entries, Fits e) :
    replayWithMode T store (some (logFile entries ++ tail)) mode =
      replayLoop T mode (WalReader.at (logFile entries).length tail)
        (progress entries.length (logFile entries).length) (entries.foldl (applyEntry T) store) := by
  have hfile : logFile entries ++ tail = header ++ (entries.flatMap record ++ tail) := List.append_assoc _ _ _
  rw [hfile, replay_valid (validateHeader_header _) hfits (List.drop_left' header_length), logFile, List.length_append,
    header_length]

end Loop

end TrenchDb.Wal
