import TrenchDb.Lib.Batch
import TrenchDb.Storage.Events
import TrenchDb.Wal.Writer

/-!
# The writer of the live log

`engine/src/ewal/pipe.rs`, with writes to the file that succeed: each entry is written as text through a buffered
writer, and the position is counted beside it.
-/

open TrenchDb.Lib
open TrenchDb.Storage (WalEntry WalError)
open TrenchDb.Transport (asBytes asBytes_append)
open TrenchDb.Wal (BufWriter debugBytes)

namespace TrenchDb.Ewal

def WAL_HEADER_SIZE : Nat := 8

/-! ## The text of an entry -/

/-- `{:?}` of an option. -/
def debugOption {α : Type} (debug : α → String) : Option α → String
  | none => "None"
  | some a => "Some(" ++ debug a ++ ")"

/-- `encrypt_data`. Nothing is encrypted yet. -/
def encryptData (data : WalEntry) : String :=
  "WAL Entry:\n" ++
  ("  Payload Length: " ++ toString data.payload.length ++ "\n") ++
  ("  Payload: " ++ debugBytes data.payload ++ "\n") ++
  ("  Checksum: " ++ debugOption toString data.checksum ++ "\n") ++
  ("  Key: " ++ debugOption debugBytes data.key ++ "\n") ++
  ("  Operation: " ++ debugOption toString data.operation ++ "\n")

/-- The bytes of an entry in the log. -/
def record (data : WalEntry) : List UInt8 := asBytes (encryptData data)

theorem record_ne_nil (data : WalEntry) : record data ≠ [] := by
  have hhead : (asBytes "WAL Entry:\n").length = 11 := by decide +kernel
  intro hnil
  have hlength := congrArg List.length hnil
  simp only [record, encryptData, asBytes_append, List.length_append, hhead, List.length_nil] at hlength
  omega

/-! ## The writer -/

/-- A payload that a writer takes. -/
def Fits (data : WalEntry) : Prop := data.payload.length ≤ 2000

instance (data : WalEntry) : Decidable (Fits data) := inferInstanceAs (Decidable (_ ≤ _))

structure WALWriter where
  writer : BufWriter
  position : Nat
  pathbuf : String
  deriving DecidableEq, Repr

namespace WALWriter

/-- `none` is a file that is not there. The path has a parent directory. -/
def init (path : String) (file : Option (List UInt8)) : WALWriter :=
  { writer := .new (file.getD []), position := WAL_HEADER_SIZE, pathbuf := path }

def getPosition (w : WALWriter) : Nat := w.position

def append (w : WALWriter) (data : WalEntry) : Except WalError Unit × WALWriter :=
  if 2000 < data.payload.length then
    (.error (.InvalidPayload "WAL entry exceeds maximum size of 2000 bytes"), w)
  else
    let encryptedData := asBytes (encryptData data)
    (.ok (), { w with writer := w.writer.writeAll encryptedData, position := w.position + encryptedData.length })

def appendBatch (w : WALWriter) : List WalEntry → Except WalError Unit × WALWriter
  | [] => (.ok (), w)
  | entry :: entries =>
    match w.append entry with
    | (.ok (), w) => w.appendBatch entries
    | (.error err, w) => (.error err, w)

def flush (w : WALWriter) : WALWriter := { w with writer := w.writer.flush }

/-- What the file holds does not depend on when it is synced. -/
def sync (w : WALWriter) : WALWriter := w

def path (w : WALWriter) : String := w.pathbuf

variable {w w' : WALWriter} {entry data : WalEntry} {entries : List WalEntry} {err : WalError}

/-- The writer once it has taken an entry. -/
def took (w : WALWriter) (data : WalEntry) : WALWriter :=
  { w with writer := w.writer.writeAll (record data), position := w.position + (record data).length }

theorem append_fits (h : Fits data) : w.append data = (.ok (), w.took data) := by
  unfold append
  rw [if_neg (Nat.not_lt.mpr h)]
  rfl

theorem append_of_not_fits (h : ¬ Fits data) :
    w.append data = (.error (.InvalidPayload "WAL entry exceeds maximum size of 2000 bytes"), w) := by
  unfold append
  rw [if_pos (Nat.not_le.mp h)]

theorem written_took (w : WALWriter) (data : WalEntry) :
    (w.took data).writer.written = w.writer.written ++ record data :=
  BufWriter.written_writeAll _ _

@[simp] theorem written_append (h : Fits data) :
    (w.append data).2.writer.written = w.writer.written ++ record data := by
  rw [append_fits h]
  exact written_took w data

theorem position_append (h : Fits data) : (w.append data).2.position = w.position + (record data).length := by
  rw [append_fits h]
  rfl

theorem appendBatch_cons (h : Fits entry) :
    w.appendBatch (entry :: entries) = (w.append entry).2.appendBatch entries := by
  rw [appendBatch, append_fits h]

theorem appendBatch_cons_of_not_fits (h : ¬ Fits entry) : w.appendBatch (entry :: entries) = w.append entry := by
  rw [appendBatch, append_of_not_fits h]

theorem appendBatch_oneByOne : Batch.OneByOne (fun _ => Fits) took appendBatch where
  done _ := rfl
  fails w entry entries hfits := by
    rw [appendBatch_cons_of_not_fits hfits, append_of_not_fits hfits]
    exact ⟨_, rfl⟩
  takes w entry entries hfits := by rw [appendBatch_cons hfits, append_fits hfits]
  keeps _ _ _ := rfl

theorem appendBatch_spec (w : WALWriter) (entries : List WalEntry) :
    ∃ taken, taken <+: entries ∧ (∀ entry ∈ taken, Fits entry) ∧
      ((w.appendBatch entries).1 = .ok () ↔ taken = entries) ∧
      (w.appendBatch entries).2.writer.written = w.writer.written ++ taken.flatMap record ∧
      (w.appendBatch entries).2.position = w.position + (taken.flatMap record).length := by
  obtain ⟨taken, hprefix, hall, hok, hend⟩ := appendBatch_oneByOne.taken w entries
  rw [hend]
  refine ⟨taken, hprefix, hall, hok, ?_, ?_⟩
  · exact appendBatch_oneByOne.foldl_push (·.writer.written) record (fun w entry _ => written_took w entry) hall
  · exact appendBatch_oneByOne.position_foldl_push position record (fun _ _ _ => rfl) hall

theorem append_refines {before : List UInt8} {log : List WalEntry}
    (hwritten : w.writer.written = before ++ log.flatMap record) :
    match Storage.WALWriter.append log data data.payload with
    | .ok log => (w.append data).1 = .ok () ∧ (w.append data).2.writer.written = before ++ log.flatMap record
    | .error err => w.append data = (.error err, w) := by
  unfold Storage.WALWriter.append
  by_cases hfits : Fits data
  · rw [if_neg (Nat.not_lt.mpr hfits)]
    refine ⟨by rw [append_fits hfits], ?_⟩
    rw [written_append hfits, hwritten, List.flatMap_append, List.flatMap_singleton, List.append_assoc]
  · rw [if_pos (Nat.not_le.mp hfits)]
    exact append_of_not_fits hfits

end WALWriter

end TrenchDb.Ewal
