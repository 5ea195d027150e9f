import TrenchDb.Ewal.Writer

/-!
# Batches that fail

`append_batch` of both log writers. Entries are checked as they are written, so those before the one that is not
valid are in the buffer when the batch fails, and the next flush brings them into the file.
-/

open TrenchDb.Lib.Batch

namespace TrenchDb

/-! ## The writer of the live log -/

namespace Ewal.WALWriter

/-- The calls of an open writer. Dropping it writes what a flush does. -/
inductive Use
  | append (entry : Storage.WalEntry)
  | appendBatch (entries : List Storage.WalEntry)
  | flush
  | sync
  deriving DecidableEq, Repr

def use (w : WALWriter) : Use → WALWriter
  | .append entry => (w.append entry).2
  | .appendBatch entries => (w.appendBatch entries).2
  | .flush => w.flush
  | .sync => w.sync

/-- A batch that fails leaves the position, and the file comes out of all later calls as if the batch had not been. -/
def FailsWithoutTrace (w : WALWriter) (entries : List Storage.WalEntry) : Prop :=
  ∀ err w', w.appendBatch entries = (.error err, w') → w'.position = w.position ∧
    ∀ uses : List Use, (uses.foldl use w').writer.file = (uses.foldl use w).writer.file

theorem failsWithoutTrace_iff (w : WALWriter) (entries : List Storage.WalEntry) :
    w.FailsWithoutTrace entries ↔ FirstDecides Fits entries :=
  appendBatch_oneByOne.fails_without_trace_iff position record (fun _ _ _ => rfl) record_ne_nil (·.writer.file) use w
    entries

end Ewal.WALWriter

/-! ## The writer of framed entries -/

namespace Wal.WalWriter

/-- The calls of an open writer. Dropping it writes what a flush does. -/
inductive Use
  | append (entry : WalEntry)
  | appendBatch (entries : List WalEntry)
  | flush
  deriving DecidableEq, Repr

def use (w : WalWriter) : Use → WalWriter
  | .append entry => (w.append entry).2
  | .appendBatch entries => (w.appendBatch entries).2
  | .flush => w.flush

/-- A batch that fails leaves the position, and the file comes out of all later calls as if the batch had not been. -/
def FailsWithoutTrace (w : WalWriter) (entries : List WalEntry) : Prop :=
  ∀ err w', w.appendBatch entries = (.error err, w') → w'.position = w.position ∧
    ∀ uses : List Use, (uses.foldl use w').writer.file = (uses.foldl use w).writer.file

theorem appendBatch_eq_error_iff {w w' : WalWriter} {entries : List WalEntry} {err : WalError} :
    w.appendBatch entries = (.error err, w') ↔ w.appendEntries entries = (.error err, w') := by
  unfold appendBatch
  split
  next heq =>
    rw [heq]
    exact ⟨nofun, nofun⟩
  next heq => rw [heq]

theorem failsWithoutTrace_iff (w : WalWriter) (entries : List WalEntry) :
    w.FailsWithoutTrace entries ↔ FirstDecides w.Takes entries := by
  unfold FailsWithoutTrace
  simp only [appendBatch_eq_error_iff]
  refine appendEntries_oneByOne.fails_without_trace_iff position record (fun w entry _ => position_took w entry)
    (fun entry hnil => ?_) (·.writer.file) use w entries
  have hlength := record_length entry
  rw [hnil, List.length_nil, ENTRY_OVERHEAD, ENTRY_LEN_SIZE] at hlength
  omega

end Wal.WalWriter

/-! ## Both -/

/-- A batch fails without a trace exactly where its first entry is the one that is not valid. -/
theorem batch_fails_without_trace_iff (w : Ewal.WALWriter) (entries : List Storage.WalEntry) (v : Wal.WalWriter)
    (batch : List Wal.WalEntry) : (w.FailsWithoutTrace entries ↔ FirstDecides Ewal.Fits entries) ∧
      (v.FailsWithoutTrace batch ↔ FirstDecides v.Takes batch) :=
  ⟨w.failsWithoutTrace_iff entries, v.failsWithoutTrace_iff batch⟩

/-- An entry whose payload is one byte too long. -/
def longEntry : Storage.WalEntry := Storage.walEntry (List.replicate 2001 0)

/-- Both writers fail at the second entry, have moved on, and bring the first into the file at the next flush. -/
theorem second_entry_leaves_first :
    (let w := Ewal.WALWriter.init "a/wal.log" none
     let batch := w.appendBatch [Storage.walEntry [105], longEntry]
     batch.1 = .error (.InvalidPayload "WAL entry exceeds maximum size of 2000 bytes") ∧
       batch.2.position = w.position + 95 ∧ batch.2.flush.writer.file = Ewal.record (Storage.walEntry [105]) ∧
       w.flush.writer.file = []) ∧
    (let w : Wal.WalWriter := { writer := .new Wal.header, entrySizeLimit := 6, position := 8 }
     let batch := w.appendBatch [.CreateTable "t", .CreateTable "tt"]
     Wal.WalWriter.open (some Wal.header) 6 = .ok w ∧
       batch.1 = .error (.InvalidPayload "payload length 7 exceeds configured limit 6") ∧
       batch.2.position = w.position + 14 ∧
       batch.2.flush.writer.file = Wal.header ++ Wal.record (.CreateTable "t") ∧ w.flush.writer.file = Wal.header) := by
  refine ⟨⟨by decide +kernel, by decide +kernel, by decide +kernel, by decide +kernel⟩, ?_⟩
  refine ⟨by decide +kernel, by decide +kernel, by decide +kernel, by decide +kernel, by decide +kernel⟩

end TrenchDb
