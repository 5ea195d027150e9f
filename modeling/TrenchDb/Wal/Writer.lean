import TrenchDb.Lib.Batch
import TrenchDb.Lib.Lts
import TrenchDb.Wal.Reader

/-!
# Writing a log

`engine/src/wal/writer.rs`, with writes to the file that succeed: the buffered writer, and the calls of a
process that opens a log, appends to it and drops the writer, time after time.
-/

open TrenchDb.Lib TrenchDb.Lib.BigEndian TrenchDb.Lib.Lts

namespace TrenchDb.Wal

/-! ## The buffered writer -/

/-- The capacity of a `BufWriter::new`. -/
def BUF_CAPACITY : Nat := 8 * 1024

/-- `BufWriter<File>`, over a file opened for appending. -/
structure BufWriter where
  buf : List UInt8
  file : List UInt8
  deriving DecidableEq, Repr

namespace BufWriter

def new (file : List UInt8) : BufWriter := { buf := [], file }

def flush (w : BufWriter) : BufWriter := { buf := [], file := w.file ++ w.buf }

def writeAll (w : BufWriter) (data : List UInt8) : BufWriter :=
  if data.length < BUF_CAPACITY - w.buf.length then
    { w with buf := w.buf ++ data }
  else
    let w := if BUF_CAPACITY - w.buf.length < data.length then w.flush else w
    if BUF_CAPACITY ≤ data.length then
      { w with file := w.file ++ data }
    else
      { w with buf := w.buf ++ data }

/-- Everything handed to the writer: what the file holds when the buffer is flushed. -/
def written (w : BufWriter) : List UInt8 := w.file ++ w.buf

@[simp] theorem written_new (file : List UInt8) : (new file).written = file := by simp [written, new]

@[simp] theorem file_flush (w : BufWriter) : w.flush.file = w.written := rfl

@[simp] theorem written_flush (w : BufWriter) : w.flush.written = w.written := by simp [written, flush]

@[simp] theorem written_writeAll (w : BufWriter) (data : List UInt8) :
    (w.writeAll data).written = w.written ++ data := by
  unfold writeAll
  split
  · simp [written]
  · rename_i hfull
    dsimp only
    by_cases hroom : BUF_CAPACITY - w.buf.length < data.length
    · rw [if_pos hroom]
      split <;> simp [written, flush]
    · rw [if_neg hroom]
      split
      · rename_i hbig
        -- The data goes past the buffer, which is empty.
        have hempty : w.buf = [] := by
          apply List.length_eq_zero_iff.mp
          unfold BUF_CAPACITY at hroom hbig
          omega
        simp [written, hempty]
      · simp [written]

end BufWriter

/-! ## The log writer -/

/-- `write_header`. -/
def writeHeader (w : BufWriter) : BufWriter := (w.writeAll WAL_MAGIC).writeAll [WAL_VERSION, 0, 0, 0]

structure WalWriter where
  writer : BufWriter
  entrySizeLimit : Nat
  position : Nat
  deriving DecidableEq, Repr

namespace WalWriter

/-- `none` is a file that is not there. The path has a parent directory. -/
def «open» (file : Option (List UInt8)) (entrySizeLimit : Nat) : Except WalError WalWriter :=
  match file with
  | none => .ok { writer := writeHeader (.new []), entrySizeLimit, position := WAL_HEADER_SIZE }
  | some bytes =>
    if bytes.length = 0 then
      .ok { writer := writeHeader (.new bytes), entrySizeLimit, position := WAL_HEADER_SIZE }
    else do
      validateHeader bytes
      return { writer := .new bytes, entrySizeLimit, position := bytes.length }

/-- The loop of `append_batch`. -/
def appendEntries (w : WalWriter) : List WalEntry → Except WalError Unit × WalWriter
  | [] => (.ok (), w)
  | entry :: entries =>
    let payload := entry.toBytes
    let len := payload.length
    if w.entrySizeLimit < len then
      (.error (.InvalidPayload ("payload length " ++ toString len ++ " exceeds configured limit " ++
        toString w.entrySizeLimit)), w)
    else if 2 ^ 32 - 1 < len then
      (.error (.InvalidPayload ("payload length " ++ toString len ++ " exceeds maximum " ++ toString (2 ^ 32 - 1))), w)
    else
      let checksum := crc32 payload
      appendEntries
        { w with
          writer := ((w.writer.writeAll (toBE 4 len)).writeAll (toBE 4 checksum.toNat)).writeAll payload
          position := w.position + ENTRY_OVERHEAD + len }
        entries

def flush (w : WalWriter) : WalWriter := { w with writer := w.writer.flush }

def appendBatch (w : WalWriter) (entries : List WalEntry) : Except WalError Unit × WalWriter :=
  match w.appendEntries entries with
  | (.ok (), w) => (.ok (), w.flush)
  | (.error err, w) => (.error err, w)

def append (w : WalWriter) (entry : WalEntry) : Except WalError Unit × WalWriter := w.appendBatch [entry]

variable {w w' : WalWriter} {file : Option (List UInt8)} {entries : List WalEntry}

theorem open_eq_ok (h : WalWriter.open file defaultEntrySizeLimit = .ok w) :
    w.entrySizeLimit = defaultEntrySizeLimit ∧ w.position = w.writer.written.length ∧
      (((file = none ∨ file = some []) ∧ w.writer.written = header ∧ w.writer.file = []) ∨
        ∃ bytes, file = some bytes ∧ bytes ≠ [] ∧ w.writer = .new bytes) := by
  unfold WalWriter.open at h
  split at h
  · obtain rfl := Except.ok.inj h
    exact ⟨rfl, by simp [writeHeader]; rfl, .inl ⟨.inl rfl, by simp [writeHeader]; rfl, rfl⟩⟩
  · split at h
    · rename_i bytes hempty
      obtain rfl := List.length_eq_zero_iff.mp hempty
      obtain rfl := Except.ok.inj h
      exact ⟨rfl, by simp [writeHeader]; rfl, .inl ⟨.inr rfl, by simp [writeHeader]; rfl, rfl⟩⟩
    · rename_i bytes hne
      obtain ⟨_, -, h⟩ := bind_eq_ok.mp h
      obtain rfl := Except.ok.inj h
      exact ⟨rfl, by simp, .inr ⟨bytes, rfl, fun hnil => hne (by rw [hnil]; rfl), rfl⟩⟩

/-- An entry that the writer takes. -/
def Takes (w : WalWriter) (entry : WalEntry) : Prop :=
  entry.toBytes.length ≤ w.entrySizeLimit ∧ entry.toBytes.length ≤ 2 ^ 32 - 1

instance (w : WalWriter) (entry : WalEntry) : Decidable (w.Takes entry) := inferInstanceAs (Decidable (_ ∧ _))

/-- The writer once it has taken an entry. -/
def took (w : WalWriter) (entry : WalEntry) : WalWriter :=
  { w with
    writer := ((w.writer.writeAll (toBE 4 entry.toBytes.length)).writeAll
      (toBE 4 (crc32 entry.toBytes).toNat)).writeAll entry.toBytes
    position := w.position + ENTRY_OVERHEAD + entry.toBytes.length }

theorem appendEntries_oneByOne : Batch.OneByOne Takes took appendEntries where
  done _ := rfl
  fails w entry entries hfits := by
    unfold Takes at hfits
    unfold appendEntries
    dsimp only
    split
    · exact ⟨_, rfl⟩
    · rw [if_pos (by omega)]
      exact ⟨_, rfl⟩
  takes w entry entries hfits := by
    unfold Takes at hfits
    rw [appendEntries]
    dsimp only
    rw [if_neg (by omega), if_neg (by omega)]
    rfl
  keeps _ _ _ := rfl

theorem written_took (w : WalWriter) (entry : WalEntry) :
    (w.took entry).writer.written = w.writer.written ++ record entry := by
  simp [took, record, frame, ENTRY_LEN_SIZE, ENTRY_CKSUM_SIZE]

theorem position_took (w : WalWriter) (entry : WalEntry) :
    (w.took entry).position = w.position + (record entry).length := by
  rw [record_length, took, Nat.add_assoc]

theorem appendEntries_spec (hlimit : w.entrySizeLimit = defaultEntrySizeLimit) :
    ∃ taken, taken <+: entries ∧ (∀ e ∈ taken, Fits e) ∧
      ((w.appendEntries entries).1 = .ok () → taken = entries) ∧
      (w.appendEntries entries).2.writer.written = w.writer.written ++ taken.flatMap record ∧
      (w.appendEntries entries).2.position = w.position + (taken.flatMap record).length ∧
      (w.appendEntries entries).2.entrySizeLimit = defaultEntrySizeLimit := by
  obtain ⟨taken, hprefix, hall, hok, hend⟩ := appendEntries_oneByOne.taken w entries
  have hkeep : ∀ (w : WalWriter) (l : List WalEntry), (l.foldl took w).entrySizeLimit = w.entrySizeLimit := by
    intro w l
    induction l generalizing w with
    | nil => rfl
    | cons entry l ih => exact ih (w.took entry)
  rw [hend]
  refine ⟨taken, hprefix, fun e he => ?_, hok.mp, ?_, ?_, (hkeep w taken).trans hlimit⟩
  · have hle := (hall e he).1
    rwa [hlimit] at hle
  · exact appendEntries_oneByOne.foldl_push (·.writer.written) record (fun w entry _ => written_took w entry) hall
  · exact appendEntries_oneByOne.position_foldl_push position record (fun w entry _ => position_took w entry) hall

theorem append_takes {entry : WalEntry} (h : w.Takes entry) : w.append entry = (.ok (), (w.took entry).flush) := by
  rw [append, appendBatch, appendEntries_oneByOne.takes w entry [] h]
  rfl

theorem append_refuses {entry : WalEntry} (h : ¬ w.Takes entry) : ∃ err, w.append entry = (.error err, w) := by
  obtain ⟨err, hfails⟩ := appendEntries_oneByOne.fails w entry [] h
  exact ⟨err, by rw [append, appendBatch, hfails]⟩

theorem appendBatch_eq_error {err : WalError} (h : w.appendBatch entries = (.error err, w')) :
    w' = (w.appendEntries entries).2 := by
  unfold appendBatch at h
  split at h
  · exact nomatch (Prod.mk.inj h).1
  · rename_i heq
    rw [heq]
    exact ((Prod.mk.inj h).2).symm

theorem appendBatch_eq_ok (h : w.appendBatch entries = (.ok (), w')) :
    (w.appendEntries entries).1 = .ok () ∧ w' = (w.appendEntries entries).2.flush := by
  unfold appendBatch at h
  split at h
  · rename_i heq
    rw [heq]
    exact ⟨rfl, ((Prod.mk.inj h).2).symm⟩
  · exact nomatch (Prod.mk.inj h).1

end WalWriter

/-! ## Cycles of calls on one path -/

/-- The path, while nobody has it open or while a writer has. -/
inductive LogPath
  | closed (file : Option (List UInt8))
  | opened (w : WalWriter)
  deriving DecidableEq, Repr

inductive Call
  | open
  | append (entry : WalEntry)
  | appendBatch (entries : List WalEntry)
  | drop
  deriving DecidableEq, Repr

/-- What a call appends. -/
def Call.entries : Call → List WalEntry
  | .append entry => [entry]
  | .appendBatch entries => entries
  | .open | .drop => []

/-- The path after a call, where the call returns `Ok`. Dropping a writer flushes its buffer. -/
def LogPath.call : LogPath → Call → Option LogPath
  | .closed file, .open =>
    match WalWriter.open file defaultEntrySizeLimit with
    | .ok w => some (.opened w)
    | .error _ => none
  | .opened w, .append entry =>
    match w.append entry with
    | (.ok (), w) => some (.opened w)
    | (.error _, _) => none
  | .opened w, .appendBatch entries =>
    match w.appendBatch entries with
    | (.ok (), w) => some (.opened w)
    | (.error _, _) => none
  | .opened w, .drop => some (.closed (some w.writer.flush.file))
  | _, _ => none

/-- One call that returns `Ok`. -/
def Succeeds (p : LogPath) (c : Call) (p' : LogPath) : Prop := p.call c = some p'

/-- Reading the file yields these entries, and then none for ever. -/
def Yields (file : List UInt8) (entries : List WalEntry) : Prop :=
  ∃ r, WalReader.open (some file) = .ok r ∧ ∀ i, (r.after i).nextEntry.1 = .ok entries[i]?

/-- What the path holds after calls that appended these entries. -/
def Holds (calls : List Call) (p : LogPath) : Prop :=
  (∀ e ∈ calls.flatMap Call.entries, Fits e) ∧
    match p with
    | .closed file =>
      (calls = [] ∧ (file = none ∨ file = some [])) ∨ file = some (logFile (calls.flatMap Call.entries))
    | .opened w => w.entrySizeLimit = defaultEntrySizeLimit ∧ w.position = w.writer.written.length ∧
        w.writer.written = logFile (calls.flatMap Call.entries)

variable {calls : List Call} {c : Call} {p p' : LogPath} {w w' : WalWriter} {entries : List WalEntry}

theorem yields_logFile (hfits : ∀ e ∈ entries, Fits e) : Yields (logFile entries) entries :=
  ⟨_, WalReader.open_header _, WalReader.after_log hfits⟩

theorem appendBatch_holds (hlimit : w.entrySizeLimit = defaultEntrySizeLimit)
    (hposition : w.position = w.writer.written.length) (h : w.appendBatch entries = (.ok (), w')) :
    (∀ e ∈ entries, Fits e) ∧ w'.entrySizeLimit = defaultEntrySizeLimit ∧
      w'.position = w'.writer.written.length ∧ w'.writer.written = w.writer.written ++ entries.flatMap record ∧
      w'.writer.file = w'.writer.written := by
  obtain ⟨hok, rfl⟩ := WalWriter.appendBatch_eq_ok h
  obtain ⟨taken, -, hfits, hall, hwritten, hpos, hkeep⟩ := @WalWriter.appendEntries_spec w entries hlimit
  obtain rfl := hall hok
  refine ⟨hfits, hkeep, ?_, ?_, ?_⟩
  · simp [WalWriter.flush, hpos, hwritten, hposition]
  · simp [WalWriter.flush, hwritten]
  · simp [WalWriter.flush]

theorem Succeeds.cases (h : Succeeds p c p') :
    (∃ file w, p = .closed file ∧ c = .open ∧ WalWriter.open file defaultEntrySizeLimit = .ok w ∧ p' = .opened w) ∨
    (∃ w w', p = .opened w ∧ c ≠ .open ∧ w.appendBatch c.entries = (.ok (), w') ∧ p' = .opened w') ∨
    ∃ w, p = .opened w ∧ c = .drop ∧ p' = .closed (some w.writer.flush.file) := by
  unfold Succeeds at h
  cases p with
  | closed file =>
    cases c with
    | «open» =>
      simp only [LogPath.call] at h
      cases hopen : WalWriter.open file defaultEntrySizeLimit with
      | error e => rw [hopen] at h; exact nomatch h
      | ok w => rw [hopen] at h; exact .inl ⟨file, w, rfl, rfl, hopen, (Option.some.inj h).symm⟩
    | append | appendBatch | drop => exact nomatch h
  | opened w =>
    cases c with
    | «open» => exact nomatch h
    | append entry =>
      simp only [LogPath.call] at h
      rcases happend : w.append entry with ⟨_ | _, w'⟩ <;> rw [happend] at h
      · exact nomatch h
      · exact .inr (.inl ⟨w, w', rfl, nofun, happend, (Option.some.inj h).symm⟩)
    | appendBatch entries =>
      simp only [LogPath.call] at h
      rcases happend : w.appendBatch entries with ⟨_ | _, w'⟩ <;> rw [happend] at h
      · exact nomatch h
      · exact .inr (.inl ⟨w, w', rfl, nofun, happend, (Option.some.inj h).symm⟩)
    | drop => exact .inr (.inr ⟨w, rfl, rfl, (Option.some.inj h).symm⟩)

theorem Holds.opens {file : Option (List UInt8)} (hholds : Holds calls (.closed file))
    (hopen : WalWriter.open file defaultEntrySizeLimit = .ok w) : Holds (calls ++ [.open]) (.opened w) := by
  obtain ⟨hfits, hfile⟩ := hholds
  obtain ⟨hlimit, hposition, hcases⟩ := WalWriter.open_eq_ok hopen
  have hsnoc : (calls ++ [Call.open]).flatMap Call.entries = calls.flatMap Call.entries := by
    simp [Call.entries]
  refine ⟨by rwa [hsnoc], hlimit, hposition, ?_⟩
  rw [hsnoc]
  rcases hfile with ⟨rfl, hnone⟩ | rfl
  · rcases hcases with ⟨-, hwritten, -⟩ | ⟨bytes, rfl, hne, -⟩
    · rw [hwritten]
      rfl
    · simp [hne] at hnone
  · rcases hcases with ⟨hnone, -, -⟩ | ⟨bytes, hbytes, -, hnew⟩
    · simp [logFile, header, WAL_MAGIC] at hnone
    · rw [hnew, BufWriter.written_new, Option.some.inj hbytes]

theorem Holds.appends (hholds : Holds calls (.opened w)) (h : w.appendBatch c.entries = (.ok (), w')) :
    Holds (calls ++ [c]) (.opened w') ∧ w'.writer.file = w'.writer.written := by
  obtain ⟨hfits, hlimit, hposition, hwritten⟩ := hholds
  obtain ⟨hfits', hlimit', hposition', hwritten', hfile⟩ := appendBatch_holds hlimit hposition h
  have hsnoc : (calls ++ [c]).flatMap Call.entries = calls.flatMap Call.entries ++ c.entries := by
    simp
  refine ⟨⟨?_, hlimit', hposition', ?_⟩, hfile⟩
  · rw [hsnoc]
    exact List.forall_mem_append.mpr ⟨hfits, hfits'⟩
  · rw [hwritten', hwritten, hsnoc, logFile_append]

theorem Holds.drops (hholds : Holds calls (.opened w)) :
    Holds (calls ++ [.drop]) (.closed (some w.writer.flush.file)) := by
  obtain ⟨hfits, -, -, hwritten⟩ := hholds
  have hsnoc : (calls ++ [Call.drop]).flatMap Call.entries = calls.flatMap Call.entries := by
    simp [Call.entries]
  exact ⟨by rwa [hsnoc], .inr (by rw [hsnoc, ← hwritten]; rfl)⟩

theorem holds_snoc (hholds : Holds calls p) (h : Succeeds p c p') :
    Holds (calls ++ [c]) p' ∧ ∀ w, p' = .opened w → c ≠ .open → w.writer.file = w.writer.written := by
  rcases h.cases with ⟨file, w, rfl, rfl, hopen, rfl⟩ | ⟨w, w', rfl, -, happend, rfl⟩ | ⟨w, rfl, rfl, rfl⟩
  · exact ⟨hholds.opens hopen, fun _ _ hne => absurd rfl hne⟩
  · obtain ⟨hholds', hfile⟩ := hholds.appends happend
    refine ⟨hholds', fun w heq _ => ?_⟩
    obtain rfl := LogPath.opened.inj heq
    exact hfile
  · exact ⟨hholds.drops, nofun⟩

theorem holds_run {start : LogPath} (hstart : start = .closed none ∨ start = .closed (some []))
    (hrun : Run Succeeds start calls p) : Holds calls p := by
  refine hrun.invariant (P := Holds) ?_ fun ls t l u hholds hstep => (holds_snoc hholds hstep).1
  rcases hstart with rfl | rfl
  · exact ⟨by simp, .inl ⟨rfl, .inl rfl⟩⟩
  · exact ⟨by simp, .inl ⟨rfl, .inr rfl⟩⟩

/-- After calls that all succeeded, on a path that had no log: an append leaves the position at the end of
the file, and the file yields what was appended, as it does once the writer is dropped. -/
theorem file_round_trip {start : LogPath} (hstart : start = .closed none ∨ start = .closed (some []))
    (hrun : Run Succeeds start calls p) (hstep : Succeeds p c p') :
    (∀ w, p' = .opened w → c ≠ .open →
      w.position = w.writer.file.length ∧ Yields w.writer.file ((calls ++ [c]).flatMap Call.entries)) ∧
    ∀ file, p' = .closed file → ∃ bytes, file = some bytes ∧ Yields bytes ((calls ++ [c]).flatMap Call.entries) := by
  obtain ⟨⟨hfits, hpath⟩, hfile⟩ := holds_snoc (holds_run hstart hrun) hstep
  constructor
  · rintro w rfl hc
    obtain ⟨-, hposition, hwritten⟩ := hpath
    rw [hfile w rfl hc, hwritten]
    exact ⟨by rw [hposition, hwritten], yields_logFile hfits⟩
  · rintro file rfl
    rcases hpath with ⟨hnil, -⟩ | rfl
    · simp at hnil
    · exact ⟨_, rfl, yields_logFile hfits⟩

/-- A log that is opened again after its first entry. -/
def twoCycles : List Call :=
  [.open, .append (.CreateTable "t"), .drop, .open, .appendBatch [.Insert "t" "k" [7], .Delete "t" "k"]]

theorem file_round_trip_twoCycles : ∃ bytes,
    (played LogPath.call (.closed none) twoCycles).call .drop = some (.closed (some bytes)) ∧
      Yields bytes [.CreateTable "t", .Insert "t" "k" [7], .Delete "t" "k"] := by
  have hrun : Run Succeeds (.closed none) twoCycles (played LogPath.call (.closed none) twoCycles) :=
    run_played (fun _ _ _ h => h) (by decide +kernel)
  have hdrop : ((played LogPath.call (.closed none) twoCycles).call .drop).isSome = true := by decide +kernel
  cases hp : played LogPath.call (.closed none) twoCycles with
  | closed file =>
    rw [hp] at hdrop
    exact nomatch hdrop
  | opened w =>
    rw [hp] at hrun
    obtain ⟨bytes, hbytes, hyields⟩ := (file_round_trip (.inl rfl) hrun (c := .drop) rfl).2 _ rfl
    obtain rfl := Option.some.inj hbytes
    exact ⟨_, rfl, hyields⟩

end TrenchDb.Wal
