import TrenchDb.Ewal.Writer

/-!
# The position of the live log

The calls of processes that open one log, write to it and drop the writer, time after time. A writer counts its
position from the length of a header, whatever the file holds.
-/

open TrenchDb.Lib.Lts
open TrenchDb.Storage (WalEntry WalError)
open TrenchDb.Wal (BufWriter)

namespace TrenchDb.Ewal

/-! ## Where the next entry starts -/

namespace WALWriter

variable {w : WALWriter} {path : String} {file : Option (List UInt8)} {entries : List WalEntry}

/-- The position is the offset in the file of whichever entry is appended next. -/
def StartsAtPosition (w : WALWriter) : Prop :=
  ∀ entry, Fits entry → (w.append entry).2.flush.writer.file.drop w.getPosition = record entry

theorem startsAtPosition_iff : w.StartsAtPosition ↔ w.position = w.writer.written.length := by
  have hfile : ∀ {entry}, Fits entry → (w.append entry).2.flush.writer.file = w.writer.written ++ record entry :=
    fun hfits => written_append hfits
  constructor
  · intro h
    let entry : WalEntry := { payload := [], key := none, operation := none, checksum := none }
    have hfits : Fits entry := Nat.zero_le _
    have hlength := congrArg List.length (h entry hfits)
    have hpos := List.length_pos_iff.mpr (record_ne_nil entry)
    rw [hfile hfits, getPosition, List.length_drop, List.length_append] at hlength
    omega
  · intro hposition entry hfits
    rw [hfile hfits, getPosition, hposition, List.drop_left]

theorem init_startsAtPosition_iff :
    (init path file).StartsAtPosition ↔ (file.getD []).length = WAL_HEADER_SIZE := by
  rw [startsAtPosition_iff, init, BufWriter.written_new]
  exact eq_comm

/-- The positions that a writer gives, before each entry that it takes. -/
def handed (w : WALWriter) : List WalEntry → List Nat
  | [] => []
  | entry :: entries =>
    match w.append entry with
    | (.ok (), w') => w.getPosition :: w'.handed entries
    | (.error _, _) => []

theorem handed_spec (hposition : w.position = w.writer.written.length) :
    (w.appendBatch entries).2.position = (w.appendBatch entries).2.writer.written.length ∧
      w.position ≤ (w.appendBatch entries).2.position ∧ (w.handed entries).Pairwise (· < ·) ∧
      ∀ position ∈ w.handed entries, w.position ≤ position ∧ position < (w.appendBatch entries).2.position := by
  induction entries generalizing w with
  | nil => exact ⟨hposition, le_rfl, .nil, nofun⟩
  | cons entry entries ih =>
    by_cases hfits : Fits entry
    · have hpos := List.length_pos_iff.mpr (record_ne_nil entry)
      have hnext := position_append (w := w) hfits
      have hgrown : (w.append entry).2.position = (w.append entry).2.writer.written.length := by
        rw [hnext, written_append hfits, List.length_append, hposition]
      obtain ⟨hend, hle, hpairwise, hbetween⟩ := ih hgrown
      have hhanded : w.handed (entry :: entries) = w.position :: (w.append entry).2.handed entries := by
        rw [handed, append_fits hfits, getPosition]
      rw [appendBatch_cons hfits, hhanded]
      refine ⟨hend, by omega, List.pairwise_cons.mpr ⟨fun position hmem => ?_, hpairwise⟩,
        List.forall_mem_cons.mpr ⟨⟨le_rfl, by omega⟩, fun position hmem => ?_⟩⟩
      · have hfrom := (hbetween position hmem).1
        omega
      · obtain ⟨hfrom, hto⟩ := hbetween position hmem
        exact ⟨by omega, hto⟩
    · rw [appendBatch_cons_of_not_fits hfits, handed, append_of_not_fits hfits]
      exact ⟨hposition, le_rfl, .nil, nofun⟩

end WALWriter

/-! ## Cycles of calls on one path -/

/-- The path, while nobody has it open or while a writer has. -/
inductive LogPath
  | closed (file : Option (List UInt8))
  | opened (w : WALWriter)
  deriving DecidableEq, Repr

/-- The length of the file, once the writer has flushed. -/
def LogPath.size : LogPath → Nat
  | .closed file => (file.getD []).length
  | .opened w => w.writer.written.length

inductive Call
  | init
  | append (entry : WalEntry)
  | appendBatch (entries : List WalEntry)
  | flush
  | drop
  deriving DecidableEq, Repr

/-- `handed` is a record that no call reads: the positions that writers gave before each entry that they took. -/
structure Log where
  path : LogPath
  handed : List Nat
  deriving DecidableEq, Repr

namespace Log

/-- The log after a call, whether or not the writer takes all entries. Dropping a writer flushes its buffer. -/
def call (path : String) (s : Log) (c : Call) : Option Log :=
  match s.path, c with
  | .closed file, .init => some { s with path := .opened (.init path file) }
  | .opened w, .append entry => some { path := .opened (w.append entry).2, handed := s.handed ++ w.handed [entry] }
  | .opened w, .appendBatch entries =>
    some { path := .opened (w.appendBatch entries).2, handed := s.handed ++ w.handed entries }
  | .opened w, .flush => some { s with path := .opened w.flush }
  | .opened w, .drop => some { s with path := .closed (some w.flush.writer.file) }
  | .closed _, _ | .opened _, .init => none

def Step (path : String) (s : Log) (c : Call) (s' : Log) : Prop := s.call path c = some s'

/-- A writer is opened on a file that is as long as a header. -/
def headerOnly (s : Log) (c : Call) : Bool :=
  match s.path, c with
  | .closed file, .init => decide ((file.getD []).length = WAL_HEADER_SIZE)
  | .closed _, _ | .opened _, _ => true

variable {path : String} {file : Option (List UInt8)} {s s' : Log} {c : Call} {calls : List Call} {w : WALWriter}
  {entries : List WalEntry} {entry : WalEntry}

theorem step_cases (h : Step path s c s') :
    (∃ file, s.path = .closed file ∧ c = .init ∧ s' = { s with path := .opened (.init path file) }) ∨
    (∃ w entries, s.path = .opened w ∧
      s' = { path := .opened (w.appendBatch entries).2, handed := s.handed ++ w.handed entries }) ∨
    (∃ w, s.path = .opened w ∧ s' = { s with path := .opened w.flush }) ∨
    ∃ w, s.path = .opened w ∧ s' = { s with path := .closed (some w.flush.writer.file) } := by
  unfold Step call at h
  split at h
  next file hpath => exact .inl ⟨file, hpath, rfl, (Option.some.inj h).symm⟩
  next w entry hpath =>
    have hsingle : w.appendBatch [entry] = w.append entry := by
      by_cases hfits : Fits entry
      · rw [WALWriter.appendBatch_cons hfits, WALWriter.append_fits hfits]
        rfl
      · exact WALWriter.appendBatch_cons_of_not_fits hfits
    exact .inr (.inl ⟨w, [entry], hpath, by rw [hsingle]; exact (Option.some.inj h).symm⟩)
  next w entries hpath => exact .inr (.inl ⟨w, entries, hpath, (Option.some.inj h).symm⟩)
  next w hpath => exact .inr (.inr (.inl ⟨w, hpath, (Option.some.inj h).symm⟩))
  next w hpath => exact .inr (.inr (.inr ⟨w, hpath, (Option.some.inj h).symm⟩))
  all_goals cases h

/-- The position is at the end of the log, and past every position that was given. -/
structure Tracks (s : Log) : Prop where
  atEnd : ∀ w, s.path = .opened w → w.position = w.writer.written.length
  past : ∀ position ∈ s.handed, position < s.path.size
  increasing : s.handed.Pairwise (· < ·)

namespace Tracks

theorem new : Tracks { path := .closed file, handed := [] } := ⟨nofun, nofun, .nil⟩

theorem opens (htracks : s.Tracks) (hpath : s.path = .closed file)
    (hheader : (file.getD []).length = WAL_HEADER_SIZE) : Tracks { s with path := .opened (.init path file) } := by
  refine ⟨fun w hw => ?_, fun position hmem => ?_, htracks.increasing⟩
  · obtain rfl := LogPath.opened.inj hw
    exact WALWriter.startsAtPosition_iff.mp (WALWriter.init_startsAtPosition_iff.mpr hheader)
  · have hlt := htracks.past position hmem
    rw [hpath, LogPath.size] at hlt
    rw [LogPath.size, WALWriter.init, BufWriter.written_new]
    exact hlt

theorem appends (htracks : s.Tracks) (hpath : s.path = .opened w) (entries : List WalEntry) :
    Tracks { path := .opened (w.appendBatch entries).2, handed := s.handed ++ w.handed entries } := by
  have hposition := htracks.atEnd w hpath
  obtain ⟨hend, hle, hpairwise, hbetween⟩ := @WALWriter.handed_spec w entries hposition
  have hbefore : ∀ position ∈ s.handed, position < w.position := fun position hmem => by
    have hlt := htracks.past position hmem
    rwa [hpath, LogPath.size, ← hposition] at hlt
  refine ⟨fun w' hw' => ?_, fun position hmem => ?_, ?_⟩
  · obtain rfl := LogPath.opened.inj hw'
    exact hend
  · rw [LogPath.size, ← hend]
    rcases List.mem_append.mp hmem with hold | hnew
    · exact Nat.lt_of_lt_of_le (hbefore position hold) hle
    · exact (hbetween position hnew).2
  · refine List.pairwise_append.mpr ⟨htracks.increasing, hpairwise, fun old hold new hnew => ?_⟩
    exact Nat.lt_of_lt_of_le (hbefore old hold) (hbetween new hnew).1

theorem step (htracks : s.Tracks) (h : Guarded (Step path) headerOnly s c s') : s'.Tracks := by
  obtain ⟨hstep, hheader⟩ := h
  rcases step_cases hstep with ⟨file, hpath, rfl, rfl⟩ | ⟨w, entries, hpath, rfl⟩ | ⟨w, hpath, rfl⟩ | ⟨w, hpath, rfl⟩
  · unfold headerOnly at hheader
    rw [hpath] at hheader
    exact htracks.opens hpath (of_decide_eq_true hheader)
  · exact htracks.appends hpath entries
  · have hsize : (LogPath.opened w.flush).size = s.path.size := by
      rw [hpath, LogPath.size, LogPath.size, WALWriter.flush, BufWriter.written_flush]
    refine ⟨fun w' hw' => ?_, fun position hmem => hsize ▸ htracks.past position hmem, htracks.increasing⟩
    obtain rfl := LogPath.opened.inj hw'
    rw [WALWriter.flush, BufWriter.written_flush]
    exact htracks.atEnd w hpath
  · have hsize : (LogPath.closed (some w.flush.writer.file)).size = s.path.size := by
      rw [hpath]
      rfl
    exact ⟨nofun, fun position hmem => hsize ▸ htracks.past position hmem, htracks.increasing⟩

end Tracks

/-- Where each writer is opened on a file as long as a header, its position is the offset of the next entry, and the
positions grow over all of the calls. -/
theorem position_is_offset (h : Run (Guarded (Step path) headerOnly) { path := .closed file, handed := [] } calls s) :
    (∀ w, s.path = .opened w → w.StartsAtPosition) ∧ s.handed.Pairwise (· < ·) := by
  have htracks : s.Tracks :=
    @Run.invariant _ _ _ _ _ _ (fun _ s => s.Tracks) h .new fun _ _ _ _ htracks hstep => htracks.step hstep
  exact ⟨fun w hw => WALWriter.startsAtPosition_iff.mpr (htracks.atEnd w hw), htracks.increasing⟩

/-- A file that was given a header, and two entries. -/
def headerCalls : List Call := [.init, .append (Storage.walEntry [105]), .appendBatch [Storage.walEntry [106]]]

theorem position_is_offset_header :
    let s := played (guarded (call "a/wal.log") headerOnly) { path := .closed (some Wal.header), handed := [] }
      headerCalls
    s.handed = [8, 103] ∧ s.handed.Pairwise (· < ·) := by
  have hrun : Run (Guarded (Step "a/wal.log") headerOnly) { path := .closed (some Wal.header), handed := [] }
      headerCalls (played (guarded (call "a/wal.log") headerOnly) { path := .closed (some Wal.header), handed := [] }
        headerCalls) :=
    run_guarded (fun _ _ _ h => h) (by decide +kernel)
  exact ⟨by decide +kernel, (position_is_offset hrun).2⟩

/-- A new file, and the same file opened again. -/
def restartCalls : List Call :=
  [.init, .append (Storage.walEntry [105]), .drop, .init, .append (Storage.walEntry [106])]

/-- A writer opened on a new file, or on one that is filled, gives the position 8. -/
theorem restart_repeats_position :
    Run (Step "a/wal.log") { path := .closed none, handed := [] } restartCalls
        (played (call "a/wal.log") { path := .closed none, handed := [] } restartCalls) ∧
      ¬ (WALWriter.init "a/wal.log" none).StartsAtPosition ∧
      (let s := played (call "a/wal.log") { path := .closed none, handed := [] } restartCalls
       s.handed = [8, 8] ∧ ¬ s.handed.Pairwise (· < ·) ∧
         ∃ w, s.path = .opened w ∧ w.position = 103 ∧ w.writer.written.length = 190) := by
  refine ⟨run_played (fun _ _ _ h => h) (by decide +kernel), ?_, by decide +kernel, by decide +kernel, ?_⟩
  · rw [WALWriter.init_startsAtPosition_iff]
    decide
  · exact ⟨_, rfl, by decide +kernel, by decide +kernel⟩

end Log

end TrenchDb.Ewal
