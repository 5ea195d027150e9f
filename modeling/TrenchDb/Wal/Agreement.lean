import TrenchDb.Wal.Broken
import TrenchDb.Wal.Writer

/-!
# What the writer and replay agree on

`WalWriter::open` and replay look at the same file in different code: which files are logs, and how large an entry may
be.
-/

open TrenchDb.Lib TrenchDb.Lib.BigEndian

namespace TrenchDb.Wal

variable {σ : Type} {T : Table σ} {store : σ} {file : Option (List UInt8)} {limit : Nat} {w : WalWriter}
  {entry : WalEntry} {entries : List WalEntry}

/-! ## Which files are logs -/

theorem replayLoop_lenient (reader : WalReader) (summary : ReplaySummary) (store : σ) :
    ∃ summary', (replayLoop T .Lenient reader summary store).1 = .ok summary' := by
  induction hlength : reader.rest.length using Nat.strong_induction_on generalizing reader summary store with
  | _ length ih =>
    rcases hnext : reader.nextEntry with ⟨err | _ | entry, reader'⟩
    · rw [replayLoop_error hnext]
      exact ⟨_, rfl⟩
    · rw [replayLoop_end hnext]
      exact ⟨_, rfl⟩
    · rw [replayLoop_entry hnext]
      exact ih _ (hlength ▸ WalReader.nextEntry_rest_lt hnext) reader' _ _ rfl

theorem replay_ok_iff {bytes : List UInt8} :
    (∃ summary, (replay T store (some bytes)).1 = .ok summary) ↔ validateHeader bytes = .ok () := by
  unfold replay
  cases hheader : validateHeader bytes with
  | error err =>
    rw [replay_invalid hheader]
    simp
  | ok =>
    have hfile : bytes.drop WAL_HEADER_SIZE = ([] : List WalEntry).flatMap record ++ bytes.drop WAL_HEADER_SIZE := rfl
    rw [replay_valid hheader (by simp) hfile]
    exact ⟨fun _ => rfl, fun _ => replayLoop_lenient _ _ _⟩

theorem open_ok_iff {bytes : List UInt8} (hne : bytes ≠ []) :
    (∃ w, WalWriter.open (some bytes) limit = .ok w) ↔ validateHeader bytes = .ok () := by
  unfold WalWriter.open
  dsimp only
  rw [if_neg fun h => hne (List.length_eq_zero_iff.mp h)]
  cases hheader : validateHeader bytes with
  | error err => simp [bind, Except.bind]
  | ok => exact ⟨fun _ => rfl, fun _ => ⟨_, rfl⟩⟩

/-- An empty file is a new log to the writer, and no log to replay. -/
theorem empty_file_disagrees (T : Table σ) (store : σ) (limit : Nat) :
    (∃ w, WalWriter.open (some []) limit = .ok w) ∧
      (replay T store (some [])).1 = .error (.InvalidHeader "file too short to contain WAL header") :=
  ⟨⟨_, rfl⟩, congrArg Prod.fst (replay_short (by decide))⟩

/-- The writer opens the files that can be replayed, the empty file apart. -/
theorem open_replay_agree_iff (T : Table σ) (store : σ) (file : Option (List UInt8)) (limit : Nat) :
    ((∃ w, WalWriter.open file limit = .ok w) ↔ ∃ summary, (replay T store file).1 = .ok summary) ↔
      file ≠ some [] := by
  constructor
  · rintro hagree rfl
    obtain ⟨hopen, hreplay⟩ := empty_file_disagrees T store limit
    obtain ⟨summary, hok⟩ := hagree.mp hopen
    rw [hreplay] at hok
    cases hok
  · intro hne
    cases file with
    | none => exact ⟨fun _ => ⟨_, rfl⟩, fun _ => ⟨_, rfl⟩⟩
    | some bytes => exact (open_ok_iff fun h => hne (congrArg some h)).trans replay_ok_iff.symm

theorem empty_file_not_replayed :
    ¬ ((∃ w, WalWriter.open (some []) defaultEntrySizeLimit = .ok w) ↔
      ∃ summary, (replay memoryTable .new (some [])).1 = .ok summary) := by
  intro hagree
  obtain ⟨hopen, hreplay⟩ := empty_file_disagrees memoryTable .new defaultEntrySizeLimit
  obtain ⟨summary, hok⟩ := hagree.mp hopen
  rw [hreplay] at hok
  cases hok

/-! ## How large an entry may be -/

/-- A call of `append` for each entry: the entries that it returned `Ok` for, and the writer after all. -/
def WalWriter.appends (w : WalWriter) : List WalEntry → List WalEntry × WalWriter
  | [] => ([], w)
  | entry :: entries =>
    match w.append entry with
    | (.ok (), w) => (entry :: (w.appends entries).1, (w.appends entries).2)
    | (.error _, w) => w.appends entries

theorem WalWriter.appends_takes (h : w.Takes entry) : w.appends (entry :: entries) =
    (entry :: ((w.took entry).flush.appends entries).1, ((w.took entry).flush.appends entries).2) := by
  rw [appends, append_takes h]

theorem WalWriter.appends_refuses (h : ¬ w.Takes entry) : w.appends (entry :: entries) = w.appends entries := by
  obtain ⟨err, hfails⟩ := append_refuses h
  rw [appends, hfails]

theorem WalWriter.appends_spec (w : WalWriter) (entries : List WalEntry) :
    (∀ e ∈ (w.appends entries).1, e.toBytes.length < 2 ^ 32) ∧
      (w.appends entries).2.writer.written = w.writer.written ++ (w.appends entries).1.flatMap record ∧
      (((w.appends entries).1 = [] ∧ (w.appends entries).2 = w) ∨
        ((w.appends entries).1 ≠ [] ∧
          (w.appends entries).2.writer.file = (w.appends entries).2.writer.written)) := by
  induction entries generalizing w with
  | nil => exact ⟨by simp [appends], by simp [appends], .inl ⟨rfl, rfl⟩⟩
  | cons entry entries ih =>
    by_cases htakes : w.Takes entry
    · obtain ⟨hlen, hwritten, hcases⟩ := ih (w.took entry).flush
      rw [appends_takes htakes]
      have hfirst : entry.toBytes.length < 2 ^ 32 := by
        have hle := htakes.2
        omega
      refine ⟨List.forall_mem_cons.mpr ⟨hfirst, hlen⟩, ?_, .inr ⟨List.cons_ne_nil _ _, ?_⟩⟩
      · rw [hwritten, flush, BufWriter.written_flush, written_took, List.append_assoc, List.flatMap_cons]
      · rcases hcases with ⟨-, hsame⟩ | ⟨-, hfile⟩
        · rw [hsame, flush, BufWriter.file_flush, BufWriter.written_flush]
        · exact hfile
    · rw [appends_refuses htakes]
      exact ih w

/-- A strict replay of the file applies these entries, in order. -/
def Replays (T : Table σ) (store : σ) (file : List UInt8) (entries : List WalEntry) : Prop :=
  ∃ summary, replayWithMode T store (some file) .Strict = (.ok summary, entries.foldl (applyEntry T) store) ∧
    summary.entriesApplied = entries.length

theorem replay_tooLong {more : List WalEntry} (hfits : ∀ e ∈ entries, Fits e) (hlong : ¬ Fits entry)
    (hlen : entry.toBytes.length < 2 ^ 32) :
    ∃ err, (replayWithMode T store (some (logFile (entries ++ entry :: more))) .Strict).1 = .error err := by
  have hlength : ofBE (toBE ENTRY_LEN_SIZE entry.toBytes.length) = entry.toBytes.length :=
    ofBE_toBE_of_lt (by simpa [ENTRY_LEN_SIZE] using hlen)
  have hrest : (entry :: more).flatMap record = toBE ENTRY_LEN_SIZE entry.toBytes.length ++
      (toBE ENTRY_CKSUM_SIZE (crc32 entry.toBytes).toNat ++ entry.toBytes ++ more.flatMap record) := by
    rw [List.flatMap_cons, record, frame]
    simp only [List.append_assoc]
  have hnext := WalReader.nextEntry_tooLong (r := .at (logFile entries).length ((entry :: more).flatMap record)) rfl
    hrest (toBE_length _ _) (by rw [hlength]; exact Nat.not_le.mp hlong)
  rw [logFile_append, replay_logFile hfits, replayLoop_error hnext]
  exact ⟨_, rfl⟩

theorem replays_logFile_iff (hlen : ∀ e ∈ entries, e.toBytes.length < 2 ^ 32) :
    Replays T store (logFile entries) entries ↔ ∀ e ∈ entries, Fits e := by
  constructor
  · rintro ⟨summary, hreplay, -⟩
    by_contra hlong
    obtain ⟨entry, hfind⟩ : ∃ entry, entries.find? (fun e => !decide (Fits e)) = some entry := by
      apply Option.isSome_iff_exists.mp
      rw [List.find?_isSome]
      simpa using hlong
    obtain ⟨hentry, before, more, rfl, hbefore⟩ := List.find?_eq_some_iff_append.mp hfind
    obtain ⟨err, herr⟩ := @replay_tooLong σ T store entry before more (by simpa using hbefore) (by simpa using hentry)
      (hlen entry (by simp))
    rw [hreplay] at herr
    cases herr
  · intro hfits
    exact ⟨_, replay_whole hfits, rfl⟩

theorem open_new (hnew : file = none ∨ file = some []) (hopen : WalWriter.open file limit = .ok w) :
    w.writer.written = header ∧ w.writer.file = [] := by
  rcases hnew with rfl | rfl
  all_goals
    obtain rfl := Except.ok.inj hopen
    exact ⟨by simp [writeHeader]; rfl, rfl⟩

/-- What a writer has accepted on a new file can be replayed exactly where it all has at most the size that replay
takes. Before the first of it, the file itself is still empty. -/
theorem accepted_replayed_iff (T : Table σ) (store : σ) (hnew : file = none ∨ file = some [])
    (hopen : WalWriter.open file limit = .ok w) (entries : List WalEntry) :
    let accepted := (w.appends entries).1
    let writer := (w.appends entries).2.writer
    (Replays T store writer.flush.file accepted ↔ ∀ e ∈ accepted, Fits e) ∧
      (Replays T store writer.file accepted ↔ accepted ≠ [] ∧ ∀ e ∈ accepted, Fits e) := by
  obtain ⟨hheader, hfile⟩ := open_new hnew hopen
  obtain ⟨hlen, hwritten, hcases⟩ := w.appends_spec entries
  have hlog : (w.appends entries).2.writer.written = logFile (w.appends entries).1 := by rw [hwritten, hheader, logFile]
  dsimp only
  rw [BufWriter.file_flush, hlog]
  refine ⟨replays_logFile_iff hlen, ?_⟩
  rcases hcases with ⟨hnone, hsame⟩ | ⟨hsome, hflushed⟩
  · rw [hsame, hfile, hnone]
    refine ⟨?_, fun h => absurd rfl h.1⟩
    rintro ⟨summary, hreplay, -⟩
    rw [replay_short (by decide)] at hreplay
    cases hreplay
  · rw [hflushed, hlog, replays_logFile_iff hlen]
    exact ⟨fun hfits => ⟨hsome, hfits⟩, fun h => h.2⟩

theorem accepted_replayed_iff_table : ∃ w, WalWriter.open none defaultEntrySizeLimit = .ok w ∧
    (w.appends [.CreateTable "t"]).1 = [.CreateTable "t"] ∧
    Replays memoryTable .new (w.appends [.CreateTable "t"]).2.writer.file [.CreateTable "t"] := by
  obtain ⟨w, hopen⟩ : ∃ w, WalWriter.open none defaultEntrySizeLimit = .ok w := ⟨_, rfl⟩
  have htakes : w.Takes (.CreateTable "t") := by
    obtain rfl := Except.ok.inj hopen
    decide
  have haccepted : (w.appends [.CreateTable "t"]).1 = [.CreateTable "t"] := by
    rw [WalWriter.appends_takes htakes]
    rfl
  have hfile := (accepted_replayed_iff memoryTable .new (.inl rfl) hopen [.CreateTable "t"]).2
  rw [haccepted] at hfile
  exact ⟨w, hopen, haccepted, hfile.mpr ⟨by simp, by decide⟩⟩

/-- A value of 256 MiB: the names make the payload longer than that. -/
def hugeEntry : WalEntry := .Insert "t" "k" (List.replicate defaultEntrySizeLimit 0)

theorem hugeEntry_length : hugeEntry.toBytes.length = defaultEntrySizeLimit + 15 := by
  have htable : (encodeString "t").length = 5 := by decide
  have hkey : (encodeString "k").length = 5 := by decide
  rw [hugeEntry, WalEntry.toBytes, List.length_cons, List.length_append, List.length_append, htable, hkey,
    encodeBytes, List.length_append, toBE_length, List.length_replicate]
  omega

/-- A writer with a limit of 512 MiB accepts it. -/
theorem huge_entry_not_replayed : ∃ w, WalWriter.open none (2 ^ 29) = .ok w ∧
    (w.appends [hugeEntry]).1 = [hugeEntry] ∧ ∀ file ∈ [(w.appends [hugeEntry]).2.writer.file,
      (w.appends [hugeEntry]).2.writer.flush.file], ¬ Replays memoryTable .new file [hugeEntry] := by
  obtain ⟨w, hopen⟩ : ∃ w, WalWriter.open none (2 ^ 29) = .ok w := ⟨_, rfl⟩
  have hlength := hugeEntry_length
  unfold defaultEntrySizeLimit at hlength
  have htakes : w.Takes hugeEntry := by
    obtain rfl := Except.ok.inj hopen
    exact ⟨by dsimp only; omega, by omega⟩
  have hlong : ¬ Replays memoryTable .new (logFile [hugeEntry]) [hugeEntry] := by
    rw [replays_logFile_iff (by simp; omega)]
    simp [Fits, defaultEntrySizeLimit]
    omega
  have haccepted : (w.appends [hugeEntry]).1 = [hugeEntry] := by
    rw [WalWriter.appends_takes htakes]
    rfl
  obtain ⟨-, hwritten, hcases⟩ := w.appends_spec [hugeEntry]
  obtain ⟨-, hflushed⟩ := hcases.resolve_left fun h => by simp [haccepted] at h
  have hlog : (w.appends [hugeEntry]).2.writer.written = logFile [hugeEntry] := by
    rw [hwritten, (open_new (.inl rfl) hopen).1, haccepted, logFile]
  refine ⟨w, hopen, haccepted, ?_⟩
  rw [BufWriter.file_flush, hflushed, hlog]
  simpa using hlong

end TrenchDb.Wal
