import TrenchDb.Wal.Broken
import TrenchDb.Wal.Writer

/-!
# Crashes

A process opens the log, appends and crashes, time after time. What a call that returned `Ok` flushed
stays; of the rest a crash leaves any part of its beginning.
-/

open TrenchDb.Lib TrenchDb.Lib.BigEndian TrenchDb.Lib.Lts

namespace TrenchDb.Wal

/-! ## Runs -/

/-- The path, while no process has it open or while one has. `kept` is what the file holds after the last
call that returned `Ok`. -/
inductive CrashPath
  | closed (file : Option (List UInt8))
  | opened (w : WalWriter) (kept : List UInt8)
  deriving DecidableEq, Repr

/-- `append` is a batch of one entry. A crash may come during an append, of these entries. -/
inductive Event
  | open
  | append (entries : List WalEntry)
  | failed (entries : List WalEntry)
  | crash (entries : List WalEntry)
  | truncate
  deriving DecidableEq, Repr

/-- The entries of an append that returned `Ok`. -/
def Event.acked : Event → List WalEntry
  | .append entries => entries
  | .open | .failed _ | .crash _ | .truncate => []

/-- A lenient replay of the file. -/
def lenient (file : List UInt8) : Except WalError ReplaySummary :=
  (replayWithMode memoryTable .new (some file) .Lenient).1

/-- `truncate` stands for what a caller can do about a torn tail: the file is cut where a lenient replay
of it stopped. No code of the module does so. -/
inductive Step : CrashPath → Event → CrashPath → Prop
  | open {file : Option (List UInt8)} {w : WalWriter} (h : WalWriter.open file defaultEntrySizeLimit = .ok w) :
      Step (.closed file) .open (.opened w (file.getD []))
  | append {w w' : WalWriter} {kept : List UInt8} {entries : List WalEntry}
      (h : w.appendBatch entries = (.ok (), w')) : Step (.opened w kept) (.append entries) (.opened w' w'.writer.file)
  | failed {w w' : WalWriter} {kept : List UInt8} {entries : List WalEntry} {err : WalError}
      (h : w.appendBatch entries = (.error err, w')) : Step (.opened w kept) (.failed entries) (.opened w' kept)
  | crash {w : WalWriter} {kept file : List UInt8} {entries : List WalEntry} (hkept : kept <+: file)
      (hfile : file <+: (w.appendEntries entries).2.writer.written) :
      Step (.opened w kept) (.crash entries) (.closed (some file))
  | truncate {file : List UInt8} {summary : ReplaySummary} (h : lenient file = .ok summary) :
      Step (.closed (some file)) .truncate (.closed (some (file.take summary.finalPosition)))

/-- The file has no record that is not whole: it is empty, or a lenient replay ends where it ends. -/
def Untorn (file : List UInt8) : Prop :=
  file = [] ∨ ∃ summary, lenient file = .ok summary ∧ summary.finalPosition = file.length

/-- A step of a caller that opens no torn log. -/
inductive CarefulStep (p : CrashPath) (e : Event) (p' : CrashPath) : Prop
  | mk (h : Step p e p') (huntorn : e = .open → ∀ file, p = .closed (some file) → Untorn file)

/-- A lenient replay of the file applies these entries, one after another, to whatever store. -/
def Applies (file : Option (List UInt8)) (entries : List WalEntry) : Prop :=
  ∀ (σ : Type) (T : Table σ) (store : σ),
    (replayWithMode T store file .Lenient).2 = entries.foldl (applyEntry T) store

/-! ## What survives -/

/-- The acknowledged entries are in whole records of the file. -/
def FileKeeps (acked : List WalEntry) (file : List UInt8) : Prop :=
  (file.length < WAL_HEADER_SIZE ∧ acked = []) ∨
    ∃ log, (∀ e ∈ log, Fits e) ∧ file <+: logFile log ∧ WAL_HEADER_SIZE ≤ file.length ∧
      acked.Sublist (log.take (wholeRecords log file.length))

def Keeps (acked : List WalEntry) : CrashPath → Prop
  | .closed none => acked = []
  | .closed (some file) => FileKeeps acked file
  | .opened w kept => w.entrySizeLimit = defaultEntrySizeLimit ∧
      ∃ log safe, (∀ e ∈ log, Fits e) ∧ w.writer.written = logFile log ∧ safe <+: log ∧ acked.Sublist safe ∧
        (acked = [] ∨ logFile safe <+: kept)

variable {file kept : List UInt8} {log safe acked entries : List WalEntry} {w w' : WalWriter}
  {summary : ReplaySummary} {events : List Event} {e : Event} {p p' : CrashPath}

theorem wholeRecords_logFile (log : List WalEntry) : wholeRecords log (logFile log).length = log.length :=
  Nat.le_antisymm (wholeRecords_le (header_le_logFile log))
    (le_wholeRecords (Nat.le_refl _) (by rw [logFile_length]))

theorem lenient_short (h : file.length < WAL_HEADER_SIZE) : lenient file ≠ .ok summary := by
  unfold lenient
  rw [replay_short h]
  exact nofun

theorem lenient_cut (hfits : ∀ e ∈ log, Fits e) (hcut : file <+: logFile log)
    (hheader : WAL_HEADER_SIZE ≤ file.length) (h : lenient file = .ok summary) :
    file.take summary.finalPosition = logFile (log.take (wholeRecords log file.length)) := by
  obtain ⟨tail, hfile, htail⟩ := cut_logFile hcut hheader
  have htake : ∀ e ∈ log.take (wholeRecords log file.length), Fits e := fun e he => hfits e (List.mem_of_mem_take he)
  have hposition : summary.finalPosition = (logFile (log.take (wholeRecords log file.length))).length := by
    unfold lenient at h
    by_cases hempty : tail = []
    · rw [hempty, List.append_nil] at hfile
      rw [hfile, replay_whole htake] at h
      obtain rfl := Except.ok.inj h
      rfl
    · obtain ⟨e, he, hpart, hshort⟩ := htail.resolve_right hempty
      rw [hfile, replay_torn htake (hfits e he) hempty hpart hshort] at h
      obtain rfl := Except.ok.inj h
      rfl
  generalize log.take (wholeRecords log file.length) = whole at hfile hposition ⊢
  rw [hfile, hposition, List.take_left]

theorem open_none_keeps (h : WalWriter.open none defaultEntrySizeLimit = .ok w) : Keeps [] (.opened w kept) := by
  obtain ⟨hlimit, -, hcases⟩ := WalWriter.open_eq_ok h
  rcases hcases with ⟨-, hwritten, -⟩ | ⟨bytes, hnone, -⟩
  · exact ⟨hlimit, [], [], by simp, hwritten, List.prefix_refl _, List.Sublist.refl _, .inl rfl⟩
  · exact nomatch hnone

theorem open_some_keeps (h : WalWriter.open (some file) defaultEntrySizeLimit = .ok w)
    (hkeeps : FileKeeps acked file) (huntorn : Untorn file) : Keeps acked (.opened w file) := by
  obtain ⟨hlimit, -, hcases⟩ := WalWriter.open_eq_ok h
  rcases hcases with ⟨hempty, hwritten, -⟩ | ⟨bytes, hbytes, hne, hnew⟩
  · have hnil : file = [] := by simpa using hempty
    subst hnil
    have hacked : acked = [] := by
      rcases hkeeps with ⟨-, hacked⟩ | ⟨-, -, -, hheader, -⟩
      · exact hacked
      · exact absurd hheader (by decide)
    subst hacked
    exact ⟨hlimit, [], [], by simp, hwritten, List.prefix_refl _, List.Sublist.refl _, .inl rfl⟩
  · obtain rfl := Option.some.inj hbytes
    obtain ⟨summary, hsummary, hend⟩ := huntorn.resolve_left hne
    rcases hkeeps with ⟨hshort, -⟩ | ⟨log, hfits, hcut, hheader, hacked⟩
    · exact absurd hsummary (lenient_short hshort)
    · have hfile := lenient_cut hfits hcut hheader hsummary
      rw [hend, List.take_length] at hfile
      exact ⟨hlimit, log.take (wholeRecords log file.length), log.take (wholeRecords log file.length),
        fun e he => hfits e (List.mem_of_mem_take he), by rw [hnew, BufWriter.written_new, ← hfile],
        List.prefix_refl _, hacked, .inr (by rw [← hfile])⟩

theorem append_keeps (hkeeps : Keeps acked (.opened w kept)) (h : w.appendBatch entries = (.ok (), w')) :
    Keeps (acked ++ entries) (.opened w' w'.writer.file) := by
  obtain ⟨hlimit, log, safe, hfits, hwritten, hsafe, hacked, -⟩ := hkeeps
  obtain ⟨hok, rfl⟩ := WalWriter.appendBatch_eq_ok h
  obtain ⟨taken, -, hfits', hall, hwritten', -, hlimit'⟩ := @WalWriter.appendEntries_spec w entries hlimit
  obtain rfl := hall hok
  have hlog : (w.appendEntries taken).2.flush.writer.written = logFile (log ++ taken) := by
    rw [WalWriter.flush, BufWriter.written_flush, hwritten', hwritten, logFile_append]
  exact ⟨hlimit', log ++ taken, log ++ taken, List.forall_mem_append.mpr ⟨hfits, hfits'⟩, hlog,
    List.prefix_refl _, (hacked.trans hsafe.sublist).append_right taken, .inr (by rw [← hlog]; simp [WalWriter.flush])⟩

theorem failed_keeps {err : WalError} (hkeeps : Keeps acked (.opened w kept))
    (h : w.appendBatch entries = (.error err, w')) : Keeps acked (.opened w' kept) := by
  obtain ⟨hlimit, log, safe, hfits, hwritten, hsafe, hacked, hkept⟩ := hkeeps
  obtain rfl := WalWriter.appendBatch_eq_error h
  obtain ⟨taken, -, hfits', -, hwritten', -, hlimit'⟩ := @WalWriter.appendEntries_spec w entries hlimit
  refine ⟨hlimit', log ++ taken, safe, List.forall_mem_append.mpr ⟨hfits, hfits'⟩, ?_,
    hsafe.trans (List.prefix_append _ _), hacked, hkept⟩
  rw [hwritten', hwritten, logFile_append]

theorem crash_keeps (hkeeps : Keeps acked (.opened w kept)) (hkept : kept <+: file)
    (hfile : file <+: (w.appendEntries entries).2.writer.written) : FileKeeps acked file := by
  obtain ⟨hlimit, log, safe, hfits, hwritten, hsafe, hacked, hflushed⟩ := hkeeps
  obtain ⟨taken, -, hfits', -, hwritten', -, -⟩ := @WalWriter.appendEntries_spec w entries hlimit
  rw [hwritten', hwritten, ← logFile_append] at hfile
  have hall := List.forall_mem_append.mpr ⟨hfits, hfits'⟩
  rcases hflushed with rfl | hflushed
  · rcases Nat.lt_or_ge file.length WAL_HEADER_SIZE with hshort | hheader
    · exact .inl ⟨hshort, rfl⟩
    · exact .inr ⟨log ++ taken, hall, hfile, hheader, List.nil_sublist _⟩
  · have hle : (logFile safe).length ≤ file.length := (hflushed.trans hkept).length_le
    refine .inr ⟨log ++ taken, hall, hfile, (header_le_logFile safe).trans hle, hacked.trans ?_⟩
    -- The safe entries are the first ones of the log, and their records end before the cut.
    obtain ⟨more, hmore⟩ := hsafe.trans (List.prefix_append log taken)
    have htake : (log ++ taken).take safe.length = safe := by rw [← hmore, List.take_left]
    have hwhole : safe.length ≤ wholeRecords (log ++ taken) file.length := by
      apply le_wholeRecords
      · rw [← hmore, List.length_append]
        omega
      · rwa [recordStart_eq, htake]
    have hsublist : ((log ++ taken).take safe.length).Sublist _ := List.take_sublist_take_left hwhole
    rwa [htake] at hsublist

theorem truncate_keeps (hkeeps : FileKeeps acked file) (h : lenient file = .ok summary) :
    FileKeeps acked (file.take summary.finalPosition) := by
  rcases hkeeps with ⟨hshort, -⟩ | ⟨log, hfits, hcut, hheader, hacked⟩
  · exact absurd h (lenient_short hshort)
  · rw [lenient_cut hfits hcut hheader h]
    have htake : ∀ e ∈ log.take (wholeRecords log file.length), Fits e := fun e he => hfits e (List.mem_of_mem_take he)
    refine .inr ⟨_, htake, List.prefix_refl _, header_le_logFile _, ?_⟩
    rwa [wholeRecords_logFile, List.take_length]

theorem step_keeps (hkeeps : Keeps acked p) (h : CarefulStep p e p') : Keeps (acked ++ e.acked) p' := by
  obtain ⟨hstep, huntorn⟩ := h
  cases hstep with
  | @«open» found w hopen =>
    rw [Event.acked, List.append_nil]
    cases found with
    | none =>
      obtain rfl : acked = [] := hkeeps
      exact open_none_keeps hopen
    | some file => exact open_some_keeps hopen hkeeps (huntorn rfl file rfl)
  | append happend => exact append_keeps hkeeps happend
  | failed hfailed =>
    rw [Event.acked, List.append_nil]
    exact failed_keeps hkeeps hfailed
  | crash hkept hfile =>
    rw [Event.acked, List.append_nil]
    exact crash_keeps hkeeps hkept hfile
  | truncate hsummary =>
    rw [Event.acked, List.append_nil]
    exact truncate_keeps hkeeps hsummary

theorem run_keeps {start : CrashPath} (hstart : start = .closed none ∨ start = .closed (some []))
    (hrun : Run CarefulStep start events p) : Keeps (events.flatMap Event.acked) p := by
  refine hrun.invariant (P := fun events p => Keeps (events.flatMap Event.acked) p) ?_ fun ls t l u hkeeps hstep => ?_
  · rcases hstart with rfl | rfl
    · rfl
    · exact .inl ⟨by decide, rfl⟩
  · rw [List.flatMap_append, List.flatMap_singleton]
    exact step_keeps hkeeps hstep

theorem keeps_applies {found : Option (List UInt8)} (hkeeps : Keeps acked (.closed found)) :
    ∃ applied, Applies found applied ∧ acked.Sublist applied := by
  cases found with
  | none =>
    obtain rfl : acked = [] := hkeeps
    exact ⟨[], fun _ _ _ => rfl, List.Sublist.refl _⟩
  | some file =>
    rcases hkeeps with ⟨hshort, rfl⟩ | ⟨log, hfits, hcut, hheader, hacked⟩
    · exact ⟨[], fun σ T store => by rw [replay_short hshort]; rfl, List.Sublist.refl _⟩
    · exact ⟨_, fun σ T store => replay_prefix_store hfits hcut hheader, hacked⟩

/-- A log is empty at first, and whenever it is opened it was cut after its last whole record. -/
theorem acked_survive {start : CrashPath} {found : Option (List UInt8)}
    (hstart : start = .closed none ∨ start = .closed (some []))
    (hrun : Run CarefulStep start events (.closed found)) :
    ∃ applied, Applies found applied ∧ (events.flatMap Event.acked).Sublist applied :=
  keeps_applies (run_keeps hstart hrun)

/-- A torn record that is cut off before the log is opened again. -/
def cutBeforeOpen : List Event :=
  [.open, .append [.CreateTable "t"], .crash [.CreateTable "u"], .truncate, .open, .append [.CreateTable "u"],
    .crash []]

theorem run_cutBeforeOpen : Run CarefulStep (.closed none) cutBeforeOpen
    (.closed (some (logFile [.CreateTable "t", .CreateTable "u"]))) := by
  have hfirst : WalWriter.open none defaultEntrySizeLimit =
      .ok { writer := writeHeader (.new []), entrySizeLimit := defaultEntrySizeLimit, position := 8 } := rfl
  have htorn : lenient (logFile [.CreateTable "t"] ++ [0, 0]) =
      .ok { progress 1 22 with truncatedAt := some 22 } := by
    unfold lenient
    rw [@replay_torn _ _ _ _ _ (.CreateTable "u") [0, 0] (by decide) (by decide) (by decide) (by decide +kernel)
      (by decide)]
    rfl
  have huntorn : Untorn (logFile [.CreateTable "t"]) := by
    refine .inr ⟨progress 1 22, ?_, rfl⟩
    unfold lenient
    rw [replay_whole (by decide)]
    rfl
  have hcut : (logFile [.CreateTable "t"] ++ [0, 0]).take 22 = logFile [.CreateTable "t"] := rfl
  have hsecond : WalWriter.open (some (logFile [.CreateTable "t"])) defaultEntrySizeLimit =
      .ok { writer := .new (logFile [.CreateTable "t"]), entrySizeLimit := defaultEntrySizeLimit, position := 22 } :=
    rfl
  refine .cons ⟨.open hfirst, nofun⟩ ?_
  refine .cons ⟨.append (Prod.ext (show _ = Except.ok () by decide +kernel) rfl), nofun⟩ ?_
  refine .cons ⟨.crash (show _ <+: logFile [.CreateTable "t"] ++ [0, 0] by decide +kernel) (by decide +kernel),
    nofun⟩ ?_
  refine .cons ⟨.truncate htorn, nofun⟩ ?_
  rw [show (progress 1 22).finalPosition = 22 from rfl, hcut]
  refine .cons ⟨.open hsecond, fun _ file heq => ?_⟩ ?_
  · obtain rfl := Option.some.inj (CrashPath.closed.inj heq)
    exact huntorn
  refine .cons ⟨.append (Prod.ext (show _ = Except.ok () by decide +kernel) rfl), nofun⟩ ?_
  exact .single ⟨.crash (by decide +kernel) (by decide +kernel), nofun⟩

theorem acked_survive_cut : ∃ applied, Applies (some (logFile [.CreateTable "t", .CreateTable "u"])) applied ∧
    [WalEntry.CreateTable "t", .CreateTable "u"].Sublist applied :=
  acked_survive (.inl rfl) run_cutBeforeOpen

/-! ## A torn log that is opened -/

/-- A store that counts the calls. -/
def countTable : Table Nat :=
  { Handle := Unit
    get := fun _ _ => some ()
    create := fun n _ => ((), n + 1)
    remove := fun n _ => n + 1
    insertKey := fun n _ _ _ => n + 1
    updateKey := fun n _ _ _ => n + 1
    removeKey := fun n _ _ => n + 1 }

theorem countTable_applyEntry (n : Nat) (entry : WalEntry) : n < applyEntry countTable n entry := by
  cases entry with
  | CreateTable | RemoveTable | Delete => exact Nat.lt_succ_self n
  | Insert | Update =>
    simp only [applyEntry, countTable]
    omega

theorem countTable_foldl (entries : List WalEntry) (n : Nat) :
    n + entries.length ≤ entries.foldl (applyEntry countTable) n := by
  induction entries generalizing n with
  | nil => exact Nat.le_refl _
  | cons entry entries ih =>
    have hfirst := countTable_applyEntry n entry
    have hrest := ih (applyEntry countTable n entry)
    rw [List.foldl_cons, List.length_cons]
    omega

/-- Two bytes of the first record. -/
def tornFile : List UInt8 := header ++ [0, 0]

def lostFile : List UInt8 := tornFile ++ record (.CreateTable "u")

/-- The first record is torn by a crash, and the next process appends behind it. -/
def appendToTorn : List Event :=
  [.open, .crash [.CreateTable "t"], .open, .append [.CreateTable "u"], .crash []]

theorem run_appendToTorn : Run Step (.closed none) appendToTorn (.closed (some lostFile)) := by
  have hfirst : WalWriter.open none defaultEntrySizeLimit =
      .ok { writer := writeHeader (.new []), entrySizeLimit := defaultEntrySizeLimit, position := 8 } := rfl
  have hsecond : WalWriter.open (some tornFile) defaultEntrySizeLimit =
      .ok { writer := .new tornFile, entrySizeLimit := defaultEntrySizeLimit, position := 10 } := rfl
  refine .cons (.open hfirst) ?_
  refine .cons (.crash List.nil_prefix (show tornFile <+: _ by decide +kernel)) ?_
  refine .cons (.open hsecond) ?_
  refine .cons (.append (Prod.ext (show _ = Except.ok () by decide +kernel) rfl)) ?_
  exact .single (.crash (by decide +kernel) (by decide +kernel))

/-- The torn record swallows the one behind it. -/
theorem lostFile_applies {applied : List WalEntry} (h : Applies (some lostFile) applied) : applied = [] := by
  have hframe : lostFile =
      logFile [] ++ (frame (UInt32.ofNat (ofBE ((lostFile.drop 12).take 4))) [] ++ lostFile.drop 16) := by
    decide +kernel
  have hnone : (replayWithMode countTable 0 (some lostFile) .Lenient).2 = 0 := by
    rw [hframe, replay_mismatch (by simp) (by decide) (by decide +kernel)]
    rfl
  have hcount := countTable_foldl applied 0
  rw [← h Nat countTable 0, hnone] at hcount
  exact List.length_eq_zero_iff.mp (by omega)

theorem acked_lost : ∃ events found, Run Step (.closed none) events (.closed found) ∧ .truncate ∉ events ∧
    ¬ ∃ applied, Applies found applied ∧ (events.flatMap Event.acked).Sublist applied := by
  refine ⟨appendToTorn, some lostFile, run_appendToTorn, by decide, ?_⟩
  rintro ⟨applied, happlies, hsublist⟩
  rw [lostFile_applies happlies] at hsublist
  exact nomatch List.sublist_nil.mp hsublist

end TrenchDb.Wal
