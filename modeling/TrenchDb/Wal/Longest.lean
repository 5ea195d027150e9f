import TrenchDb.Wal.Broken
import TrenchDb.Wal.ReadOn
import TrenchDb.Wal.Writer

/-!
# How much of a log is good

`ReplayMode::Lenient` leaves it to the caller to truncate the file. Where it stops is the end of the longest
beginning that a strict replay takes, and a file that is cut there can be appended to as before.
-/

open TrenchDb.Lib TrenchDb.Lib.Lts

namespace TrenchDb.Wal

/-! ## Beginnings of a file -/

section Beginnings

variable {file part tail : List UInt8} {position n : Nat}

theorem validateHeader_take (hheader : validateHeader file = .ok ()) (hn : WAL_HEADER_SIZE ≤ n) :
    validateHeader (file.take n) = .ok () := by
  have hle := header_le_of_valid hheader
  have hmagic : (file.take n).take 4 = file.take 4 := by
    rw [List.take_take, Nat.min_eq_left (by unfold WAL_HEADER_SIZE at hn; omega)]
  have hversion : (file.take n).getD 4 0 = file.getD 4 0 := by
    rw [List.getD_eq_getElem?_getD, List.getElem?_take_of_lt (by unfold WAL_HEADER_SIZE at hn; omega),
      ← List.getD_eq_getElem?_getD]
  unfold validateHeader at hheader ⊢
  rw [hmagic, hversion, List.length_take, if_neg (by omega)]
  rwa [if_neg (by omega)] at hheader

theorem validateHeader_append (hheader : validateHeader file = .ok ()) (more : List UInt8) :
    validateHeader (file ++ more) = .ok () := by
  have hle := header_le_of_valid hheader
  unfold WAL_HEADER_SIZE at hle
  have hmagic : (file ++ more).take 4 = file.take 4 := List.take_append_of_le_length (by omega)
  have hversion : (file ++ more).getD 4 0 = file.getD 4 0 := by
    rw [List.getD_eq_getElem?_getD, List.getElem?_append_left (by omega), ← List.getD_eq_getElem?_getD]
  unfold validateHeader at hheader ⊢
  rw [hmagic, hversion, List.length_append, if_neg (by unfold WAL_HEADER_SIZE; omega)]
  rwa [if_neg (by unfold WAL_HEADER_SIZE; omega)] at hheader

theorem nextEntry_part (hpart : part <+: tail) (hne : part ≠ []) {err : WalError}
    (h : (WalReader.at position tail).nextEntry.1 = .error err) :
    ∃ err, (WalReader.at position part).nextEntry.1 = .error err := by
  cases WalReader.nextEntry_next (r := .at position part) rfl with
  | done hrest _ => exact absurd hrest hne
  | cut _ _ hnext | tooLong _ _ _ hnext | mismatch _ _ _ _ hnext | undecodable _ _ _ _ hnext =>
    exact ⟨_, congrArg Prod.fst hnext⟩
  | @entry entry more hrest hlimit _ _ =>
    -- A whole record in the part is one in the file.
    obtain ⟨rest, rfl⟩ := hpart
    have hrecord : (WalReader.at position (part ++ rest)).rest = record entry ++ (more ++ rest) := by
      rw [← List.append_assoc, ← show part = record entry ++ more from hrest]
      rfl
    rw [WalReader.nextEntry_record hlimit rfl rfl hrecord] at h
    cases h

end Beginnings

/-! ## The longest beginning -/

section Longest

variable {σ : Type} {T : Table σ} {store store' : σ} {file : List UInt8} {summary : ReplaySummary}

/-- A strict replay of the file succeeds. -/
def Accepted (T : Table σ) (store : σ) (file : List UInt8) : Prop :=
  ∃ summary, (replayWithMode T store (some file) .Strict).1 = .ok summary

/-- What a lenient replay has found: whole records up to its final position, and after them nothing that the
reader takes. -/
structure Found (T : Table σ) (store : σ) (file : List UInt8) (summary : ReplaySummary) (store' : σ)
    (entries : List WalEntry) : Prop where
  header : validateHeader file = .ok ()
  fits : ∀ e ∈ entries, Fits e
  position : summary.finalPosition = WAL_HEADER_SIZE + (entries.flatMap record).length
  applied : summary.entriesApplied = entries.length
  store : store' = entries.foldl (applyEntry T) store
  records : (file.take summary.finalPosition).drop WAL_HEADER_SIZE = entries.flatMap record
  stuck : file.drop summary.finalPosition = [] ∨
    ∃ err, (WalReader.at summary.finalPosition (file.drop summary.finalPosition)).nextEntry.1 = .error err

theorem found (h : replayWithMode T store (some file) .Lenient = (.ok summary, store')) :
    ∃ entries, Found T store file summary store' entries := by
  have hheader : validateHeader file = .ok () := by
    cases hv : validateHeader file with
    | ok => rfl
    | error err =>
      rw [replay_invalid hv] at h
      cases h
  have hle := header_le_of_valid hheader
  obtain ⟨entries, stuck, hfits, hfile, hstuck⟩ := tail_cases WAL_HEADER_SIZE (file.drop WAL_HEADER_SIZE)
  rw [replay_valid hheader hfits hfile] at h
  have herror : stuck = [] ∨
      ∃ err, (WalReader.at (WAL_HEADER_SIZE + (entries.flatMap record).length) stuck).nextEntry.1 = .error err := by
    rcases hstuck with hnil | (heof | ⟨reason, hreason⟩) | ⟨payload, rest, rfl, hlimit, hpayload⟩
    · exact .inl hnil
    · exact .inr ⟨_, heof⟩
    · exact .inr ⟨_, hreason⟩
    · obtain ⟨message, hnext⟩ := nextEntry_undecodable
        (r := .at (WAL_HEADER_SIZE + (entries.flatMap record).length) (frame (crc32 payload) payload ++ rest)) rfl rfl
        hlimit (by unfold defaultEntrySizeLimit at hlimit; omega) hpayload
      exact .inr ⟨_, congrArg Prod.fst hnext⟩
  have hdrop : file.drop (WAL_HEADER_SIZE + (entries.flatMap record).length) = stuck := by
    rw [← List.drop_drop, hfile, List.drop_left]
  have htake : (file.take (WAL_HEADER_SIZE + (entries.flatMap record).length)).drop WAL_HEADER_SIZE =
      entries.flatMap record := by
    rw [List.drop_take, Nat.add_sub_cancel_left, hfile, List.take_left]
  have hsummary : summary.finalPosition = WAL_HEADER_SIZE + (entries.flatMap record).length ∧
      summary.entriesApplied = entries.length ∧ store' = entries.foldl (applyEntry T) store := by
    rcases herror with rfl | ⟨err, herr⟩
    · rw [replayLoop_end (WalReader.nextEntry_nil rfl)] at h
      cases h
      exact ⟨rfl, rfl, rfl⟩
    · rw [replayLoop_error (Prod.ext herr rfl)] at h
      cases h
      cases err <;> exact ⟨rfl, rfl, rfl⟩
  refine ⟨entries, hheader, hfits, hsummary.1, hsummary.2.1, hsummary.2.2, ?_, ?_⟩
  · rw [hsummary.1, htake]
  · rw [hsummary.1, hdrop]
    exact herror

theorem Found.length_le {entries : List WalEntry} (h : Found T store file summary store' entries) :
    summary.finalPosition ≤ file.length := by
  have hrecords := congrArg List.length h.records
  have hheader := header_le_of_valid h.header
  have hposition := h.position
  rw [List.length_drop, List.length_take] at hrecords
  omega

theorem strict_whole {entries : List WalEntry} (hheader : validateHeader file = .ok ()) (hfits : ∀ e ∈ entries, Fits e)
    (hfile : file.drop WAL_HEADER_SIZE = entries.flatMap record) :
    replayWithMode T store (some file) .Strict =
      (.ok (progress entries.length file.length), entries.foldl (applyEntry T) store) := by
  have hle := header_le_of_valid hheader
  have hlength := congrArg List.length hfile
  rw [List.length_drop] at hlength
  rw [← List.append_nil (entries.flatMap record)] at hfile
  rw [replay_valid hheader hfits hfile, replayLoop_end (WalReader.nextEntry_nil rfl),
    show WAL_HEADER_SIZE + (entries.flatMap record).length = file.length by omega]

theorem Found.strict {entries : List WalEntry} (h : Found T store file summary store' entries) :
    replayWithMode T store (some (file.take summary.finalPosition)) .Strict =
      (.ok (progress summary.entriesApplied summary.finalPosition), store') := by
  have hheader := validateHeader_take h.header (n := summary.finalPosition) (by rw [h.position]; omega)
  rw [strict_whole hheader h.fits h.records, h.applied, h.store, List.length_take, Nat.min_eq_left h.length_le]

theorem Found.longest {entries : List WalEntry} (h : Found T store file summary store' entries) {n : Nat}
    (hn : n ≤ file.length) (haccepted : Accepted T store (file.take n)) : n ≤ summary.finalPosition := by
  by_contra hgt
  have hposition := h.position
  have hheader := validateHeader_take h.header (n := n) (by omega)
  have hsplit : file.take n =
      file.take summary.finalPosition ++ (file.drop summary.finalPosition).take (n - summary.finalPosition) := by
    conv_lhs => rw [show n = summary.finalPosition + (n - summary.finalPosition) by omega, List.take_add]
  have hpart : (file.drop summary.finalPosition).take (n - summary.finalPosition) ≠ [] := by
    apply List.ne_nil_of_length_pos
    rw [List.length_take, List.length_drop]
    omega
  have hfile : (file.take n).drop WAL_HEADER_SIZE =
      entries.flatMap record ++ (file.drop summary.finalPosition).take (n - summary.finalPosition) := by
    rw [hsplit, List.drop_append_of_le_length (by rw [List.length_take]; have := h.length_le; omega), h.records]
  obtain ⟨err, herr⟩ := h.stuck.resolve_left fun hnil => hpart (by rw [hnil, List.take_nil])
  obtain ⟨err', herr'⟩ := nextEntry_part (List.take_prefix _ _) hpart herr
  obtain ⟨_, hok⟩ := haccepted
  rw [replay_valid hheader h.fits hfile, ← hposition, replayLoop_error (Prod.ext herr' rfl)] at hok
  cases hok

end Longest

/-! ## Going on with a log -/

section Continued

variable {base : List UInt8} {calls : List Call} {c : Call} {p p' : LogPath}

/-- What the path holds after calls that appended these entries to a file. -/
def Extends (base : List UInt8) (calls : List Call) (p : LogPath) : Prop :=
  (∀ e ∈ calls.flatMap Call.entries, Fits e) ∧
    match p with
    | .closed file => file = some (base ++ (calls.flatMap Call.entries).flatMap record)
    | .opened w => w.entrySizeLimit = defaultEntrySizeLimit ∧ w.position = w.writer.written.length ∧
        w.writer.written = base ++ (calls.flatMap Call.entries).flatMap record

theorem extends_snoc (hbase : base ≠ []) (h : Extends base calls p) (hstep : Succeeds p c p') :
    Extends base (calls ++ [c]) p' := by
  have hsnoc : (calls ++ [c]).flatMap Call.entries = calls.flatMap Call.entries ++ c.entries := by simp
  rcases hstep.cases with ⟨file, w, rfl, rfl, hopen, rfl⟩ | ⟨w, w', rfl, -, happend, rfl⟩ | ⟨w, rfl, rfl, rfl⟩
  · obtain ⟨hfits, rfl⟩ := h
    obtain ⟨hlimit, hposition, hcases⟩ := WalWriter.open_eq_ok hopen
    have hentries : (calls ++ [Call.open]).flatMap Call.entries = calls.flatMap Call.entries := by
      simp [Call.entries]
    refine ⟨by rwa [hentries], hlimit, hposition, ?_⟩
    rw [hentries]
    rcases hcases with ⟨hnone, -, -⟩ | ⟨bytes, hbytes, -, hnew⟩
    · simp [hbase] at hnone
    · rw [hnew, BufWriter.written_new, Option.some.inj hbytes]
  · obtain ⟨hfits, hlimit, hposition, hwritten⟩ := h
    obtain ⟨hfits', hlimit', hposition', hwritten', -⟩ := appendBatch_holds hlimit hposition happend
    refine ⟨?_, hlimit', hposition', ?_⟩
    · rw [hsnoc]
      exact List.forall_mem_append.mpr ⟨hfits, hfits'⟩
    · rw [hwritten', hwritten, hsnoc, List.flatMap_append, List.append_assoc]
  · obtain ⟨hfits, -, -, hwritten⟩ := h
    have hentries : (calls ++ [Call.drop]).flatMap Call.entries = calls.flatMap Call.entries := by
      simp [Call.entries]
    exact ⟨by rwa [hentries], by rw [hentries, ← hwritten]; rfl⟩

theorem extends_run (hbase : base ≠ []) (hrun : Run Succeeds (.closed (some base)) calls p) : Extends base calls p :=
  hrun.invariant (P := Extends base) ⟨by simp, by simp⟩ fun _ _ _ _ h hstep => extends_snoc hbase h hstep

end Continued

section Repaired

variable {σ : Type} {T : Table σ} {store store' : σ} {file : List UInt8} {summary : ReplaySummary}

/-- A lenient replay stops at the end of the longest beginning of the file that a strict replay takes, and applies what
that applies. And if the file is cut there, a writer can open it, and whatever is appended in cycles of calls that
succeed, a strict replay then applies what was kept and what was appended. -/
theorem lenient_longest (h : replayWithMode T store (some file) .Lenient = (.ok summary, store')) :
    replayWithMode T store (some (file.take summary.finalPosition)) .Strict =
        (.ok (progress summary.entriesApplied summary.finalPosition), store') ∧
      (∀ n, n ≤ file.length → Accepted T store (file.take n) → n ≤ summary.finalPosition) ∧
      (∃ p, Succeeds (.closed (some (file.take summary.finalPosition))) .open p) ∧
      ∀ calls bytes, Run Succeeds (.closed (some (file.take summary.finalPosition))) calls (.closed (some bytes)) →
        replayWithMode T store (some bytes) .Strict =
          (.ok (progress (summary.entriesApplied + (calls.flatMap Call.entries).length) bytes.length),
            (calls.flatMap Call.entries).foldl (applyEntry T) store') := by
  obtain ⟨entries, hfound⟩ := found h
  have hle := hfound.length_le
  have hposition := hfound.position
  have hlen : (file.take summary.finalPosition).length = summary.finalPosition := by
    rw [List.length_take, Nat.min_eq_left hle]
  have hheader := validateHeader_take hfound.header (n := summary.finalPosition) (by omega)
  have hne : file.take summary.finalPosition ≠ [] := by
    apply List.ne_nil_of_length_pos
    rw [hlen, hposition]
    unfold WAL_HEADER_SIZE
    omega
  refine ⟨hfound.strict, fun n => hfound.longest, ?_, fun calls bytes hrun => ?_⟩
  · have hopen : ∃ w, WalWriter.open (some (file.take summary.finalPosition)) defaultEntrySizeLimit = .ok w := by
      unfold WalWriter.open
      simp only [if_neg (mt List.length_eq_zero_iff.mp hne), hheader]
      exact ⟨_, rfl⟩
    obtain ⟨w, hw⟩ := hopen
    exact ⟨.opened w, by simp only [Succeeds, LogPath.call, hw]⟩
  · obtain ⟨hfits, hfile⟩ := extends_run hne hrun
    obtain rfl := Option.some.inj hfile
    have hrecords : (file.take summary.finalPosition ++ (calls.flatMap Call.entries).flatMap record).drop
        WAL_HEADER_SIZE = (entries ++ calls.flatMap Call.entries).flatMap record := by
      rw [List.drop_append_of_le_length (by omega), hfound.records, List.flatMap_append]
    rw [strict_whole (validateHeader_append hheader _) (List.forall_mem_append.mpr ⟨hfound.fits, hfits⟩) hrecords,
      List.foldl_append, ← hfound.store, List.length_append, hfound.applied]

/-- A record whose checksum is wrong, between two that are whole. -/
def damagedSecond : List UInt8 := logFile [.CreateTable "t"] ++ (frame 0 [0] ++ record (.CreateTable "u"))

theorem lenient_damagedSecond : replayWithMode memoryTable .new (some damagedSecond) .Lenient =
    (.ok { progress 1 (logFile [.CreateTable "t"]).length with
        corruptionDetectedAt := some (logFile [.CreateTable "t"]).length },
      applyEntry memoryTable .new (.CreateTable "t")) := by
  have hfits : ∀ e ∈ [WalEntry.CreateTable "t"], Fits e := by decide +kernel
  have hchecksum : crc32 [0] ≠ 0 := by decide +kernel
  exact replay_mismatch hfits (by decide) hchecksum

theorem lenient_longest_damagedSecond :
    (∀ n, n ≤ damagedSecond.length → Accepted memoryTable .new (damagedSecond.take n) →
      n ≤ (logFile [.CreateTable "t"]).length) ∧
    ∀ bytes, Run Succeeds (.closed (some (damagedSecond.take (logFile [.CreateTable "t"]).length)))
        [.open, .append (.CreateTable "v"), .drop] (.closed (some bytes)) →
      (replayWithMode memoryTable .new (some bytes) .Strict).2 =
        [WalEntry.CreateTable "t", .CreateTable "v"].foldl (applyEntry memoryTable) .new := by
  obtain ⟨-, hlongest, -, hcontinued⟩ := lenient_longest lenient_damagedSecond
  exact ⟨hlongest, fun bytes hrun => congrArg Prod.snd (hcontinued _ bytes hrun)⟩

end Repaired

end TrenchDb.Wal
