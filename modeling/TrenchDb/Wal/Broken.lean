import TrenchDb.Wal.Replay

/-!
# Logs that are cut or damaged

What replay makes of a prefix of a log, and of a log with one byte changed.
-/

open TrenchDb.Lib TrenchDb.Lib.BigEndian

namespace TrenchDb.Wal

/-! ## Cuts -/

/-- How many records lie wholly in the first `len` bytes of a log. -/
def wholeRecords (entries : List WalEntry) (len : Nat) : Nat :=
  (List.range entries.length).countP fun i => recordStart entries (i + 1) ≤ len

section Cut

variable {σ : Type} {T : Table σ} {mode : ReplayMode} {store : σ} {entries : List WalEntry} {entry : WalEntry}
  {file tail : List UInt8} {len i : Nat}

theorem wholeRecords_eq (h : WAL_HEADER_SIZE ≤ len) :
    wholeRecords entries len = Records.whole record entries (len - WAL_HEADER_SIZE) := by
  unfold wholeRecords Records.whole recordStart
  congr 1
  funext i
  exact decide_eq_decide.mpr (by omega)

theorem wholeRecords_le (h : WAL_HEADER_SIZE ≤ len) : wholeRecords entries len ≤ entries.length := by
  rw [wholeRecords_eq h]
  exact Records.whole_le

theorem le_wholeRecords (hi : i ≤ entries.length) (h : recordStart entries i ≤ len) : i ≤ wholeRecords entries len := by
  unfold recordStart at h
  rw [wholeRecords_eq (by omega)]
  exact Records.le_whole hi (by omega)

theorem recordStart_eq (entries : List WalEntry) (i : Nat) :
    recordStart entries i = (logFile (entries.take i)).length := by
  simp [recordStart, Records.stop, logFile]

theorem cut_logFile (hcut : file <+: logFile entries) (hheader : WAL_HEADER_SIZE ≤ file.length) :
    ∃ tail, file = logFile (entries.take (wholeRecords entries file.length)) ++ tail ∧
      ((∃ e ∈ entries, tail <+: record e ∧ tail.length < (record e).length) ∨ tail = []) := by
  obtain ⟨rest, rfl⟩ := List.prefix_of_prefix_length_le (List.prefix_append _ _) hcut hheader
  have hsize : (header ++ rest).length - WAL_HEADER_SIZE = rest.length := by
    rw [List.length_append, header_length, Nat.add_sub_cancel_left]
  rw [wholeRecords_eq hheader, hsize]
  obtain ⟨tail, heq, htail⟩ := Records.cut ((List.prefix_append_right_inj _).mp hcut)
  refine ⟨tail, ?_, htail.imp_left ?_⟩
  · rw [logFile, List.append_assoc, ← heq]
  · rintro ⟨e, he, hpart⟩
    exact ⟨e, List.mem_of_getElem? he, hpart⟩

theorem replay_torn (hfits : ∀ e ∈ entries, Fits e) (hentry : Fits entry) (hne : tail ≠ [])
    (hcut : tail <+: record entry) (htail : tail.length < (record entry).length) :
    replayWithMode T store (some (logFile entries ++ tail)) mode =
      (match mode with
      | .Strict => .error .UnexpectedEof
      | .Lenient => .ok { progress entries.length (logFile entries).length with
          truncatedAt := some (logFile entries).length }, entries.foldl (applyEntry T) store) := by
  have hlt : entry.toBytes.length < 2 ^ 32 := by
    unfold Fits defaultEntrySizeLimit at hentry
    omega
  have hnext := WalReader.nextEntry_torn (r := .at (logFile entries).length tail) rfl rfl hne hcut htail hentry hlt
  rw [replay_logFile hfits, replayLoop_error hnext]
  rfl

theorem replay_whole (hfits : ∀ e ∈ entries, Fits e) :
    replayWithMode T store (some (logFile entries)) mode =
      (.ok (progress entries.length (logFile entries).length), entries.foldl (applyEntry T) store) := by
  have h := @replay_logFile σ T mode store entries [] hfits
  rw [List.append_nil] at h
  rw [h, replayLoop_end (WalReader.nextEntry_nil rfl)]

theorem replay_short (h : file.length < WAL_HEADER_SIZE) : replayWithMode T store (some file) mode =
    (.error (.InvalidHeader "file too short to contain WAL header"), store) := by
  apply replay_invalid
  unfold validateHeader
  exact if_pos h

theorem replay_prefix_store (hfits : ∀ e ∈ entries, Fits e) (hcut : file <+: logFile entries)
    (hheader : WAL_HEADER_SIZE ≤ file.length) : (replayWithMode T store (some file) mode).2 =
      (entries.take (wholeRecords entries file.length)).foldl (applyEntry T) store := by
  obtain ⟨tail, hfile, htail⟩ := cut_logFile hcut hheader
  have htake : ∀ e ∈ entries.take (wholeRecords entries file.length), Fits e := fun e he =>
    hfits e (List.mem_of_mem_take he)
  by_cases hempty : tail = []
  · rw [hempty, List.append_nil] at hfile
    conv_lhs => rw [hfile, replay_whole htake]
  · obtain ⟨e, he, hpart, hshort⟩ := htail.resolve_right hempty
    conv_lhs => rw [hfile, replay_torn htake (hfits e he) hempty hpart hshort]

/-- A prefix of a log, of the header at least: the records that are whole are applied, and a lenient
replay reports where the others are missing. -/
theorem torn_tail (T : Table σ) (store : σ) (hfits : ∀ e ∈ entries, Fits e) (hcut : file <+: logFile entries)
    (hheader : WAL_HEADER_SIZE ≤ file.length) :
    let k := wholeRecords entries file.length
    let stop := recordStart entries k
    let summary : ReplaySummary :=
      { entriesApplied := k
        finalPosition := stop
        truncatedAt := if stop < file.length then some stop else none
        corruptionDetectedAt := none }
    replayWithMode T store (some file) .Lenient = (.ok summary, (entries.take k).foldl (applyEntry T) store) ∧
      replayWithMode T store (some file) .Strict =
        (if stop = file.length then .ok summary else .error .UnexpectedEof,
          (entries.take k).foldl (applyEntry T) store) := by
  intro k stop summary
  obtain ⟨tail, hfile, htail⟩ := cut_logFile hcut hheader
  have hstop : stop = (logFile (entries.take k)).length := recordStart_eq entries k
  have hk : (entries.take k).length = k := by
    rw [List.length_take]
    exact Nat.min_eq_left (wholeRecords_le hheader)
  have htake : ∀ e ∈ entries.take k, Fits e := fun e he => hfits e (List.mem_of_mem_take he)
  have hlen : file.length = stop + tail.length := by
    rw [hstop, ← List.length_append]
    exact congrArg List.length hfile
  by_cases hempty : tail = []
  · subst hempty
    have hboundary : ¬ stop < file.length := by simp [hlen]
    rw [List.append_nil] at hfile
    have hwhole : ∀ mode, replayWithMode T store (some file) mode =
        (.ok summary, (entries.take k).foldl (applyEntry T) store) := by
      intro mode
      rw [hfile, replay_whole htake, hk, ← hstop]
      simp [summary, progress, hboundary]
    exact ⟨hwhole .Lenient, by rw [hwhole .Strict, if_pos (by omega)]⟩
  · obtain ⟨e, he, hpart, hshort⟩ := htail.resolve_right hempty
    have hpos : 0 < tail.length := List.length_pos_iff.mpr hempty
    have htorn := fun mode => @replay_torn σ T mode store _ e tail htake (hfits e he) hempty hpart hshort
    rw [← hfile, hk, ← hstop] at htorn
    refine ⟨?_, ?_⟩
    · rw [htorn .Lenient]
      simp [summary, progress, if_pos (show stop < file.length by omega)]
    · rw [htorn .Strict, if_neg (by omega)]

end Cut

def twoTables : List WalEntry := [.CreateTable "t", .CreateTable "u"]

theorem torn_tail_twoTables :
    (replayWithMode memoryTable .new (some ((logFile twoTables).take 23)) .Lenient).1 =
      .ok { entriesApplied := 1, finalPosition := 22, truncatedAt := some 22, corruptionDetectedAt := none } := by
  rw [(@torn_tail _ twoTables _ memoryTable .new (by decide) (List.take_prefix _ _) (by decide +kernel)).1]
  decide +kernel

/-! ## Damage -/

section Damage

variable {σ : Type} {T : Table σ} {mode : ReplayMode} {store : σ} {entries : List WalEntry}
  {tail payload bytes : List UInt8} {checksum : UInt32} {i j offset : Nat} {b : UInt8}

theorem damaged_frame (hj : ENTRY_LEN_SIZE ≤ j) (hlt : j < (frame (crc32 payload) payload).length)
    (hb : (frame (crc32 payload) payload)[j]? ≠ some b) :
    ∃ checksum' payload', (frame (crc32 payload) payload).set j b = frame checksum' payload' ∧
      payload'.length = payload.length ∧ crc32 payload' ≠ checksum' := by
  obtain ⟨d, rfl⟩ := Nat.exists_eq_add_of_le hj
  have hlen : (toBE ENTRY_LEN_SIZE payload.length).length = ENTRY_LEN_SIZE := toBE_length _ _
  have hcksum : (toBE ENTRY_CKSUM_SIZE (crc32 payload).toNat).length = ENTRY_CKSUM_SIZE := toBE_length _ _
  rw [frame_length] at hlt
  unfold ENTRY_OVERHEAD at hlt
  unfold frame at hb ⊢
  rw [List.append_assoc, List.getElem?_append_right (by omega), hlen, Nat.add_sub_cancel_left] at hb
  rw [List.append_assoc, List.set_append_right _ _ (by omega), hlen, Nat.add_sub_cancel_left]
  by_cases hd : d < ENTRY_CKSUM_SIZE
  · rw [List.getElem?_append_left (by omega)] at hb
    rw [List.set_append_left _ _ (by omega)]
    -- The stored checksum is another number.
    have hset : ((toBE ENTRY_CKSUM_SIZE (crc32 payload).toNat).set d b).length = ENTRY_CKSUM_SIZE := by
      rw [List.length_set, hcksum]
    have hbound := ofBE_lt ((toBE ENTRY_CKSUM_SIZE (crc32 payload).toNat).set d b)
    have hback := toBE_ofBE ((toBE ENTRY_CKSUM_SIZE (crc32 payload).toNat).set d b)
    rw [hset] at hbound hback
    have hnat : (UInt32.ofNat (ofBE ((toBE ENTRY_CKSUM_SIZE (crc32 payload).toNat).set d b))).toNat =
        ofBE ((toBE ENTRY_CKSUM_SIZE (crc32 payload).toNat).set d b) := by
      rw [UInt32.toNat_ofNat', Nat.mod_eq_of_lt (by simpa [ENTRY_CKSUM_SIZE] using hbound)]
    refine ⟨UInt32.ofNat (ofBE ((toBE ENTRY_CKSUM_SIZE (crc32 payload).toNat).set d b)), payload, ?_, rfl, ?_⟩
    · rw [hnat, hback, List.append_assoc]
    · intro heq
      rw [heq, hnat, hback] at hb
      exact hb (List.getElem?_set_self (by omega))
  · rw [List.getElem?_append_right (by omega), hcksum] at hb
    rw [List.set_append_right _ _ (by omega), hcksum]
    have hin : d - ENTRY_CKSUM_SIZE < payload.length := by omega
    rw [List.getElem?_eq_getElem hin] at hb
    refine ⟨crc32 payload, payload.set (d - ENTRY_CKSUM_SIZE) b, ?_, List.length_set, ?_⟩
    · rw [List.length_set, List.append_assoc]
    · exact crc32_set_ne hin fun heq => hb (congrArg some heq.symm)

theorem replay_mismatch (hfits : ∀ e ∈ entries, Fits e) (hlen : payload.length ≤ defaultEntrySizeLimit)
    (hne : crc32 payload ≠ checksum) :
    replayWithMode T store (some (logFile entries ++ (frame checksum payload ++ tail))) mode =
      (match mode with
      | .Strict => .error (.CorruptEntry (logFile entries).length ("checksum mismatch: expected " ++ hex08 checksum ++
          ", found " ++ hex08 (crc32 payload)))
      | .Lenient => .ok { progress entries.length (logFile entries).length with
          corruptionDetectedAt := some (logFile entries).length }, entries.foldl (applyEntry T) store) := by
  have hlt : payload.length < 2 ^ 32 := by
    unfold defaultEntrySizeLimit at hlen
    omega
  have hnext := WalReader.nextEntry_frame (r := .at (logFile entries).length (frame checksum payload ++ tail))
    rfl rfl hlen hlt
  rw [if_pos hne] at hnext
  rw [replay_logFile hfits, replayLoop_error hnext]
  rfl

/-- One byte of the checksum or the payload of record `i` is another one. -/
theorem damaged_record (T : Table σ) (store : σ) (hfits : ∀ e ∈ entries, Fits e) (hi : i < entries.length)
    (hstart : recordStart entries i + ENTRY_LEN_SIZE ≤ offset) (hend : offset < recordStart entries (i + 1))
    (hb : (logFile entries)[offset]? ≠ some b) :
    let file := (logFile entries).set offset b
    let start := recordStart entries i
    let store' := (entries.take i).foldl (applyEntry T) store
    (∃ reason, replayWithMode T store (some file) .Strict = (.error (.CorruptEntry start reason), store')) ∧
      replayWithMode T store (some file) .Lenient =
        (.ok { entriesApplied := i, finalPosition := start, truncatedAt := none, corruptionDetectedAt := some start },
          store') := by
  intro file start store'
  have hbefore : (logFile (entries.take i)).length = start := (recordStart_eq entries i).symm
  have hnext : recordStart entries (i + 1) = start + (record entries[i]).length := by
    rw [recordStart, Records.stop_succ hi, ← Nat.add_assoc]
    rfl
  have hlen : (entries.take i).length = i := by
    rw [List.length_take]
    omega
  have htake : ∀ e ∈ entries.take i, Fits e := fun e he => hfits e (List.mem_of_mem_take he)
  have hentry : Fits entries[i] := hfits _ (List.getElem_mem hi)
  -- The record in its place.
  have hsplit : logFile entries =
      logFile (entries.take i) ++ (record entries[i] ++ (entries.drop (i + 1)).flatMap record) := by
    rw [← List.flatMap_cons, ← List.drop_eq_getElem_cons hi, ← logFile_append, List.take_append_drop]
  obtain ⟨j, rfl⟩ := Nat.exists_eq_add_of_le (show start ≤ offset by omega)
  have hj : j < (record entries[i]).length := by omega
  rw [hsplit, List.getElem?_append_right (by omega), hbefore, Nat.add_sub_cancel_left,
    List.getElem?_append_left hj] at hb
  obtain ⟨checksum', payload', hset, hsame, hne⟩ := damaged_frame (by omega) hj hb
  have hfile : file =
      logFile (entries.take i) ++ (frame checksum' payload' ++ (entries.drop (i + 1)).flatMap record) := by
    rw [← hset]
    show (logFile entries).set (start + j) b = _
    rw [hsplit, List.set_append_right _ _ (by omega), hbefore, Nat.add_sub_cancel_left, List.set_append_left _ _ hj]
    rfl
  have hreplay := fun mode => @replay_mismatch σ T mode store _ ((entries.drop (i + 1)).flatMap record) payload'
    checksum' htake (by rw [hsame]; exact hentry) hne
  rw [← hfile, hbefore, hlen] at hreplay
  exact ⟨⟨_, hreplay .Strict⟩, hreplay .Lenient⟩

end Damage

theorem damaged_record_twoTables :
    (replayWithMode memoryTable .new (some ((logFile twoTables).set 35 0xFF)) .Lenient).1 =
      .ok { entriesApplied := 1, finalPosition := 22, truncatedAt := none, corruptionDetectedAt := some 22 } := by
  rw [(@damaged_record _ twoTables 1 _ _ memoryTable .new (by decide) (by decide) (by decide +kernel)
    (by decide +kernel) (by decide +kernel)).2]
  decide +kernel

end TrenchDb.Wal
