import TrenchDb.Lib.Records
import TrenchDb.Wal.Checksum
import TrenchDb.Wal.Entry

/-!
# Reading a log

`engine/src/wal/format.rs`, `options.rs` and `reader.rs`: the file header, and the reader that yields one
entry after another.
-/

open TrenchDb.Lib TrenchDb.Lib.BigEndian

namespace TrenchDb.Wal

/-! ## The header of a file -/

/-- `"TRDB"`. -/
def WAL_MAGIC : List UInt8 := [0x54, 0x52, 0x44, 0x42]

def WAL_VERSION : UInt8 := 1
def WAL_HEADER_SIZE : Nat := 8
def ENTRY_LEN_SIZE : Nat := 4
def ENTRY_CKSUM_SIZE : Nat := 4
def ENTRY_OVERHEAD : Nat := ENTRY_LEN_SIZE + ENTRY_CKSUM_SIZE

/-- What `write_header` writes: the magic, the version, and three zero bytes. -/
def header : List UInt8 := WAL_MAGIC ++ [WAL_VERSION, 0, 0, 0]

/-- `{:?}` of a slice of bytes. -/
def debugBytes (bytes : List UInt8) : String := "[" ++ ", ".intercalate (bytes.map toString) ++ "]"

def validateHeader (bytes : List UInt8) : Except WalError Unit :=
  if bytes.length < WAL_HEADER_SIZE then
    .error (.InvalidHeader "file too short to contain WAL header")
  else if bytes.take 4 ≠ WAL_MAGIC then
    .error (.InvalidHeader ("bad magic: expected " ++ debugBytes WAL_MAGIC ++ ", found " ++ debugBytes (bytes.take 4)))
  else if bytes.getD 4 0 ≠ WAL_VERSION then
    .error (.UnsupportedVersion (bytes.getD 4 0) WAL_VERSION)
  else
    .ok ()

/-! ## Options -/

inductive ReplayMode
  | Strict
  | Lenient
  deriving DecidableEq, Repr

/-- The `entry_size_limit` of `WalOptions::default`. -/
def defaultEntrySizeLimit : Nat := 256 * 1024 * 1024

/-! ## Reads -/

inductive ReadStatus
  | Eof
  | Partial
  | Complete
  deriving DecidableEq, Repr

/-- `read_all` with a buffer of `n` bytes, where `rest` is what the file still has: how it ended, the
buffer, and what the file has then. A read of a file gives 0 bytes only at its end. -/
def readAll (rest : List UInt8) (n : Nat) : ReadStatus × List UInt8 × List UInt8 :=
  if n ≤ rest.length then (.Complete, rest.take n, rest.drop n)
  else if rest = [] then (.Eof, [], [])
  else (.Partial, rest, [])

/-- `{:08x}`. -/
def hex08 (n : UInt32) : String := String.ofList (List.leftpad 8 '0' (Nat.toDigits 16 n.toNat))

structure WalReader where
  /-- The bytes of the file that are not read yet. -/
  rest : List UInt8
  position : Nat
  eof : Bool
  entrySizeLimit : Nat
  deriving DecidableEq, Repr

namespace WalReader

/-- `none` is a file that is not there. -/
def openWithOptions (file : Option (List UInt8)) (entrySizeLimit : Nat) : Except WalError WalReader :=
  match file with
  | none => .error (.Io "No such file or directory (os error 2)")
  | some bytes => do
    validateHeader bytes
    return { rest := bytes.drop WAL_HEADER_SIZE, position := WAL_HEADER_SIZE, eof := false, entrySizeLimit }

def «open» (file : Option (List UInt8)) : Except WalError WalReader := openWithOptions file defaultEntrySizeLimit

def nextEntry (r : WalReader) : Except WalError (Option WalEntry) × WalReader :=
  if r.eof then (.ok none, r)
  else
    match readAll r.rest ENTRY_LEN_SIZE with
    | (.Eof, _, rest) => (.ok none, { r with rest, eof := true })
    | (.Partial, _, rest) => (.error .UnexpectedEof, { r with rest })
    | (.Complete, lenBuf, rest) =>
      let payloadLen := ofBE lenBuf
      if r.entrySizeLimit < payloadLen then
        (.error (.CorruptEntry r.position ("payload length " ++ toString payloadLen ++
          " exceeds configured limit " ++ toString r.entrySizeLimit)), { r with rest })
      else
        match readAll rest ENTRY_CKSUM_SIZE with
        | (.Complete, cksumBuf, rest) =>
          let storedChecksum := UInt32.ofNat (ofBE cksumBuf)
          match readAll rest payloadLen with
          | (.Complete, payload, rest) =>
            let computedChecksum := crc32 payload
            if computedChecksum ≠ storedChecksum then
              (.error (.CorruptEntry r.position ("checksum mismatch: expected " ++ hex08 storedChecksum ++
                ", found " ++ hex08 computedChecksum)), { r with rest })
            else
              match WalEntry.fromBytes payload with
              | .error err => (.error err, { r with rest })
              | .ok entry =>
                (.ok (some entry), { r with rest, position := r.position + ENTRY_OVERHEAD + payloadLen })
          | (_, _, rest) => (.error .UnexpectedEof, { r with rest })
        | (_, _, rest) => (.error .UnexpectedEof, { r with rest })

/-- The reader after `n` calls of `next_entry`. -/
def after (r : WalReader) : Nat → WalReader
  | 0 => r
  | n + 1 => (r.after n).nextEntry.2

end WalReader

/-! ## Records -/

/-- A length, a checksum and a payload, as they stand in a file. -/
def frame (checksum : UInt32) (payload : List UInt8) : List UInt8 :=
  toBE ENTRY_LEN_SIZE payload.length ++ toBE ENTRY_CKSUM_SIZE checksum.toNat ++ payload

/-- What the writer appends for an entry. -/
def record (entry : WalEntry) : List UInt8 := frame (crc32 entry.toBytes) entry.toBytes

/-- The entry can be written and read back under the default limit. -/
def Fits (entry : WalEntry) : Prop := entry.toBytes.length ≤ defaultEntrySizeLimit

instance (entry : WalEntry) : Decidable (Fits entry) := inferInstanceAs (Decidable (_ ≤ _))

theorem frame_length (checksum : UInt32) (payload : List UInt8) :
    (frame checksum payload).length = ENTRY_OVERHEAD + payload.length := by
  simp [frame, ENTRY_OVERHEAD, ENTRY_LEN_SIZE, ENTRY_CKSUM_SIZE]
  omega

theorem frame_ne_nil {checksum : UInt32} {payload : List UInt8} : frame checksum payload ≠ [] := by
  apply List.ne_nil_of_length_pos
  rw [frame_length]
  unfold ENTRY_OVERHEAD ENTRY_LEN_SIZE
  omega

theorem record_length (entry : WalEntry) : (record entry).length = ENTRY_OVERHEAD + entry.toBytes.length :=
  frame_length _ _

theorem fields_length_le {entry : WalEntry} {field : List UInt8} (h : field ∈ entry.fields) :
    field.length ≤ entry.toBytes.length := by
  rw [WalEntry.toBytes_eq]
  cases entry <;> simp [WalEntry.fields, WalEntry.table, WalEntry.body, WalEntry.encodeString_length,
    WalEntry.encodeBytes_length] at h ⊢ <;> rcases h with rfl | rfl | rfl <;> omega

theorem short_of_length {entry : WalEntry} (h : entry.toBytes.length < 2 ^ 32) : entry.Short := fun _ hfield =>
  (fields_length_le hfield).trans_lt h

theorem Fits.length_lt {entry : WalEntry} (h : Fits entry) : entry.toBytes.length < 2 ^ 32 := by
  unfold Fits defaultEntrySizeLimit at h
  omega

theorem Fits.short {entry : WalEntry} (h : Fits entry) : entry.Short := short_of_length h.length_lt

/-! ## One call of the reader -/

variable {bytes front rest more tail payload : List UInt8} {n : Nat} {checksum : UInt32} {entry : WalEntry}
  {r : WalReader}

theorem readAll_append (h : front.length = n) : readAll (front ++ rest) n = (.Complete, front, rest) := by
  subst h
  simp [readAll]

theorem readAll_short (h : bytes.length < n) : (bytes = [] ∧ readAll bytes n = (.Eof, bytes, [])) ∨
    (bytes ≠ [] ∧ readAll bytes n = (.Partial, bytes, [])) := by
  unfold readAll
  rw [if_neg (by omega)]
  by_cases hempty : bytes = []
  · exact .inl ⟨hempty, by rw [if_pos hempty, hempty]⟩
  · exact .inr ⟨hempty, if_neg hempty⟩

theorem readAll_cases (bytes : List UInt8) (n : Nat) :
    (∃ buf rest, bytes = buf ++ rest ∧ buf.length = n ∧ readAll bytes n = (.Complete, buf, rest)) ∨
      (bytes = [] ∧ readAll bytes n = (.Eof, bytes, [])) ∨ (bytes ≠ [] ∧ readAll bytes n = (.Partial, bytes, [])) := by
  by_cases h : n ≤ bytes.length
  · refine .inl ⟨bytes.take n, bytes.drop n, (List.take_append_drop n bytes).symm, ?_, if_pos h⟩
    rw [List.length_take, Nat.min_eq_left h]
  · exact .inr (readAll_short (by omega))

theorem readAll_nil (h : 0 < n) : readAll [] n = (.Eof, [], []) := by
  rcases @readAll_short [] n h with ⟨-, hread⟩ | ⟨hne, -⟩
  · exact hread
  · exact absurd rfl hne

theorem readAll_complete {buf : List UInt8} (h : readAll bytes n = (.Complete, buf, rest)) :
    rest.length + n = bytes.length := by
  unfold readAll at h
  split at h
  · obtain ⟨-, rfl, rfl⟩ := h
    rw [List.length_drop]
    omega
  · split at h
    · exact nomatch h
    · exact nomatch h

namespace WalReader

theorem nextEntry_rest_lt {r' : WalReader} (h : r.nextEntry = (.ok (some entry), r')) :
    r'.rest.length < r.rest.length := by
  unfold nextEntry at h
  split at h
  · exact nomatch h
  · split at h
    · exact nomatch h
    · exact nomatch h
    · rename_i hlen
      dsimp only at h
      split at h
      · exact nomatch h
      · split at h
        · rename_i hcksum
          split at h
          · rename_i hpayload
            split at h
            · exact nomatch h
            · split at h
              · exact nomatch h
              · obtain ⟨-, rfl⟩ := Prod.mk.inj h
                have hfirst := readAll_complete hlen
                have hsecond := readAll_complete hcksum
                have hthird := readAll_complete hpayload
                unfold ENTRY_LEN_SIZE at hfirst
                dsimp only
                omega
          · exact nomatch h
        · exact nomatch h

theorem nextEntry_nil (hrest : r.rest = []) : r.nextEntry = (.ok none, { r with eof := true }) := by
  unfold nextEntry
  split
  · rename_i heof
    rw [← heof]
  · rw [hrest, readAll_nil (by decide)]

theorem nextEntry_frame (heof : r.eof = false) (hrest : r.rest = frame checksum payload ++ more)
    (hlimit : payload.length ≤ r.entrySizeLimit) (hlen : payload.length < 2 ^ 32) :
    r.nextEntry =
      if crc32 payload ≠ checksum then
        (.error (.CorruptEntry r.position ("checksum mismatch: expected " ++ hex08 checksum ++ ", found " ++
          hex08 (crc32 payload))), { r with rest := more })
      else
        match WalEntry.fromBytes payload with
        | .error err => (.error err, { r with rest := more })
        | .ok entry =>
          (.ok (some entry), { r with rest := more, position := r.position + ENTRY_OVERHEAD + payload.length }) := by
  have hlength : ofBE (toBE ENTRY_LEN_SIZE payload.length) = payload.length :=
    ofBE_toBE_of_lt (by simpa [ENTRY_LEN_SIZE] using hlen)
  have hchecksum : ofBE (toBE ENTRY_CKSUM_SIZE checksum.toNat) = checksum.toNat :=
    ofBE_toBE_of_lt (by simpa [ENTRY_CKSUM_SIZE] using checksum.toNat_lt)
  unfold nextEntry
  rw [heof, hrest, frame, List.append_assoc, List.append_assoc,
    readAll_append (toBE_length _ _)]
  simp only [Bool.false_eq_true, if_false, hlength]
  rw [if_neg (by omega), readAll_append (toBE_length _ _)]
  simp only [hchecksum, UInt32.ofNat_toNat]
  rw [readAll_append rfl]

theorem nextEntry_whole (heof : r.eof = false) (hrest : r.rest = record entry ++ more)
    (hlimit : entry.toBytes.length ≤ r.entrySizeLimit) (hlen : entry.toBytes.length < 2 ^ 32) :
    r.nextEntry =
      (.ok (some entry), { r with rest := more, position := r.position + (record entry).length }) := by
  rw [nextEntry_frame heof hrest hlimit hlen, if_neg (by simp),
    WalEntry.fromBytes_eq_ok.mpr ⟨rfl, short_of_length hlen⟩, record_length]
  simp [Nat.add_assoc]

theorem nextEntry_record (hfits : Fits entry) (heof : r.eof = false)
    (hlimit : r.entrySizeLimit = defaultEntrySizeLimit) (hrest : r.rest = record entry ++ more) :
    r.nextEntry =
      (.ok (some entry), { r with rest := more, position := r.position + (record entry).length }) :=
  nextEntry_whole heof hrest (hlimit.symm ▸ hfits) hfits.length_lt

theorem nextEntry_tooLong {lenBuf : List UInt8} (heof : r.eof = false) (hrest : r.rest = lenBuf ++ more)
    (hlenBuf : lenBuf.length = ENTRY_LEN_SIZE) (hlimit : r.entrySizeLimit < ofBE lenBuf) :
    r.nextEntry = (.error (.CorruptEntry r.position ("payload length " ++ toString (ofBE lenBuf) ++
      " exceeds configured limit " ++ toString r.entrySizeLimit)), { r with rest := more }) := by
  unfold nextEntry
  rw [heof, hrest, readAll_append hlenBuf]
  simp only [Bool.false_eq_true, if_false]
  rw [if_pos hlimit]

/-- The file ends here, or inside of a record whose length is within the limit. -/
def Cut (limit : Nat) (bytes : List UInt8) : Prop :=
  bytes.length < ENTRY_LEN_SIZE ∨
    (ofBE (bytes.take ENTRY_LEN_SIZE) ≤ limit ∧ bytes.length < ENTRY_OVERHEAD + ofBE (bytes.take ENTRY_LEN_SIZE))

theorem nextEntry_cut (heof : r.eof = false) (hne : r.rest ≠ []) (hcut : Cut r.entrySizeLimit r.rest) :
    r.nextEntry = (.error .UnexpectedEof, { r with rest := [] }) := by
  unfold nextEntry
  rw [heof]
  rcases readAll_cases r.rest ENTRY_LEN_SIZE with ⟨lenBuf, rest, hrest, hlenBuf, hread⟩ | ⟨hnil, -⟩ | ⟨-, hread⟩
  · have htake : r.rest.take ENTRY_LEN_SIZE = lenBuf := by rw [hrest, List.take_left' hlenBuf]
    have htotal : r.rest.length = ENTRY_LEN_SIZE + rest.length := by rw [hrest, List.length_append, hlenBuf]
    obtain ⟨hlimit, hshort⟩ := hcut.resolve_left (by omega)
    rw [htake] at hlimit hshort
    rw [hread]
    simp only [Bool.false_eq_true, if_false]
    rw [if_neg (by omega)]
    rcases readAll_cases rest ENTRY_CKSUM_SIZE with ⟨cksumBuf, payload, rfl, hcksumBuf, hread⟩ | ⟨-, hread⟩ | ⟨-, hread⟩
    · rw [hread]
      rw [List.length_append, hcksumBuf] at htotal
      have hpayload : payload.length < ofBE lenBuf := by
        unfold ENTRY_OVERHEAD at hshort
        omega
      dsimp only
      rcases readAll_short hpayload with ⟨-, hread⟩ | ⟨-, hread⟩ <;> rw [hread]
    · rw [hread]
    · rw [hread]
  · exact absurd hnil hne
  · rw [hread]
    rfl

theorem nextEntry_torn (heof : r.eof = false) (hrest : r.rest = tail) (hne : tail ≠ [])
    (hcut : tail <+: frame checksum payload) (htail : tail.length < (frame checksum payload).length)
    (hlimit : payload.length ≤ r.entrySizeLimit) (hlen : payload.length < 2 ^ 32) :
    r.nextEntry = (.error .UnexpectedEof, { r with rest := [] }) := by
  subst hrest
  apply nextEntry_cut heof hne
  by_cases hlenBuf : r.rest.length < ENTRY_LEN_SIZE
  · exact .inl hlenBuf
  · have htake : r.rest.take ENTRY_LEN_SIZE = toBE ENTRY_LEN_SIZE payload.length := by
      have hframe : (frame checksum payload).take ENTRY_LEN_SIZE = toBE ENTRY_LEN_SIZE payload.length := by
        rw [frame, List.append_assoc, List.take_left' (toBE_length _ _)]
      obtain ⟨rest, hrest⟩ := hcut
      rw [← hframe, ← hrest, List.take_append_of_le_length (Nat.not_lt.mp hlenBuf)]
    have hlength : ofBE (toBE ENTRY_LEN_SIZE payload.length) = payload.length :=
      ofBE_toBE_of_lt (by simpa [ENTRY_LEN_SIZE] using hlen)
    rw [frame_length] at htail
    exact .inr (by rw [htake, hlength]; exact ⟨hlimit, htail⟩)

/-- All that a call of `next_entry` can find. -/
inductive Next (r : WalReader) : Prop
  | done (hrest : r.rest = []) (hnext : r.nextEntry = (.ok none, { r with eof := true }))
  | cut (hcut : Cut r.entrySizeLimit r.rest) (hne : r.rest ≠ [])
      (hnext : r.nextEntry = (.error .UnexpectedEof, { r with rest := [] }))
  | tooLong {lenBuf more : List UInt8} {reason : String} (hrest : r.rest = lenBuf ++ more)
      (hlenBuf : lenBuf.length = ENTRY_LEN_SIZE) (hlimit : r.entrySizeLimit < ofBE lenBuf)
      (hnext : r.nextEntry = (.error (.CorruptEntry r.position reason), { r with rest := more }))
  | mismatch {checksum : UInt32} {payload more : List UInt8} {reason : String}
      (hrest : r.rest = frame checksum payload ++ more) (hlimit : payload.length ≤ r.entrySizeLimit)
      (hlen : payload.length < 2 ^ 32) (hne : crc32 payload ≠ checksum)
      (hnext : r.nextEntry = (.error (.CorruptEntry r.position reason), { r with rest := more }))
  | undecodable {payload more : List UInt8} {err : WalError} (hrest : r.rest = frame (crc32 payload) payload ++ more)
      (hlimit : payload.length ≤ r.entrySizeLimit) (hlen : payload.length < 2 ^ 32)
      (herr : WalEntry.fromBytes payload = .error err) (hnext : r.nextEntry = (.error err, { r with rest := more }))
  | entry {entry : WalEntry} {more : List UInt8} (hrest : r.rest = record entry ++ more)
      (hlimit : entry.toBytes.length ≤ r.entrySizeLimit) (hlen : entry.toBytes.length < 2 ^ 32)
      (hnext : r.nextEntry =
        (.ok (some entry), { r with rest := more, position := r.position + (record entry).length }))

theorem nextEntry_next (heof : r.eof = false) : Next r := by
  by_cases hnil : r.rest = []
  · exact .done hnil (nextEntry_nil hnil)
  by_cases hcut : Cut r.entrySizeLimit r.rest
  · exact .cut hcut hnil (nextEntry_cut heof hnil hcut)
  obtain ⟨hlong, hwhole⟩ := not_or.mp hcut
  obtain ⟨lenBuf, rest, hrest, hlenBuf⟩ : ∃ lenBuf rest, r.rest = lenBuf ++ rest ∧ lenBuf.length = ENTRY_LEN_SIZE :=
    ⟨_, _, (List.take_append_drop ENTRY_LEN_SIZE r.rest).symm, by simp; omega⟩
  rw [hrest, List.take_left' hlenBuf] at hwhole
  by_cases hlimit : r.entrySizeLimit < ofBE lenBuf
  · exact .tooLong hrest hlenBuf hlimit (nextEntry_tooLong heof hrest hlenBuf hlimit)
  -- A whole record is there.
  have hlen : ofBE lenBuf < 2 ^ 32 := by simpa [hlenBuf, ENTRY_LEN_SIZE] using ofBE_lt lenBuf
  obtain ⟨cksumBuf, payload, more, rfl, hcksumBuf, hpayload⟩ : ∃ cksumBuf payload more,
      rest = cksumBuf ++ (payload ++ more) ∧ cksumBuf.length = ENTRY_CKSUM_SIZE ∧ payload.length = ofBE lenBuf := by
    rw [List.length_append, hlenBuf] at hwhole
    unfold ENTRY_OVERHEAD at hwhole
    refine ⟨_, _, _, (List.take_append_drop ENTRY_CKSUM_SIZE rest).symm.trans
      (congrArg _ (List.take_append_drop (ofBE lenBuf) _).symm), by simp; omega, by simp; omega⟩
  have hcksum : ofBE cksumBuf < 2 ^ 32 := by simpa [hcksumBuf, ENTRY_CKSUM_SIZE] using ofBE_lt cksumBuf
  have hframe : r.rest = frame (UInt32.ofNat (ofBE cksumBuf)) payload ++ more := by
    rw [hrest, frame, hpayload, UInt32.toNat_ofNat_of_lt' hcksum, ← hlenBuf, ← hcksumBuf, toBE_ofBE, toBE_ofBE]
    simp only [List.append_assoc]
  have hnext := nextEntry_frame heof hframe (by omega) (by omega)
  by_cases hchecksum : crc32 payload = UInt32.ofNat (ofBE cksumBuf)
  · rw [if_neg (not_not.mpr hchecksum)] at hnext
    rw [← hchecksum] at hframe
    cases hentry : WalEntry.fromBytes payload with
    | error err =>
      rw [hentry] at hnext
      exact .undecodable hframe (by omega) (by omega) hentry hnext
    | ok entry =>
      obtain ⟨rfl, -⟩ := WalEntry.fromBytes_eq_ok.mp hentry
      rw [hentry] at hnext
      exact .entry hframe (by omega) (by omega) (by rw [hnext, record_length, Nat.add_assoc])
  · rw [if_pos hchecksum] at hnext
    exact .mismatch hframe (by omega) (by omega) hchecksum hnext

end WalReader

/-! ## Whole logs -/

/-- The file of a log with these entries. -/
def logFile (entries : List WalEntry) : List UInt8 := header ++ entries.flatMap record

/-- Where the record of entry `i` starts in the file, and that of entry `i - 1` ends. -/
def recordStart (entries : List WalEntry) (i : Nat) : Nat := WAL_HEADER_SIZE + Records.stop record entries i

variable {entries : List WalEntry} {i : Nat}

@[simp] theorem header_length : header.length = WAL_HEADER_SIZE := rfl

theorem logFile_length (entries : List WalEntry) : (logFile entries).length = recordStart entries entries.length := by
  simp [logFile, recordStart, Records.stop]

theorem header_le_logFile (entries : List WalEntry) : WAL_HEADER_SIZE ≤ (logFile entries).length := by
  rw [logFile_length]
  exact Nat.le_add_right _ _

theorem logFile_append (entries more : List WalEntry) :
    logFile (entries ++ more) = logFile entries ++ more.flatMap record := by
  simp [logFile]

theorem validateHeader_header (bytes : List UInt8) : validateHeader (header ++ bytes) = .ok () := by
  unfold validateHeader
  rw [if_neg (by simp), if_neg (by simp [header, WAL_MAGIC]), if_neg (by simp [header, WAL_MAGIC])]

/-- The reader at the start of the records. -/
def WalReader.start (rest : List UInt8) : WalReader :=
  { rest, position := WAL_HEADER_SIZE, eof := false, entrySizeLimit := defaultEntrySizeLimit }

namespace WalReader

theorem open_header (bytes : List UInt8) : WalReader.open (some (header ++ bytes)) = .ok (start bytes) := by
  unfold WalReader.open openWithOptions
  dsimp only
  rw [validateHeader_header]
  rfl

theorem after_add (r : WalReader) (m n : Nat) : r.after (m + n) = (r.after m).after n := by
  induction n with
  | zero => rfl
  | succ n ih =>
    rw [← Nat.add_assoc, after, ih]
    rfl

theorem after_nil (hrest : r.rest = []) : (r.after n).rest = [] := by
  induction n with
  | zero => exact hrest
  | succ n ih => rw [after, nextEntry_nil ih, ih]

theorem after_entries (hfits : ∀ e ∈ entries, Fits e) (hi : i ≤ entries.length) :
    (start (entries.flatMap record ++ rest)).after i =
      { start ((entries.drop i).flatMap record ++ rest) with position := recordStart entries i } := by
  induction i with
  | zero => rfl
  | succ i ih =>
    have hlt : i < entries.length := by omega
    unfold after
    rw [ih (by omega), List.drop_eq_getElem_cons hlt, List.flatMap_cons, List.append_assoc,
      nextEntry_record (hfits _ (List.getElem_mem hlt)) rfl rfl rfl]
    simp only [start, WalReader.mk.injEq, true_and, and_true]
    rw [recordStart, recordStart, Records.stop_succ hlt]
    omega

theorem after_log (hfits : ∀ e ∈ entries, Fits e) (i : Nat) :
    ((start (entries.flatMap record)).after i).nextEntry.1 = .ok entries[i]? := by
  rcases Nat.lt_or_ge i entries.length with hlt | hge
  · have hafter := @after_entries [] entries i hfits (by omega)
    rw [List.append_nil] at hafter
    rw [hafter, List.drop_eq_getElem_cons hlt, List.flatMap_cons, List.append_assoc,
      nextEntry_record (hfits _ (List.getElem_mem hlt)) rfl rfl rfl, List.getElem?_eq_getElem hlt]
  · have hend := @after_entries [] entries entries.length hfits (Nat.le_refl _)
    rw [List.append_nil, List.drop_length] at hend
    obtain ⟨d, rfl⟩ := Nat.exists_eq_add_of_le hge
    rw [after_add, hend, nextEntry_nil (after_nil rfl), List.getElem?_eq_none (by omega)]

end WalReader

end TrenchDb.Wal
