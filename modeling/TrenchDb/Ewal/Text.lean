import TrenchDb.Ewal.Writer
import TrenchDb.Lib.Delimited

/-!
# The text of the log can be read back

The entries of the live log are lines of text, without lengths or marks between the records. The lines show where each
entry ends, and what it was.
-/

open Function
open TrenchDb.Lib
open TrenchDb.Storage (WalEntry WalError)
open TrenchDb.Transport (asBytes asBytes_append asBytes_injective)
open TrenchDb.Wal (debugBytes)

namespace TrenchDb.Ewal

/-! ## What is printed of a value -/

variable {α : Type} {debug : α → String}

/-- A text that stands for one value only, and on one line. -/
structure OneLine (debug : α → String) : Prop where
  injective : Injective debug
  noBreak : ∀ a, '\n' ∉ (debug a).toList

theorem isDigit_of_mem {n : Nat} {c : Char} (h : c ∈ (toString n).toList) : c.isDigit = true := by
  rw [Nat.toString_eq_repr, Nat.toList_repr] at h
  exact Nat.isDigit_of_mem_toDigits (by decide) (by decide) h

theorem toString_ne_nil (n : Nat) : (toString n).toList ≠ [] := by
  rw [Nat.toString_eq_repr, Nat.toList_repr]
  exact Nat.toDigits_ne_nil

theorem oneLine_nat : OneLine (toString : Nat → String) where
  injective m n h := by
    have hdigits := congrArg (fun s => Nat.ofDigitChars 10 s.toList 0) h
    simpa [Nat.toString_eq_repr] using hdigits
  noBreak n h := absurd (isDigit_of_mem h) (by decide)

theorem OneLine.comp {β : Type} (h : OneLine debug) {f : β → α} (hf : Injective f) : OneLine fun b => debug (f b) where
  injective := h.injective.comp hf
  noBreak b := h.noBreak (f b)

theorem oneLine_option (h : OneLine debug) : OneLine (debugOption debug) where
  injective o o' heq := by
    have hchars := congrArg String.toList heq
    cases o <;> cases o' <;> simp [debugOption] at hchars
    · rfl
    · rw [h.injective (String.toList_inj.mp hchars)]
  noBreak o hmem := by
    cases o with
    | none => simp [debugOption] at hmem
    | some a => simp [debugOption, h.noBreak a] at hmem

theorem byte_word {bytes : List UInt8} {word : List Char} (h : word ∈ bytes.map (String.toList ∘ toString)) :
    word ≠ [] ∧ ∀ c ∈ word, c.isDigit = true := by
  obtain ⟨b, -, rfl⟩ := List.mem_map.mp h
  exact ⟨toString_ne_nil b.toNat, fun _ hc => isDigit_of_mem hc⟩

theorem oneLine_byte : OneLine (toString : UInt8 → String) := oneLine_nat.comp fun _ _ => UInt8.toNat_inj.mp

theorem oneLine_bytes : OneLine debugBytes where
  injective bytes bytes' heq := by
    have hchars := congrArg String.toList heq
    simp [debugBytes, String.toList_intercalate] at hchars
    have hwords : ∀ {bytes : List UInt8}, ∀ word ∈ bytes.map (String.toList ∘ toString), word ≠ [] ∧ ',' ∉ word :=
      fun word hword => ⟨(byte_word hword).1, fun hc => absurd ((byte_word hword).2 _ hc) (by decide)⟩
    have hinj : Injective (String.toList ∘ (toString : UInt8 → String)) := fun _ _ h =>
      oneLine_byte.injective (String.toList_inj.mp h)
    exact List.map_injective_iff.mpr hinj (intercalate_injective hwords hwords hchars)
  noBreak bytes hmem := by
    simp [debugBytes, String.toList_intercalate] at hmem
    rcases mem_intercalate hmem with hseparator | ⟨word, hword, hc⟩
    · exact absurd hseparator (by decide)
    · exact absurd ((byte_word hword).2 _ hc) (by decide)

/-! ## Records -/

/-- A line of a record: what it is about, and the value. -/
def line (label : String) (debug : α → String) (a : α) : List Char := label.toList ++ ((debug a).toList ++ ['\n'])

theorem OneLine.selfDelimiting (h : OneLine debug) (label : String) : SelfDelimiting (line label debug) :=
  (selfDelimiting_line (fun _ _ heq => h.injective (String.toList_inj.mp heq)) h.noBreak).label label.toList

theorem encryptData_toList (data : WalEntry) : (encryptData data).toList =
    "WAL Entry:\n".toList ++ line "  Payload Length: " toString data.payload.length ++
      line "  Payload: " debugBytes data.payload ++ line "  Checksum: " (debugOption toString) data.checksum ++
      line "  Key: " (debugOption debugBytes) data.key ++
      line "  Operation: " (debugOption toString) data.operation := by
  simp only [encryptData, line, String.toList_append, List.append_assoc]
  rfl

/-- The values of the lines, in order. -/
def lines (data : WalEntry) : (((Nat × List UInt8) × Option UInt32) × Option (List UInt8)) × Option UInt8 :=
  ((((data.payload.length, data.payload), data.checksum), data.key), data.operation)

theorem lines_injective : Injective lines := by
  rintro ⟨⟩ ⟨⟩ h
  simp only [lines, Prod.mk.injEq] at h
  obtain ⟨⟨⟨⟨-, rfl⟩, rfl⟩, rfl⟩, rfl⟩ := h
  rfl

theorem selfDelimiting_encryptData : SelfDelimiting fun data : WalEntry => (encryptData data).toList := by
  have hfour : OneLine (toString : UInt32 → String) := oneLine_nat.comp fun _ _ => UInt32.toNat_inj.mp
  have hlines := (((((oneLine_nat.selfDelimiting "  Payload Length: ").label "WAL Entry:\n".toList).pair
    (oneLine_bytes.selfDelimiting "  Payload: ")).pair
    ((oneLine_option hfour).selfDelimiting "  Checksum: ")).pair
    ((oneLine_option oneLine_bytes).selfDelimiting "  Key: ")).pair
    ((oneLine_option oneLine_byte).selfDelimiting "  Operation: ")
  have htext := hlines.comp lines_injective
  intro data data' rest rest' heq
  simp only [encryptData_toList] at heq
  exact htext data data' rest rest' heq

theorem flatMap_record (entries : List WalEntry) : entries.flatMap record =
    asBytes (String.ofList (entries.flatMap fun data => (encryptData data).toList)) := by
  induction entries with
  | nil => rfl
  | cons data entries ih =>
    rw [List.flatMap_cons, ih, List.flatMap_cons, String.ofList_append, asBytes_append, String.ofList_toList, record]

theorem flatMap_record_injective : Injective fun entries : List WalEntry => entries.flatMap record := by
  intro entries entries' (h : entries.flatMap record = entries'.flatMap record)
  have hne : ∀ data, (encryptData data).toList ≠ [] := by
    intro data
    rw [encryptData_toList]
    simp
  rw [flatMap_record, flatMap_record] at h
  have htext := congrArg String.toList (asBytes_injective h)
  rw [String.toList_ofList, String.toList_ofList] at htext
  exact selfDelimiting_encryptData.flatMap_injective hne htext

/-! ## The bytes in the file -/

/-- A call of `append` for each entry. -/
def WALWriter.appends (w : WALWriter) (entries : List WalEntry) : WALWriter :=
  entries.foldl (fun w data => (w.append data).2) w

variable {w w' : WALWriter} {entries entries' : List WalEntry}

theorem WALWriter.written_appends (hfits : ∀ data ∈ entries, Fits data) :
    (w.appends entries).writer.written = w.writer.written ++ entries.flatMap record := by
  induction entries generalizing w with
  | nil => exact (List.append_nil _).symm
  | cons data entries ih =>
    obtain ⟨hfirst, hothers⟩ := List.forall_mem_cons.mp hfits
    rw [appends, List.foldl_cons, ← appends, ih hothers, written_append hfirst, List.append_assoc, List.flatMap_cons]

/-- Two sequences of entries that leave the same bytes are the same. -/
theorem log_unambiguous (hfits : ∀ data ∈ entries, Fits data) (hfits' : ∀ data ∈ entries', Fits data)
    {bytes : List UInt8} (h : (w.appends entries).writer.written = w.writer.written ++ bytes)
    (h' : (w'.appends entries').writer.written = w'.writer.written ++ bytes) : entries = entries' := by
  rw [WALWriter.written_appends hfits] at h
  rw [WALWriter.written_appends hfits'] at h'
  exact flatMap_record_injective ((List.append_cancel_left h).trans (List.append_cancel_left h').symm)

theorem log_unambiguous_event :
    [(⟨asBytes "insert:t:k", some (asBytes "t:k"), some 1, none⟩ : WalEntry)] =
      [Storage.walEntry (asBytes "insert:t:k")] := by
  have hfits : ∀ data ∈ [Storage.walEntry (asBytes "insert:t:k")], Fits data := by decide +kernel
  have hsame : (⟨asBytes "insert:t:k", some (asBytes "t:k"), some 1, none⟩ : WalEntry) =
      Storage.walEntry (asBytes "insert:t:k") := by decide +kernel
  exact @log_unambiguous (.init "a" none) (.init "b" (some [1])) _ _ (hsame ▸ hfits) hfits _
    (WALWriter.written_appends (hsame ▸ hfits)) (hsame ▸ WALWriter.written_appends hfits)

end TrenchDb.Ewal
