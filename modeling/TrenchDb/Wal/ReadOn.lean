import TrenchDb.Wal.Silent

/-!
# Reading on after an error

A reader counts its position on success only, while it takes bytes from the file on every path. Once it has rejected a
record, it is further on in the file than it says.
-/

open TrenchDb.Lib TrenchDb.Lib.BigEndian

namespace TrenchDb.Wal

open WalReader (Cut)

/-! ## What a position says -/

/-- What the next call says of positions. The entry that it returns is read from where the reader is in the file, up to
where it is then, and these are the positions before and after; a corrupt entry is at the position in the error. -/
structure TruePositions (file : List UInt8) (r : WalReader) : Prop where
  entry : ∀ e r', r.nextEntry = (.ok (some e), r') → ∃ before, file = before ++ (record e ++ r'.rest) ∧
    r.position = before.length ∧ r'.position = before.length + (record e).length
  corrupt : ∀ position reason r', r.nextEntry = (.error (.CorruptEntry position reason), r') →
    ∃ before, file = before ++ r.rest ∧ position = before.length

/-! ## What the file must be -/

/-- Bytes that the reader takes for a record and rejects. -/
inductive Rejected (limit : Nat) : List UInt8 → Prop
  | tooLong (lenBuf : List UInt8) : lenBuf.length = ENTRY_LEN_SIZE → limit < ofBE lenBuf → Rejected limit lenBuf
  | mismatch (checksum : UInt32) (payload : List UInt8) : payload.length ≤ limit → payload.length < 2 ^ 32 →
      crc32 payload ≠ checksum → Rejected limit (frame checksum payload)
  | undecodable (payload : List UInt8) : payload.length ≤ limit → payload.length < 2 ^ 32 →
      (∀ e, WalEntry.fromBytes payload ≠ .ok e) → Rejected limit (frame (crc32 payload) payload)

/-- Bytes of which the reader says nothing that has a position: records whose payload is no entry, up to the end of the
file or a record that is cut. -/
inductive Unheard (limit : Nat) : List UInt8 → Prop
  | cut {bytes : List UInt8} : Cut limit bytes → Unheard limit bytes
  | undecodable {payload rest : List UInt8} : payload.length ≤ limit → payload.length < 2 ^ 32 →
      (∀ e, WalEntry.fromBytes payload ≠ .ok e) → Unheard limit rest →
      Unheard limit (frame (crc32 payload) payload ++ rest)

/-- Whole records, up to the end or a record that is cut, or up to one that is rejected, with nothing to be heard of
behind it. -/
inductive Sound (limit : Nat) : List UInt8 → Prop
  | cut {bytes : List UInt8} : Cut limit bytes → Sound limit bytes
  | record {e : WalEntry} {rest : List UInt8} : e.toBytes.length ≤ limit → e.toBytes.length < 2 ^ 32 →
      Sound limit rest → Sound limit (record e ++ rest)
  | rejected {bytes rest : List UInt8} : Rejected limit bytes → Unheard limit rest → Sound limit (bytes ++ rest)

/-! ## One call -/

variable {file : List UInt8} {limit : Nat} {r r' : WalReader}

/-- The reader is as far as it says. -/
def At (file : List UInt8) (r : WalReader) : Prop := ∃ before, file = before ++ r.rest ∧ r.position = before.length

/-- The reader is further on than it says. -/
def Ahead (file : List UInt8) (r : WalReader) : Prop := ∃ before, file = before ++ r.rest ∧ r.position < before.length

theorem At.ahead {bytes more : List UInt8} (h : At file r) (hrest : r.rest = bytes ++ more) (hne : bytes ≠ []) :
    Ahead file { r with rest := more } := by
  obtain ⟨before, hfile, hposition⟩ := h
  have hpos := List.length_pos_iff.mpr hne
  refine ⟨before ++ bytes, by rw [hfile, hrest, List.append_assoc], ?_⟩
  rw [List.length_append]
  dsimp only
  omega

theorem Ahead.further {bytes more : List UInt8} (h : Ahead file r) (hrest : r.rest = bytes ++ more) :
    Ahead file { r with rest := more } := by
  obtain ⟨before, hfile, hposition⟩ := h
  refine ⟨before ++ bytes, by rw [hfile, hrest, List.append_assoc], ?_⟩
  rw [List.length_append]
  dsimp only
  omega

theorem Ahead.not_at (h : Ahead file r) : ¬ At file r := by
  rintro ⟨before, hfile, hposition⟩
  obtain ⟨before', hfile', hlt⟩ := h
  have hsame := hfile.symm.trans hfile'
  have hlength := congrArg List.length hsame
  rw [List.length_append, List.length_append] at hlength
  omega

theorem WalReader.forall_after {P : WalReader → Prop} (r : WalReader) :
    (∀ n, P (r.after n)) ↔ P r ∧ ∀ n, P (r.nextEntry.2.after n) := by
  have hshift : ∀ n, r.after (n + 1) = r.nextEntry.2.after n := by
    intro n
    rw [Nat.add_comm, WalReader.after_add]
    rfl
  constructor
  · intro h
    exact ⟨h 0, fun n => hshift n ▸ h (n + 1)⟩
  · rintro ⟨hfirst, hrest⟩ n
    cases n with
    | zero => exact hfirst
    | succ n => exact hshift n ▸ hrest n

theorem TruePositions.silent (h : ∀ e, r.nextEntry.1 ≠ .ok (some e))
    (h' : ∀ position reason, r.nextEntry.1 ≠ .error (.CorruptEntry position reason)) : TruePositions file r :=
  ⟨fun e _ hnext => absurd (congrArg Prod.fst hnext) (h e),
    fun position reason _ hnext => absurd (congrArg Prod.fst hnext) (h' position reason)⟩

theorem truePositions_nil (hrest : r.rest = []) (n : Nat) : TruePositions file (r.after n) := by
  have hnext := WalReader.nextEntry_nil (WalReader.after_nil (n := n) hrest)
  exact .silent (by simp [hnext]) (by simp [hnext])

theorem nextEntry_undecodable {payload more : List UInt8} (heof : r.eof = false)
    (hrest : r.rest = frame (crc32 payload) payload ++ more) (hlimit : payload.length ≤ r.entrySizeLimit)
    (hlen : payload.length < 2 ^ 32) (hentry : ∀ e, WalEntry.fromBytes payload ≠ .ok e) :
    ∃ message, r.nextEntry = (.error (.InvalidPayload message), { r with rest := more }) := by
  have hnext := WalReader.nextEntry_frame heof hrest hlimit hlen
  rw [if_neg (by simp)] at hnext
  cases hdecode : WalEntry.fromBytes payload with
  | ok e => exact absurd hdecode (hentry e)
  | error err =>
    obtain ⟨message, rfl⟩ := WalEntry.fromBytes_failsInvalid payload err hdecode
    exact ⟨message, by rw [hnext, hdecode]⟩

theorem nextEntry_rejected {bytes more : List UInt8} (h : Rejected r.entrySizeLimit bytes) (heof : r.eof = false)
    (hrest : r.rest = bytes ++ more) : ∃ err, r.nextEntry = (.error err, { r with rest := more }) ∧
      ∀ position reason, err = .CorruptEntry position reason → position = r.position := by
  cases h with
  | tooLong _ hlenBuf hlimit =>
    exact ⟨_, WalReader.nextEntry_tooLong heof hrest hlenBuf hlimit, fun _ _ h => (WalError.CorruptEntry.inj h).1.symm⟩
  | mismatch checksum payload hlimit hlen hne =>
    have hnext := WalReader.nextEntry_frame heof hrest hlimit hlen
    rw [if_pos hne] at hnext
    exact ⟨_, hnext, fun _ _ h => (WalError.CorruptEntry.inj h).1.symm⟩
  | undecodable payload hlimit hlen hentry =>
    obtain ⟨message, hnext⟩ := nextEntry_undecodable heof hrest hlimit hlen hentry
    exact ⟨_, hnext, fun _ _ h => by cases h⟩

/-! ## Files where the positions are true -/

theorem truePositions_cut (heof : r.eof = false) (hcut : Cut r.entrySizeLimit r.rest) (n : Nat) :
    TruePositions file (r.after n) := by
  by_cases hnil : r.rest = []
  · exact truePositions_nil hnil n
  · have hnext := WalReader.nextEntry_cut heof hnil hcut
    refine (WalReader.forall_after r).mpr ⟨.silent (by simp [hnext]) (by simp [hnext]), fun n => ?_⟩ n
    rw [hnext]
    exact truePositions_nil rfl n

theorem truePositions_unheard (h : Unheard limit r.rest) (hlimit : r.entrySizeLimit = limit) (heof : r.eof = false) :
    ∀ n, TruePositions file (r.after n) := by
  generalize hrest : r.rest = rest at h
  induction h generalizing r with
  | cut hcut =>
    subst hlimit hrest
    exact truePositions_cut heof hcut
  | undecodable hle hlen hentry _ ih =>
    subst hlimit
    obtain ⟨message, hnext⟩ := nextEntry_undecodable heof hrest hle hlen hentry
    refine (WalReader.forall_after r).mpr ⟨.silent (by simp [hnext]) (by simp [hnext]), ?_⟩
    rw [hnext]
    exact ih rfl heof rfl

theorem truePositions_sound (h : Sound limit r.rest) (hat : At file r) (hlimit : r.entrySizeLimit = limit)
    (heof : r.eof = false) : ∀ n, TruePositions file (r.after n) := by
  generalize hrest : r.rest = rest at h
  induction h generalizing r with
  | cut hcut =>
    subst hlimit hrest
    exact truePositions_cut heof hcut
  | @record e rest hle hlen _ ih =>
    subst hlimit
    obtain ⟨before, hfile, hposition⟩ := hat
    have hnext := WalReader.nextEntry_whole heof hrest hle hlen
    refine (WalReader.forall_after r).mpr ⟨⟨fun e' r' h => ?_, fun _ _ _ h => ?_⟩, ?_⟩
    · rw [hnext] at h
      obtain ⟨hsame, rfl⟩ := Prod.mk.inj h
      obtain rfl := Option.some.inj (Except.ok.inj hsame)
      exact ⟨before, by rw [hfile, hrest], hposition, by rw [hposition]⟩
    · rw [hnext] at h
      cases h
    · rw [hnext]
      refine ih ⟨before ++ record e, by rw [hfile, hrest, List.append_assoc], ?_⟩ rfl heof rfl
      rw [List.length_append, hposition]
  | rejected hrejected hunheard =>
    subst hlimit
    obtain ⟨err, hnext, herr⟩ := nextEntry_rejected hrejected heof hrest
    refine (WalReader.forall_after r).mpr ⟨⟨fun _ _ h => ?_, fun position reason r' h => ?_⟩, ?_⟩
    · rw [hnext] at h
      cases h
    · rw [hnext] at h
      obtain ⟨before, hfile, hposition⟩ := hat
      exact ⟨before, hfile, (herr _ _ (Except.error.inj (Prod.mk.inj h).1)).trans hposition⟩
    · rw [hnext]
      exact truePositions_unheard hunheard rfl heof

/-! ## And only there -/

theorem unheard_of_truePositions (hahead : Ahead file r) (heof : r.eof = false)
    (h : ∀ n, TruePositions file (r.after n)) : Unheard r.entrySizeLimit r.rest := by
  induction hlength : r.rest.length using Nat.strong_induction_on generalizing r with
  | _ length ih =>
    obtain ⟨hfirst, hothers⟩ := (WalReader.forall_after r).mp h
    cases WalReader.nextEntry_next heof with
    | done hrest => exact .cut (.inl (by rw [hrest]; decide))
    | cut hcut => exact .cut hcut
    | tooLong _ _ _ hnext => exact absurd (hfirst.corrupt _ _ _ hnext) hahead.not_at
    | mismatch _ _ _ _ hnext => exact absurd (hfirst.corrupt _ _ _ hnext) hahead.not_at
    | @undecodable payload more err hrest hlimit hlen herr hnext =>
      rw [hnext] at hothers
      have hshorter : more.length < length := by
        rw [← hlength, hrest, List.length_append, frame_length]
        unfold ENTRY_OVERHEAD ENTRY_LEN_SIZE
        omega
      rw [hrest]
      exact .undecodable hlimit hlen (by simp [herr]) (ih _ hshorter (hahead.further hrest) heof hothers rfl)
    | @entry e more hrest hlimit hlen hnext =>
      obtain ⟨before, hfile, hposition, -⟩ := hfirst.entry _ _ hnext
      exact absurd ⟨before, by rw [hfile, hrest], hposition⟩ hahead.not_at

theorem sound_of_truePositions (hat : At file r) (heof : r.eof = false)
    (h : ∀ n, TruePositions file (r.after n)) : Sound r.entrySizeLimit r.rest := by
  induction hlength : r.rest.length using Nat.strong_induction_on generalizing r with
  | _ length ih =>
    obtain ⟨hfirst, hothers⟩ := (WalReader.forall_after r).mp h
    cases WalReader.nextEntry_next heof with
    | done hrest => exact .cut (.inl (by rw [hrest]; decide))
    | cut hcut => exact .cut hcut
    | @tooLong lenBuf more reason hrest hlenBuf hlimit hnext =>
      rw [hnext] at hothers
      have hne : lenBuf ≠ [] := by
        rintro rfl
        cases hlenBuf
      rw [hrest]
      exact .rejected (.tooLong lenBuf hlenBuf hlimit) (unheard_of_truePositions (hat.ahead hrest hne) heof hothers)
    | mismatch hrest hlimit hlen hne hnext =>
      rw [hnext] at hothers
      rw [hrest]
      exact .rejected (.mismatch _ _ hlimit hlen hne)
        (unheard_of_truePositions (hat.ahead hrest frame_ne_nil) heof hothers)
    | undecodable hrest hlimit hlen herr hnext =>
      rw [hnext] at hothers
      rw [hrest]
      exact .rejected (.undecodable _ hlimit hlen (by simp [herr]))
        (unheard_of_truePositions (hat.ahead hrest frame_ne_nil) heof hothers)
    | @entry e more hrest hlimit hlen hnext =>
      rw [hnext] at hothers
      obtain ⟨before, hfile, hposition⟩ := hat
      have hshorter : more.length < length := by
        rw [← hlength, hrest, List.length_append, record_length]
        unfold ENTRY_OVERHEAD ENTRY_LEN_SIZE
        omega
      have hnow : At file { r with rest := more, position := r.position + (record e).length } :=
        ⟨before ++ record e, by rw [hfile, hrest, List.append_assoc], by rw [List.length_append, hposition]⟩
      rw [hrest]
      exact .record hlimit hlen (ih _ hshorter hnow heof hothers rfl)

/-- Over all calls on a file with a valid header, the positions are true exactly if there is nothing to be heard of
behind the first record that is rejected. -/
theorem truePositions_iff (hopen : WalReader.openWithOptions (some file) limit = .ok r) :
    (∀ n, TruePositions file (r.after n)) ↔ Sound limit (file.drop WAL_HEADER_SIZE) := by
  obtain ⟨_, hheader, hr⟩ := bind_eq_ok.mp hopen
  obtain rfl := Except.ok.inj hr
  have hle := header_le_of_valid hheader
  have hat : At file ⟨file.drop WAL_HEADER_SIZE, WAL_HEADER_SIZE, false, limit⟩ :=
    ⟨file.take WAL_HEADER_SIZE, (List.take_append_drop _ _).symm, by simp [hle]⟩
  exact ⟨sound_of_truePositions hat rfl, fun h => truePositions_sound h hat rfl rfl⟩

theorem truePositions_iff_cut :
    let file := header ++ (record (.CreateTable "t") ++ (record (.CreateTable "u") ++ [0, 0]))
    ∃ r, WalReader.openWithOptions (some file) 16 = .ok r ∧ ∀ n, TruePositions file (r.after n) := by
  have hcut : Cut 16 [0, 0] := .inl (by decide)
  have hsound : Sound 16 (record (.CreateTable "t") ++ (record (.CreateTable "u") ++ [0, 0])) :=
    .record (by decide) (by decide) (.record (by decide) (by decide) (.cut hcut))
  exact ⟨_, rfl, (truePositions_iff rfl).mpr hsound⟩

/-- A record with a wrong checksum, and then a whole one. -/
def damagedFirst : List UInt8 := header ++ (frame 0 [0] ++ record (.CreateTable "u"))

/-- The second call returns the second record, which is at 17, and the position before it is that of the first. -/
theorem position_stays_behind :
    let r := WalReader.start (damagedFirst.drop WAL_HEADER_SIZE)
    WalReader.open (some damagedFirst) = .ok r ∧
      r.nextEntry.1 = .error (.CorruptEntry 8 "checksum mismatch: expected 00000000, found d202ef8d") ∧
      (r.after 1).nextEntry = (.ok (some (.CreateTable "u")), r.after 2) ∧
      (r.after 1).position = 8 ∧ (r.after 2).position = 22 ∧ ¬ ∀ n, TruePositions damagedFirst (r.after n) := by
  let r := WalReader.start (damagedFirst.drop WAL_HEADER_SIZE)
  have hsecond : (r.after 1).nextEntry = (.ok (some (.CreateTable "u")), r.after 2) := by decide +kernel
  have hposition : (r.after 1).position = 8 := by decide +kernel
  have hrest : (r.after 2).rest = [] := by decide +kernel
  refine ⟨rfl, by decide +kernel, hsecond, hposition, by decide +kernel, fun h => ?_⟩
  obtain ⟨before, hfile, hbefore, -⟩ := (h 1).entry _ _ hsecond
  have hlength := congrArg List.length hfile
  rw [hrest, List.append_nil, List.length_append, ← hbefore, hposition] at hlength
  have hfalse : damagedFirst.length ≠ 8 + (record (.CreateTable "u")).length := by decide +kernel
  exact hfalse hlength

end TrenchDb.Wal
