import TrenchDb.Wal.Replay

/-!
# Replays that stop without a word

A lenient replay notes a record that is cut, too long or damaged, and goes on to the end otherwise. A record whose
checksum is right and whose payload is no entry stops it too, and is not noted.
-/

open TrenchDb.Lib TrenchDb.Lib.BigEndian

namespace TrenchDb.Wal

/-! ## The errors of a payload -/

namespace WalEntry

/-- Where it fails, it says that the payload is invalid. -/
def FailsInvalid {α : Type} (x : Except WalError α) : Prop :=
  ∀ err, x = .error err → ∃ message, err = .InvalidPayload message

namespace FailsInvalid

variable {α β : Type} {x : Except WalError α} {f : α → Except WalError β}

theorem ok (a : α) : FailsInvalid (.ok a) := nofun

theorem okOr (o : Option α) (message : String) : FailsInvalid (okOr o message) := by
  intro err h
  cases o with
  | none => exact ⟨message, (Except.error.inj h).symm⟩
  | some a => cases h

theorem bind (hx : FailsInvalid x) (hf : ∀ a, FailsInvalid (f a)) : FailsInvalid (x >>= f) := by
  intro err h
  cases x with
  | error e =>
    obtain rfl : e = err := Except.error.inj h
    exact hx e rfl
  | ok a => exact hf a err h

theorem readU32 (payload : List UInt8) (offset : Nat) : FailsInvalid (readU32 payload offset) :=
  bind (okOr _ _) fun _ => bind (okOr _ _) fun _ => ok _

theorem decodeString (payload : List UInt8) (offset : Nat) : FailsInvalid (decodeString payload offset) :=
  bind (readU32 _ _) fun _ => bind (okOr _ _) fun _ => bind (okOr _ _) fun _ => bind (okOr _ _) fun _ =>
    bind (okOr _ _) fun _ => ok _

theorem decodeBytes (payload : List UInt8) (offset : Nat) : FailsInvalid (decodeBytes payload offset) :=
  bind (readU32 _ _) fun _ => bind (okOr _ _) fun _ => bind (okOr _ _) fun _ => bind (okOr _ _) fun _ => ok _

theorem fromTag (payload : List UInt8) (tag : UInt8) (table : String) (cursor : Nat) :
    FailsInvalid (fromTag payload tag table cursor) := by
  unfold WalEntry.fromTag
  split
  case h_1 | h_2 => exact ok _
  case h_3 | h_4 => exact bind (decodeString _ _) fun _ => bind (decodeBytes _ _) fun _ => ok _
  case h_5 => exact bind (decodeString _ _) fun _ => ok _
  case h_6 => exact fun err h => ⟨_, (Except.error.inj h).symm⟩

end FailsInvalid

theorem fromBytes_failsInvalid (payload : List UInt8) : FailsInvalid (fromBytes payload) := by
  refine FailsInvalid.bind (.okOr _ _) fun _ => .bind (.decodeString _ _) fun _ => .bind (.fromTag _ _ _ _) fun _ => ?_
  dsimp only
  split
  · exact fun err h => ⟨_, (Except.error.inj h).symm⟩
  · exact .ok _

end WalEntry

/-! ## What stops the reader -/

variable {r : WalReader}

theorem WalReader.nextEntry_cases (heof : r.eof = false) :
    (r.rest = [] ∧ r.nextEntry.1 = .ok none) ∨ r.nextEntry.1 = .error .UnexpectedEof ∨
      (∃ reason, r.nextEntry.1 = .error (.CorruptEntry r.position reason)) ∨
      ∃ payload more, r.rest = frame (crc32 payload) payload ++ more ∧ payload.length ≤ r.entrySizeLimit ∧
        payload.length < 2 ^ 32 := by
  cases WalReader.nextEntry_next heof with
  | done hrest hnext => exact .inl ⟨hrest, congrArg Prod.fst hnext⟩
  | cut _ _ hnext => exact .inr (.inl (congrArg Prod.fst hnext))
  | tooLong _ _ _ hnext => exact .inr (.inr (.inl ⟨_, congrArg Prod.fst hnext⟩))
  | mismatch _ _ _ _ hnext => exact .inr (.inr (.inl ⟨_, congrArg Prod.fst hnext⟩))
  | undecodable hrest hlimit hlen => exact .inr (.inr (.inr ⟨_, _, hrest, hlimit, hlen⟩))
  | entry hrest hlimit hlen => exact .inr (.inr (.inr ⟨_, _, hrest, hlimit, hlen⟩))

theorem tail_cases (position : Nat) (tail : List UInt8) :
    ∃ (entries : List WalEntry) (stuck : List UInt8), (∀ e ∈ entries, Fits e) ∧ tail = entries.flatMap record ++ stuck ∧
      (stuck = [] ∨
        (let r := WalReader.at (position + (entries.flatMap record).length) stuck
         r.nextEntry.1 = .error .UnexpectedEof ∨ ∃ reason, r.nextEntry.1 = .error (.CorruptEntry r.position reason)) ∨
        ∃ payload rest, stuck = frame (crc32 payload) payload ++ rest ∧ payload.length ≤ defaultEntrySizeLimit ∧
          ∀ e, WalEntry.fromBytes payload ≠ .ok e) := by
  induction hlength : tail.length using Nat.strong_induction_on generalizing tail position with
  | _ length ih =>
    rcases WalReader.nextEntry_cases (r := .at position tail) rfl with ⟨hnil, -⟩ | heof | ⟨reason, hcorrupt⟩ |
      ⟨payload, more, hrest, hlimit, -⟩
    · exact ⟨[], tail, nofun, rfl, .inl hnil⟩
    · exact ⟨[], tail, nofun, rfl, .inr (.inl (.inl heof))⟩
    · exact ⟨[], tail, nofun, rfl, .inr (.inl (.inr ⟨reason, hcorrupt⟩))⟩
    · replace hrest : tail = frame (crc32 payload) payload ++ more := hrest
      replace hlimit : payload.length ≤ defaultEntrySizeLimit := hlimit
      cases hentry : WalEntry.fromBytes payload with
      | error err =>
        refine ⟨[], tail, nofun, rfl, .inr (.inr ⟨payload, more, hrest, hlimit, fun e he => ?_⟩)⟩
        rw [hentry] at he
        cases he
      | ok entry =>
        -- One whole record more, and the rest of the file is shorter.
        obtain ⟨rfl, -⟩ := WalEntry.fromBytes_eq_ok.mp hentry
        have hrecord := record_length entry
        have hshorter : more.length < length := by
          have hall := congrArg List.length hrest
          rw [List.length_append, frame_length] at hall
          unfold ENTRY_OVERHEAD ENTRY_LEN_SIZE ENTRY_CKSUM_SIZE at hall
          omega
        obtain ⟨entries, stuck, hfits, hmore, hstuck⟩ := ih _ hshorter (position + (record entry).length) more rfl
        refine ⟨entry :: entries, stuck, List.forall_mem_cons.mpr ⟨hlimit, hfits⟩, ?_, ?_⟩
        · rw [hrest, hmore, List.flatMap_cons, List.append_assoc]
          rfl
        · rw [List.flatMap_cons, List.length_append, ← Nat.add_assoc]
          exact hstuck

/-! ## What is not noted -/

/-- After whole records there is one whose checksum is right and whose payload is no entry. -/
def Undecodable (file : List UInt8) : Prop :=
  ∃ (entries : List WalEntry) (payload rest : List UInt8), (∀ e ∈ entries, Fits e) ∧
    payload.length ≤ defaultEntrySizeLimit ∧ (∀ e, WalEntry.fromBytes payload ≠ .ok e) ∧
    file.drop WAL_HEADER_SIZE = entries.flatMap record ++ (frame (crc32 payload) payload ++ rest)

section Replay

variable {σ : Type} {T : Table σ} {store : σ} {file payload : List UInt8} {entries : List WalEntry}

theorem header_le_of_valid (hheader : validateHeader file = .ok ()) : WAL_HEADER_SIZE ≤ file.length := by
  unfold validateHeader at hheader
  split at hheader
  · cases hheader
  · omega

theorem replay_undecodable {rest : List UInt8} (hheader : validateHeader file = .ok ()) (hfits : ∀ e ∈ entries, Fits e)
    (hlimit : payload.length ≤ defaultEntrySizeLimit) (hpayload : ∀ e, WalEntry.fromBytes payload ≠ .ok e)
    (hfile : file.drop WAL_HEADER_SIZE = entries.flatMap record ++ (frame (crc32 payload) payload ++ rest)) :
    replayWithMode T store (some file) .Lenient =
      (.ok (progress entries.length (WAL_HEADER_SIZE + (entries.flatMap record).length)),
        entries.foldl (applyEntry T) store) := by
  have hlt : payload.length < 2 ^ 32 := by
    unfold defaultEntrySizeLimit at hlimit
    omega
  rw [replay_valid hheader hfits hfile]
  cases hentry : WalEntry.fromBytes payload with
  | ok entry => exact absurd hentry (hpayload entry)
  | error err =>
    obtain ⟨message, rfl⟩ := WalEntry.fromBytes_failsInvalid payload err hentry
    have hnext := @WalReader.nextEntry_frame _ payload _
      (.at (WAL_HEADER_SIZE + (entries.flatMap record).length) (frame (crc32 payload) payload ++ rest))
      rfl rfl hlimit hlt
    rw [if_neg (by simp), hentry] at hnext
    rw [replayLoop_error hnext]
    rfl

/-- A lenient replay that notes nothing has reached the end of the file, unless a record is there whose checksum is
right and whose payload is no entry. -/
theorem silent_end_iff (T : Table σ) (store : σ) (hheader : validateHeader file = .ok ()) :
    (∀ summary store', replayWithMode T store (some file) .Lenient = (.ok summary, store') →
      summary.truncatedAt = none → summary.corruptionDetectedAt = none → summary.finalPosition = file.length) ↔
      ¬ Undecodable file := by
  have hle := header_le_of_valid hheader
  constructor
  · rintro hend ⟨entries, payload, rest, hfits, hlimit, hpayload, hfile⟩
    have hposition := hend _ _ (replay_undecodable hheader hfits hlimit hpayload hfile) rfl rfl
    have hlength := congrArg List.length hfile
    simp only [progress, List.length_drop, List.length_append, frame_length, ENTRY_OVERHEAD, ENTRY_LEN_SIZE,
      ENTRY_CKSUM_SIZE] at hposition hlength
    omega
  · intro hdecodable summary store' hreplay htruncated hcorrupt
    obtain ⟨entries, stuck, hfits, hfile, hstuck⟩ := tail_cases WAL_HEADER_SIZE (file.drop WAL_HEADER_SIZE)
    rw [replay_valid hheader hfits hfile] at hreplay
    rcases hstuck with rfl | hnoted | ⟨payload, rest, rfl, hlimit, hpayload⟩
    · rw [replayLoop_end (WalReader.nextEntry_nil rfl)] at hreplay
      obtain rfl := Except.ok.inj (Prod.mk.inj hreplay).1
      have hlength := congrArg List.length hfile
      rw [List.append_nil, List.length_drop] at hlength
      simp only [progress]
      omega
    · rcases hnoted with heof | ⟨reason, hreason⟩
      · rw [replayLoop_error (Prod.ext heof rfl)] at hreplay
        obtain rfl := Except.ok.inj (Prod.mk.inj hreplay).1
        cases htruncated
      · rw [replayLoop_error (Prod.ext hreason rfl)] at hreplay
        obtain rfl := Except.ok.inj (Prod.mk.inj hreplay).1
        cases hcorrupt
    · exact absurd ⟨entries, payload, rest, hfits, hlimit, hpayload, hfile⟩ hdecodable

theorem silent_end_iff_header : ¬ Undecodable header ∧ ∀ summary store',
    replayWithMode memoryTable .new (some header) .Lenient = (.ok summary, store') → summary.truncatedAt = none →
      summary.corruptionDetectedAt = none → summary.finalPosition = header.length := by
  have hdecodable : ¬ Undecodable header := by
    rintro ⟨entries, payload, rest, -, -, -, hfile⟩
    have hlength := congrArg List.length hfile
    simp only [List.length_drop, List.length_append, frame_length, ENTRY_OVERHEAD, ENTRY_LEN_SIZE, header_length,
      WAL_HEADER_SIZE] at hlength
    omega
  exact ⟨hdecodable, (silent_end_iff memoryTable .new (by decide)).mpr hdecodable⟩

/-- Eight zero bytes are a record: a payload of no bytes, with the checksum of no bytes. -/
theorem zero_tail_not_noted :
    let file := header ++ List.replicate 8 0
    validateHeader file = .ok () ∧
      replayWithMode memoryTable .new (some file) .Lenient = (.ok (progress 0 8), .new) ∧
      (progress 0 8).truncatedAt = none ∧ (progress 0 8).corruptionDetectedAt = none ∧ file.length = 16 := by
  have hheader : validateHeader (header ++ List.replicate 8 0) = .ok () := by decide +kernel
  have hfile : (header ++ List.replicate 8 0).drop WAL_HEADER_SIZE =
      ([] : List WalEntry).flatMap record ++ (frame (crc32 []) [] ++ []) := by decide +kernel
  have hfits : ∀ e ∈ ([] : List WalEntry), Fits e := nofun
  have hpayload : ∀ e, WalEntry.fromBytes [] ≠ .ok e := by
    have hmissing : WalEntry.fromBytes [] = .error (.InvalidPayload "missing tag") := rfl
    rw [hmissing]
    exact fun _ => nofun
  exact ⟨hheader, replay_undecodable hheader hfits (Nat.zero_le _) hpayload hfile, rfl, rfl, rfl⟩

end Replay

end TrenchDb.Wal
