import TrenchDb.Transport.Codec

/-!
# Which error `decode` returns

The documented order of the checks on a header, and the one check that `decode` makes too early.
-/

open TrenchDb.Lib.BigEndian

namespace TrenchDb.Transport

/-! ## The fields of a header -/

/-- The first four bytes, whatever the type. -/
def magicAt (buffer : List UInt8) : Vector UInt8 4 := (headerAt buffer .Data).magic

def versionAt (buffer : List UInt8) : UInt8 := byteAt buffer 4

def flagsAt (buffer : List UInt8) : UInt16 := UInt16.ofNat (ofBE [byteAt buffer 5, byteAt buffer 6])

def payloadLengthAt (buffer : List UInt8) : Nat :=
  (UInt32.ofNat (ofBE [byteAt buffer 11, byteAt buffer 12, byteAt buffer 13, byteAt buffer 14])).toNat

def frameTypeAt (buffer : List UInt8) : Option Frametype := Frametype.fromU8 (byteAt buffer 15)

/-- The version is outside of the supported range. -/
abbrev Unsupported (version : UInt8) : Prop := version < MIN_SUPPORTED_VERSION ∨ CURRENT_VERSION < version

/-- An unknown type, an undefined flag, or a CONTROL flag that does not suit the type. -/
def Malformed (buffer : List UInt8) : Prop :=
  frameTypeAt buffer = none ∨ flagsAt buffer &&& ~~~(FLAG_FIN ||| FLAG_ACK ||| FLAG_CONTROL) ≠ 0 ∨
    ∃ frameType, frameTypeAt buffer = some frameType ∧
      (headerAt buffer frameType).isControlType ≠ (headerAt buffer frameType).isControl

section

variable {buffer : List UInt8} {frameType : Frametype}

@[simp] theorem headerAt_magic : (headerAt buffer frameType).magic = magicAt buffer := rfl

@[simp] theorem headerAt_version : (headerAt buffer frameType).version = versionAt buffer := rfl

@[simp] theorem headerAt_flags : (headerAt buffer frameType).flags = flagsAt buffer := rfl

@[simp] theorem headerAt_payloadLength : (headerAt buffer frameType).payloadLength.toNat = payloadLengthAt buffer := rfl

/-! ## The documented order -/

/-- What the documentation says of a buffer that holds a header. -/
structure DocumentedOrder (buffer : List UInt8) : Prop where
  magic : magicAt buffer ≠ FRAME_MAGIC → decode buffer = .error .InvalidMagic
  version : magicAt buffer = FRAME_MAGIC → Unsupported (versionAt buffer) →
    decode buffer = .error (.InvalidVersion (versionAt buffer) MIN_SUPPORTED_VERSION CURRENT_VERSION)
  length : magicAt buffer = FRAME_MAGIC → ¬ Unsupported (versionAt buffer) → MAX_FRAME_SIZE < payloadLengthAt buffer →
    decode buffer = .error (.FrameTooLarge (payloadLengthAt buffer) MAX_FRAME_SIZE)
  frame : magicAt buffer = FRAME_MAGIC → ¬ Unsupported (versionAt buffer) → payloadLengthAt buffer ≤ MAX_FRAME_SIZE →
    Malformed buffer → ∃ message, decode buffer = .error (.InvalidFrame message)
  more : decode buffer = .error .NeedMoreData → magicAt buffer = FRAME_MAGIC ∧ ¬ Unsupported (versionAt buffer) ∧
    payloadLengthAt buffer ≤ MAX_FRAME_SIZE ∧ ¬ Malformed buffer ∧
    buffer.length < HEADER_SIZE + payloadLengthAt buffer

/-- The checks that come before the type of the frame. -/
def PassesFirst (buffer : List UInt8) : Prop :=
  magicAt buffer = FRAME_MAGIC ∧ ¬ Unsupported (versionAt buffer) ∧ payloadLengthAt buffer ≤ MAX_FRAME_SIZE

/-! ## What `decode` does -/

theorem decode_unknown (hlen : HEADER_SIZE ≤ buffer.length) (htype : frameTypeAt buffer = none) :
    decode buffer = .error (.InvalidFrame ("Unknown frame type: " ++ toString (byteAt buffer 15))) := by
  exact (Decoded.unknown hlen htype).decode_eq

theorem decode_invalid {e : TransportError} (hlen : HEADER_SIZE ≤ buffer.length)
    (htype : frameTypeAt buffer = some frameType) (hval : (headerAt buffer frameType).validate = .error e) :
    decode buffer = .error e := by
  exact (Decoded.invalid hlen htype hval).decode_eq

theorem decode_needMoreData (hlen : HEADER_SIZE ≤ buffer.length) (h : decode buffer = .error .NeedMoreData) :
    ∃ frameType, frameTypeAt buffer = some frameType ∧ (headerAt buffer frameType).validate = .ok () ∧
      buffer.length < HEADER_SIZE + payloadLengthAt buffer := by
  cases h ▸ decode_decoded buffer with
  | short hshort => exact absurd hlen (not_le.mpr hshort)
  | invalid _ _ hval => exact absurd hval (validate_ne_needMoreData _)
  | more _ htype hval hshort => exact ⟨_, htype, hval, hshort⟩

/-! ## The checks of a header with a known type -/

theorem validate_magic (h : magicAt buffer ≠ FRAME_MAGIC) :
    (headerAt buffer frameType).validate = .error .InvalidMagic := by
  unfold Header.validate
  rw [headerAt_magic, if_pos h]

theorem validate_version (hmagic : magicAt buffer = FRAME_MAGIC) (h : Unsupported (versionAt buffer)) :
    (headerAt buffer frameType).validate =
      .error (.InvalidVersion (versionAt buffer) MIN_SUPPORTED_VERSION CURRENT_VERSION) := by
  unfold Header.validate
  rw [headerAt_magic, if_neg (not_not.mpr hmagic), headerAt_version, if_pos h]

theorem validate_length (hmagic : magicAt buffer = FRAME_MAGIC) (hversion : ¬ Unsupported (versionAt buffer))
    (h : MAX_FRAME_SIZE < payloadLengthAt buffer) : (headerAt buffer frameType).validate =
      .error (.FrameTooLarge (payloadLengthAt buffer) MAX_FRAME_SIZE) := by
  unfold Header.validate
  rw [headerAt_magic, if_neg (not_not.mpr hmagic), headerAt_version, if_neg hversion, headerAt_payloadLength, if_pos h]

theorem validate_malformed (hfirst : PassesFirst buffer) (htype : frameTypeAt buffer = some frameType)
    (h : Malformed buffer) : ∃ message, (headerAt buffer frameType).validate = .error (.InvalidFrame message) := by
  obtain ⟨hmagic, hversion, hlength⟩ := hfirst
  unfold Header.validate
  rw [headerAt_magic, if_neg (not_not.mpr hmagic), headerAt_version, if_neg hversion,
    headerAt_payloadLength, if_neg (not_lt.mpr hlength), headerAt_flags]
  split_ifs with hflags hmissing hextra
  · exact ⟨_, rfl⟩
  · exact ⟨_, rfl⟩
  · exact ⟨_, rfl⟩
  · exfalso
    rcases h with hnone | hflag | ⟨frameType', htype', hcontrol⟩
    · rw [htype] at hnone
      cases hnone
    · exact hflags hflag
    · rw [htype] at htype'
      obtain rfl := Option.some.inj htype'
      cases hc : (headerAt buffer frameType).isControlType <;> cases hd : (headerAt buffer frameType).isControl <;>
        simp_all

theorem not_malformed (htype : frameTypeAt buffer = some frameType)
    (hval : (headerAt buffer frameType).validate = .ok ()) : PassesFirst buffer ∧ ¬ Malformed buffer := by
  obtain ⟨hmagic, hversion, hlength, hflags, hcontrol⟩ := validate_eq_ok.mp hval
  refine ⟨⟨hmagic, hversion, hlength⟩, ?_⟩
  rintro (hnone | hflag | ⟨frameType', htype', hne⟩)
  · rw [htype] at hnone
    cases hnone
  · exact hflag hflags
  · rw [htype] at htype'
    obtain rfl := Option.some.inj htype'
    exact hne hcontrol

theorem more_of_decode (hlen : HEADER_SIZE ≤ buffer.length) (h : decode buffer = .error .NeedMoreData) :
    magicAt buffer = FRAME_MAGIC ∧ ¬ Unsupported (versionAt buffer) ∧ payloadLengthAt buffer ≤ MAX_FRAME_SIZE ∧
      ¬ Malformed buffer ∧ buffer.length < HEADER_SIZE + payloadLengthAt buffer := by
  obtain ⟨frameType, htype, hval, hshort⟩ := decode_needMoreData hlen h
  obtain ⟨⟨hmagic, hversion, hlength⟩, hformed⟩ := not_malformed htype hval
  exact ⟨hmagic, hversion, hlength, hformed, hshort⟩

theorem order_of_known (hlen : HEADER_SIZE ≤ buffer.length) (htype : frameTypeAt buffer = some frameType) :
    DocumentedOrder buffer where
  magic hmagic := decode_invalid hlen htype (validate_magic hmagic)
  version hmagic hversion := decode_invalid hlen htype (validate_version hmagic hversion)
  length hmagic hversion hlength := decode_invalid hlen htype (validate_length hmagic hversion hlength)
  frame hmagic hversion hlength hbad := by
    obtain ⟨message, hval⟩ := validate_malformed ⟨hmagic, hversion, hlength⟩ htype hbad
    exact ⟨message, decode_invalid hlen htype hval⟩
  more := more_of_decode hlen

theorem order_of_unknown (hlen : HEADER_SIZE ≤ buffer.length) (htype : frameTypeAt buffer = none)
    (hfirst : PassesFirst buffer) : DocumentedOrder buffer where
  magic hmagic := absurd hfirst.1 hmagic
  version _ hversion := absurd hversion hfirst.2.1
  length _ _ hlength := absurd hfirst.2.2 (not_le.mpr hlength)
  frame _ _ _ _ := ⟨_, decode_unknown hlen htype⟩
  more := more_of_decode hlen

theorem passesFirst_of_order (hlen : HEADER_SIZE ≤ buffer.length) (htype : frameTypeAt buffer = none)
    (horder : DocumentedOrder buffer) : PassesFirst buffer := by
  have hdecode := decode_unknown hlen htype
  have hmagic : magicAt buffer = FRAME_MAGIC := by
    by_contra hne
    cases hdecode.symm.trans (horder.magic hne)
  have hversion : ¬ Unsupported (versionAt buffer) := by
    intro hunsupported
    cases hdecode.symm.trans (horder.version hmagic hunsupported)
  refine ⟨hmagic, hversion, not_lt.mp ?_⟩
  intro hlength
  cases hdecode.symm.trans (horder.length hmagic hversion hlength)

/-- The type byte is looked at first, so the documented order is kept exactly where the type is known or the
checks that should come before it pass. -/
theorem documented_order_iff (hlen : HEADER_SIZE ≤ buffer.length) :
    DocumentedOrder buffer ↔ frameTypeAt buffer ≠ none ∨ PassesFirst buffer := by
  constructor
  · intro horder
    by_cases htype : frameTypeAt buffer = none
    · exact .inr (passesFirst_of_order hlen htype horder)
    · exact .inl htype
  · rintro (hknown | hfirst)
    · obtain ⟨frameType, htype⟩ := Option.ne_none_iff_exists'.mp hknown
      exact order_of_known hlen htype
    · cases htype : frameTypeAt buffer with
      | none => exact order_of_unknown hlen htype hfirst
      | some frameType => exact order_of_known hlen htype

end

/-- `GET / HTTP/1.1` and a line break: its last byte is a known type. -/
def httpRequest : List UInt8 := [71, 69, 84, 32, 47, 32, 72, 84, 84, 80, 47, 49, 46, 49, 13, 10]

theorem documented_order_iff_http : DocumentedOrder httpRequest :=
  (documented_order_iff (by decide)).mpr (.inl (by decide))

/-- `SSH-2.0-OpenSSH_`: the magic is wrong, and the type is unknown too. -/
def sshBanner : List UInt8 := [83, 83, 72, 45, 50, 46, 48, 45, 79, 112, 101, 110, 83, 83, 72, 95]

theorem sshBanner_misreported : HEADER_SIZE ≤ sshBanner.length ∧ magicAt sshBanner ≠ FRAME_MAGIC ∧
    decode sshBanner = .error (.InvalidFrame "Unknown frame type: 95") ∧ ¬ DocumentedOrder sshBanner := by
  have hdecode : decode sshBanner = .error (.InvalidFrame "Unknown frame type: 95") := by decide +kernel
  refine ⟨by decide, by decide, hdecode, fun horder => ?_⟩
  cases hdecode.symm.trans (horder.magic (by decide))

end TrenchDb.Transport
