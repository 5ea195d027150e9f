import Mathlib.Data.List.GetD
import TrenchDb.Lib.Incremental
import TrenchDb.Transport.Frame

/-!
# The frame codec is exact

`decode` accepts exactly the buffers that start with the encoding of a valid
frame, and its verdicts are stable under more input.
-/

open TrenchDb.Lib.BigEndian TrenchDb.Lib.Incremental

namespace TrenchDb.Transport

/-! ## Frame types and flags -/

@[simp] theorem fromU8_asU8 (t : Frametype) : Frametype.fromU8 t.asU8 = some t := by
  cases t <;> rfl

theorem asU8_of_fromU8 {b : UInt8} {t : Frametype} (h : Frametype.fromU8 b = some t) : t.asU8 = b := by
  apply UInt8.toNat_inj.mp
  unfold Frametype.fromU8 at h
  split at h
  all_goals simp only [Option.some.injEq, reduceCtorEq] at h
  all_goals subst h; simp only [*]; rfl

theorem u16_ofBE_toBE (x : UInt16) : UInt16.ofNat (ofBE (toBE 2 x.toNat)) = x := by
  rw [ofBE_toBE_of_lt (by have := x.toNat_lt; omega), UInt16.ofNat_toNat]

theorem u32_ofBE_toBE (x : UInt32) : UInt32.ofNat (ofBE (toBE 4 x.toNat)) = x := by
  rw [ofBE_toBE_of_lt (by have := x.toNat_lt; omega), UInt32.ofNat_toNat]

/-! ## The header -/

theorem validate_eq_ok {h : Header} : h.validate = .ok () ↔
    h.magic = FRAME_MAGIC ∧ ¬ (h.version < MIN_SUPPORTED_VERSION ∨ CURRENT_VERSION < h.version) ∧
    h.payloadLength.toNat ≤ MAX_FRAME_SIZE ∧
    h.flags &&& ~~~(FLAG_FIN ||| FLAG_ACK ||| FLAG_CONTROL) = 0 ∧
    (h.isControlType = h.isControl) := by
  unfold Header.validate
  split_ifs with h1 h2 h3 h4 h5 h6
  · simp [h1]
  · simp [h2]
  · simp [h3]
  · simp [h4]
  · simp only [false_iff, not_and]
    intro _ _ _ _ he; exact h5.2 (he ▸ h5.1)
  · simp only [false_iff, not_and]
    intro _ _ _ _ he; exact h6.1 (he ▸ h6.2)
  · simp only [true_iff]
    refine ⟨not_not.mp h1, h2, not_lt.mp h3, not_not.mp h4, ?_⟩
    cases hc : h.isControlType <;> cases hd : h.isControl <;> simp_all

theorem validate_ne_needMoreData (h : Header) : h.validate ≠ .error .NeedMoreData := by
  unfold Header.validate
  split_ifs <;> simp

/-- A frame that can go over the wire: a legal header that tells the payload's length. -/
structure Frame.Valid (f : Frame) : Prop where
  header_ok : f.header.validate = .ok ()
  length_eq : f.payload.length = f.header.payloadLength.toNat

theorem Frame.Valid.length_le {f : Frame} (h : f.Valid) : f.payload.length ≤ MAX_FRAME_SIZE := by
  rw [h.length_eq]; exact (validate_eq_ok.mp h.header_ok).2.2.1

theorem encode_of_valid {f : Frame} (h : f.Valid) : encode f = .ok f.wire := by
  rw [encode, if_neg (not_not.mpr h.length_eq)]

@[simp] theorem wire_length (f : Frame) : f.wire.length = HEADER_SIZE + f.payload.length := by
  simp [Frame.wire, HEADER_SIZE]; omega

/-! ## The checks of `decode` -/

/-- What `decode` returns, by the check that decides it. -/
inductive Decoded (buffer : List UInt8) : Except TransportError (Frame × Nat) → Prop
  | short : buffer.length < HEADER_SIZE → Decoded buffer (.error .NeedMoreData)
  | unknown : HEADER_SIZE ≤ buffer.length → Frametype.fromU8 (byteAt buffer 15) = none →
      Decoded buffer (.error (.InvalidFrame ("Unknown frame type: " ++ toString (byteAt buffer 15))))
  | invalid {t : Frametype} {e : TransportError} : HEADER_SIZE ≤ buffer.length →
      Frametype.fromU8 (byteAt buffer 15) = some t → (headerAt buffer t).validate = .error e → Decoded buffer (.error e)
  | more {t : Frametype} : HEADER_SIZE ≤ buffer.length → Frametype.fromU8 (byteAt buffer 15) = some t →
      (headerAt buffer t).validate = .ok () → buffer.length < HEADER_SIZE + (headerAt buffer t).payloadLength.toNat →
      Decoded buffer (.error .NeedMoreData)
  | frame {t : Frametype} {payload : List UInt8} : Frametype.fromU8 (byteAt buffer 15) = some t →
      (headerAt buffer t).validate = .ok () → HEADER_SIZE + (headerAt buffer t).payloadLength.toNat ≤ buffer.length →
      payload = (buffer.drop HEADER_SIZE).take (headerAt buffer t).payloadLength.toNat →
      Decoded buffer (.ok ({ header := headerAt buffer t, payload },
        HEADER_SIZE + (headerAt buffer t).payloadLength.toNat))

theorem decode_decoded (buffer : List UInt8) : Decoded buffer (decode buffer) := by
  unfold decode
  split_ifs with hlen
  · exact .short hlen
  have hlen := not_lt.mp hlen
  cases ht : Frametype.fromU8 (byteAt buffer 15) with
  | none => exact .unknown hlen ht
  | some t =>
    cases hval : (headerAt buffer t).validate with
    | error e =>
      simp only [hval]
      exact .invalid hlen ht hval
    | ok =>
      simp only [hval]
      split_ifs with hshort
      · exact .more hlen ht hval hshort
      · exact .frame ht hval (not_lt.mp hshort) rfl

theorem Decoded.decode_eq {buffer : List UInt8} {result : Except TransportError (Frame × Nat)}
    (h : Decoded buffer result) : decode buffer = result := by
  unfold decode
  cases h with
  | short hlen => rw [if_pos hlen]
  | unknown hlen ht => rw [if_neg (not_lt.mpr hlen), ht]
  | invalid hlen ht hval =>
    rw [if_neg (not_lt.mpr hlen), ht]
    simp only [hval]
  | more hlen ht hval hshort =>
    rw [if_neg (not_lt.mpr hlen), ht]
    simp only [hval, if_pos hshort]
  | frame ht hval hle hpayload =>
    rw [if_neg (not_lt.mpr (Nat.le_trans (Nat.le_add_right _ _) hle)), ht]
    simp only [hval, if_neg (not_lt.mpr hle), hpayload]

/-! ## Decoding an encoding -/

theorem wire_cons {f : Frame} (hm : f.header.magic = FRAME_MAGIC) : f.wire =
    0x54 :: 0x52 :: 0x4E :: 0x43 :: f.header.version ::
      (toBE 2 f.header.flags.toNat ++ (toBE 4 f.header.streamId.toNat ++
        (toBE 4 f.header.payloadLength.toNat ++ (f.header.frameType.asU8 :: f.payload)))) := by
  simp [Frame.wire, hm, FRAME_MAGIC]

theorem headerAt_wire {f : Frame} (hm : f.header.magic = FRAME_MAGIC) (rest : List UInt8) :
    headerAt (f.wire ++ rest) f.header.frameType = f.header := by
  have h16 := u16_ofBE_toBE f.header.flags
  have hid := u32_ofBE_toBE f.header.streamId
  have hlen := u32_ofBE_toBE f.header.payloadLength
  rw [wire_cons hm]
  simp only [toBE] at h16 hid hlen ⊢
  simp only [headerAt, byteAt, List.cons_append, List.nil_append, List.getD_cons_succ,
    List.getD_cons_zero, h16, hid, hlen]
  rw [show (#v[0x54, 0x52, 0x4E, 0x43] : Vector UInt8 4) = f.header.magic from hm.symm]

theorem byteAt_wire {f : Frame} (hm : f.header.magic = FRAME_MAGIC) (rest : List UInt8) :
    byteAt (f.wire ++ rest) 15 = f.header.frameType.asU8 := by
  rw [wire_cons hm]; rfl

theorem wire_drop (f : Frame) (rest : List UInt8) :
    (f.wire ++ rest).drop HEADER_SIZE = f.payload ++ rest := by
  have hsplit : f.wire = (f.wire.take HEADER_SIZE) ++ f.payload := by
    unfold Frame.wire
    rw [List.take_left' (by simp [HEADER_SIZE])]
  rw [hsplit, List.append_assoc, List.drop_left' (by simp)]

theorem decode_wire {f : Frame} (h : f.Valid) (rest : List UInt8) :
    decode (f.wire ++ rest) = .ok (f, f.wire.length) := by
  have hm := (validate_eq_ok.mp h.header_ok).1
  have hhead := headerAt_wire hm rest
  have htype : Frametype.fromU8 (byteAt (f.wire ++ rest) 15) = some f.header.frameType := by
    rw [byteAt_wire hm, fromU8_asU8]
  have hlen : HEADER_SIZE + f.header.payloadLength.toNat ≤ (f.wire ++ rest).length := by
    rw [List.length_append, wire_length, h.length_eq]
    omega
  have hpayload : f.payload = ((f.wire ++ rest).drop HEADER_SIZE).take f.header.payloadLength.toNat := by
    rw [wire_drop, ← h.length_eq, List.take_left]
  have hframe := Decoded.frame htype (by rw [hhead, h.header_ok]) (by rwa [hhead]) rfl
  rw [hframe.decode_eq, hhead, wire_length, h.length_eq, ← hpayload]

/-! ## What `decode` accepts -/

theorem length_of_decode {buffer : List UInt8} {f : Frame} {n : Nat} (h : decode buffer = .ok (f, n)) :
    HEADER_SIZE ≤ buffer.length := by
  cases h ▸ decode_decoded buffer with
  | frame _ _ hle => exact Nat.le_trans (Nat.le_add_right _ _) hle

theorem decode_ok {buffer : List UInt8} {f : Frame} {n : Nat} (h : decode buffer = .ok (f, n)) :
    Frametype.fromU8 (byteAt buffer 15) = some f.header.frameType ∧
    f.header = headerAt buffer f.header.frameType ∧ f.header.validate = .ok () ∧
    f.payload = (buffer.drop HEADER_SIZE).take f.header.payloadLength.toNat ∧
    n = HEADER_SIZE + f.header.payloadLength.toNat ∧ n ≤ buffer.length := by
  cases h ▸ decode_decoded buffer with
  | frame ht hval hle hpayload => exact ⟨ht, rfl, hval, hpayload, rfl, hle⟩

theorem valid_of_decode {buffer : List UInt8} {f : Frame} {n : Nat} (h : decode buffer = .ok (f, n)) :
    f.Valid := by
  obtain ⟨-, -, hval, hpay, hn, hle⟩ := decode_ok h
  refine ⟨hval, ?_⟩
  rw [hpay, List.length_take, List.length_drop]
  omega

theorem toBE_ofBE_u16 (b0 b1 : UInt8) : toBE 2 (UInt16.ofNat (ofBE [b0, b1])).toNat = [b0, b1] := by
  have hlt : ofBE [b0, b1] < 2 ^ 16 := by simpa using ofBE_lt [b0, b1]
  rw [UInt16.toNat_ofNat_of_lt' hlt]
  exact toBE_ofBE [b0, b1]

theorem toBE_ofBE_u32 (b0 b1 b2 b3 : UInt8) :
    toBE 4 (UInt32.ofNat (ofBE [b0, b1, b2, b3])).toNat = [b0, b1, b2, b3] := by
  have hlt : ofBE [b0, b1, b2, b3] < 2 ^ 32 := by simpa using ofBE_lt [b0, b1, b2, b3]
  rw [UInt32.toNat_ofNat_of_lt' hlt]
  exact toBE_ofBE [b0, b1, b2, b3]

theorem wire_of_decode {buffer : List UInt8} {f : Frame} {n : Nat} (h : decode buffer = .ok (f, n)) :
    f.wire = buffer.take n := by
  obtain ⟨ht, hhead, -, hpay, rfl, -⟩ := decode_ok h
  have h16 := length_of_decode h
  obtain ⟨front, rest, rfl, hfront⟩ : ∃ front rest, buffer = front ++ rest ∧ front.length = HEADER_SIZE :=
    ⟨buffer.take HEADER_SIZE, buffer.drop HEADER_SIZE, (List.take_append_drop ..).symm, by simpa using h16⟩
  rw [List.drop_left' hfront] at hpay
  rw [List.take_add, List.take_left' hfront, List.drop_left' hfront, ← hpay]
  rw [Frame.wire, hhead]
  congr 1
  match front, hfront with
  | [b0, b1, b2, b3, b4, b5, b6, b7, b8, b9, b10, b11, b12, b13, b14, b15], _ =>
    have hb := asU8_of_fromU8 ht
    simp only [headerAt, byteAt, List.cons_append, List.nil_append, List.getD_cons_succ,
      List.getD_cons_zero, toBE_ofBE_u16, toBE_ofBE_u32] at hb ⊢
    simp [hb]

/-! ## Stability -/

theorem byteAt_append {buffer : List UInt8} {i : Nat} (h : i < buffer.length) (rest : List UInt8) :
    byteAt (buffer ++ rest) i = byteAt buffer i := by
  rw [byteAt, byteAt, List.getD_append _ _ _ _ h]

theorem headerAt_append {buffer : List UInt8} (h : HEADER_SIZE ≤ buffer.length) (rest : List UInt8)
    (t : Frametype) : headerAt (buffer ++ rest) t = headerAt buffer t := by
  unfold HEADER_SIZE at h
  simp only [headerAt]
  repeat rw [byteAt_append (by omega)]

theorem decode_append_ok {buffer : List UInt8} {f : Frame} {n : Nat} (rest : List UInt8)
    (h : decode buffer = .ok (f, n)) : decode (buffer ++ rest) = .ok (f, n) := by
  have hv := valid_of_decode h
  have hw := wire_of_decode h
  obtain ⟨-, -, -, -, hn, hle⟩ := decode_ok h
  have hlen : f.wire.length = n := by rw [hw, List.length_take]; omega
  have hsplit : buffer = f.wire ++ buffer.drop n := by rw [hw, List.take_append_drop]
  rw [hsplit, List.append_assoc, decode_wire hv, hlen]

theorem decode_append_error {buffer : List UInt8} {e : TransportError} (rest : List UInt8)
    (he : e ≠ .NeedMoreData) (h : decode buffer = .error e) : decode (buffer ++ rest) = .error e := by
  have hlonger : HEADER_SIZE ≤ buffer.length → HEADER_SIZE ≤ (buffer ++ rest).length := by
    rw [List.length_append]
    omega
  have htype : HEADER_SIZE ≤ buffer.length → byteAt (buffer ++ rest) 15 = byteAt buffer 15 := fun hlen =>
    byteAt_append (by unfold HEADER_SIZE at hlen; omega) rest
  cases h ▸ decode_decoded buffer with
  | short | more => exact absurd rfl he
  | unknown hlen ht =>
    rw [← htype hlen] at ht ⊢
    exact (Decoded.unknown (hlonger hlen) ht).decode_eq
  | invalid hlen ht hval =>
    rw [← htype hlen] at ht
    exact (Decoded.invalid (hlonger hlen) ht (by rwa [headerAt_append hlen])).decode_eq

theorem length_of_needMoreData {buffer : List UInt8} (h : decode buffer = .error .NeedMoreData) :
    buffer.length < HEADER_SIZE + MAX_FRAME_SIZE := by
  cases h ▸ decode_decoded buffer with
  | short hlen => omega
  | invalid _ _ hval => exact absurd hval (validate_ne_needMoreData _)
  | more _ _ hval hshort =>
    have hle := (validate_eq_ok.mp hval).2.2.1
    omega

/-! ## The incremental decoder -/

def verdict (buffer : List UInt8) : Verdict Frame TransportError :=
  match decode buffer with
  | .ok (f, n) => .item f n
  | .error .NeedMoreData => .more
  | .error e => .bad e

theorem verdict_item {buffer : List UInt8} {f : Frame} {n : Nat} :
    verdict buffer = .item f n ↔ decode buffer = .ok (f, n) := by
  unfold verdict; split <;> simp_all

theorem verdict_more {buffer : List UInt8} :
    verdict buffer = .more ↔ decode buffer = .error .NeedMoreData := by
  unfold verdict; split <;> simp_all

theorem verdict_bad {buffer : List UInt8} {e : TransportError} :
    verdict buffer = .bad e ↔ decode buffer = .error e ∧ e ≠ .NeedMoreData := by
  unfold verdict
  split
  next h => simp [h]
  next h => simp only [h, Except.error.injEq, reduceCtorEq, false_iff, not_and]; simp; intro h; exact h.symm
  next e' hne h =>
    simp only [h, Verdict.bad.injEq, Except.error.injEq]
    constructor
    · rintro rfl; exact ⟨rfl, fun he => hne he⟩
    · exact fun he => he.1

/-- `decode` as an incremental decoder. -/
def trnc : Decoder UInt8 Frame TransportError where
  verdict := verdict
  item_bound h := by
    obtain ⟨-, -, -, -, hn, hle⟩ := decode_ok (verdict_item.mp h)
    exact ⟨by unfold HEADER_SIZE at hn; omega, hle⟩
  item_stable rest h := verdict_item.mpr (decode_append_ok rest (verdict_item.mp h))
  bad_stable rest h :=
    have hb := verdict_bad.mp h
    verdict_bad.mpr ⟨decode_append_error rest hb.2 hb.1, hb.2⟩

theorem verdict_nil : trnc.verdict [] = .more := rfl

theorem trnc_encodes {f : Frame} (h : f.Valid) : trnc.Encodes f f.wire :=
  fun rest => verdict_item.mpr (decode_wire h rest)

/-! ## Exactness -/

/-- Encoding a valid frame and decoding it in front of any bytes gives the frame back;
and what `decode` accepts is the encoding of the valid frame it returns. -/
theorem codec_exact :
    (∀ (frame : Frame) (rest : List UInt8), frame.header.validate = .ok () →
      frame.payload.length = frame.header.payloadLength.toNat →
      ∃ bytes, encode frame = .ok bytes ∧
        decode (bytes ++ rest) = .ok (frame, 16 + frame.payload.length)) ∧
    (∀ (buffer : List UInt8) (frame : Frame) (n : Nat), decode buffer = .ok (frame, n) →
      frame.header.validate = .ok () ∧ encode frame = .ok (buffer.take n)) ∧
    (∀ buffer : List UInt8, (∃ frame n, decode buffer = .ok (frame, n)) ↔
      ∃ frame bytes, frame.header.validate = .ok () ∧ encode frame = .ok bytes ∧ bytes <+: buffer) := by
  refine ⟨?_, ?_, ?_⟩
  · intro frame rest hval hlen
    have hv : frame.Valid := ⟨hval, hlen⟩
    exact ⟨frame.wire, encode_of_valid hv, by rw [decode_wire hv, wire_length, HEADER_SIZE]⟩
  · intro buffer frame n h
    have hv := valid_of_decode h
    exact ⟨hv.header_ok, by rw [encode_of_valid hv, wire_of_decode h]⟩
  · intro buffer
    constructor
    · rintro ⟨frame, n, h⟩
      have hv := valid_of_decode h
      refine ⟨frame, frame.wire, hv.header_ok, encode_of_valid hv, ?_⟩
      rw [wire_of_decode h]
      exact List.take_prefix n buffer
    · rintro ⟨frame, bytes, hval, henc, rest, rfl⟩
      unfold encode at henc
      split_ifs at henc with hlen
      simp only [Except.ok.injEq] at henc
      subst henc
      exact ⟨frame, _, decode_wire ⟨hval, by simpa using hlen⟩ rest⟩

theorem codec_exact_data : ∃ bytes, encode (Frame.new .Data FLAG_FIN 7 [1, 2, 3]) = .ok bytes ∧
    decode (bytes ++ [0x54]) = .ok (Frame.new .Data FLAG_FIN 7 [1, 2, 3], 16 + 3) :=
  codec_exact.1 (Frame.new .Data FLAG_FIN 7 [1, 2, 3]) [0x54] (by decide) (by decide)

end TrenchDb.Transport
