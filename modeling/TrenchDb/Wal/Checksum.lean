import TrenchDb.Lib.Checksum

/-!
# CRC-32

`engine/src/wal/checksum.rs`: the table and the loop over it. Payloads of one length that differ in one
byte have different checksums.
-/

open TrenchDb.Lib

namespace TrenchDb.Wal

/-! ## The table -/

/-- One of the eight rounds for an entry of the table. -/
def crc32Round (crc : UInt32) : UInt32 :=
  if crc &&& 1 ≠ 0 then (0xEDB88320 : UInt32) ^^^ (crc >>> 1) else crc >>> 1

def crc32Entry (i : UInt8) : UInt32 := Nat.repeat crc32Round 8 i.toUInt32

/-- The array of 256 words. -/
def crc32Table : List UInt32 := (List.range 256).map fun i => crc32Entry (UInt8.ofNat i)

/-! ## The loop -/

/-- The loop's body. The mask keeps the index below 256. -/
def crc32Step (crc : UInt32) (byte : UInt8) : UInt32 :=
  crc32Table.getD ((crc ^^^ byte.toUInt32) &&& 0xFF).toNat 0 ^^^ (crc >>> 8)

def crc32 (data : List UInt8) : UInt32 := data.foldl crc32Step 0xFFFFFFFF ^^^ 0xFFFFFFFF

-- The check value of this CRC.
example : crc32 [0x31, 0x32, 0x33, 0x34, 0x35, 0x36, 0x37, 0x38, 0x39] = 0xCBF43926 := by decide +kernel

/-! ## What a step keeps -/

theorem low_bit (a : UInt32) : a &&& 1 = 0 ∨ a &&& 1 = 1 := by
  have hbit : (a &&& 1).toNat = a.toNat % 2 := by rw [UInt32.toNat_and]; exact Nat.and_one_is_mod _
  have hsmall : a.toNat % 2 = 0 ∨ a.toNat % 2 = 1 := by omega
  rw [← hbit] at hsmall
  exact hsmall.imp UInt32.toNat_inj.mp UInt32.toNat_inj.mp

theorem crc32Round_xor (a b : UInt32) : crc32Round (a ^^^ b) = crc32Round a ^^^ crc32Round b := by
  have hlow : (a ^^^ b) &&& 1 = (a &&& 1) ^^^ (b &&& 1) := by
    apply UInt32.toBitVec_inj.mp
    ext i
    simp [Bool.and_xor_distrib_right]
  unfold crc32Round
  rw [hlow, UInt32.shiftRight_xor]
  rcases low_bit a with ha | ha <;> rcases low_bit b with hb | hb
  · simp [ha, hb]
  · simp [ha, hb]
    ac_rfl
  · simp [ha, hb, UInt32.xor_assoc]
  · simp only [ha, hb]
    simp [UInt32.xor_comm _ (a >>> 1), UInt32.xor_assoc, ← UInt32.xor_assoc 0xEDB88320]

theorem crc32Entry_xor (i j : UInt8) : crc32Entry (i ^^^ j) = crc32Entry i ^^^ crc32Entry j := by
  simp only [crc32Entry, Nat.repeat, UInt8.toUInt32_xor, crc32Round_xor]

theorem crc32Entry_high_ne_zero : ∀ i < 256, crc32Entry (UInt8.ofNat i) >>> 24 = 0 → i = 0 := by
  decide +kernel

theorem crc32Entry_high_injective : Function.Injective fun i => crc32Entry i >>> 24 := by
  intro i j (hij : crc32Entry i >>> 24 = crc32Entry j >>> 24)
  have hzero : crc32Entry (UInt8.ofNat (i ^^^ j).toNat) >>> 24 = 0 := by
    rw [UInt8.ofNat_toNat, crc32Entry_xor, UInt32.shiftRight_xor, hij, UInt32.xor_self]
  have hxor : i ^^^ j = 0 := UInt8.toNat_inj.mp (crc32Entry_high_ne_zero _ (i ^^^ j).toNat_lt hzero)
  exact UInt8.xor_eq_zero_iff.mp hxor

theorem crc32Table_getD (i : UInt8) : crc32Table.getD i.toNat 0 = crc32Entry i := by
  have hlt : i.toNat < 256 := i.toNat_lt
  simp [crc32Table, List.getD_eq_getElem?_getD, List.getElem?_range hlt]

theorem crc32Step_eq (crc : UInt32) (byte : UInt8) :
    crc32Step crc byte = crc32Entry (crc.toUInt8 ^^^ byte) ^^^ (crc >>> 8) := by
  have hindex : ((crc ^^^ byte.toUInt32) &&& 0xFF).toNat = (crc.toUInt8 ^^^ byte).toNat := by
    have hlow : (crc ^^^ byte.toUInt32).toUInt8 = crc.toUInt8 ^^^ byte := by
      rw [UInt32.toUInt8_xor, UInt8.toUInt8_toUInt32]
    rw [← hlow, UInt32.toNat_and, UInt32.toNat_toUInt8]
    exact Nat.and_two_pow_sub_one_eq_mod _ 8
  rw [crc32Step, hindex, crc32Table_getD]

theorem crc32Step_high (crc : UInt32) (byte : UInt8) :
    crc32Step crc byte >>> 24 = crc32Entry (crc.toUInt8 ^^^ byte) >>> 24 := by
  have hshift : crc >>> 8 >>> 24 = 0 := by
    apply UInt32.toNat_inj.mp
    have := crc.toNat_lt
    simp only [UInt32.toNat_shiftRight, Nat.shiftRight_eq_div_pow]
    simp
    omega
  rw [crc32Step_eq, UInt32.shiftRight_xor, hshift, UInt32.xor_zero]

theorem eq_of_low_of_rest {a b : UInt32} (hlow : a.toUInt8 = b.toUInt8) (hrest : a >>> 8 = b >>> 8) : a = b := by
  apply UInt32.toNat_inj.mp
  have hlow' := congrArg UInt8.toNat hlow
  have hrest' := congrArg UInt32.toNat hrest
  simp only [UInt32.toNat_toUInt8, UInt32.toNat_shiftRight, Nat.shiftRight_eq_div_pow] at hlow' hrest'
  simp at hrest'
  omega

theorem crc32Step_register_injective (byte : UInt8) : Function.Injective fun crc => crc32Step crc byte := by
  intro a b (hab : crc32Step a byte = crc32Step b byte)
  have hhigh : crc32Entry (a.toUInt8 ^^^ byte) >>> 24 = crc32Entry (b.toUInt8 ^^^ byte) >>> 24 := by
    rw [← crc32Step_high, ← crc32Step_high, hab]
  have hindex : a.toUInt8 ^^^ byte = b.toUInt8 ^^^ byte := crc32Entry_high_injective hhigh
  rw [crc32Step_eq, crc32Step_eq, hindex] at hab
  exact eq_of_low_of_rest ((UInt8.xor_left_inj byte).mp hindex) ((UInt32.xor_right_inj _).mp hab)

theorem crc32Step_byte_injective (crc : UInt32) : Function.Injective (crc32Step crc) := by
  intro a b hab
  have hhigh : crc32Entry (crc.toUInt8 ^^^ a) >>> 24 = crc32Entry (crc.toUInt8 ^^^ b) >>> 24 := by
    rw [← crc32Step_high, ← crc32Step_high, hab]
  exact (UInt8.xor_right_inj _).mp (crc32Entry_high_injective hhigh)

/-! ## What the checksum tells apart -/

theorem crc32_set_ne {data : List UInt8} {i : Nat} {b : UInt8} (hi : i < data.length) (hb : b ≠ data[i]) :
    crc32 (data.set i b) ≠ crc32 data := by
  unfold crc32
  intro heq
  exact Checksum.foldl_set_ne crc32Step_register_injective crc32Step_byte_injective _ hi hb
    ((UInt32.xor_left_inj _).mp heq)

end TrenchDb.Wal
