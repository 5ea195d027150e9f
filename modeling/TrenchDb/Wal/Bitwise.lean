import Mathlib.Algebra.Order.Ring.Nat
import TrenchDb.Wal.Checksum

/-!
# CRC-32 bit by bit

What the table of `engine/src/wal/checksum.rs` computes: the reflected CRC-32, whose register takes the bits of the data
one at a time.
-/

namespace TrenchDb.Wal

/-! ## The register -/

/-- The reflected CRC takes the lowest bit of a byte first. -/
def bits (byte : UInt8) : List Bool := (List.range 8).map byte.toBitVec.getLsbD

/-- One bit of data. The register moves down, and the polynomial is added where the bit that leaves it is not the bit
that comes. -/
def crc32Bit (crc : UInt32) (bit : Bool) : UInt32 :=
  if (crc &&& 1 != 0) != bit then (0xEDB88320 : UInt32) ^^^ (crc >>> 1) else crc >>> 1

def crc32Bitwise (data : List UInt8) : UInt32 := (data.flatMap bits).foldl crc32Bit 0xFFFFFFFF ^^^ 0xFFFFFFFF

variable {crc : UInt32} {byte : UInt8}

/-! ## Rounds -/

theorem repeat_crc32Round_succ (n : Nat) (crc : UInt32) :
    Nat.repeat crc32Round (n + 1) crc = Nat.repeat crc32Round n (crc32Round crc) := by
  induction n with
  | zero => rfl
  | succ n ih => exact congrArg crc32Round ih

theorem repeat_crc32Round_xor (n : Nat) (a b : UInt32) :
    Nat.repeat crc32Round n (a ^^^ b) = Nat.repeat crc32Round n a ^^^ Nat.repeat crc32Round n b := by
  induction n generalizing a b with
  | zero => rfl
  | succ n ih => simp only [repeat_crc32Round_succ, crc32Round_xor, ih]

theorem repeat_crc32Round_clear {n k : Nat} (h : crc.toNat = k * 2 ^ n) : (Nat.repeat crc32Round n crc).toNat = k := by
  induction n generalizing crc with
  | zero => simpa [Nat.repeat] using h
  | succ n ih =>
    have heven : crc.toNat = k * 2 ^ n * 2 := by rw [h, Nat.pow_succ, Nat.mul_assoc]
    have hlow : crc &&& 1 = 0 := by
      apply UInt32.toNat_inj.mp
      rw [UInt32.toNat_and, heven]
      exact (Nat.and_one_is_mod _).trans (Nat.mul_mod_left _ _)
    rw [repeat_crc32Round_succ]
    apply ih
    unfold crc32Round
    rw [if_neg (by simp [hlow]), UInt32.toNat_shiftRight, heven]
    exact (Nat.shiftRight_eq_div_pow _ 1).trans (Nat.mul_div_cancel _ (by decide))

theorem repeat_crc32Round_eight (crc : UInt32) :
    Nat.repeat crc32Round 8 crc = crc32Entry crc.toUInt8 ^^^ (crc >>> 8) := by
  let low := crc.toUInt8.toUInt32
  have hsplit : crc = low ^^^ (crc ^^^ low) := by
    rw [UInt32.xor_comm crc, ← UInt32.xor_assoc, UInt32.xor_self, UInt32.zero_xor]
  have hlow : (crc ^^^ low).toUInt8 = 0 := by
    rw [UInt32.toUInt8_xor, UInt8.toUInt8_toUInt32, UInt8.xor_self]
  have hrest : (crc ^^^ low) >>> 8 = crc >>> 8 := by
    have hzero : low >>> 8 = 0 := by
      apply UInt32.toNat_inj.mp
      rw [UInt32.toNat_shiftRight, UInt8.toNat_toUInt32]
      exact (Nat.shiftRight_eq_div_pow _ 8).trans (Nat.div_eq_of_lt crc.toUInt8.toNat_lt)
    rw [UInt32.shiftRight_xor, hzero, UInt32.xor_zero]
  have hhigh : Nat.repeat crc32Round 8 (crc ^^^ low) = crc >>> 8 := by
    apply UInt32.toNat_inj.mp
    apply repeat_crc32Round_clear
    have hmod := congrArg UInt8.toNat hlow
    have hdiv := congrArg UInt32.toNat hrest
    rw [UInt32.toNat_toUInt8] at hmod
    rw [UInt32.toNat_shiftRight, UInt32.toNat_shiftRight] at hdiv
    rw [UInt32.toNat_shiftRight]
    simp [Nat.shiftRight_eq_div_pow] at hmod hdiv ⊢
    omega
  calc Nat.repeat crc32Round 8 crc
      = Nat.repeat crc32Round 8 low ^^^ Nat.repeat crc32Round 8 (crc ^^^ low) := by
        rw [← repeat_crc32Round_xor, ← hsplit]
    _ = crc32Entry crc.toUInt8 ^^^ (crc >>> 8) := by rw [hhigh]; rfl

/-! ## Bits -/

theorem xor_xor_self (a b : UInt32) : a ^^^ b ^^^ a = b := by
  rw [UInt32.xor_comm a, UInt32.xor_assoc, UInt32.xor_self, UInt32.xor_zero]

theorem crc32Bit_eq (crc : UInt32) (bit : Bool) : crc32Bit crc bit = crc32Round crc ^^^ crc32Bit 0 bit := by
  have hzero : crc32Bit 0 bit = if bit then 0xEDB88320 else 0 := by cases bit <;> rfl
  rw [hzero]
  unfold crc32Bit crc32Round
  rcases low_bit crc with h | h <;> cases bit
  · simp [h]
  · simp [h, UInt32.xor_comm]
  · simp [h]
  · simp only [h]
    exact (xor_xor_self 0xEDB88320 (crc >>> 1)).symm

theorem foldl_crc32Bit (bs : List Bool) (crc : UInt32) :
    bs.foldl crc32Bit crc = Nat.repeat crc32Round bs.length crc ^^^ bs.foldl crc32Bit 0 := by
  induction bs generalizing crc with
  | nil => simp [Nat.repeat]
  | cons b bs ih =>
    rw [List.foldl_cons, ih, List.foldl_cons, ih (crc32Bit 0 b), crc32Bit_eq crc, repeat_crc32Round_xor,
      List.length_cons, UInt32.xor_assoc, repeat_crc32Round_succ]

theorem bits_length (byte : UInt8) : (bits byte).length = 8 := by simp [bits]

theorem crc32Entry_eq_bits : ∀ i < 256, crc32Entry (UInt8.ofNat i) = (bits (UInt8.ofNat i)).foldl crc32Bit 0 := by
  decide +kernel

theorem crc32Step_bits (crc : UInt32) (byte : UInt8) : crc32Step crc byte = (bits byte).foldl crc32Bit crc := by
  have hentry : crc32Entry byte = (bits byte).foldl crc32Bit 0 := by
    have h := crc32Entry_eq_bits _ byte.toNat_lt
    rwa [UInt8.ofNat_toNat] at h
  calc crc32Step crc byte
      = crc32Entry (crc.toUInt8 ^^^ byte) ^^^ (crc >>> 8) := crc32Step_eq crc byte
    _ = crc32Entry crc.toUInt8 ^^^ (crc >>> 8) ^^^ crc32Entry byte := by
      rw [crc32Entry_xor, UInt32.xor_assoc, UInt32.xor_comm (crc32Entry byte), ← UInt32.xor_assoc]
    _ = Nat.repeat crc32Round 8 crc ^^^ crc32Entry byte := by rw [repeat_crc32Round_eight]
    _ = (bits byte).foldl crc32Bit crc := by rw [foldl_crc32Bit _ crc, bits_length, hentry]

theorem foldl_crc32Step (data : List UInt8) (crc : UInt32) :
    data.foldl crc32Step crc = (data.flatMap bits).foldl crc32Bit crc := by
  induction data generalizing crc with
  | nil => rfl
  | cons byte data ih => rw [List.foldl_cons, ih, List.flatMap_cons, List.foldl_append, crc32Step_bits]

/-- The loop over the table computes the CRC of the bits of the data. -/
theorem crc32_eq_bitwise (data : List UInt8) : crc32 data = crc32Bitwise data := by
  rw [crc32, crc32Bitwise, foldl_crc32Step]

end TrenchDb.Wal
