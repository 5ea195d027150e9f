import Mathlib.Algebra.Order.Ring.Nat
import Mathlib.Tactic.Ring

/-!
# Big-endian bytes

Fixed-width big-endian encodings of naturals, as lists of bytes.
-/

namespace TrenchDb.Lib.BigEndian

/-- The `w` big-endian bytes of `n`. Bits above `8 * w` are dropped. -/
def toBE : Nat → Nat → List UInt8
  | 0, _ => []
  | w + 1, n => UInt8.ofNat (n / 256 ^ w) :: toBE w n

/-- The natural with the given big-endian bytes. -/
def ofBE : List UInt8 → Nat
  | [] => 0
  | b :: bs => b.toNat * 256 ^ bs.length + ofBE bs

@[simp] theorem toBE_length (w n : Nat) : (toBE w n).length = w := by
  induction w with
  | zero => rfl
  | succ w ih => simp [toBE, ih]

theorem ofBE_lt (bs : List UInt8) : ofBE bs < 256 ^ bs.length := by
  induction bs with
  | nil => simp [ofBE]
  | cons b bs ih =>
    have hb : b.toNat < 256 := b.toNat_lt
    calc b.toNat * 256 ^ bs.length + ofBE bs
        < b.toNat * 256 ^ bs.length + 256 ^ bs.length := by omega
      _ = (b.toNat + 1) * 256 ^ bs.length := by ring
      _ ≤ 256 * 256 ^ bs.length := Nat.mul_le_mul_right _ (by omega)
      _ = 256 ^ (b :: bs).length := by rw [List.length_cons, pow_succ, Nat.mul_comm]

theorem ofBE_toBE (w n : Nat) : ofBE (toBE w n) = n % 256 ^ w := by
  induction w with
  | zero => simp [toBE, ofBE, Nat.mod_one]
  | succ w ih =>
    have hbyte : (UInt8.ofNat (n / 256 ^ w)).toNat = n / 256 ^ w % 256 := UInt8.toNat_ofNat'
    rw [toBE, ofBE, ih, toBE_length, hbyte, pow_succ, Nat.mod_mul]
    ring

theorem ofBE_toBE_of_lt {w n : Nat} (h : n < 256 ^ w) : ofBE (toBE w n) = n := by
  rw [ofBE_toBE, Nat.mod_eq_of_lt h]

theorem toBE_add_mul (w n k : Nat) : toBE w (k * 256 ^ w + n) = toBE w n := by
  induction w generalizing k with
  | zero => rfl
  | succ w ih =>
    have hpos : 0 < 256 ^ w := Nat.pow_pos (by omega)
    have hsplit : k * 256 ^ (w + 1) + n = (k * 256) * 256 ^ w + n := by ring
    rw [toBE, toBE, hsplit, ih]
    congr 1
    rw [Nat.add_comm, Nat.add_mul_div_right _ _ hpos]
    apply UInt8.toNat_inj.mp
    rw [UInt8.toNat_ofNat', UInt8.toNat_ofNat']
    omega

theorem toBE_ofBE (bs : List UInt8) : toBE bs.length (ofBE bs) = bs := by
  induction bs with
  | nil => rfl
  | cons b bs ih =>
    have hlt := ofBE_lt bs
    have hpos : 0 < 256 ^ bs.length := Nat.pow_pos (by omega)
    rw [List.length_cons, toBE, ofBE, toBE_add_mul, ih]
    rw [Nat.add_comm, Nat.add_mul_div_right _ _ hpos, Nat.div_eq_of_lt hlt, Nat.zero_add,
      UInt8.ofNat_toNat]

end TrenchDb.Lib.BigEndian
