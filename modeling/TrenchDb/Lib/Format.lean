import Mathlib.Logic.Equiv.Defs
import TrenchDb.Lib.BigEndian

/-!
# Binary formats

A format writes a value and reads it back from the front of any bytes. Formats are built from
length-prefixed byte strings and single bytes.
-/

open TrenchDb.Lib.BigEndian

namespace TrenchDb.Lib

/-- The encodings that a 64-bit length can describe are read back, with the bytes after them. -/
structure Format (α : Type) where
  put : α → List UInt8
  get : List UInt8 → Option (α × List UInt8)
  get_put : ∀ a rest, (put a).length < 2 ^ 64 → get (put a ++ rest) = some (a, rest)

namespace Format

variable {α β : Type}

/-- Two values in a row. -/
def pair (F : Format α) (G : Format β) : Format (α × β) :=
  { put := fun p => F.put p.1 ++ G.put p.2
    get := fun bytes => (F.get bytes).bind fun r => (G.get r.2).map fun q => ((r.1, q.1), q.2)
    get_put := by
      rintro ⟨a, c⟩ rest h
      simp only [List.length_append] at h
      rw [List.append_assoc, F.get_put a _ (by omega), Option.bind_some, G.get_put c _ (by omega)]
      rfl }

/-- The same bytes for another type. -/
def equiv (F : Format α) (e : β ≃ α) : Format β :=
  { put := fun c => F.put (e c)
    get := fun bytes => (F.get bytes).map fun r => (e.symm r.1, r.2)
    get_put := by
      intro c rest h
      rw [F.get_put _ _ h, Option.map_some, e.symm_apply_apply] }

/-- A value behind one of two tag bytes, or the other tag byte alone. -/
def option (F : Format α) : Format (Option α) :=
  { put := fun o => match o with
      | none => [0]
      | some a => 1 :: F.put a
    get := fun bytes => match bytes with
      | [] => none
      | tag :: bytes => if tag = 0 then some (none, bytes) else (F.get bytes).map fun r => (some r.1, r.2)
    get_put := by
      rintro (_ | a) rest h
      · rfl
      · rw [List.length_cons] at h
        simp only [List.cons_append, F.get_put a rest (by omega)]
        rfl }

def bool : Format Bool :=
  { put := fun v => [if v then 1 else 0]
    get := fun bytes => match bytes with
      | [] => none
      | b :: bytes => some (b = 1, bytes)
    get_put := by rintro (_ | _) rest - <;> rfl }

/-- A number in a fixed number of bytes. -/
def fixed (w : Nat) : Format (BitVec (8 * w)) :=
  { put := fun a => toBE w a.toNat
    get := fun input =>
      if input.length < w then none else some (BitVec.ofNat _ (ofBE (input.take w)), input.drop w)
    get_put := by
      intro a rest _
      have hlt : a.toNat < 256 ^ w := by
        have := a.isLt
        rwa [pow_mul] at this
      rw [if_neg (by simp), List.take_left' (toBE_length w _), List.drop_left' (toBE_length w _), ofBE_toBE_of_lt hlt,
        BitVec.ofNat_toNat, BitVec.setWidth_eq] }

/-- Bytes behind their number. -/
def bytes : Format (List UInt8) :=
  { put := fun a => toBE 8 a.length ++ a
    get := fun input =>
      if input.length < 8 ∨ (input.drop 8).length < ofBE (input.take 8) then none
      else some ((input.drop 8).take (ofBE (input.take 8)), (input.drop 8).drop (ofBE (input.take 8)))
    get_put := by
      intro a rest h
      rw [List.length_append, toBE_length] at h
      have htake : (toBE 8 a.length ++ a ++ rest).take 8 = toBE 8 a.length := by
        rw [List.append_assoc, List.take_left' (toBE_length _ _)]
      have hdrop : (toBE 8 a.length ++ a ++ rest).drop 8 = a ++ rest := by
        rw [List.append_assoc, List.drop_left' (toBE_length _ _)]
      have hlen : ofBE (toBE 8 a.length) = a.length := ofBE_toBE_of_lt (by norm_num; omega)
      rw [htake, hdrop, hlen, if_neg (by simp), List.take_left, List.drop_left] }

/-- A string, as its UTF-8 bytes. -/
def string : Format String :=
  { put := fun s => bytes.put s.toUTF8.data.toList
    get := fun input => (bytes.get input).bind fun r => (String.fromUTF8? ⟨r.1.toArray⟩).map fun s => (s, r.2)
    get_put := by
      intro s rest h
      rw [bytes.get_put _ _ h, Option.bind_some]
      have hback : String.fromUTF8? ⟨s.toUTF8.data.toList.toArray⟩ = some s := by
        simp [String.fromUTF8?, s.isValidUTF8, String.fromUTF8]
      rw [hback]
      rfl }

/-! ## Lengths -/

theorem length_le_bytes (a : List UInt8) : a.length ≤ (bytes.put a).length := by
  simp [bytes]

theorem bytes_ne_nil (a : List UInt8) : bytes.put a ≠ [] := by
  refine List.ne_nil_of_length_pos ?_
  show 0 < (toBE 8 a.length ++ a).length
  rw [List.length_append, toBE_length]
  omega

theorem length_le_pair_right (F : Format α) (G : Format β) (p : α × β) :
    (G.put p.2).length ≤ ((F.pair G).put p).length := by
  simp [pair]

end Format

end TrenchDb.Lib
