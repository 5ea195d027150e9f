import Mathlib.Data.List.Basic
import Mathlib.Logic.Function.Basic

/-!
# Checksums that fold

A register takes a message symbol by symbol. When every symbol changes the register reversibly, and no
two symbols change it alike, the register tells apart two messages that differ in one place.
-/

open Function

namespace TrenchDb.Lib.Checksum

variable {ρ β : Type} {step : ρ → β → ρ}

theorem foldl_injective (hstep : ∀ b, Injective fun r => step r b) (bs : List β) :
    Injective fun r => bs.foldl step r := by
  induction bs with
  | nil => exact injective_id
  | cons b bs ih => exact ih.comp (hstep b)

theorem foldl_set_ne (hreg : ∀ b, Injective fun r => step r b) (hsym : ∀ r, Injective (step r)) (r : ρ)
    {bs : List β} {i : Nat} {b : β} (hi : i < bs.length) (hb : b ≠ bs[i]) :
    (bs.set i b).foldl step r ≠ bs.foldl step r := by
  have hsplit : bs = bs.take i ++ bs[i] :: bs.drop (i + 1) := by simp
  have hset : bs.set i b = bs.take i ++ b :: bs.drop (i + 1) := List.set_eq_take_append_cons_drop.trans (if_pos hi)
  intro heq
  rw [hset] at heq
  conv at heq => rhs; rw [hsplit]
  simp only [List.foldl_append, List.foldl_cons] at heq
  exact hb (hsym _ (foldl_injective hreg _ heq))

end TrenchDb.Lib.Checksum
