import Mathlib.Data.List.Infix

/-!
# Records in a row

A file of records, one after another: where each of them ends, and what a cut of the file leaves.
-/

namespace TrenchDb.Lib.Records

variable {α β : Type} {enc : α → List β}

/-- Where the first `i` records end. -/
def stop (enc : α → List β) (as : List α) (i : Nat) : Nat := ((as.take i).flatMap enc).length

/-- How many records lie wholly in the first `n` symbols. -/
def whole (enc : α → List β) (as : List α) (n : Nat) : Nat :=
  (List.range as.length).countP fun i => stop enc as (i + 1) ≤ n

variable {a : α} {as : List α} {part tail : List β} {i n : Nat}

@[simp] theorem stop_zero : stop enc as 0 = 0 := rfl

@[simp] theorem stop_cons_succ : stop enc (a :: as) (i + 1) = (enc a).length + stop enc as i := by simp [stop]

theorem stop_succ (h : i < as.length) : stop enc as (i + 1) = stop enc as i + (enc as[i]).length := by
  rw [stop, List.take_succ_eq_append_getElem h, List.flatMap_append, List.length_append, List.flatMap_singleton, stop]

theorem whole_le : whole enc as n ≤ as.length := by
  have h := List.countP_le_length (p := fun i => decide (stop enc as (i + 1) ≤ n)) (l := List.range as.length)
  rwa [List.length_range] at h

theorem whole_cons : whole enc (a :: as) n =
    if (enc a).length ≤ n then whole enc as (n - (enc a).length) + 1 else 0 := by
  unfold whole
  rw [List.length_cons, List.range_succ_eq_map, List.countP_cons, List.countP_map]
  by_cases hfirst : (enc a).length ≤ n
  · have hrest : ∀ i, (enc a).length + stop enc as (i + 1) ≤ n ↔ stop enc as (i + 1) ≤ n - (enc a).length := by
      intro i
      omega
    simp [Function.comp_def, hrest, hfirst]
  · have hrest : ∀ i, ¬ (enc a).length + stop enc as (i + 1) ≤ n := by
      intro i
      omega
    simp [Function.comp_def, hrest, hfirst]

theorem le_whole (hi : i ≤ as.length) (h : stop enc as i ≤ n) : i ≤ whole enc as n := by
  induction as generalizing i n with
  | nil => exact hi
  | cons a as ih =>
    cases i with
    | zero => exact Nat.zero_le _
    | succ i =>
      rw [stop_cons_succ] at h
      rw [whole_cons, if_pos (by omega)]
      exact Nat.succ_le_succ (ih (Nat.le_of_succ_le_succ hi) (by omega))

theorem cut (h : part <+: as.flatMap enc) :
    ∃ tail, part = (as.take (whole enc as part.length)).flatMap enc ++ tail ∧
      ((∃ a, as[whole enc as part.length]? = some a ∧ tail <+: enc a ∧ tail.length < (enc a).length) ∨
        tail = []) := by
  induction as generalizing part with
  | nil => exact ⟨[], List.prefix_nil.mp h, .inr rfl⟩
  | cons a as ih =>
    rw [List.flatMap_cons] at h
    rw [whole_cons]
    split
    · rename_i hle
      -- The first record is there, and the cut is further on.
      obtain ⟨rest, rfl⟩ := List.prefix_of_prefix_length_le (List.prefix_append _ _) h hle
      obtain ⟨tail, heq, htail⟩ := ih ((List.prefix_append_right_inj _).mp h)
      rw [List.length_append, Nat.add_sub_cancel_left]
      refine ⟨tail, ?_, by simpa using htail⟩
      rw [List.take_succ_cons, List.flatMap_cons, List.append_assoc, ← heq]
    · rename_i hlt
      refine ⟨part, rfl, .inl ⟨a, rfl, ?_, by omega⟩⟩
      exact List.prefix_of_prefix_length_le h (List.prefix_append _ _) (by omega)

end TrenchDb.Lib.Records
