import Mathlib.Data.List.Infix

/-!
# Overwriting steps

Steps that leave what one sees of a state as it is, or overwrite it with something that does not depend on
the state. What one sees after some steps is what the last overwriting one left, so steps may be repeated.
-/

namespace TrenchDb.Lib.Overwrite

variable {σ ε α : Type} {step : σ → ε → σ} {view : σ → α} {effect : ε → Option α}

theorem view_foldl (hstep : ∀ s e, view (step s e) = (effect e).getD (view s)) (es : List ε) (s : σ) :
    view (es.foldl step s) = ((es.filterMap effect).getLast?).getD (view s) := by
  induction es generalizing s with
  | nil => rfl
  | cons e es ih =>
    rw [List.foldl_cons, ih, hstep, List.filterMap_cons]
    cases effect e with
    | none => rfl
    | some a =>
      rw [Option.getD_some, List.getLast?_cons]
      rfl

theorem view_restart (hstep : ∀ s e, view (step s e) = (effect e).getD (view s)) {part es : List ε}
    (hpart : part <+: es) (s : σ) : view (es.foldl step (part.foldl step s)) = view (es.foldl step s) := by
  rw [view_foldl hstep, view_foldl hstep, view_foldl hstep]
  cases hlast : (es.filterMap effect).getLast? with
  | some a => rfl
  | none =>
    -- No step overwrites, those of the first part neither.
    have hnil : es.filterMap effect = [] := List.getLast?_eq_none_iff.mp hlast
    have hnil' : part.filterMap effect = [] := List.prefix_nil.mp (hnil ▸ hpart.filterMap effect)
    rw [hnil']
    rfl

end TrenchDb.Lib.Overwrite
