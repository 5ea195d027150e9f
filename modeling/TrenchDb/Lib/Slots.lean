import Mathlib.Data.List.Basic

/-!
# Threads in a list

Where each thread is stands in a list: what the list shows after one of them takes a step.
-/

namespace TrenchDb.Lib.Slots

variable {α β : Type} {l : List α} {r : Nat} {a b : α}

theorem filterMap_set_sole (f : α → Option β) (hr : r < l.length)
    (hothers : ∀ q, q ≠ r → ∀ b, l[q]? = some b → f b = none) (a : α) : (l.set r a).filterMap f = (f a).toList := by
  have htake : (l.take r).filterMap f = [] := by
    refine List.filterMap_eq_nil_iff.mpr fun b hmem => ?_
    obtain ⟨q, hq, rfl⟩ := List.mem_take_iff_getElem.mp hmem
    exact hothers q (by omega) _ (List.getElem?_eq_getElem (by omega))
  have hdrop : (l.drop (r + 1)).filterMap f = [] := by
    refine List.filterMap_eq_nil_iff.mpr fun b hmem => ?_
    obtain ⟨q, hq, rfl⟩ := List.mem_drop_iff_getElem.mp hmem
    exact hothers (r + 1 + q) (by omega) _ (List.getElem?_eq_getElem (by omega))
  rw [List.set_eq_take_append_cons_drop, if_pos hr, List.filterMap_append, htake, List.filterMap_cons, hdrop]
  cases f a <;> rfl

theorem countP_set_add (p : α → Bool) (hr : l[r]? = some b) (a : α) :
    (l.set r a).countP p + (p b).toNat = l.countP p + (p a).toNat := by
  obtain ⟨hlt, rfl⟩ := List.getElem?_eq_some_iff.mp hr
  rw [List.countP_set hlt]
  cases hb : p l[r] with
  | false => cases p a <;> simp
  | true =>
    have hpos : 0 < l.countP p := List.countP_pos_iff.mpr ⟨_, List.getElem_mem hlt, hb⟩
    simp only [if_true, Bool.toNat_true]
    cases p a <;> simp only [Bool.toNat_true, Bool.toNat_false, if_true, Bool.false_eq_true, if_false] <;> omega

end TrenchDb.Lib.Slots
