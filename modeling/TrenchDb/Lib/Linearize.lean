import Mathlib.Data.List.Nodup

/-!
# Orders that explain concurrent operations

Operations that overlap in time, explained by running them one after another. An order grows at its end,
or right before an operation that hides what the new one did.
-/

namespace TrenchDb.Lib.Linearize

/-! ## Along a list -/

section Along

variable {α : Type} {P Q : List α → α → Prop} {l l₁ l₂ : List α} {a : α}

/-- Each element has the property, with the elements before it. -/
def Along (P : List α → α → Prop) (l : List α) : Prop := ∀ l₁ a l₂, l = l₁ ++ a :: l₂ → P l₁ a

theorem along_nil : Along P [] := fun l₁ a l₂ h => absurd h.symm (by simp)

theorem Along.mono (h : Along P l) (hPQ : ∀ l₁ a, P l₁ a → Q l₁ a) : Along Q l :=
  fun l₁ a l₂ hl => hPQ _ _ (h l₁ a l₂ hl)

theorem Along.insert (h : Along P (l₁ ++ l₂)) (ha : P l₁ a)
    (hlater : ∀ m b n, l₂ = m ++ b :: n → P (l₁ ++ m) b → P (l₁ ++ a :: m) b) : Along P (l₁ ++ a :: l₂) := by
  intro k b n hsplit
  rcases List.append_eq_append_iff.mp hsplit with ⟨m, rfl, hm⟩ | ⟨m, rfl, hm⟩
  · cases m with
    | nil =>
      obtain ⟨rfl, rfl⟩ := List.cons.inj hm
      simpa using ha
    | cons b' m =>
      obtain ⟨rfl, rfl⟩ := List.cons.inj hm
      exact hlater m b n rfl (h (l₁ ++ m) b n (by simp))
  · cases m with
    | nil =>
      obtain ⟨rfl, rfl⟩ := List.cons.inj hm
      simpa using ha
    | cons b' m =>
      obtain ⟨rfl, rfl⟩ := List.cons.inj hm
      exact h k b (m ++ l₂) (by simp)

theorem Along.snoc (h : Along P l) (ha : P l a) : Along P (l ++ [a]) :=
  Along.insert (by simpa using h) ha fun m b n hm => absurd hm.symm (by simp)

end Along

/-! ## Linearizations -/

variable {σ ι ρ : Type} {run : σ → ι → σ} {answer : σ → ι → ρ} {s : σ} {before : ι → List ι} {result : ι → Option ρ}
  {order l₁ l₂ : List ι} {i k : ι}

/-- The operations with a result are among those of the order, none comes before one that had ended when it
began, and each answers its result when they run one after another. -/
structure Linearization (run : σ → ι → σ) (answer : σ → ι → ρ) (s : σ) (before : ι → List ι) (result : ι → Option ρ)
    (order : List ι) : Prop where
  nodup : order.Nodup
  complete : ∀ i r, result i = some r → i ∈ order
  realTime : Along (fun earlier i => ∀ j ∈ before i, j ∈ earlier) order
  answers : Along (fun earlier i => ∀ r, result i = some r → answer (earlier.foldl run s) i = r) order

namespace Linearization

theorem nil (hresult : ∀ i, result i = none) : Linearization run answer s before result [] where
  nodup := List.nodup_nil
  complete i r hr := by simp [hresult] at hr
  realTime := along_nil
  answers := along_nil

theorem weaken {before' : ι → List ι} {result' : ι → Option ρ} (h : Linearization run answer s before result order)
    (hbefore : ∀ i ∈ order, before' i ⊆ before i) (hresult : ∀ i r, result' i = some r → result i = some r) :
    Linearization run answer s before' result' order where
  nodup := h.nodup
  complete i r hr := h.complete i r (hresult i r hr)
  realTime l₁ i l₂ hl j hj := h.realTime l₁ i l₂ hl j (hbefore i (by simp [hl]) hj)
  answers l₁ i l₂ hl r hr := h.answers l₁ i l₂ hl r (hresult i r hr)

variable [DecidableEq ι]

theorem snoc (h : Linearization run answer s before result order) (hnew : i ∉ order)
    (hbefore : ∀ j ∈ before i, j ∈ order) : Linearization run answer s before
      (Function.update result i (some (answer (order.foldl run s) i))) (order ++ [i]) where
  nodup := by simpa [List.nodup_append, h.nodup] using fun j hj => ne_of_mem_of_not_mem hj hnew
  complete j r hr := by
    by_cases hj : j = i
    · simp [hj]
    · rw [Function.update_of_ne hj] at hr
      simp [h.complete j r hr]
  realTime := h.realTime.snoc hbefore
  answers := by
    refine Along.snoc (fun l₁ j l₂ hl r hr => ?_) fun r hr => ?_
    · have hj : j ≠ i := fun hj => hnew (by simp [hl, hj])
      rw [Function.update_of_ne hj] at hr
      exact h.answers l₁ j l₂ hl r hr
    · rw [Function.update_self] at hr
      exact Option.some.inj hr

/-- An operation takes effect right before one that hides it: what comes later sees no difference. -/
theorem insert (h : Linearization run answer s before result (l₁ ++ k :: l₂)) (hnew : i ∉ l₁ ++ k :: l₂)
    (hbefore : ∀ j ∈ before i, j ∈ l₁)
    (hrun : run (run (l₁.foldl run s) i) k = run (l₁.foldl run s) k)
    (hanswer : answer (run (l₁.foldl run s) i) k = answer (l₁.foldl run s) k) :
    Linearization run answer s before (Function.update result i (some (answer (l₁.foldl run s) i)))
      (l₁ ++ i :: k :: l₂) where
  nodup := List.nodup_middle.mpr (List.nodup_cons.mpr ⟨hnew, h.nodup⟩)
  complete j r hr := by
    by_cases hj : j = i
    · simp [hj]
    · rw [Function.update_of_ne hj] at hr
      have := h.complete j r hr
      simp only [List.mem_append, List.mem_cons] at this ⊢
      tauto
  realTime := by
    refine h.realTime.insert hbefore fun m b n _ hb j hj => ?_
    have := hb j hj
    simp only [List.mem_append, List.mem_cons] at this ⊢
    tauto
  answers := by
    have hother : ∀ j ∈ l₁ ++ k :: l₂, j ≠ i := fun j hj heq => hnew (heq ▸ hj)
    refine Along.insert (fun l j m hl r hr => ?_) (fun r hr => ?_) fun m b n hm hb r hr => ?_
    · rw [Function.update_of_ne (hother j (by rw [hl]; simp))] at hr
      exact h.answers l j m hl r hr
    · rw [Function.update_self] at hr
      exact Option.some.inj hr
    · -- The state before `b` is the same, or `b` is `k` itself.
      have hagree := hb r hr
      cases m with
      | nil =>
        obtain ⟨rfl, rfl⟩ := List.cons.inj hm
        simpa [hanswer] using hagree
      | cons k' m =>
        obtain ⟨rfl, rfl⟩ := List.cons.inj hm
        simpa [hrun] using hagree

end Linearization

end TrenchDb.Lib.Linearize
