import Mathlib.Logic.Relation

/-!
# Labelled transition systems

Finite runs with their labels, invariants that may speak of the labels so
far, and goals that every maximal run reaches.
-/

namespace TrenchDb.Lib.Lts

variable {σ ℓ : Type}

/-! ## Runs -/

/-- `Run step s ls t`: the steps labelled `ls`, oldest first, lead from `s` to `t`. -/
inductive Run (step : σ → ℓ → σ → Prop) (s : σ) : List ℓ → σ → Prop
  | nil : Run step s [] s
  | snoc {ls : List ℓ} {l : ℓ} {t u : σ} : Run step s ls t → step t l u → Run step s (ls ++ [l]) u

variable {step : σ → ℓ → σ → Prop} {s t u : σ} {ls ks : List ℓ} {l : ℓ}

theorem Run.append (h : Run step s ls t) (h' : Run step t ks u) : Run step s (ls ++ ks) u := by
  induction h' with
  | nil => simpa using h
  | snoc _ hstep ih => rw [← List.append_assoc]; exact .snoc ih hstep

theorem Run.single (h : step s l t) : Run step s [l] t := .snoc .nil h

theorem Run.cons (h : step s l t) (h' : Run step t ls u) : Run step s (l :: ls) u :=
  (Run.single h).append h'

theorem Run.mono {step' : σ → ℓ → σ → Prop} (h : Run step s ls t) (hle : ∀ s l t, step s l t → step' s l t) :
    Run step' s ls t := by
  induction h with
  | nil => exact .nil
  | snoc _ hs ih => exact ih.snoc (hle _ _ _ hs)

theorem run_of_reachable (h : Relation.ReflTransGen (fun s t => ∃ l, step s l t) s t) : ∃ ls, Run step s ls t := by
  induction h with
  | refl => exact ⟨[], .nil⟩
  | tail _ hstep ih =>
    obtain ⟨ls, hrun⟩ := ih
    obtain ⟨l, hl⟩ := hstep
    exact ⟨ls ++ [l], hrun.snoc hl⟩

/-- The state after these labels, where steps are computed and all of them can be taken. -/
def played (f : σ → ℓ → Option σ) (s : σ) (ls : List ℓ) : σ := (ls.foldlM f s).getD s

theorem run_of_foldlM {f : σ → ℓ → Option σ} (hstep : ∀ s l t, f s l = some t → step s l t)
    (h : ls.foldlM f s = some t) : Run step s ls t := by
  induction ls generalizing s with
  | nil =>
    obtain rfl := Option.some.inj h
    exact .nil
  | cons l ls ih =>
    obtain ⟨u, hu, h⟩ := Option.bind_eq_some_iff.mp h
    exact .cons (hstep _ _ _ hu) (ih h)

theorem run_played {f : σ → ℓ → Option σ} (hstep : ∀ s l t, f s l = some t → step s l t)
    (h : (ls.foldlM f s).isSome = true) : Run step s ls (played f s ls) := by
  obtain ⟨t, ht⟩ := Option.isSome_iff_exists.mp h
  rw [played, ht]
  exact run_of_foldlM hstep ht

/-- The labels and the last state of a script, where every entry of it is one computed step. -/
def script {α : Type} (act : σ → α → ℓ × σ) : σ → List α → List ℓ × σ
  | s, [] => ([], s)
  | s, a :: as => ((act s a).1 :: (script act (act s a).2 as).1, (script act (act s a).2 as).2)

/-- Every entry of the script can be taken when its turn comes. -/
def scripted {α : Type} (act : σ → α → ℓ × σ) (ok : σ → α → Bool) : σ → List α → Bool
  | _, [] => true
  | s, a :: as => ok s a && scripted act ok (act s a).2 as

theorem run_script {α : Type} {act : σ → α → ℓ × σ} {ok : σ → α → Bool}
    (hstep : ∀ s a, ok s a → step s (act s a).1 (act s a).2) {as : List α} (h : scripted act ok s as) :
    Run step s (script act s as).1 (script act s as).2 := by
  induction as generalizing s with
  | nil => exact .nil
  | cons a as ih =>
    simp only [scripted, Bool.and_eq_true] at h
    exact .cons (hstep s a h.1) (ih h.2)

/-- What holds at the start and is kept by every step holds after every run. The
invariant may speak of the labels so far. -/
theorem Run.invariant {P : List ℓ → σ → Prop} (h : Run step s ls t) (h0 : P [] s)
    (hstep : ∀ ls t l u, P ls t → step t l u → P (ls ++ [l]) u) : P ls t := by
  induction h with
  | nil => exact h0
  | snoc _ hs ih => exact hstep _ _ _ _ ih hs

/-! ## Runs whose steps meet a condition -/

/-- A step that is taken where the condition holds. -/
def Guarded (step : σ → ℓ → σ → Prop) (p : σ → ℓ → Bool) (s : σ) (l : ℓ) (t : σ) : Prop := step s l t ∧ p s l = true

/-- The steps that are computed and taken where the condition holds. -/
def guarded (f : σ → ℓ → Option σ) (p : σ → ℓ → Bool) (s : σ) (l : ℓ) : Option σ := if p s l then f s l else none

theorem run_guarded {f : σ → ℓ → Option σ} {p : σ → ℓ → Bool} (hstep : ∀ s l t, f s l = some t → step s l t)
    (h : (ls.foldlM (guarded f p) s).isSome = true) : Run (Guarded step p) s ls (played (guarded f p) s ls) := by
  refine run_played (fun s l t hf => ?_) h
  unfold guarded at hf
  split at hf
  next hp => exact ⟨hstep s l t hf, hp⟩
  next => cases hf

/-! ## Goals of all maximal runs -/

/-- Every maximal run from the state reaches `P`: it holds already, or some step can be
taken and `P` is inevitable after each of them. -/
inductive Inevitably (step : σ → σ → Prop) (P : σ → Prop) : σ → Prop
  | now {s : σ} : P s → Inevitably step P s
  | next {s : σ} : (∃ t, step s t) → (∀ t, step s t → Inevitably step P t) → Inevitably step P s

section Inevitably

variable {step : σ → σ → Prop} {P Q : σ → Prop} {s : σ}

theorem Inevitably.mono (h : Inevitably step P s) (hPQ : ∀ t, P t → Q t) : Inevitably step Q s := by
  induction h with
  | now hp => exact .now (hPQ _ hp)
  | next hex _ ih => exact .next hex ih

theorem Inevitably.reachable (h : Inevitably step P s) :
    ∃ t, Relation.ReflTransGen step s t ∧ P t := by
  induction h with
  | now hp => exact ⟨_, .refl, hp⟩
  | next hex _ ih =>
    obtain ⟨t, ht⟩ := hex
    obtain ⟨u, hu, hp⟩ := ih t ht
    exact ⟨u, hu.head ht, hp⟩

theorem Inevitably.later (h : Inevitably step P s) (hstable : ∀ s t, P s → step s t → P t) {t : σ}
    (hreach : Relation.ReflTransGen step s t) : Inevitably step P t := by
  induction hreach with
  | refl => exact h
  | tail _ hst ih =>
    cases ih with
    | now hp => exact .now (hstable _ _ hp hst)
    | next _ hall => exact hall _ hst

/-- Another step relation that agrees with the first until `P` holds. -/
theorem Inevitably.agree {step' : σ → σ → Prop} (h : Inevitably step P s) (Inv : σ → Prop) (hs : Inv s)
    (hstep : ∀ s t, Inv s → step s t → Inv t) (hagree : ∀ s t, Inv s → ¬ P s → (step' s t ↔ step s t)) :
    Inevitably step' P s := by
  induction h with
  | now hp => exact .now hp
  | @next s hex hall ih =>
    by_cases hp : P s
    · exact .now hp
    · obtain ⟨t, ht⟩ := hex
      refine .next ⟨t, (hagree s t hs hp).mpr ht⟩ fun t ht => ?_
      have ht' := (hagree s t hs hp).mp ht
      exact ih t ht' (hstep s t hs ht')

theorem not_inevitably (Inv : σ → Prop) (hs : Inv s) (hstep : ∀ s t, Inv s → step s t → Inv t)
    (hP : ∀ s, Inv s → ¬ P s) : ¬ Inevitably step P s := by
  intro h
  obtain ⟨t, hreach, hp⟩ := h.reachable
  have hinv : Inv t := by
    clear hp
    induction hreach with
    | refl => exact hs
    | tail _ hst ih => exact hstep _ _ ih hst
  exact hP t hinv hp

end Inevitably

end TrenchDb.Lib.Lts
