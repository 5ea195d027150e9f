import Mathlib.Data.List.TakeWhile
import Mathlib.Logic.Function.Basic

/-!
# Texts that show where they end

An encoding whose texts can be told apart whatever follows them, and ways to build one. A sequence of such texts can be
read in one way only.
-/

open Function

namespace TrenchDb.Lib

variable {α β γ : Type} {enc : α → List β} {enc' : γ → List β}

/-- Whatever follows, the value and where its text ends are determined. -/
def SelfDelimiting (enc : α → List β) : Prop := ∀ a b r s, enc a ++ r = enc b ++ s → a = b ∧ r = s

namespace SelfDelimiting

theorem injective (h : SelfDelimiting enc) : Injective enc := fun a b hab =>
  (h a b [] [] (by rw [List.append_nil, List.append_nil, hab])).1

theorem flatMap_injective (h : SelfDelimiting enc) (hne : ∀ a, enc a ≠ []) :
    Injective fun as : List α => as.flatMap enc := by
  intro as bs (hab : as.flatMap enc = bs.flatMap enc)
  induction as generalizing bs with
  | nil =>
    cases bs with
    | nil => rfl
    | cons b bs =>
      rw [List.flatMap_nil, List.flatMap_cons] at hab
      exact absurd (List.append_eq_nil_iff.mp hab.symm).1 (hne b)
  | cons a as ih =>
    cases bs with
    | nil =>
      rw [List.flatMap_nil, List.flatMap_cons] at hab
      exact absurd (List.append_eq_nil_iff.mp hab).1 (hne a)
    | cons b bs =>
      rw [List.flatMap_cons, List.flatMap_cons] at hab
      obtain ⟨rfl, hrest⟩ := h a b _ _ hab
      rw [ih hrest]

theorem pair (h : SelfDelimiting enc) (h' : SelfDelimiting enc') :
    SelfDelimiting fun p : α × γ => enc p.1 ++ enc' p.2 := by
  rintro ⟨a, c⟩ ⟨b, d⟩ r s heq
  simp only [List.append_assoc] at heq
  obtain ⟨rfl, hrest⟩ := h a b _ _ heq
  obtain ⟨rfl, htail⟩ := h' c d _ _ hrest
  exact ⟨rfl, htail⟩

theorem comp (h : SelfDelimiting enc) {f : γ → α} (hf : Injective f) : SelfDelimiting fun c => enc (f c) := by
  intro a b r s heq
  obtain ⟨hab, hrest⟩ := h _ _ _ _ heq
  exact ⟨hf hab, hrest⟩

theorem label (h : SelfDelimiting enc) (text : List β) : SelfDelimiting fun a => text ++ enc a := by
  intro a b r s heq
  rw [List.append_assoc, List.append_assoc] at heq
  exact h a b r s (List.append_cancel_left heq)

end SelfDelimiting

/-! ## Delimiters -/

variable {delimiter : β} {text text' rest rest' : List β}

theorem append_delimiter_inj (htext : delimiter ∉ text) (htext' : delimiter ∉ text')
    (hrest : ∀ b ∈ rest.head?, b = delimiter) (hrest' : ∀ b ∈ rest'.head?, b = delimiter)
    (h : text ++ rest = text' ++ rest') : text = text' ∧ rest = rest' := by
  classical
  have hsplit : ∀ {text rest : List β}, delimiter ∉ text → (∀ b ∈ rest.head?, b = delimiter) →
      (text ++ rest).takeWhile (fun b => decide (b ≠ delimiter)) = text := by
    intro text rest htext hrest
    have hpass : ∀ b ∈ text, decide (b ≠ delimiter) = true := fun b hb =>
      decide_eq_true fun heq => htext (heq ▸ hb)
    rw [List.takeWhile_append_of_pos hpass]
    cases rest with
    | nil => simp
    | cons b rest =>
      obtain rfl := hrest b rfl
      simp
  have hsame := congrArg (List.takeWhile fun b => decide (b ≠ delimiter)) h
  rw [hsplit htext hrest, hsplit htext' hrest'] at hsame
  subst hsame
  exact ⟨rfl, List.append_cancel_left h⟩

theorem selfDelimiting_line (hinj : Injective enc) (hmem : ∀ a, delimiter ∉ enc a) :
    SelfDelimiting fun a => enc a ++ [delimiter] := by
  intro a b r s heq
  rw [List.append_assoc, List.append_assoc] at heq
  obtain ⟨htext, hrest⟩ := append_delimiter_inj (hmem a) (hmem b) (by simp) (by simp) heq
  exact ⟨hinj htext, List.append_cancel_left hrest⟩

/-- What follows the first of some words. -/
def afterWord (separator : List β) : List (List β) → List β
  | [] => []
  | words => separator ++ separator.intercalate words

theorem intercalate_cons (separator word : List β) (words : List (List β)) :
    separator.intercalate (word :: words) = word ++ afterWord separator words := by
  cases words with
  | nil => simp [afterWord]
  | cons next words => rw [List.intercalate_cons_of_ne_nil (List.cons_ne_nil _ _), List.append_assoc, afterWord]; simp

theorem afterWord_head? (separator : List β) (words : List (List β)) :
    ∀ b ∈ (afterWord (delimiter :: separator) words).head?, b = delimiter := by
  cases words <;> simp [afterWord]

theorem mem_intercalate {separator : List β} {words : List (List β)} {b : β} (h : b ∈ separator.intercalate words) :
    b ∈ separator ∨ ∃ word ∈ words, b ∈ word := by
  induction words with
  | nil => cases h
  | cons word words ih =>
    rw [intercalate_cons, List.mem_append] at h
    rcases h with hword | hafter
    · exact .inr ⟨word, List.mem_cons_self, hword⟩
    · cases words with
      | nil => cases hafter
      | cons next words =>
        rw [afterWord, List.mem_append] at hafter
        · rcases hafter with hseparator | hwords
          · exact .inl hseparator
          · exact (ih hwords).imp_right fun ⟨word', hmem, hb⟩ => ⟨word', List.mem_cons_of_mem _ hmem, hb⟩
        · simp

theorem intercalate_injective {separator : List β} {words words' : List (List β)}
    (hwords : ∀ word ∈ words, word ≠ [] ∧ delimiter ∉ word) (hwords' : ∀ word ∈ words', word ≠ [] ∧ delimiter ∉ word)
    (h : (delimiter :: separator).intercalate words = (delimiter :: separator).intercalate words') :
    words = words' := by
  induction words generalizing words' with
  | nil =>
    cases words' with
    | nil => rfl
    | cons word' words' =>
      rw [intercalate_cons, List.intercalate_nil] at h
      exact absurd (List.append_eq_nil_iff.mp h.symm).1 (hwords' word' List.mem_cons_self).1
  | cons word words ih =>
    obtain ⟨hfirst, hothers⟩ := List.forall_mem_cons.mp hwords
    cases words' with
    | nil =>
      rw [intercalate_cons, List.intercalate_nil] at h
      exact absurd (List.append_eq_nil_iff.mp h).1 hfirst.1
    | cons word' words' =>
      obtain ⟨hfirst', hothers'⟩ := List.forall_mem_cons.mp hwords'
      rw [intercalate_cons, intercalate_cons] at h
      obtain ⟨rfl, hafter⟩ :=
        append_delimiter_inj hfirst.2 hfirst'.2 (afterWord_head? _ words) (afterWord_head? _ words') h
      cases words <;> cases words' <;> simp only [afterWord, List.cons_append, reduceCtorEq] at hafter
      · rfl
      · rw [ih hothers hothers' (List.append_cancel_left (List.cons.inj hafter).2)]

end TrenchDb.Lib
