import Mathlib.Data.List.Chain
import Mathlib.Data.List.DropRight
import TrenchDb.Lib.Delimited

/-!
# Words

A list in words: its longest runs without a separator. Which lists are their own words with one fixed separator between
each two.
-/

namespace TrenchDb.Lib

variable {α : Type} {p : α → Bool} {sep : α} {l m word : List α}

def words (p : α → Bool) (l : List α) : List (List α) := (l.splitOnP p).filter fun part => !part.isEmpty

/-- Without the separators at either end. -/
def trim (p : α → Bool) (l : List α) : List α := (l.dropWhile p).rdropWhile p

/-! ## The words of a list -/

theorem words_nil (p : α → Bool) : words p [] = [] := rfl

theorem words_word (hne : word ≠ []) (hword : ∀ a ∈ word, p a = false) : words p word = [word] := by
  rw [words, List.splitOnP_eq_singleton hword]
  simp [hne]

theorem words_append_cons (hsep : p sep = true) : words p (l ++ sep :: m) = words p l ++ words p m := by
  rw [words, List.splitOnP_append_cons l m hsep, List.filter_append]
  rfl

theorem words_separators_append (h : ∀ a ∈ l, p a = true) : words p (l ++ m) = words p m := by
  induction l with
  | nil => rfl
  | cons a l ih =>
    obtain ⟨ha, hl⟩ := List.forall_mem_cons.mp h
    have := words_append_cons (l := []) (m := l ++ m) ha
    rwa [words_nil, List.nil_append, List.nil_append, ih hl] at this

theorem words_append_separators (h : ∀ a ∈ m, p a = true) : words p (l ++ m) = words p l := by
  cases m with
  | nil => rw [List.append_nil]
  | cons a m =>
    obtain ⟨ha, hm⟩ := List.forall_mem_cons.mp h
    have hnone := words_separators_append (m := []) hm
    rw [List.append_nil, words_nil] at hnone
    rw [words_append_cons ha, hnone, List.append_nil]

theorem words_trim (p : α → Bool) (l : List α) : words p (trim p l) = words p l := by
  have hfront : words p (l.dropWhile p) = words p l := by
    conv_rhs => rw [← List.takeWhile_append_dropWhile (p := p) (l := l)]
    exact (words_separators_append fun a ha => List.mem_takeWhile_imp ha).symm
  rw [trim, ← hfront]
  conv_rhs => rw [← List.rdropWhile_append_rtakeWhile (p := p) (l := l.dropWhile p)]
  exact (words_append_separators fun a ha => List.mem_rtakeWhile_imp ha).symm

theorem splitOnP_cons_sep {a : α} (ha : p a = true) : (a :: l).splitOnP p = [] :: l.splitOnP p := by
  rw [List.splitOnP_cons_eq_if_modifyHead, if_pos ha]

theorem splitOnP_cons_of_not {a : α} (ha : p a = false) : ∃ part parts,
    l.splitOnP p = part :: parts ∧ (a :: l).splitOnP p = (a :: part) :: parts := by
  obtain ⟨part, parts, hparts⟩ := List.exists_cons_of_ne_nil (List.splitOnP_ne_nil p l)
  refine ⟨part, parts, hparts, ?_⟩
  rw [List.splitOnP_cons_eq_if_modifyHead, if_neg (by simp [ha]), hparts, List.modifyHead_cons]

theorem not_sep_of_mem_splitOnP {part : List α} (h : part ∈ l.splitOnP p) : ∀ a ∈ part, p a = false := by
  induction l generalizing part with
  | nil => simp_all [List.splitOnP_nil]
  | cons a l ih =>
    cases ha : p a with
    | true =>
      rw [splitOnP_cons_sep ha] at h
      rcases List.mem_cons.mp h with rfl | hmem
      · simp
      · exact ih hmem
    | false =>
      obtain ⟨first, parts, hparts, hcons⟩ := splitOnP_cons_of_not (l := l) ha
      rw [hcons] at h
      rw [hparts] at ih
      rcases List.mem_cons.mp h with rfl | hmem
      · exact List.forall_mem_cons.mpr ⟨ha, ih List.mem_cons_self⟩
      · exact ih (List.mem_cons_of_mem _ hmem)

theorem of_mem_words (h : word ∈ words p l) : word ≠ [] ∧ ∀ a ∈ word, p a = false := by
  obtain ⟨hmem, hne⟩ := List.mem_filter.mp h
  exact ⟨by simpa using hne, not_sep_of_mem_splitOnP hmem⟩

theorem sep_of_words_nil (h : words p l = []) : ∀ a ∈ l, p a = true := by
  induction l with
  | nil => simp
  | cons a l ih =>
    cases ha : p a with
    | true =>
      have hrest := words_separators_append (l := [a]) (m := l) (by simpa using ha)
      exact List.forall_mem_cons.mpr ⟨ha, ih (hrest ▸ h)⟩
    | false =>
      obtain ⟨part, parts, -, hcons⟩ := splitOnP_cons_of_not (l := l) ha
      simp [words, hcons] at h

theorem words_ne_nil (h : trim p l ≠ []) : words p (trim p l) ≠ [] := by
  intro hnil
  rw [words_trim] at hnil
  rw [trim, List.dropWhile_eq_nil_iff.mpr (sep_of_words_nil hnil)] at h
  exact h (List.rdropWhile_nil p)

/-! ## Words with one separator between them -/

/-- No separator at either end, no two in a row, and none but the given one. -/
structure SingleSpaced (p : α → Bool) (sep : α) (l : List α) : Prop where
  first : ∀ a ∈ l.head?, p a = false
  last : ∀ a ∈ l.getLast?, p a = false
  between : l.IsChain fun a b => ¬ (p a = true ∧ p b = true)
  only : ∀ a ∈ l, p a = true → a = sep

instance [DecidableEq α] (p : α → Bool) (sep : α) (l : List α) : Decidable (SingleSpaced p sep l) :=
  decidable_of_iff
    ((∀ a ∈ l.head?, p a = false) ∧ (∀ a ∈ l.getLast?, p a = false) ∧
      (l.IsChain fun a b => ¬ (p a = true ∧ p b = true)) ∧ ∀ a ∈ l, p a = true → a = sep)
    ⟨fun h => ⟨h.1, h.2.1, h.2.2.1, h.2.2.2⟩, fun h => ⟨h.first, h.last, h.between, h.only⟩⟩

theorem splitOnP_tail_ne_nil_iff : (∀ part ∈ (l.splitOnP p).tail, part ≠ []) ↔
    (∀ a ∈ l.getLast?, p a = false) ∧ l.IsChain fun a b => ¬ (p a = true ∧ p b = true) := by
  induction l with
  | nil => simp [List.splitOnP_nil]
  | cons a l ih =>
    cases ha : p a with
    | true =>
      rw [splitOnP_cons_sep ha, List.tail_cons]
      cases l with
      | nil => simp [List.splitOnP_nil, ha]
      | cons b l =>
        rw [List.getLast?_cons_cons, List.isChain_cons_cons, and_left_comm, ← ih]
        cases hb : p b with
        | true => simp [splitOnP_cons_sep hb, ha]
        | false =>
          obtain ⟨first, parts, hparts, hcons⟩ := splitOnP_cons_of_not (l := l) hb
          simp [hcons]
    | false =>
      obtain ⟨first, parts, hparts, hcons⟩ := splitOnP_cons_of_not (l := l) ha
      rw [hparts, List.tail_cons] at ih
      rw [hcons, List.tail_cons, ih]
      cases l <;> simp [ha]

theorem splitOnP_head_ne_nil_iff : (∀ part ∈ (l.splitOnP p).head?, part ≠ []) ↔ ∃ a ∈ l.head?, p a = false := by
  cases l with
  | nil => simp [List.splitOnP_nil]
  | cons a l =>
    cases ha : p a with
    | true => simp [splitOnP_cons_sep ha, ha]
    | false =>
      obtain ⟨first, parts, hparts, hcons⟩ := splitOnP_cons_of_not (l := l) ha
      simp [hcons, ha]

theorem parts_ne_nil_iff : (∀ part ∈ l.splitOnP p, part ≠ []) ↔ (∃ a ∈ l.head?, p a = false) ∧
    (∀ a ∈ l.getLast?, p a = false) ∧ l.IsChain fun a b => ¬ (p a = true ∧ p b = true) := by
  rw [← splitOnP_head_ne_nil_iff, ← splitOnP_tail_ne_nil_iff]
  obtain ⟨first, parts, hparts⟩ := List.exists_cons_of_ne_nil (List.splitOnP_ne_nil p l)
  simp [hparts]

theorem splitOnP_eq_splitOn [DecidableEq α] (hsep : p sep = true) (honly : ∀ a ∈ l, p a = true → a = sep) :
    l.splitOnP p = l.splitOn sep := by
  rw [List.splitOn_eq_splitOnP]
  induction l with
  | nil => rfl
  | cons a l ih =>
    obtain ⟨ha, hl⟩ := List.forall_mem_cons.mp honly
    have hsame : p a = (a == sep) := by
      rw [Bool.eq_iff_iff, beq_iff_eq]
      exact ⟨ha, fun h => h ▸ hsep⟩
    rw [List.splitOnP_cons_eq_if_modifyHead, List.splitOnP_cons_eq_if_modifyHead, ih hl, hsame]

theorem join_words_iff [DecidableEq α] (hsep : p sep = true) :
    [sep].intercalate (words p l) = l ↔ SingleSpaced p sep l := by
  rcases eq_or_ne l [] with rfl | hl
  · exact iff_of_true rfl ⟨by simp, by simp, .nil, by simp⟩
  constructor
  · intro hjoin
    have honly : ∀ a ∈ l, p a = true → a = sep := by
      intro a ha hpa
      rw [← hjoin] at ha
      rcases mem_intercalate ha with hsep | ⟨word, hword, hmem⟩
      · exact List.mem_singleton.mp hsep
      · exact absurd ((of_mem_words hword).2 a hmem) (by simp [hpa])
    have hwords : words p l ≠ [] := fun h => hl (by rw [← hjoin, h, List.intercalate_nil])
    have hsplit : l.splitOnP p = words p l := by
      rw [splitOnP_eq_splitOn hsep honly]
      conv_lhs => rw [← hjoin]
      exact List.splitOn_intercalate _ (fun word hword hmem => by simp [(of_mem_words hword).2 sep hmem] at hsep) hwords
    have hparts : ∀ part ∈ l.splitOnP p, part ≠ [] := fun part hpart => (of_mem_words (hsplit ▸ hpart)).1
    obtain ⟨⟨a, hhead, ha⟩, hlast, hbetween⟩ := parts_ne_nil_iff.mp hparts
    refine ⟨fun b hb => ?_, hlast, hbetween, honly⟩
    rwa [Option.mem_unique hb hhead]
  · intro h
    obtain ⟨a, rest, rfl⟩ := List.exists_cons_of_ne_nil hl
    have hparts := parts_ne_nil_iff.mpr ⟨⟨a, rfl, h.first a rfl⟩, h.last, h.between⟩
    rw [words, List.filter_eq_self.mpr fun part hpart => by simpa using hparts part hpart,
      splitOnP_eq_splitOn hsep h.only]
    exact List.intercalate_splitOn sep

end TrenchDb.Lib
