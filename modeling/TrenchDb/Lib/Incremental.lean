import Mathlib.Data.List.Basic

/-!
# Incremental decoders

A decoder that looks at the front of a growing buffer. Once it has decided,
no later byte changes its mind, so it does not matter in which chunks the
bytes came.
-/

namespace TrenchDb.Lib.Incremental

variable {β α ε : Type}

/-- What a decoder makes of the front of a buffer. -/
inductive Verdict (α ε : Type) where
  | item (a : α) (used : Nat)
  | more
  | bad (e : ε)

/-- A decoder whose verdicts, `more` apart, are stable under more input. -/
structure Decoder (β α ε : Type) where
  verdict : List β → Verdict α ε
  item_bound : ∀ {buf a n}, verdict buf = .item a n → 0 < n ∧ n ≤ buf.length
  item_stable : ∀ {buf a n} rest, verdict buf = .item a n → verdict (buf ++ rest) = .item a n
  bad_stable : ∀ {buf e} rest, verdict buf = .bad e → verdict (buf ++ rest) = .bad e

namespace Decoder

variable (d : Decoder β α ε)

/-! ## Whole inputs -/

/-- At most `k` items from the front, then what stopped the decoder: an error, or
an undecided rest. -/
def parseN : Nat → List β → List α × Except ε (List β)
  | 0, buf => ([], .ok buf)
  | k + 1, buf =>
    match d.verdict buf with
    | .item a n => (a :: (parseN k (buf.drop n)).1, (parseN k (buf.drop n)).2)
    | .more => ([], .ok buf)
    | .bad e => ([], .error e)

/-- All items of a finite input. Each item uses a byte at least, so the fuel is enough. -/
def parse (buf : List β) : List α × Except ε (List β) := d.parseN (buf.length + 1) buf

theorem parseN_eq_parse (k : Nat) (buf : List β) (h : buf.length < k) : d.parseN k buf = d.parse buf := by
  induction k using Nat.strongRecOn generalizing buf with
  | _ k ih =>
    obtain ⟨k, rfl⟩ : ∃ j, k = j + 1 := ⟨k - 1, by omega⟩
    rw [parse, parseN, parseN]
    cases hv : d.verdict buf with
    | more => rfl
    | bad e => rfl
    | item a n =>
      obtain ⟨hpos, hle⟩ := d.item_bound hv
      have hdrop : (buf.drop n).length < buf.length := by simp; omega
      simp only [ih k (by omega) (buf.drop n) (by omega)]
      by_cases hk : buf.length < k + 1
      · rw [ih buf.length (by omega) (buf.drop n) hdrop]
      · omega

theorem parse_item {buf : List β} {a : α} {n : Nat} (h : d.verdict buf = .item a n) :
    d.parse buf = (a :: (d.parse (buf.drop n)).1, (d.parse (buf.drop n)).2) := by
  obtain ⟨hpos, hle⟩ := d.item_bound h
  have hdrop : (buf.drop n).length < buf.length := by simp; omega
  rw [parse, parseN, h]
  simp only [d.parseN_eq_parse _ _ hdrop]

theorem parse_more {buf : List β} (h : d.verdict buf = .more) : d.parse buf = ([], .ok buf) := by
  rw [parse, parseN, h]

theorem parse_bad {buf : List β} {e : ε} (h : d.verdict buf = .bad e) : d.parse buf = ([], .error e) := by
  rw [parse, parseN, h]

theorem parse_error {buf : List β} {e : ε} (h : (d.parse buf).2 = .error e) :
    ∃ k, d.verdict (buf.drop k) = .bad e := by
  induction hn : buf.length using Nat.strongRecOn generalizing buf with
  | _ len ih =>
    cases hv : d.verdict buf with
    | more => simp [d.parse_more hv] at h
    | bad e' =>
      rw [d.parse_bad hv] at h
      exact ⟨0, by simpa [hv] using h⟩
    | item a n =>
      obtain ⟨hpos, hle⟩ := d.item_bound hv
      rw [d.parse_item hv] at h
      obtain ⟨k, hk⟩ := ih (buf.drop n).length (by simp; omega) h rfl
      exact ⟨n + k, by rw [← List.drop_drop]; exact hk⟩

/-- `bs` is an encoding of `a`: the decoder finds `a` in front of any rest. -/
def Encodes (a : α) (bs : List β) : Prop := ∀ rest, d.verdict (bs ++ rest) = .item a bs.length

theorem parse_encoding {a : α} {bs : List β} (h : d.Encodes a bs) (rest : List β) :
    d.parse (bs ++ rest) = (a :: (d.parse rest).1, (d.parse rest).2) := by
  rw [d.parse_item (h rest), List.drop_left]

theorem parse_encodings {enc : α → List β} {as : List α} (h : ∀ a ∈ as, d.Encodes a (enc a))
    (rest : List β) :
    d.parse (as.flatMap enc ++ rest) = (as ++ (d.parse rest).1, (d.parse rest).2) := by
  induction as with
  | nil => rfl
  | cons a as ih =>
    rw [List.flatMap_cons, List.append_assoc, d.parse_encoding (h a List.mem_cons_self),
      ih fun b hb => h b (List.mem_cons_of_mem _ hb)]
    rfl

/-! ## Chunked inputs -/

/-- Append chunks to the buffer until the decoder decides or the chunks are used up. -/
def pull : List β → List (List β) → Verdict α ε × List β × List (List β)
  | buf, chunks =>
    match d.verdict buf with
    | .more =>
      match chunks with
      | [] => (.more, buf, [])
      | c :: cs => pull (buf ++ c) cs
    | v => (v, buf, chunks)

theorem pull_decided {buf : List β} (chunks : List (List β)) (h : d.verdict buf ≠ .more) :
    d.pull buf chunks = (d.verdict buf, buf, chunks) := by
  unfold pull
  cases hv : d.verdict buf with
  | more => exact absurd hv h
  | item a n => rfl
  | bad e => rfl

theorem pull_nil {buf : List β} (h : d.verdict buf = .more) : d.pull buf [] = (.more, buf, []) := by
  unfold pull; rw [h]

theorem pull_cons {buf : List β} (c : List β) (cs : List (List β)) (h : d.verdict buf = .more) :
    d.pull buf (c :: cs) = d.pull (buf ++ c) cs := by
  conv_lhs => unfold pull
  rw [h]

theorem verdict_append {buf : List β} (rest : List β) (h : d.verdict buf ≠ .more) :
    d.verdict (buf ++ rest) = d.verdict buf := by
  cases hv : d.verdict buf with
  | more => exact absurd hv h
  | item a n => exact d.item_stable rest hv
  | bad e => exact d.bad_stable rest hv

theorem pull_verdict (buf : List β) (chunks : List (List β)) :
    (d.pull buf chunks).1 = d.verdict (buf ++ chunks.flatten) := by
  induction chunks generalizing buf with
  | nil =>
    by_cases hv : d.verdict buf = .more
    · simp [d.pull_nil hv, hv]
    · simp [d.pull_decided [] hv]
  | cons c cs ih =>
    by_cases hv : d.verdict buf = .more
    · rw [d.pull_cons c cs hv, ih]; simp
    · rw [d.pull_decided _ hv, d.verdict_append _ hv]

theorem pull_bytes (buf : List β) (chunks : List (List β)) :
    (d.pull buf chunks).2.1 ++ (d.pull buf chunks).2.2.flatten = buf ++ chunks.flatten := by
  induction chunks generalizing buf with
  | nil =>
    by_cases hv : d.verdict buf = .more
    · simp [d.pull_nil hv]
    · simp [d.pull_decided [] hv]
  | cons c cs ih =>
    by_cases hv : d.verdict buf = .more
    · rw [d.pull_cons c cs hv, ih]; simp
    · rw [d.pull_decided _ hv]

theorem pull_suffix (buf : List β) (chunks : List (List β)) : (d.pull buf chunks).2.2 <:+ chunks := by
  induction chunks generalizing buf with
  | nil =>
    by_cases hv : d.verdict buf = .more
    · simp only [d.pull_nil hv, List.suffix_rfl]
    · simp only [d.pull_decided [] hv, List.suffix_rfl]
  | cons c cs ih =>
    by_cases hv : d.verdict buf = .more
    · rw [d.pull_cons c cs hv]; exact (ih _).trans (List.suffix_cons c cs)
    · simp only [d.pull_decided _ hv, List.suffix_rfl]

theorem pull_buffer (buf : List β) (chunks : List (List β)) :
    d.verdict (d.pull buf chunks).2.1 = (d.pull buf chunks).1 := by
  induction chunks generalizing buf with
  | nil =>
    by_cases hv : d.verdict buf = .more
    · rw [d.pull_nil hv, hv]
    · rw [d.pull_decided [] hv]
  | cons c cs ih =>
    by_cases hv : d.verdict buf = .more
    · rw [d.pull_cons c cs hv, ih]
    · rw [d.pull_decided _ hv]

theorem pull_more {buf : List β} {chunks : List (List β)} (h : (d.pull buf chunks).1 = .more) :
    (d.pull buf chunks).2.2 = [] := by
  induction chunks generalizing buf with
  | nil =>
    by_cases hv : d.verdict buf = .more
    · rw [d.pull_nil hv]
    · rw [d.pull_decided [] hv]
  | cons c cs ih =>
    by_cases hv : d.verdict buf = .more
    · rw [d.pull_cons c cs hv] at h ⊢
      exact ih h
    · rw [d.pull_decided _ hv] at h
      exact absurd h hv

/-! ## Chunks of encodings -/

theorem verdict_encodings {enc : α → List β} {as : List α} {buf rest : List β}
    (hnil : d.verdict [] = .more) (h : ∀ a ∈ as, d.Encodes a (enc a))
    (heq : buf ++ rest = as.flatMap enc) :
    d.verdict buf = .more ∨ ∃ a as', as = a :: as' ∧ d.verdict buf = .item a (enc a).length ∧
      buf.drop (enc a).length ++ rest = as'.flatMap enc := by
  by_cases hv : d.verdict buf = .more
  · exact .inl hv
  right
  cases as with
  | nil =>
    obtain ⟨rfl, -⟩ := List.append_eq_nil_iff.mp heq
    exact absurd hnil hv
  | cons a as =>
    have hbuf : d.verdict buf = .item a (enc a).length := by
      rw [← d.verdict_append rest hv, heq, List.flatMap_cons]
      exact h a List.mem_cons_self _
    obtain ⟨-, hle⟩ := d.item_bound hbuf
    refine ⟨a, as, rfl, hbuf, ?_⟩
    rw [← List.drop_append_of_le_length hle, heq, List.flatMap_cons, List.drop_left]

theorem pull_encodings {enc : α → List β} {as : List α} {buf rest : List β} {chunks : List (List β)}
    (hnil : d.verdict [] = .more) (h : ∀ a ∈ as, d.Encodes a (enc a))
    (heq : buf ++ chunks.flatten ++ rest = as.flatMap enc) :
    d.pull buf chunks = (.more, buf ++ chunks.flatten, []) ∨
    ∃ a as' buf' cs, as = a :: as' ∧ d.pull buf chunks = (.item a (enc a).length, buf', cs) ∧
      buf'.drop (enc a).length ++ cs.flatten ++ rest = as'.flatMap enc := by
  have hbytes := d.pull_bytes buf chunks
  have hbuffer := d.pull_buffer buf chunks
  have hdone : (d.pull buf chunks).1 = .more → (d.pull buf chunks).2.2 = [] := d.pull_more
  generalize d.pull buf chunks = p at hbytes hbuffer hdone
  obtain ⟨v, buf', cs⟩ := p
  dsimp only at hbytes hbuffer hdone
  rw [← hbytes, List.append_assoc] at heq
  rcases d.verdict_encodings hnil h heq with hmore | ⟨a, as', rfl, hitem, hrest⟩
  · left
    obtain rfl : v = .more := hbuffer ▸ hmore
    obtain rfl := hdone rfl
    simp [← hbytes]
  · right
    obtain rfl : v = .item a (enc a).length := hbuffer ▸ hitem
    exact ⟨a, as', buf', cs, rfl, rfl, by rw [List.append_assoc]; exact hrest⟩

end Decoder

end TrenchDb.Lib.Incremental
