import Mathlib.Data.List.Basic

/-!
# Batches taken one entry at a time

A loop that hands its entries to a writer one after another, and gives up at the first that is not valid. What it
wrote before that stays, so it leaves no trace only where it gives up at once.
-/

namespace TrenchDb.Lib.Batch

variable {ω ε ρ κ β : Type}

/-- If the first entry is valid, so are all. -/
def FirstDecides (valid : ε → Prop) : List ε → Prop
  | [] => True
  | entry :: entries => valid entry → ∀ e ∈ entries, valid e

instance (valid : ε → Prop) [DecidablePred valid] (entries : List ε) : Decidable (FirstDecides valid entries) :=
  match entries with
  | [] => isTrue trivial
  | entry :: entries => inferInstanceAs (Decidable (valid entry → ∀ e ∈ entries, valid e))

/-- The loop: `push` is what a round does that takes its entry. -/
structure OneByOne (valid : ω → ε → Prop) (push : ω → ε → ω) (loop : ω → List ε → Except ρ Unit × ω) : Prop where
  done : ∀ w, loop w [] = (.ok (), w)
  fails : ∀ w entry entries, ¬ valid w entry → ∃ err, loop w (entry :: entries) = (.error err, w)
  takes : ∀ w entry entries, valid w entry → loop w (entry :: entries) = loop (push w entry) entries
  keeps : ∀ w entry, valid w entry → valid (push w entry) = valid w

namespace OneByOne

variable {valid : ω → ε → Prop} {push : ω → ε → ω} {loop : ω → List ε → Except ρ Unit × ω} {w w' : ω}
  {entries : List ε} {err : ρ}

theorem taken (h : OneByOne valid push loop) (w : ω) (entries : List ε) :
    ∃ taken, taken <+: entries ∧ (∀ e ∈ taken, valid w e) ∧ ((loop w entries).1 = .ok () ↔ taken = entries) ∧
      (loop w entries).2 = taken.foldl push w := by
  induction entries generalizing w with
  | nil =>
    rw [h.done]
    exact ⟨[], List.prefix_refl _, nofun, ⟨fun _ => rfl, fun _ => rfl⟩, rfl⟩
  | cons entry entries ih =>
    by_cases hvalid : valid w entry
    · obtain ⟨taken, hprefix, hall, hok, hend⟩ := ih (push w entry)
      rw [h.keeps w entry hvalid] at hall
      rw [h.takes w entry entries hvalid]
      exact ⟨entry :: taken, List.cons_prefix_cons.mpr ⟨rfl, hprefix⟩, List.forall_mem_cons.mpr ⟨hvalid, hall⟩,
        hok.trans (List.cons_inj_right entry).symm, hend⟩
    · obtain ⟨err, heq⟩ := h.fails w entry entries hvalid
      rw [heq]
      exact ⟨[], List.nil_prefix, nofun, ⟨nofun, nofun⟩, rfl⟩

theorem foldl_push (h : OneByOne valid push loop) (written : ω → List β) (bytes : ε → List β)
    (hpush : ∀ w entry, valid w entry → written (push w entry) = written w ++ bytes entry)
    (hvalid : ∀ e ∈ entries, valid w e) : written (entries.foldl push w) = written w ++ entries.flatMap bytes := by
  induction entries generalizing w with
  | nil => exact (List.append_nil _).symm
  | cons entry entries ih =>
    obtain ⟨hfirst, hrest⟩ := List.forall_mem_cons.mp hvalid
    rw [List.foldl_cons, ih (by rwa [h.keeps w entry hfirst]), hpush w entry hfirst, List.flatMap_cons,
      List.append_assoc]

theorem position_foldl_push (h : OneByOne valid push loop) (position : ω → Nat) (bytes : ε → List β)
    (hpush : ∀ w entry, valid w entry → position (push w entry) = position w + (bytes entry).length)
    (hvalid : ∀ e ∈ entries, valid w e) :
    position (entries.foldl push w) = position w + (entries.flatMap bytes).length := by
  induction entries generalizing w with
  | nil => rfl
  | cons entry entries ih =>
    obtain ⟨hfirst, hrest⟩ := List.forall_mem_cons.mp hvalid
    rw [List.foldl_cons, ih (by rwa [h.keeps w entry hfirst]), hpush w entry hfirst, List.flatMap_cons,
      List.length_append, Nat.add_assoc]

theorem ok_iff (h : OneByOne valid push loop) (w : ω) (entries : List ε) :
    (loop w entries).1 = .ok () ↔ ∀ e ∈ entries, valid w e := by
  induction entries generalizing w with
  | nil =>
    rw [h.done]
    exact ⟨fun _ => nofun, fun _ => rfl⟩
  | cons entry entries ih =>
    rw [List.forall_mem_cons]
    by_cases hvalid : valid w entry
    · rw [h.takes w entry entries hvalid, ih, h.keeps w entry hvalid]
      exact ⟨fun hall => ⟨hvalid, hall⟩, fun hall => hall.2⟩
    · obtain ⟨err, heq⟩ := h.fails w entry entries hvalid
      rw [heq]
      exact ⟨nofun, fun hall => absurd hall.1 hvalid⟩

theorem fails_same (h : OneByOne valid push loop) (hdecides : FirstDecides (valid w) entries)
    (heq : loop w entries = (.error err, w')) : w' = w := by
  cases entries with
  | nil =>
    rw [h.done] at heq
    cases heq
  | cons entry entries =>
    by_cases hvalid : valid w entry
    · have hok := (h.ok_iff w (entry :: entries)).mpr (List.forall_mem_cons.mpr ⟨hvalid, hdecides hvalid⟩)
      rw [heq] at hok
      cases hok
    · obtain ⟨err', hfail⟩ := h.fails w entry entries hvalid
      rw [hfail] at heq
      exact (Prod.mk.inj heq).2.symm

/-- A batch that fails leaves the position, and shows in nothing that is seen after later uses, exactly where its
first entry is the one that is not valid. -/
theorem fails_without_trace_iff {φ : Type} (h : OneByOne valid push loop) (position : ω → Nat) (bytes : ε → List β)
    (hpush : ∀ w entry, valid w entry → position (push w entry) = position w + (bytes entry).length)
    (hbytes : ∀ entry, bytes entry ≠ []) (file : ω → φ) (use : ω → κ → ω) (w : ω) (entries : List ε) :
    (∀ err w', loop w entries = (.error err, w') → position w' = position w ∧
      ∀ uses : List κ, file (uses.foldl use w') = file (uses.foldl use w)) ↔ FirstDecides (valid w) entries := by
  constructor
  · intro htrace
    cases entries with
    | nil => trivial
    | cons entry entries =>
      intro hvalid
      have hpos := List.length_pos_iff.mpr (hbytes entry)
      have hfirst := hpush w entry hvalid
      have hloop := h.takes w entry entries hvalid
      obtain ⟨taken, -, hall, -, hend⟩ := h.taken (push w entry) entries
      have hmoved := h.position_foldl_push position bytes hpush hall
      rw [← h.keeps w entry hvalid, ← h.ok_iff (push w entry) entries]
      cases hresult : (loop (push w entry) entries).1 with
      | ok => rfl
      | error err =>
        have hsame := (htrace err (taken.foldl push (push w entry)) (by rw [hloop, ← hend, ← hresult])).1
        omega
  · intro hdecides err w' heq
    rw [h.fails_same hdecides heq]
    exact ⟨rfl, fun _ => rfl⟩

end OneByOne

end TrenchDb.Lib.Batch
