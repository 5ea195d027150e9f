import Mathlib.Data.List.Nodup

/-!
# A list that follows another

Items join a first list, and wait. Later they stop waiting, and then they may join a second list. If none
stops before one that is ahead of it, the second list keeps the order of the first.
-/

namespace TrenchDb.Lib.Follow

variable {α : Type}

/-- Those who wait come last, and `log` has some of the others in their order. -/
def Follows (waiting : α → Prop) (changes log : List α) : Prop :=
  ∃ settled rest, changes = settled ++ rest ∧ (∀ i ∈ settled, ¬ waiting i) ∧ (∀ i ∈ rest, waiting i) ∧
    log.Sublist settled

variable {waiting waiting' : α → Prop} {changes log log' : List α} {i : α}

theorem Follows.sublist (h : Follows waiting changes log) : log.Sublist changes := by
  obtain ⟨settled, rest, rfl, -, -, hlog⟩ := h
  exact hlog.trans (List.sublist_append_left settled rest)

theorem follows_nil : Follows waiting [] [] := ⟨[], [], rfl, by simp, by simp, .slnil⟩

theorem Follows.congr (h : Follows waiting changes log) (hsame : ∀ i ∈ changes, waiting' i ↔ waiting i) :
    Follows waiting' changes log := by
  obtain ⟨settled, rest, rfl, hsettled, hrest, hlog⟩ := h
  refine ⟨settled, rest, rfl, fun i hi => ?_, fun i hi => ?_, hlog⟩
  · rw [hsame i (List.mem_append_left rest hi)]
    exact hsettled i hi
  · exact (hsame i (List.mem_append_right settled hi)).mpr (hrest i hi)

theorem Follows.forget (h : Follows waiting changes log) (hlog : log'.Sublist log) : Follows waiting changes log' := by
  obtain ⟨settled, rest, hchanges, hsettled, hrest, hsub⟩ := h
  exact ⟨settled, rest, hchanges, hsettled, hrest, hlog.trans hsub⟩

theorem Follows.join (h : Follows waiting changes log) (hi : waiting i) : Follows waiting (changes ++ [i]) log := by
  obtain ⟨settled, rest, rfl, hsettled, hrest, hlog⟩ := h
  refine ⟨settled, rest ++ [i], List.append_assoc .., hsettled, fun j hj => ?_, hlog⟩
  rcases List.mem_append.mp hj with hj | hj
  · exact hrest j hj
  · obtain rfl := List.mem_singleton.mp hj
    exact hi

theorem Follows.settle (h : Follows waiting changes log) (hnodup : changes.Nodup) (hi : i ∈ changes)
    (hwaits : waiting i)
    (hfirst : ∀ j, [j, i].Sublist changes → ¬ waiting j) (hstops : ∀ j, waiting' j ↔ waiting j ∧ j ≠ i) :
    Follows waiting' changes (log ++ [i]) := by
  obtain ⟨settled, rest, rfl, hsettled, hrest, hlog⟩ := h
  have hmem : i ∈ rest := (List.mem_append.mp hi).resolve_left fun hi => hsettled i hi hwaits
  obtain ⟨ahead, later, rfl⟩ := List.append_of_mem hmem
  have hahead : ahead = [] := by
    refine List.eq_nil_iff_forall_not_mem.mpr fun j hj => hfirst j ?_ (hrest j (List.mem_append_left _ hj))
    have hpair : [j, i].Sublist (ahead ++ i :: later) :=
      (List.singleton_sublist.mpr hj).append (List.singleton_sublist.mpr List.mem_cons_self)
    exact hpair.trans (List.sublist_append_right settled _)
  subst hahead
  have hlater : i ∉ later := (List.nodup_cons.mp hnodup.of_append_right).1
  refine ⟨settled ++ [i], later, by simp, fun j hj => ?_, fun j hj => ?_, hlog.append (.refl [i])⟩
  · rw [hstops]
    rintro ⟨hj', hne⟩
    rcases List.mem_append.mp hj with hj | hj
    · exact hsettled j hj hj'
    · exact hne (List.mem_singleton.mp hj)
  · exact (hstops j).mpr ⟨hrest j (by simp [hj]), fun heq => hlater (heq ▸ hj)⟩

end TrenchDb.Lib.Follow
