import Mathlib.Data.List.TakeWhile
import TrenchDb.Rpc.Completion

/-!
# Requests that fail, and the others

Pipelined requests with and without those that fail: `run` returns at the first of them, and answers
no request behind it.
-/

open TrenchDb.Transport

namespace TrenchDb.Rpc

/-! ## Leaving requests out -/

/-- The streams of the requests that fail. -/
def failing (xs : List (UInt32 × Verdict)) : List UInt32 :=
  xs.filterMap fun x => if x.2 = .failed then some x.1 else none

section LeftOut

variable {σ : Type} (b : Envelopes) (a : Actions σ) (store : σ)

/-- The script without the streams whose requests fail. -/
def leftOut (script : List Sent) : List Sent :=
  script.filter fun x => x.streamId ∉ failing (judged b a (requests script) store)

end LeftOut

/-- The answer frames on the socket for one stream. -/
def Service.answersOn {σ : Type} (w : Service σ) (s : UInt32) : List Frame :=
  w.delivered.filter fun f => f.header.streamId = s

/-- Up to the first refused response, at which `run` returns anyway, no request that fails comes before
one whose handler succeeds. -/
def Undisturbed (xs : List (UInt32 × Verdict)) : Prop :=
  (xs.takeWhile fun x => x.2 ≠ .refused).Pairwise fun x y => x.2 = .failed → y.2.succeeds = false

instance (xs : List (UInt32 × Verdict)) : Decidable (Undisturbed xs) := by unfold Undisturbed; infer_instance

variable {σ : Type} {b : Envelopes} {a : Actions σ} {store : σ} {script : List Sent} {stages stages' : UInt32 → Stage}
  {keep : UInt32 → Bool} {xs : List (UInt32 × Verdict)} {s : UInt32}

theorem Pipelined.filter (keep : UInt32 → Bool) (h : Pipelined stages script)
    (hagree : ∀ s, keep s = true → stages' s = stages s) :
    Pipelined stages' (script.filter fun x => keep x.streamId) := by
  have hupdate : ∀ {stages stages' : UInt32 → Stage} {s : UInt32} {stage : Stage},
      (∀ k, keep k = true → stages' k = stages k) →
      ∀ k, keep k = true → Function.update stages' s stage k = Function.update stages s stage k := by
    intro stages stages' s stage hagree k hk
    by_cases hks : k = s
    · subst hks
      simp
    · simp only [Function.update_of_ne hks, hagree k hk]
  have hdropped : ∀ {stages stages' : UInt32 → Stage} {s : UInt32} {stage : Stage}, ¬ keep s = true →
      (∀ k, keep k = true → stages' k = stages k) →
      ∀ k, keep k = true → stages' k = Function.update stages s stage k := by
    intro stages stages' s stage hs hagree k hk
    rw [Function.update_of_ne (by rintro rfl; exact hs hk), hagree k hk]
  induction script generalizing stages stages' with
  | nil => trivial
  | cons x script ih =>
    by_cases hkeep : keep x.streamId = true
    · rw [@List.filter_cons_of_pos _ (fun x : Sent => keep x.streamId) x script hkeep]
      cases x with
      | opens s => exact ⟨h.1, (hagree s hkeep).trans h.2.1, ih h.2.2 (hupdate hagree)⟩
      | request s payload => exact ⟨h.1, (hagree s hkeep).trans h.2.1, ih h.2.2 (hupdate hagree)⟩
      | closes s => exact ⟨(hagree s hkeep).trans h.1, ih h.2 (hupdate hagree)⟩
    · rw [@List.filter_cons_of_neg _ (fun x : Sent => keep x.streamId) x script hkeep]
      cases x with
      | opens s => exact ih h.2.2 (hdropped hkeep hagree)
      | request s payload => exact ih h.2.2 (hdropped hkeep hagree)
      | closes s => exact ih h.2 (hdropped hkeep hagree)

theorem Pipelined.leftOut (h : Pipelined stages script) : Pipelined stages (leftOut b a store script) :=
  Pipelined.filter (fun s => s ∉ failing (judged b a (requests script) store)) h fun _ _ => rfl

theorem requests_filter : requests (script.filter fun x => keep x.streamId) =
    (requests script).filter fun x => keep x.1 := by
  rw [requests, requests, List.filterMap_filter, List.filter_filterMap]
  congr 1
  funext x
  cases x with
  | opens s | closes s => exact ite_self _
  | request s payload => cases hkeep : keep s <;> simp [Sent.request?, Sent.streamId, Option.filter, hkeep]

theorem requests_nodup (h : Pipelined stages script) : ((requests script).map Prod.fst).Nodup ∧
    ∀ s ∈ (requests script).map Prod.fst, stages s = .unopened ∨ stages s = .opened := by
  induction script generalizing stages with
  | nil => exact ⟨List.nodup_nil, nofun⟩
  | cons x script ih =>
    cases x with
    | opens s =>
      obtain ⟨hnodup, hstages⟩ := ih h.2.2
      refine ⟨hnodup, fun k hk => ?_⟩
      by_cases hks : k = s
      · rw [hks]
        exact .inl h.2.1
      · simpa [Function.update_of_ne hks] using hstages k hk
    | request s payload =>
      obtain ⟨hnodup, hstages⟩ := ih h.2.2
      refine ⟨List.nodup_cons.mpr ⟨fun hmem => ?_, hnodup⟩, fun k hk => ?_⟩
      · simpa using hstages s hmem
      · by_cases hks : k = s
        · rw [hks]
          exact .inr h.2.1
        · simpa [Function.update_of_ne hks] using hstages k ((List.mem_cons.mp hk).resolve_left hks)
    | closes s =>
      obtain ⟨hnodup, hstages⟩ := ih h.2
      refine ⟨hnodup, fun k hk => ?_⟩
      by_cases hks : k = s
      · have hclosed := hstages k hk
        simp [hks] at hclosed
      · simpa [Function.update_of_ne hks] using hstages k hk

theorem judged_cons {payload : List UInt8} {rs : List (UInt32 × List UInt8)} :
    judged b a ((s, payload) :: rs) store =
      (s, (judge b a payload store).1) :: judged b a rs (judge b a payload store).2 := rfl

theorem judged_fst (rs : List (UInt32 × List UInt8)) : (judged b a rs store).map Prod.fst = rs.map Prod.fst := by
  induction rs generalizing store with
  | nil => rfl
  | cons x rs ih => rw [judged, List.map_cons, List.map_cons, ih]

theorem judge_failed {payload : List UInt8} (h : (judge b a payload store).1 = .failed) :
    (judge b a payload store).2 = store := by
  unfold judge at h ⊢
  split_ifs at h ⊢
  split at h
  · rfl
  · dsimp only at h
    split_ifs at h

theorem failing_subset : ∀ s ∈ failing xs, s ∈ xs.map Prod.fst := by
  intro s hs
  obtain ⟨x, hx, hxs⟩ := List.mem_filterMap.mp hs
  split_ifs at hxs
  obtain rfl := Option.some.inj hxs
  exact List.mem_map_of_mem hx

theorem failing_cons {v : Verdict} : failing ((s, v) :: xs) = if v = .failed then s :: failing xs else failing xs := by
  unfold failing
  rw [List.filterMap_cons]
  split_ifs <;> rfl

theorem judged_filter {rs : List (UInt32 × List UInt8)} (hnodup : (rs.map Prod.fst).Nodup) :
    judged b a (rs.filter fun x => x.1 ∉ failing (judged b a rs store)) store =
      (judged b a rs store).filter fun x => x.2 ≠ .failed := by
  induction rs generalizing store with
  | nil => rfl
  | cons x rs ih =>
    obtain ⟨s, payload⟩ := x
    obtain ⟨hs, hnodup⟩ := List.nodup_cons.mp hnodup
    have hrest : (rs.filter fun x => x.1 ∉ failing (judged b a ((s, payload) :: rs) store)) =
        rs.filter fun x => x.1 ∉ failing (judged b a rs (judge b a payload store).2) := by
      refine List.filter_congr fun x hx => ?_
      have hne : x.1 ≠ s := by
        intro heq
        rw [← heq] at hs
        exact hs (show x.1 ∈ rs.map Prod.fst from List.mem_map_of_mem hx)
      rw [judged_cons, failing_cons]
      split_ifs <;> simp [hne]
    have hself : s ∈ failing (judged b a ((s, payload) :: rs) store) ↔ (judge b a payload store).1 = .failed := by
      rw [judged_cons, failing_cons]
      split_ifs with hfailed
      · simp [hfailed]
      · refine ⟨fun hmem => absurd (failing_subset s hmem) ?_, fun h => absurd h hfailed⟩
        rwa [judged_fst]
    by_cases hfailed : (judge b a payload store).1 = .failed
    · have hstore := judge_failed hfailed
      rw [List.filter_cons_of_neg (by simpa using hself.mpr hfailed), hrest, judged_cons,
        List.filter_cons_of_neg (by simp [hfailed]), hstore]
      exact ih hnodup
    · rw [List.filter_cons_of_pos (by simpa using fun h => hfailed (hself.mp h)), hrest, judged_cons, ih hnodup,
        judged_cons, List.filter_cons_of_pos (by simp [hfailed])]

/-! ## The answers of the two runs -/

/-- What `run` gets to if nothing fails. -/
def unrefused (xs : List (UInt32 × Verdict)) : List (UInt32 × Verdict) := xs.takeWhile fun x => x.2 ≠ .refused

theorem answersTo_eq (rs : List (UInt32 × List UInt8)) : answersTo b a rs store =
    ((unrefused (judged b a rs store)).takeWhile fun x => x.2 ≠ .failed).flatMap fun x => x.2.frames x.1 := by
  unfold answersTo unrefused
  rw [List.takeWhile_takeWhile]
  congr 2
  funext x
  rcases x with ⟨s, _ | _ | _ | response⟩ <;> rfl

theorem flatMap_frames_filter :
    (xs.filter fun x => x.2 ≠ .failed).flatMap (fun x => x.2.frames x.1) = xs.flatMap fun x => x.2.frames x.1 := by
  induction xs with
  | nil => rfl
  | cons x xs ih =>
    obtain ⟨s, v⟩ := x
    by_cases hv : v = .failed
    · subst hv
      rw [List.filter_cons_of_neg (by simp), ih]
      rfl
    · rw [List.filter_cons_of_pos (by simpa using hv), List.flatMap_cons, List.flatMap_cons, ih]

theorem answersTo_leftOut (hscript : Pipelined stages script) :
    answersTo b a (requests (leftOut b a store script)) store =
      (unrefused (judged b a (requests script) store)).flatMap fun x => x.2.frames x.1 := by
  have hkept := @requests_filter script fun s => s ∉ failing (judged b a (requests script) store)
  unfold leftOut answersTo
  rw [hkept, judged_filter (requests_nodup hscript).1, List.takeWhile_filter, flatMap_frames_filter, unrefused]
  congr 2
  funext x
  rcases x with ⟨s, _ | _ | _ | response⟩ <;> rfl

theorem closeFrame_mem_frames {v : Verdict} (hv : v.succeeds = true) (hne : v ≠ .refused) :
    closeFrame s ∈ v.frames s := by
  cases v with
  | skipped | failed => cases hv
  | refused => exact absurd rfl hne
  | answered response => exact List.mem_append_right _ (List.mem_singleton_self _)

theorem frames_eq_nil {v : Verdict} (hv : v.succeeds = false) : v.frames s = [] := by
  cases v with
  | skipped | failed => rfl
  | refused | answered => cases hv

theorem undisturbed_iff : Undisturbed xs ↔
    ∀ x ∈ (unrefused xs).dropWhile fun x => x.2 ≠ .failed, x.2.succeeds = false := by
  unfold Undisturbed
  rw [show (xs.takeWhile fun x => x.2 ≠ .refused) = unrefused xs from rfl]
  constructor
  · intro h x hx
    have htail := h.sublist (List.dropWhile_sublist fun x => x.2 ≠ .failed)
    cases hdrop : (unrefused xs).dropWhile fun x => x.2 ≠ .failed with
    | nil => rw [hdrop] at hx; cases hx
    | cons y ys =>
      have hfailed : y.2 = .failed := by
        have hne : (unrefused xs).dropWhile (fun x => x.2 ≠ .failed) ≠ [] := hdrop ▸ List.cons_ne_nil _ _
        have hnot := List.head_dropWhile_not (fun x : UInt32 × Verdict => decide (x.2 ≠ .failed)) hne
        simp only [hdrop, List.head_cons] at hnot
        simpa using hnot
      rw [hdrop] at hx htail
      rcases List.mem_cons.mp hx with rfl | hx
      · rw [hfailed]
        rfl
      · exact (List.pairwise_cons.mp htail).1 x hx hfailed
  · intro h
    rw [← List.takeWhile_append_dropWhile (p := fun x : UInt32 × Verdict => decide (x.2 ≠ .failed)) (l := unrefused xs)]
    have hbefore : ∀ x ∈ (unrefused xs).takeWhile (fun x => x.2 ≠ .failed), x.2 ≠ .failed := fun x hx => by
      simpa using List.mem_takeWhile_imp hx
    refine List.pairwise_append.mpr ⟨List.pairwise_of_forall_mem_list fun x hx _ _ hfailed => ?_,
      List.pairwise_of_forall_mem_list fun _ _ y hy _ => h y hy, fun x hx _ _ hfailed => ?_⟩
    · exact absurd hfailed (hbefore x hx)
    · exact absurd hfailed (hbefore x hx)

theorem judged_mem_of_unrefused {x : UInt32 × Verdict}
    (hx : x ∈ (unrefused xs).dropWhile fun x => x.2 ≠ .failed) : x ∈ xs ∧ x.2 ≠ .refused := by
  have hmem := (List.dropWhile_sublist _).subset hx
  exact ⟨(List.takeWhile_sublist _).subset hmem, by simpa using List.mem_takeWhile_imp hmem⟩

theorem answersOn_eq_iff {w w' : Service σ} (hscript : Pipelined (fun _ => .unopened) script)
    (hrun : Completes b a store script w) (hrun' : Completes b a store (leftOut b a store script) w') :
    w.answersOn s = w'.answersOn s ↔
      (((unrefused (judged b a (requests script) store)).dropWhile fun x => x.2 ≠ .failed).flatMap fun x =>
        x.2.frames x.1).filter (fun f => f.header.streamId = s) = [] := by
  rw [Service.answersOn, Service.answersOn, hrun.delivered hscript, hrun'.delivered hscript.leftOut, answersTo_eq,
    answersTo_leftOut hscript]
  generalize unrefused (judged b a (requests script) store) = ys
  conv_lhs =>
    rhs
    rw [← List.takeWhile_append_dropWhile (p := fun x : UInt32 × Verdict => decide (x.2 ≠ .failed)) (l := ys)]
  rw [List.flatMap_append, List.filter_append, eq_comm, List.append_right_eq_self]

/-- A request that fails takes no answer from the others if and only if none of them that succeeds comes
after it. -/
theorem interference {w w' : Service σ} (hscript : Pipelined (fun _ => .unopened) script)
    (hrun : Completes b a store script w) (hrun' : Completes b a store (leftOut b a store script) w') :
    (∀ x ∈ judged b a (requests script) store, x.2.succeeds = true → w.answersOn x.1 = w'.answersOn x.1) ↔
      Undisturbed (judged b a (requests script) store) := by
  rw [undisturbed_iff]
  constructor
  · intro h x hx
    obtain ⟨hmem, hunrefused⟩ := judged_mem_of_unrefused hx
    by_contra hne
    have hsucceeds : x.2.succeeds = true := by simpa using hne
    have hnone := (answersOn_eq_iff hscript hrun hrun').mp (h x hmem hsucceeds)
    have hclose : closeFrame x.1 ∈ ((unrefused (judged b a (requests script) store)).dropWhile fun x =>
        x.2 ≠ .failed).flatMap fun x => x.2.frames x.1 :=
      List.mem_flatMap.mpr ⟨x, hx, closeFrame_mem_frames hsucceeds hunrefused⟩
    exact List.filter_eq_nil_iff.mp hnone _ hclose (by simp)
  · intro h x hx hsucceeds
    refine (answersOn_eq_iff hscript hrun hrun').mpr ?_
    rw [List.flatMap_eq_nil_iff.mpr fun y hy => frames_eq_nil (h y hy), List.filter_nil]

/-- A request that succeeds, and after it one that cannot be decoded. -/
def late : List Sent :=
  [.opens 1, .opens 3, .request 1 (prefixed.request.byteSerialize ping), .request 3 [0]]

theorem late_pipelined : Pipelined (fun _ => .unopened) late := by
  simp only [late, Pipelined]
  decide +kernel

theorem interference_late : ∃ w w', Completes prefixed echo () late w ∧
    Completes prefixed echo () (leftOut prefixed echo () late) w' ∧
    ∀ x ∈ judged prefixed echo (requests late) (), x.2.succeeds = true → w.answersOn x.1 = w'.answersOn x.1 := by
  obtain ⟨w, hrun⟩ := Completes.exists prefixed echo () late_pipelined
  obtain ⟨w', hrun'⟩ := Completes.exists prefixed echo () late_pipelined.leftOut
  exact ⟨w, w', hrun, hrun', (interference late_pipelined hrun hrun').mpr (by decide +kernel)⟩

/-- The request that cannot be decoded comes first. -/
def early : List Sent :=
  [.opens 1, .opens 3, .request 1 [0], .request 3 (prefixed.request.byteSerialize ping)]

/-- With it the other request is not answered, and without it is. -/
theorem interfered : ¬ ∀ (b : Envelopes) (a : Actions Unit) (script : List Sent) (w w' : Service Unit), b.RoundTrip →
    Pipelined (fun _ => .unopened) script → Completes b a () script w → Completes b a () (leftOut b a () script) w' →
    ∀ x ∈ judged b a (requests script) (), x.2.succeeds = true → w.answersOn x.1 = w'.answersOn x.1 := by
  intro h
  have hearly : Pipelined (fun _ => .unopened) early := by
    simp only [early, Pipelined]
    decide +kernel
  obtain ⟨w, hrun⟩ := Completes.exists prefixed echo () hearly
  obtain ⟨w', hrun'⟩ := Completes.exists prefixed echo () hearly.leftOut
  have hsame := h prefixed echo early w w' prefixed_roundTrip hearly hrun hrun'
    (3, .answered (prefixed.response.byteSerialize pong)) (by decide +kernel) rfl
  rw [Service.answersOn, Service.answersOn, hrun.delivered hearly, hrun'.delivered hearly.leftOut] at hsame
  revert hsame
  decide +kernel

end TrenchDb.Rpc
