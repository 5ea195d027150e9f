import Mathlib.Logic.Function.Basic
import TrenchDb.Lib.Lts

/-!
# Deterministic processes joined by channels

Each process either emits messages or waits for the next message of its channel, and a channel
has one sender. In whatever order the processes move, each goes through the same local states,
and if one order comes to an end, every order does.
-/

open TrenchDb.Lib.Lts

namespace TrenchDb.Lib.Channels

/-- What a process does next. `get` may refuse a message; then the process stops. -/
inductive Move (σ μ : Type) where
  | put (outs : List μ) (next : σ)
  | get (next : μ → Option (List μ × σ))
  | halt

/-- A process, with all it has sent and the number of messages it has taken. -/
structure Node (σ μ : Type) where
  state : σ
  sent : List μ
  taken : Nat

namespace Node

variable {σ μ : Type} {move : σ → Move σ μ} {script script' : List μ} {n n' n'' : Node σ μ}

/-- One move against all that the other end of the channel has sent so far. -/
def step (move : σ → Move σ μ) (script : List μ) (n : Node σ μ) : Option (Node σ μ) :=
  match move n.state with
  | .put outs s => some ⟨s, n.sent ++ outs, n.taken⟩
  | .get next =>
    match script.drop n.taken with
    | [] => none
    | m :: _ => (next m).map fun o => ⟨o.2, n.sent ++ o.1, n.taken + 1⟩
  | .halt => none

theorem step_put {outs : List μ} {s : σ} (h : move n.state = .put outs s) :
    n.step move script = some ⟨s, n.sent ++ outs, n.taken⟩ := by
  rw [step, h]

theorem step_get {next : μ → Option (List μ × σ)} {m : μ} {rest outs : List μ} {s : σ}
    (h : move n.state = .get next) (hm : script.drop n.taken = m :: rest) (hs : next m = some (outs, s)) :
    n.step move script = some ⟨s, n.sent ++ outs, n.taken + 1⟩ := by
  simp only [step, h, hm, hs, Option.map_some]

theorem step_halt (h : move n.state = .halt) : n.step move script = none := by
  rw [step, h]

theorem step_cases (h : n.step move script = some n') :
    (∃ outs, move n.state = .put outs n'.state ∧ n'.sent = n.sent ++ outs ∧ n'.taken = n.taken) ∨
    ∃ next m rest outs, move n.state = .get next ∧ script.drop n.taken = m :: rest ∧
      next m = some (outs, n'.state) ∧ n'.sent = n.sent ++ outs ∧ n'.taken = n.taken + 1 := by
  unfold step at h
  split at h
  next outs s hmove =>
    obtain rfl := Option.some.inj h
    exact .inl ⟨outs, hmove, rfl, rfl⟩
  next next hmove =>
    split at h
    · cases h
    next m rest hdrop =>
      obtain ⟨⟨outs, s⟩, hnext, rfl⟩ := Option.map_eq_some_iff.mp h
      exact .inr ⟨next, m, rest, outs, hmove, hdrop, hnext, rfl, rfl⟩
  · cases h

theorem sent_prefix (h : n.step move script = some n') : n.sent <+: n'.sent := by
  rcases step_cases h with ⟨outs, -, hsent, -⟩ | ⟨_, _, _, outs, -, -, -, hsent, -⟩
  · exact ⟨outs, hsent.symm⟩
  · exact ⟨outs, hsent.symm⟩

theorem step_mono (h : n.step move script = some n') (hle : script <+: script') :
    n.step move script' = some n' := by
  obtain ⟨more, rfl⟩ := hle
  rcases step_cases h with ⟨outs, hmove, hsent, htaken⟩ | ⟨next, m, rest, outs, hmove, hdrop, hnext, hsent, htaken⟩
  · rw [step_put hmove, ← hsent, ← htaken]
  · have hlt : n.taken < script.length := by
      by_contra hge
      rw [List.drop_of_length_le (Nat.not_lt.mp hge)] at hdrop
      cases hdrop
    have hdrop' : (script ++ more).drop n.taken = m :: (rest ++ more) := by
      rw [List.drop_append_of_le_length (Nat.le_of_lt hlt), hdrop, List.cons_append]
    rw [step_get hmove hdrop' hnext, ← hsent, ← htaken]

/-- Moves of one process alone, against a fixed script, through nodes with `P`. -/
inductive Path (move : σ → Move σ μ) (script : List μ) (P : Node σ μ → Prop) : Node σ μ → Node σ μ → Prop
  | refl {n : Node σ μ} : P n → Path move script P n n
  | head {n n' n'' : Node σ μ} : P n → n.step move script = some n' → Path move script P n' n'' →
      Path move script P n n''

end Node

/-! ## Networks -/

variable {ι : Type} {σ : ι → Type} {μ : Type}

/-- Process `i` reads what process `source i` sends. -/
structure Network (ι : Type) (σ : ι → Type) (μ : Type) where
  move : ∀ i, σ i → Move (σ i) μ
  source : ι → ι

abbrev Config (σ : ι → Type) (μ : Type) := ∀ i, Node (σ i) μ

variable [DecidableEq ι] {N : Network ι σ μ} {c c' d f : Config σ μ} {i j : ι}

namespace Network

/-- Process `i` makes a move. -/
def Step (N : Network ι σ μ) (c : Config σ μ) (i : ι) (c' : Config σ μ) : Prop :=
  ∃ n, (c i).step (N.move i) (c (N.source i)).sent = some n ∧ c' = Function.update c i n

def Terminal (N : Network ι σ μ) (c : Config σ μ) : Prop := ∀ i c', ¬ N.Step c i c'

theorem Step.det (h : N.Step c i c') (h' : N.Step c i d) : c' = d := by
  obtain ⟨n, hn, rfl⟩ := h
  obtain ⟨n', hn', rfl⟩ := h'
  rw [Option.some.inj (hn.symm.trans hn')]

theorem Step.same (h : N.Step c i c') (hij : j ≠ i) : c' j = c j := by
  obtain ⟨n, -, rfl⟩ := h
  exact Function.update_of_ne hij _ _

theorem Step.sent_prefix (h : N.Step c i c') (j : ι) : (c j).sent <+: (c' j).sent := by
  by_cases hij : j = i
  · obtain ⟨n, hn, rfl⟩ := h
    subst hij
    rw [Function.update_self]
    exact Node.sent_prefix hn
  · exact h.same hij ▸ List.prefix_rfl

theorem Step.diamond (h : N.Step c i c') (h' : N.Step c j d) (hij : i ≠ j) :
    ∃ e, N.Step c' j e ∧ N.Step d i e := by
  obtain ⟨n, hn, hc'⟩ := id h
  obtain ⟨n', hn', hd⟩ := id h'
  refine ⟨Function.update c' j n', ⟨n', ?_, rfl⟩, ⟨n, ?_, ?_⟩⟩
  · rw [h.same hij.symm]
    exact Node.step_mono hn' (h.sent_prefix _)
  · rw [h'.same hij]
    exact Node.step_mono hn (h'.sent_prefix _)
  · rw [hc', hd, Function.update_comm hij]

/-! ## One order stands for all -/

/-- `k` moves lead from `c` to `d`, and every process has `P` all the way. -/
inductive Path (N : Network ι σ μ) (P : ∀ i, Node (σ i) μ → Prop) : Nat → Config σ μ → Config σ μ → Prop
  | refl {c : Config σ μ} : (∀ i, P i (c i)) → Path N P 0 c c
  | head {k : Nat} {c c' d : Config σ μ} {i : ι} : (∀ i, P i (c i)) → N.Step c i c' → Path N P k c' d →
      Path N P (k + 1) c d

variable {P : ∀ i, Node (σ i) μ → Prop} {k k' : Nat}

theorem Path.start (h : N.Path P k c d) (i : ι) : P i (c i) := by
  cases h with
  | refl hc => exact hc i
  | head hc _ _ => exact hc i

theorem Path.trans (h : N.Path P k c d) (h' : N.Path P k' d f) : N.Path P (k' + k) c f := by
  induction h with
  | refl => exact h'
  | head hc hstep _ ih => exact .head hc hstep (ih h')

theorem Path.mono {Q : ∀ i, Node (σ i) μ → Prop} (h : N.Path P k c d) (hle : ∀ i n, P i n → Q i n) :
    N.Path Q k c d := by
  induction h with
  | refl hc => exact .refl fun i => hle i _ (hc i)
  | head hc hstep _ ih => exact .head (fun i => hle i _ (hc i)) hstep ih

theorem Path.strip (h : N.Path P k c f) (hf : N.Terminal f) (hstep : N.Step c j d) :
    ∃ k', k = k' + 1 ∧ N.Path P k' d f := by
  induction h generalizing d with
  | refl => exact absurd hstep (hf j d)
  | @head k c c' f i hc hmove hpath ih =>
    by_cases hij : i = j
    · subst hij
      exact ⟨k, rfl, hmove.det hstep ▸ hpath⟩
    · obtain ⟨e, hce, hde⟩ := hmove.diamond hstep hij
      obtain ⟨k', rfl, hrest⟩ := ih hf hce
      refine ⟨k' + 1, rfl, .head (fun l => ?_) hde hrest⟩
      by_cases hl : l = j
      · subst hl
        rw [← hde.same (Ne.symm hij)]
        exact hrest.start l
      · rw [hstep.same hl]
        exact hc l

theorem Path.sent_prefix (h : N.Path P k c d) (i : ι) : (c i).sent <+: (d i).sent := by
  induction h with
  | refl => exact List.prefix_rfl
  | head _ hstep _ ih => exact (hstep.sent_prefix i).trans ih

theorem Path.sent_within (h : N.Path P k c d) : N.Path (fun i n => P i n ∧ n.sent <+: (d i).sent) k c d := by
  induction h with
  | refl hc => exact .refl fun i => ⟨hc i, List.prefix_rfl⟩
  | head hc hstep hrest ih => exact .head (fun i => ⟨hc i, (hstep.sent_prefix i).trans (hrest.sent_prefix i)⟩) hstep ih

theorem Path.stuck (h : N.Path P k c d)
    (hi : ∀ script, (c (N.source i)).sent <+: script → (c i).step (N.move i) script = none) : d i = c i := by
  induction h with
  | refl => rfl
  | @head k c c' d j _ hstep _ ih =>
    have hsame : c' i = c i := by
      refine hstep.same ?_
      rintro rfl
      obtain ⟨n, hn, -⟩ := hstep
      rw [hi _ List.prefix_rfl] at hn
      cases hn
    rw [ih (fun script hle => by rw [hsame]; exact hi script ((hstep.sent_prefix _).trans hle)), hsame]

theorem path_of_node {n n' : Node (σ i) μ} (h : Node.Path (N.move i) (c (N.source i)).sent (P i) n n')
    (hsource : N.source i ≠ i) (hc : ∀ j, j ≠ i → P j (c j)) (hn : c i = n) :
    ∃ k, N.Path P k c (Function.update c i n') := by
  generalize hs : (c (N.source i)).sent = script at h
  have hall : ∀ {c : Config σ μ}, (∀ j, j ≠ i → P j (c j)) → P i (c i) → ∀ j, P j (c j) := by
    intro c hc hi j
    by_cases hj : j = i
    · exact hj ▸ hi
    · exact hc j hj
  induction h generalizing c with
  | refl hp =>
    subst hn
    rw [Function.update_eq_self]
    exact ⟨0, .refl (hall hc hp)⟩
  | @head n m n' hp hstep _ ih =>
    have hmove : N.Step c i (Function.update c i m) := ⟨m, by rw [hs, hn]; exact hstep, rfl⟩
    obtain ⟨k, hk⟩ := ih (c := Function.update c i m) (fun j hj => by rw [hmove.same hj]; exact hc j hj)
      (Function.update_self _ _ _) (by rw [hmove.same hsource, hs])
    rw [Function.update_idem] at hk
    exact ⟨k + 1, .head (hall hc (hn ▸ hp)) hmove hk⟩

end Network

end TrenchDb.Lib.Channels
