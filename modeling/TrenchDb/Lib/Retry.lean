import Mathlib.Logic.Basic

/-!
# Trying again

A loop that tries an operation a bounded number of times, with a pause after each failure but
the last. A try may also end the loop with an error of its own.
-/

namespace TrenchDb.Lib

/-- What a try comes to. -/
inductive Attempt (ε α : Type) where
  | stop (result : Except ε α)
  | again (error : ε)

namespace Retry

variable {σ ε α : Type}

/-- The tries that are left, with the last error so far. -/
def tries (op : Nat → σ → Attempt ε α × σ) (pause : Nat → σ → σ) (maxRetries : Nat) (fallback : ε) :
    List Nat → Option ε → σ → Except ε α × σ
  | [], last, s => (.error (last.getD fallback), s)
  | attempt :: rest, _, s =>
    match op attempt s with
    | (.stop result, s) => (result, s)
    | (.again e, s) =>
      tries op pause maxRetries fallback rest (some e) (if attempt < maxRetries then pause attempt s else s)

/-- `for attempt in 0..=max_retries`. -/
def retry (op : Nat → σ → Attempt ε α × σ) (pause : Nat → σ → σ) (maxRetries : Nat) (fallback : ε) (s : σ) :
    Except ε α × σ :=
  tries op pause maxRetries fallback (List.range (maxRetries + 1)) none s

/-- The loop comes to its try `n` in the state `t`. -/
inductive Reaches (op : Nat → σ → Attempt ε α × σ) (pause : Nat → σ → σ) (maxRetries : Nat) (s : σ) : Nat → σ → Prop
  | start : Reaches op pause maxRetries s 0 s
  | next {n : Nat} {t u : σ} {e : ε} : Reaches op pause maxRetries s n t → op n t = (.again e, u) → n < maxRetries →
      Reaches op pause maxRetries s (n + 1) (pause n u)

variable {op : Nat → σ → Attempt ε α × σ} {pause : Nat → σ → σ} {maxRetries n : Nat} {fallback : ε} {s t : σ}
  {result : Except ε α}

theorem Reaches.invariant {P : Nat → σ → Prop} (h : Reaches op pause maxRetries s n t) (h0 : P 0 s)
    (hstep : ∀ n t u e, P n t → n < maxRetries → op n t = (.again e, u) → P (n + 1) (pause n u)) : P n t := by
  induction h with
  | start => exact h0
  | next _ hop hlt ih => exact hstep _ _ _ _ ih hlt hop

theorem Reaches.le (h : Reaches op pause maxRetries s n t) : n ≤ maxRetries := by
  cases h with
  | start => exact Nat.zero_le _
  | next _ _ hlt => exact hlt

/-- How the loop ends: a try stops it, or the last try fails. -/
inductive Ended (op : Nat → σ → Attempt ε α × σ) (pause : Nat → σ → σ) (maxRetries : Nat) (s : σ) :
    Except ε α → σ → Prop
  | stopped {n : Nat} {t u : σ} {result : Except ε α} : Reaches op pause maxRetries s n t →
      op n t = (.stop result, u) → Ended op pause maxRetries s result u
  | exhausted {t u : σ} {e : ε} : Reaches op pause maxRetries s maxRetries t →
      op maxRetries t = (.again e, u) → Ended op pause maxRetries s (.error e) u

theorem tries_ended {k : Nat} (hk : n + k = maxRetries) (h : Reaches op pause maxRetries s n t) (last : Option ε) :
    Ended op pause maxRetries s (tries op pause maxRetries fallback (List.range' n (k + 1)) last t).1
      (tries op pause maxRetries fallback (List.range' n (k + 1)) last t).2 := by
  induction k generalizing n t last with
  | zero =>
    obtain rfl : n = maxRetries := hk
    rw [List.range'_succ, tries]
    rcases hop : op n t with ⟨result | e, u⟩
    · exact .stopped h hop
    · simp only [Nat.lt_irrefl, if_false, List.range'_zero, tries, Option.getD_some]
      exact .exhausted h hop
  | succ k ih =>
    rw [List.range'_succ, tries]
    rcases hop : op n t with ⟨result | e, u⟩
    · exact .stopped h hop
    · have hlt : n < maxRetries := by omega
      simp only [if_pos hlt]
      exact ih (by omega) (h.next hop hlt) (some e)

/-- The fallback is never used: there is at least one try. -/
theorem retry_ended (op : Nat → σ → Attempt ε α × σ) (pause : Nat → σ → σ) (maxRetries : Nat) (fallback : ε) (s : σ) :
    Ended op pause maxRetries s (retry op pause maxRetries fallback s).1
      (retry op pause maxRetries fallback s).2 := by
  rw [retry, List.range_eq_range']
  exact tries_ended (Nat.zero_add _) .start none

theorem retry_first {u : σ} (h : op 0 s = (.stop result, u)) :
    retry op pause maxRetries fallback s = (result, u) := by
  rw [retry, List.range_succ_eq_map, tries, h]

end Retry

end TrenchDb.Lib
