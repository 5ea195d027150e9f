/-!
# Programs that stop

A program runs on a state. It returns a value, or it stops at one of its operations, and the state stays
as it then is. A specification says what holds where the program returns and what holds where it stops.
-/

namespace TrenchDb.Lib

def Stopping (σ ε α : Type) : Type := σ → Except ε α × σ

namespace Stopping

variable {σ ε α β : Type}

instance : Monad (Stopping σ ε) where
  pure a := fun s => (.ok a, s)
  bind p f := fun s => match p s with
    | (.ok a, t) => f a t
    | (.error e, t) => (.error e, t)

def stop (e : ε) : Stopping σ ε α := fun s => (.error e, s)

/-- A value that is there without the state. -/
def of (r : Except ε α) : Stopping σ ε α := fun s => (r, s)

/-- What the state says, which stays as it is. -/
def look (f : σ → α) : Stopping σ ε α := fun s => (.ok (f s), s)

def mapError (g : ε → ε) (p : Stopping σ ε α) : Stopping σ ε α := fun s => ((p s).1.mapError g, (p s).2)

/-! ## Specifications -/

/-- Where `p` returns, `Q` holds of the value and the state. Where it stops, `E` holds of the state. -/
def Ends (p : Stopping σ ε α) (Q : α → σ → Prop) (E : σ → Prop) (s : σ) : Prop :=
  match p s with
  | (.ok a, t) => Q a t
  | (.error _, t) => E t

variable {p : Stopping σ ε α} {f : α → Stopping σ ε β} {Q Q' : α → σ → Prop} {R : β → σ → Prop} {E E' : σ → Prop}
  {s : σ} {a : α} {e : ε}

@[simp] theorem ends_pure : Ends (pure a : Stopping σ ε α) Q E = Q a := rfl

@[simp] theorem ends_look {g : σ → α} : Ends (look g : Stopping σ ε α) Q E = fun s => Q (g s) s := rfl

@[simp] theorem ends_of {r : Except ε α} :
    Ends (of r) Q E = fun s => (∀ a, r = .ok a → Q a s) ∧ (∀ e, r = .error e → E s) := by
  funext s
  cases r with
  | ok a => simp [Ends, of]
  | error e => simp [Ends, of]

@[simp] theorem ends_bind : Ends (p >>= f) R E = Ends p (fun a => Ends (f a) R E) E := by
  funext s
  show (match (match p s with | (.ok a, t) => f a t | (.error e, t) => (.error e, t)) with
    | (.ok b, t) => R b t
    | (.error _, t) => E t) = _
  unfold Ends
  rcases p s with ⟨_ | _, _⟩ <;> rfl

@[simp] theorem ends_mapError {g : ε → ε} : Ends (mapError g p) Q E = Ends p Q E := by
  funext s
  unfold Ends mapError
  rcases p s with ⟨_ | _, _⟩ <;> rfl

theorem Ends.mono (h : Ends p Q E s) (hQ : ∀ a t, Q a t → Q' a t) (hE : ∀ t, E t → E' t) : Ends p Q' E' s := by
  unfold Ends at h ⊢
  split at h
  · exact hQ _ _ h
  · exact hE _ h

theorem Ends.and (h : Ends p Q E s) (h' : Ends p Q' E' s) :
    Ends p (fun a t => Q a t ∧ Q' a t) (fun t => E t ∧ E' t) s := by
  unfold Ends at h h' ⊢
  split at h <;> exact ⟨h, by simp_all⟩

theorem Ends.eq_ok {b : α} (h : Ends p (fun a _ => a = b) (fun _ => False) s) : (p s).1 = .ok b := by
  unfold Ends at h
  split at h
  next heq => rw [heq, h]
  · exact h.elim

theorem Ends.ok (h : Ends p Q E s) (heq : (p s).1 = .ok a) : Q a (p s).2 := by
  unfold Ends at h
  split at h <;> simp_all

theorem Ends.stopped (h : Ends p Q E s) (heq : (p s).1 = .error e) : E (p s).2 := by
  unfold Ends at h
  split at h <;> simp_all

theorem Ends.state {P : σ → Prop} (h : Ends p (fun _ => P) P s) : P (p s).2 := by
  unfold Ends at h
  split at h <;> simp_all

/-! ## Checks before effects -/

/-- A change of the state, with what it returns. -/
def act (f : σ → α × σ) : Stopping σ ε α := fun s => (.ok (f s).1, (f s).2)

/-- The state stays as it is. -/
def Reads (p : Stopping σ ε α) : Prop := ∀ s, (p s).2 = s

/-- The program does not stop. -/
def Returns (p : Stopping σ ε α) : Prop := ∀ s, ∃ a, (p s).1 = .ok a

/-- Where the program stops, the state is as it was. -/
def Clean (p : Stopping σ ε α) : Prop := ∀ s e t, p s = (.error e, t) → t = s

theorem bind_eq (p : Stopping σ ε α) (f : α → Stopping σ ε β) (s : σ) :
    (p >>= f) s = match p s with
      | (.ok a, t) => f a t
      | (.error e, t) => (.error e, t) := rfl

theorem reads_of (r : Except ε α) : Reads (σ := σ) (of r) := fun _ => rfl

theorem reads_look (f : σ → α) : Reads (ε := ε) (look f) := fun _ => rfl

theorem returns_pure (a : α) : Returns (pure a : Stopping σ ε α) := fun _ => ⟨a, rfl⟩

theorem returns_act (f : σ → α × σ) : Returns (act f : Stopping σ ε α) := fun s => ⟨(f s).1, rfl⟩

theorem Returns.bind (hp : Returns p) (hf : ∀ a, Returns (f a)) : Returns (p >>= f) := by
  intro s
  obtain ⟨a, ha⟩ := hp s
  rcases heq : p s with ⟨result, t⟩
  rw [heq] at ha
  obtain rfl : result = .ok a := ha
  obtain ⟨b, hb⟩ := hf a t
  exact ⟨b, by rw [bind_eq, heq]; exact hb⟩

theorem Reads.clean (h : Reads p) : Clean p := by
  intro s e t heq
  have hstate := h s
  rw [heq] at hstate
  exact hstate

theorem Returns.clean (h : Returns p) : Clean p := by
  intro s e t heq
  obtain ⟨a, ha⟩ := h s
  rw [heq] at ha
  cases ha

theorem Clean.bind (hp : Reads p) (hf : ∀ a, Clean (f a)) : Clean (p >>= f) := by
  intro s e t heq
  have hstate := hp s
  rw [bind_eq] at heq
  rcases hps : p s with ⟨_ | a, u⟩
  · rw [hps] at heq hstate
    exact (Prod.mk.inj heq).2.symm.trans hstate
  · rw [hps] at heq hstate
    obtain rfl : u = s := hstate
    exact hf a u e t heq

end Stopping

end TrenchDb.Lib
