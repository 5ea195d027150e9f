import TrenchDb.Storage.Concurrent
import TrenchDb.Storage.Events

/-!
# Calls and the log

The calls on a store together with the supervisor that their events go to, and its runner. A change and
its event are two steps, and the runner is a third party.
-/

open TrenchDb.Lib.Lts TrenchDb.Rpc TrenchDb.Transport

namespace TrenchDb.Storage

/-- The change of a call whose event is not yet published. -/
def Phase.pending : Phase → Option Request
  | .changed r => some r
  | _ => none

def Calls.pending (w : Calls) (i : Nat) : Option Request := ((w.calls[i]?).map Call.phase).bind Phase.pending

structure World where
  calls : Calls
  supervisor : EventLoopSupervisor
  /-- The calls that changed a collection, in the order of the changes. -/
  changes : List Nat
  /-- The calls whose event the supervisor refused. -/
  lost : List Nat

inductive Event
  | invoke (request : RequestEnvelope)
  | op (call : Nat)
  | publish (call : Nat) (spawns : Bool)
  | turn

namespace World

variable (c : Codecs)

/-- A new supervisor, for a store that may hold something already. -/
def initial (h : Heap) (spawns : Bool) : World :=
  { calls := .initial h, supervisor := .start spawns, changes := [], lost := [] }

/-- The supervisor after an event of call `i`, and whether the event is lost. -/
def published (w : World) (i : Nat) (payload : List UInt8) (spawns : Bool) : EventLoopSupervisor × List Nat :=
  match w.supervisor.push { id := i, payload } spawns with
  | (.ok _, supervisor) => (supervisor, w.lost)
  | (.error _, supervisor) => (supervisor, w.lost ++ [i])

def next (w : World) : Event → Option World
  | .invoke request => do
    let calls ← w.calls.next c (.invoke request)
    return { w with calls }
  | .op i => do
    let calls ← w.calls.next c (.op i)
    return { w with calls, changes := if (calls.pending i).isSome then w.changes ++ [i] else w.changes }
  | .publish i spawns => do
    let r ← w.calls.pending i
    let payload ← r.event?
    let calls ← w.calls.next c (.publish i)
    return { w with
      calls
      supervisor := (w.published i payload spawns).1
      lost := (w.published i payload spawns).2 }
  | .turn => do
    let supervisor ← w.supervisor.turn
    return { w with supervisor }

def Step (w : World) (e : Event) (w' : World) : Prop := w.next c e = some w'

variable {c} {w w' : World} {e : Event} {i : Nat} {payload : List UInt8} {spawns : Bool}

theorem published_refused (h : w.supervisor.Refuses spawns) : (w.published i payload spawns).2 = w.lost ++ [i] ∧
    (w.published i payload spawns).1.entries = w.supervisor.entries ∧
    (w.published i payload spawns).1.inflight = w.supervisor.inflight := by
  obtain ⟨⟨error, herror⟩, hkept⟩ := @EventLoopSupervisor.push_refused w.supervisor { id := i, payload } spawns h
  unfold published
  rcases hpush : w.supervisor.push { id := i, payload } spawns with ⟨_ | _, supervisor⟩ <;> rw [hpush] at herror hkept
  · exact ⟨rfl, hkept⟩
  · cases herror

theorem published_accepted (h : ¬ w.supervisor.Refuses spawns) : (w.published i payload spawns).2 = w.lost ∧
    (w.published i payload spawns).1.entries = w.supervisor.entries ++ [(i, walEntry payload)] ∧
    (w.published i payload spawns).1.inflight = w.supervisor.inflight ++ [{ id := i, payload }] := by
  obtain ⟨hok, hmore⟩ := @EventLoopSupervisor.push_accepted w.supervisor { id := i, payload } spawns h
  unfold published
  rcases hpush : w.supervisor.push { id := i, payload } spawns with ⟨_ | _, supervisor⟩ <;> rw [hpush] at hok hmore
  · cases hok
  · exact ⟨rfl, hmore⟩

theorem pending_eq {r : Request} (hr : w.calls.pending i = some r) :
    ∃ call, w.calls.calls[i]? = some call ∧ call.phase = .changed r := by
  obtain ⟨phase, hphase, hpending⟩ := Option.bind_eq_some_iff.mp hr
  obtain ⟨call, hcall, rfl⟩ := Option.map_eq_some_iff.mp hphase
  refine ⟨call, hcall, ?_⟩
  cases hp : call.phase with
  | changed r' =>
    rw [hp] at hpending
    exact congrArg Phase.changed (Option.some.inj hpending)
  | _ => rw [hp] at hpending; cases hpending

theorem next_cases (h : w.next c e = some w') :
    (∃ request calls, e = .invoke request ∧ w.calls.next c (.invoke request) = some calls ∧ w' = { w with calls }) ∨
    (∃ i calls, e = .op i ∧ w.calls.next c (.op i) = some calls ∧
      w' = { w with calls, changes := if (calls.pending i).isSome then w.changes ++ [i] else w.changes }) ∨
    (∃ i spawns r payload calls, e = .publish i spawns ∧ w.calls.pending i = some r ∧ r.event? = some payload ∧
      w.calls.next c (.publish i) = some calls ∧
      w' = { w with calls, supervisor := (w.published i payload spawns).1, lost := (w.published i payload spawns).2 }) ∨
    (∃ supervisor, e = .turn ∧ w.supervisor.turn = some supervisor ∧ w' = { w with supervisor }) := by
  unfold next at h
  cases e with
  | invoke request =>
    obtain ⟨calls, hcalls, h⟩ := Option.bind_eq_some_iff.mp h
    exact .inl ⟨request, calls, rfl, hcalls, (Option.some.inj h).symm⟩
  | op i =>
    obtain ⟨calls, hcalls, h⟩ := Option.bind_eq_some_iff.mp h
    exact .inr (.inl ⟨i, calls, rfl, hcalls, (Option.some.inj h).symm⟩)
  | publish i spawns =>
    obtain ⟨r, hr, h⟩ := Option.bind_eq_some_iff.mp h
    obtain ⟨payload, hpayload, h⟩ := Option.bind_eq_some_iff.mp h
    obtain ⟨calls, hcalls, h⟩ := Option.bind_eq_some_iff.mp h
    exact .inr (.inr (.inl ⟨i, spawns, r, payload, calls, rfl, hr, hpayload, hcalls, (Option.some.inj h).symm⟩))
  | turn =>
    obtain ⟨supervisor, hturn, h⟩ := Option.bind_eq_some_iff.mp h
    exact .inr (.inr (.inr ⟨supervisor, rfl, hturn, (Option.some.inj h).symm⟩))

theorem Step.calls (h : Step c w e w') : w'.calls = w.calls ∨ ∃ l, Calls.Step c w.calls l w'.calls := by
  obtain ⟨_, _, -, hcalls, rfl⟩ | ⟨_, _, -, hcalls, rfl⟩ | ⟨_, _, _, _, _, -, -, -, hcalls, rfl⟩ | ⟨_, -, -, rfl⟩ :=
    next_cases h
  · exact .inr ⟨_, hcalls⟩
  · exact .inr ⟨_, hcalls⟩
  · exact .inr ⟨_, hcalls⟩
  · exact .inl rfl

theorem faithful_of_run {h : Heap} {spawns : Bool} {es : List Event} (hrun : Run (Step c) (initial h spawns) es w) :
    Calls.Faithful c w.calls := by
  refine hrun.invariant (P := fun _ w => Calls.Faithful c w.calls) (Calls.faithful_initial h)
    fun _ w _ w' hw hstep => ?_
  rcases hstep.calls with hsame | ⟨l, hl⟩
  · exact hsame ▸ hw
  · exact hw.step hl

end World

end TrenchDb.Storage
