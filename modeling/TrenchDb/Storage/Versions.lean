import Mathlib.Data.List.Chain
import TrenchDb.Storage.Store

/-!
# The versions under a key

`insert` always stores version 1, `update` the version after that of the record that it replaces. What this makes of
the versions under one key while calls of both kinds come in any order.
-/

namespace TrenchDb.Storage

namespace Collection

/-- The calls of `Storage` that change a collection. -/
inductive Call (κ ν : Type) where
  | insert (key : κ) (value : ν)
  | update (key : κ) (value : ν)
  | remove (key : κ)
  deriving DecidableEq, Repr

variable {κ ν : Type}

namespace Call

def key : Call κ ν → κ
  | .insert key _ | .update key _ | .remove key => key

def perform [DecidableEq κ] (c : Collection κ ν) : Call κ ν → Collection κ ν
  | .insert key value => c.insert key value
  | .update key value => c.update key value
  | .remove key => (c.remove key).2

/-- The record that the call stores, given the one that it finds under its key. -/
def record? (found : Option (Record ν)) : Call κ ν → Option (Record ν)
  | .insert _ value => some (.new value)
  | .update _ value => some (found.elim (.new value) fun record => .next value record.version)
  | .remove _ => none

/-- What the call finds under its key does not keep the version from going up: an `insert` finds no record, or one
whose version wrapped to 0, and an `update` no record with the last version. -/
def Advances (found : Option (Record ν)) : Call κ ν → Prop
  | .insert _ _ => ∀ record ∈ found, record.version = 0
  | .update _ _ => ∀ record ∈ found, record.version.toNat + 1 < 2 ^ 64
  | .remove _ => True

theorem record?_advances {call : Call κ ν} (hlive : call ≠ .remove call.key) (found : Option (Record ν)) :
    ∃ stored, call.record? found = some stored ∧
      ((∀ record ∈ found, record.version < stored.version) ↔ call.Advances found) := by
  cases call with
  | insert key value =>
    refine ⟨.new value, rfl, forall₂_congr fun record _ => ?_⟩
    rw [UInt64.lt_iff_toNat_lt, ← UInt64.toNat_inj]
    exact Nat.lt_one_iff
  | update key value =>
    cases found with
    | none => exact ⟨.new value, rfl, by simp [Advances]⟩
    | some record =>
      refine ⟨.next value record.version, rfl, ?_⟩
      simp only [Advances, Option.mem_some_iff, forall_eq', Record.next, UInt64.lt_iff_toNat_lt, UInt64.toNat_add]
      have := record.version.toNat_lt
      rw [UInt64.toNat_one]
      omega
  | remove key => exact absurd rfl hlive

variable [DecidableEq κ] {c : Collection κ ν} {k : κ} {call : Call κ ν}

theorem lookup_perform (h : call.key = k) : (call.perform c).map.lookup k = call.record? (c.map.lookup k) := by
  subst h
  cases call with
  | insert key value => exact Finmap.lookup_insert _
  | update key value =>
    simp only [perform, Collection.update, record?, Call.key]
    cases c.map.lookup key <;> exact Finmap.lookup_insert _
  | remove key => exact Finmap.lookup_erase _ _

theorem lookup_perform_of_ne (h : call.key ≠ k) : (call.perform c).map.lookup k = c.map.lookup k := by
  have hne : k ≠ call.key := fun hk => h hk.symm
  cases call with
  | insert key value => exact Finmap.lookup_insert_of_ne _ hne
  | update key value =>
    simp only [perform, Collection.update]
    cases c.map.lookup key <;> exact Finmap.lookup_insert_of_ne _ hne
  | remove key => exact Finmap.lookup_erase_ne hne

end Call

variable [DecidableEq κ] {c : Collection κ ν} {key : κ} {calls : List (Call κ ν)}

/-- What is under the key after each call on it. -/
def stored (key : κ) (c : Collection κ ν) : List (Call κ ν) → List (Record ν)
  | [] => []
  | call :: calls =>
    (if call.key = key then ((call.perform c).map.lookup key).toList else []) ++ stored key (call.perform c) calls

/-- The record that is there at first and the records stored by the calls, in their order. -/
def records (key : κ) (c : Collection κ ν) (calls : List (Call κ ν)) : List (Record ν) :=
  (c.map.lookup key).toList ++ stored key c calls

/-- Each call on the key advances its version. -/
def Advance (key : κ) (c : Collection κ ν) : List (Call κ ν) → Prop
  | [] => True
  | call :: calls => (call.key = key → call.Advances (c.map.lookup key)) ∧ Advance key (call.perform c) calls

theorem records_other {call : Call κ ν} (h : call.key ≠ key) :
    records key c (call :: calls) = records key (call.perform c) calls := by
  rw [records, stored, if_neg h, List.nil_append, records, Call.lookup_perform_of_ne h]

theorem records_on {call : Call κ ν} (h : call.key = key) :
    records key c (call :: calls) = (c.map.lookup key).toList ++ records key (call.perform c) calls := by
  rw [records, stored, if_pos h, records]

theorem isChain_toList_append {α : Type} {R : α → α → Prop} {found : Option α} {rest : List α} :
    (found.toList ++ rest).IsChain R ↔ (∀ a ∈ found, ∀ b ∈ rest.head?, R a b) ∧ rest.IsChain R := by
  cases found <;> simp [List.isChain_cons]

theorem records_isChain_iff (hlive : ∀ call ∈ calls, call ≠ .remove key) :
    (records key c calls).IsChain (fun a b => a.version < b.version) ↔ Advance key c calls := by
  induction calls generalizing c with
  | nil =>
    simp only [records, stored, Advance, List.append_nil, iff_true]
    cases c.map.lookup key <;> simp
  | cons call calls ih =>
    replace ih := ih (c := call.perform c) fun call hcall => hlive call (List.mem_cons_of_mem _ hcall)
    rw [Advance, ← ih]
    by_cases hkey : call.key = key
    · subst hkey
      obtain ⟨record, hrecord, hadvances⟩ :=
        Call.record?_advances (hlive call List.mem_cons_self) (c.map.lookup call.key)
      have hhead : (records call.key (call.perform c) calls).head? = some record := by
        rw [records, Call.lookup_perform rfl, hrecord]
        rfl
      rw [records_on rfl, isChain_toList_append, hhead, forall_prop_of_true rfl, ← hadvances]
      simp
    · rw [records_other hkey, iff_and_self]
      exact fun _ h => absurd h hkey

/-- The versions of the records that follow each other under a key go up if and only if each call advances. -/
theorem versions_increase_iff (key : κ) (c : Collection κ ν) (calls : List (Call κ ν))
    (hlive : ∀ call ∈ calls, call ≠ .remove key) :
    ((records key c calls).map Record.version).Pairwise (· < ·) ↔ Advance key c calls := by
  rw [← List.isChain_iff_pairwise, List.isChain_map]
  exact records_isChain_iff hlive

theorem versions_increase_iff_updates :
    ((records 1 (new : Collection ℕ ℕ) [.insert 1 5, .update 1 6, .remove 2, .update 1 7]).map
      Record.version).Pairwise (· < ·) := by
  refine (versions_increase_iff 1 new _ (by decide)).mpr ?_
  simp [Advance, Call.Advances, Call.key, Call.perform, new, insert, update, remove, Record.new, Record.next]

theorem inserted_twice_same_version :
    ¬ ∀ calls : List (Call ℕ ℕ), (∀ call ∈ calls, call ≠ .remove 1) →
      ((records 1 (new : Collection ℕ ℕ) calls).map Record.version).Pairwise (· < ·) := by
  intro hall
  exact absurd (hall [.insert 1 5, .insert 1 6] (by decide)) (by decide)

end Collection

end TrenchDb.Storage
