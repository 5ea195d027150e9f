import TrenchDb.Lib.Lts
import TrenchDb.Storage.Requests

/-!
# Concurrent calls

The handlers as sequences of map operations, each of them atomic, on tables that all calls share. Between
two operations of a call, any number of operations of other calls may run.
-/

open TrenchDb.Lib.Lts TrenchDb.Rpc TrenchDb.Transport

namespace TrenchDb.Storage

/-! ## Shared tables -/

/-- The store, as the calls share it. An `Arc` of a collection is a number: a collection lives on behind
its handles when its name is removed from the registry. Every name has a collection of its own. -/
structure Heap where
  registry : Finmap fun _ : String => Nat
  cells : Nat → Table
  next : Nat
  bound : ∀ table id, registry.lookup table = some id → id < next
  inj : ∀ table table' id, registry.lookup table = some id → registry.lookup table' = some id → table = table'

namespace Heap

def new : Heap where
  registry := ∅
  cells _ := .new
  next := 0
  bound := by simp
  inj := by simp

/-- `MemoryStore::get`, to the handle. -/
def get (h : Heap) (table : String) : Option Nat := h.registry.lookup table

/-- `entry(..).or_insert_with(..)`, when the entry is vacant. -/
def insertNew (h : Heap) (table : String) : Heap where
  registry := h.registry.insert table h.next
  cells := Function.update h.cells h.next .new
  next := h.next + 1
  bound table' id hl := by
    by_cases hname : table' = table
    · rw [hname, Finmap.lookup_insert] at hl
      cases hl
      omega
    · rw [Finmap.lookup_insert_of_ne _ hname] at hl
      have := h.bound _ _ hl
      omega
  inj table₁ table₂ id h₁ h₂ := by
    by_cases hname₁ : table₁ = table <;> by_cases hname₂ : table₂ = table
    · rw [hname₁, hname₂]
    · rw [hname₁, Finmap.lookup_insert] at h₁
      rw [Finmap.lookup_insert_of_ne _ hname₂] at h₂
      have := h.bound _ _ h₂
      cases h₁
      omega
    · rw [hname₂, Finmap.lookup_insert] at h₂
      rw [Finmap.lookup_insert_of_ne _ hname₁] at h₁
      have := h.bound _ _ h₁
      cases h₂
      omega
    · rw [Finmap.lookup_insert_of_ne _ hname₁] at h₁
      rw [Finmap.lookup_insert_of_ne _ hname₂] at h₂
      exact h.inj _ _ _ h₁ h₂

/-- `MemoryStore::create`, to the handle. -/
def create (h : Heap) (table : String) : Nat × Heap :=
  match h.get table with
  | some id => (id, h)
  | none => (h.next, h.insertNew table)

/-- `MemoryStore::remove`. The collection stays behind its handles. -/
def remove (h : Heap) (table : String) : Heap where
  registry := h.registry.erase table
  cells := h.cells
  next := h.next
  bound table' id hl := by
    by_cases hname : table' = table
    · rw [hname, Finmap.lookup_erase] at hl
      cases hl
    · exact h.bound _ _ (Finmap.lookup_erase_ne hname ▸ hl)
  inj table₁ table₂ id h₁ h₂ := by
    by_cases hname₁ : table₁ = table
    · rw [hname₁, Finmap.lookup_erase] at h₁
      cases h₁
    · by_cases hname₂ : table₂ = table
      · rw [hname₂, Finmap.lookup_erase] at h₂
        cases h₂
      · exact h.inj _ _ _ (Finmap.lookup_erase_ne hname₁ ▸ h₁) (Finmap.lookup_erase_ne hname₂ ▸ h₂)

/-- An operation on the collection behind a handle. -/
def modify (h : Heap) (id : Nat) (f : Table → Table) : Heap :=
  { h with cells := Function.update h.cells id (f (h.cells id)) }

/-- The collection under a name. -/
def lookup (h : Heap) (table : String) : Option Table := (h.get table).map h.cells

/-- The store that one sees who looks at no handle. -/
def view (h : Heap) : MemoryStore String (List UInt8) where
  map := Finmap.keysLookupEquiv.symm ⟨(h.registry.keys, h.lookup), fun table => by
    simp [lookup, get, Finmap.lookup_isSome, Finmap.mem_keys]⟩

variable {h : Heap} {table table' : String} {id id' : Nat} {f : Table → Table}

theorem get_view : h.view.get table = h.lookup table := Finmap.keysLookupEquiv_symm_apply_lookup _ _

/-- What becomes of the heap while no name loses its collection: what hangs on handles alone stays as it is. -/
structure Grows (h h' : Heap) : Prop where
  get : ∀ table id, h.get table = some id → h'.get table = some id
  next : h.next ≤ h'.next
  detached : ∀ id, id < h.next → (∀ table, h.get table ≠ some id) →
    (∀ table, h'.get table ≠ some id) ∧ h'.cells id = h.cells id

theorem get_insertNew : (h.insertNew table).get table = some h.next := Finmap.lookup_insert _

theorem get_insertNew_of_ne (hname : table' ≠ table) : (h.insertNew table).get table' = h.get table' :=
  Finmap.lookup_insert_of_ne _ hname

theorem cells_insertNew : (h.insertNew table).cells h.next = .new := Function.update_self ..

theorem cells_insertNew_of_ne (hid : id ≠ h.next) : (h.insertNew table).cells id = h.cells id :=
  Function.update_of_ne hid ..

theorem get_remove : (h.remove table).get table = none := Finmap.lookup_erase _ _

theorem get_remove_of_ne (hname : table' ≠ table) : (h.remove table).get table' = h.get table' :=
  Finmap.lookup_erase_ne hname

@[simp] theorem get_modify : (h.modify id f).get table = h.get table := rfl

@[simp] theorem cells_modify : (h.modify id f).cells id = f (h.cells id) := Function.update_self ..

theorem cells_modify_of_ne (hid : id' ≠ id) : (h.modify id f).cells id' = h.cells id' := Function.update_of_ne hid ..

theorem modify_self (hf : f (h.cells id) = h.cells id) : h.modify id f = h := by
  have hcells : Function.update h.cells id (f (h.cells id)) = h.cells := by rw [hf, Function.update_eq_self]
  cases h
  simp only [modify] at hcells ⊢
  congr

theorem create_of_none (hget : h.get table = none) : h.create table = (h.next, h.insertNew table) := by
  unfold create
  split
  next id hid => rw [hget] at hid; cases hid
  next => rfl

theorem create_of_some (hget : h.get table = some id) : h.create table = (id, h) := by
  unfold create
  split
  next hid =>
    rw [hget] at hid
    cases hid
    rfl
  next hid => rw [hget] at hid; cases hid

theorem Grows.refl (h : Heap) : h.Grows h := ⟨fun _ _ hget => hget, le_rfl, fun _ _ hdetached => ⟨hdetached, rfl⟩⟩

theorem grows_insertNew (hget : h.get table = none) : h.Grows (h.insertNew table) where
  get table' id hget' := by
    have hne : table' ≠ table := by
      rintro rfl
      rw [hget] at hget'
      cases hget'
    rw [get_insertNew_of_ne hne, hget']
  next := Nat.le_succ _
  detached id hlt hdetached := by
    refine ⟨fun table' hget' => ?_, cells_insertNew_of_ne hlt.ne⟩
    by_cases hname : table' = table
    · rw [hname, get_insertNew] at hget'
      cases hget'
      exact lt_irrefl _ hlt
    · exact hdetached table' (get_insertNew_of_ne hname ▸ hget')

theorem grows_create (h : Heap) (table : String) : h.Grows (h.create table).2 := by
  cases hget : h.get table with
  | none => exact create_of_none hget ▸ grows_insertNew hget
  | some id => exact create_of_some hget ▸ Grows.refl h

theorem grows_modify (hget : h.get table = some id) (f : Table → Table) : h.Grows (h.modify id f) where
  get _ _ hget' := hget'
  next := le_rfl
  detached _ _ hdetached := ⟨hdetached, cells_modify_of_ne fun heq => hdetached table (heq ▸ hget)⟩

theorem grows_remove (hget : h.get table = none) : h.Grows (h.remove table) where
  get table' id hget' := by
    have hne : table' ≠ table := by
      rintro rfl
      rw [hget] at hget'
      cases hget'
    rw [get_remove_of_ne hne, hget']
  next := le_rfl
  detached id _ hdetached := by
    refine ⟨fun table' hget' => ?_, rfl⟩
    by_cases hname : table' = table
    · rw [hname, get_remove] at hget'
      cases hget'
    · exact hdetached table' (get_remove_of_ne hname ▸ hget')

end Heap

/-! ## The phases of a call -/

/-- Where a call stands between two of its operations. -/
inductive Phase
  | called (r : Request)
  | holding (r : Request) (id : Nat)
  | checked (r : Request) (found : Bool)
  | changed (r : Request)
  | returned (response : Except TransportError ResponseEnvelope)

namespace Phase

/-- The request of a call that has not returned. -/
def request? : Phase → Option Request
  | .called r => some r
  | .holding r _ => some r
  | .checked r _ => some r
  | .changed r => some r
  | .returned _ => none

def response : Phase → Option (Except TransportError ResponseEnvelope)
  | .returned response => some response
  | _ => none

variable (c : Codecs)

/-- The call is dispatched, decoded and validated. -/
def start (request : RequestEnvelope) : Phase :=
  match Request.parse c request with
  | .error e => .returned (.error e)
  | .ok r => .called r

def fails (message : String) : Phase := .returned (.error (.InternalError message))

def replies (payload : List UInt8) : Phase := .returned (.ok { payload })

/-- The handle to an existing table, or the error of `get`, `update` and `delete`. -/
def findTable (r : Request) (h : Heap) : Phase × Heap :=
  match h.get r.table with
  | some id => (.holding r id, h)
  | none => (fails "table not found", h)

/-- The next map operation of a handler. After the last one of a `put`, `update` or `delete`, its event is
still to be published. -/
def op : Phase → Heap → Option (Phase × Heap)
  | .called (.get r), h => some (findTable (.get r) h)
  | .called (.put r), h => some (.holding (.put r) (h.create r.table).1, (h.create r.table).2)
  | .called (.update r), h => some (findTable (.update r) h)
  | .called (.delete r), h => some (findTable (.delete r) h)
  | .called (.contains r), h =>
    match h.get r.table with
    | some id => some (.holding (.contains r) id, h)
    | none => some (replies (encode c.containsResponse { «exists» := false }), h)
  | .called (.addTable r), h =>
    if (h.get r.table).isSome then some (fails "table already exists", h) else some (.checked (.addTable r) false, h)
  | .called (.removeTable r), h => some (.checked (.removeTable r) (h.get r.table).isSome, h)
  | .holding (.get r) id, h => some (replies (encode c.getResponse { value := (h.cells id).get r.key }), h)
  | .holding (.put r) id, h => some (.changed (.put r), h.modify id fun t => t.insert r.key r.value)
  | .holding (.update r) id, h => some (.changed (.update r), h.modify id fun t => t.update r.key r.value)
  | .holding (.delete r) id, h => some (.changed (.delete r), h.modify id fun t => (t.remove r.key).2)
  | .holding (.contains r) id, h =>
    some (replies (encode c.containsResponse { «exists» := (h.cells id).contains r.key }), h)
  | .checked (.addTable r) _, h => some (replies (encode c.addTableResponse { ok := true }), (h.create r.table).2)
  | .checked (.removeTable r) found, h =>
    some (replies (encode c.removeTableResponse { ok := found }), h.remove r.table)
  | _, _ => none

/-- The response of a `put`, `update` or `delete`, once its event is published. -/
def publish : Phase → Option Phase
  | .changed (.put _) => some (replies (encode c.putResponse { ok := true }))
  | .changed (.update _) => some (replies (encode c.updateResponse { ok := true }))
  | .changed (.delete _) => some (replies (encode c.deleteResponse { ok := true }))
  | _ => none

/-- What the operations do, one case for each kind. -/
inductive Op (h : Heap) : Phase → Phase → Heap → Prop
  | missing {r : Request} (hkey : r.key? ≠ none) (hput : ∀ q, r ≠ .put q) (hget : h.get r.table = none) :
      Op h (.called r) (.returned ((r.act c none).1.map ResponseEnvelope.mk)) h
  | finds {r : Request} {id : Nat} (hkey : r.key? ≠ none) (hget : h.get r.table = some id) :
      Op h (.called r) (.holding r id) h
  | makes {r : PutRequest} (hget : h.get r.table = none) :
      Op h (.called (.put r)) (.holding (.put r) h.next) (h.insertNew r.table)
  | refuses {r : AddTableRequest} {id : Nat} (hget : h.get r.table = some id) :
      Op h (.called (.addTable r)) (fails "table already exists") h
  | looks {r : Request} (hkey : r.key? = none) (hadd : ∀ q, r = .addTable q → h.get r.table = none) :
      Op h (.called r) (.checked r (h.get r.table).isSome) h
  | reads {r : Request} {id : Nat} (hkey : r.key? ≠ none) (hreads : r.writes = false) :
      Op h (.holding r id) (.returned ((r.act c (some (h.cells id))).1.map ResponseEnvelope.mk)) h
  | changes {r : Request} {id : Nat} (hevent : r.event? ≠ none) :
      Op h (.holding r id) (.changed r) (h.modify id r.apply)
  | adds {r : AddTableRequest} {found : Bool} :
      Op h (.checked (.addTable r) found) (replies (encode c.addTableResponse { ok := true })) (h.create r.table).2
  | removes {r : RemoveTableRequest} {found : Bool} :
      Op h (.checked (.removeTable r) found) (replies (encode c.removeTableResponse { ok := found })) (h.remove r.table)

variable {c} {phase phase' : Phase} {h h' : Heap}

theorem findTable_op {r : Request} (hkey : r.key? ≠ none) (hput : ∀ q, r ≠ .put q)
    (hmissing : (fails "table not found") = .returned ((r.act c none).1.map ResponseEnvelope.mk)) :
    Op c h (.called r) (findTable r h).1 (findTable r h).2 := by
  unfold findTable
  cases hget : h.get r.table with
  | none => exact hmissing ▸ .missing hkey hput hget
  | some id => exact .finds hkey hget

theorem op_cases (hop : phase.op c h = some (phase', h')) : Op c h phase phase' h' := by
  cases phase with
  | called r =>
    cases r with
    | get r =>
      obtain ⟨rfl, rfl⟩ := Prod.mk.inj (Option.some.inj hop)
      exact findTable_op (by simp [Request.key?]) (by simp) rfl
    | put r =>
      obtain ⟨rfl, rfl⟩ := Prod.mk.inj (Option.some.inj hop)
      unfold Heap.create
      split
      next id hget => exact .finds (by simp [Request.key?]) hget
      next hget => exact .makes hget
    | update r =>
      obtain ⟨rfl, rfl⟩ := Prod.mk.inj (Option.some.inj hop)
      exact findTable_op (by simp [Request.key?]) (by simp) rfl
    | delete r =>
      obtain ⟨rfl, rfl⟩ := Prod.mk.inj (Option.some.inj hop)
      exact findTable_op (by simp [Request.key?]) (by simp) rfl
    | contains r =>
      simp only [op] at hop
      split at hop
      next id hget =>
        obtain ⟨rfl, rfl⟩ := Prod.mk.inj (Option.some.inj hop)
        exact .finds (by simp [Request.key?]) hget
      next hget =>
        obtain ⟨rfl, rfl⟩ := Prod.mk.inj (Option.some.inj hop)
        exact Op.missing (r := .contains r) (by simp [Request.key?]) (by simp) hget
    | addTable r =>
      simp only [op] at hop
      split_ifs at hop with hsome
      · obtain ⟨rfl, rfl⟩ := Prod.mk.inj (Option.some.inj hop)
        obtain ⟨id, hget⟩ := Option.isSome_iff_exists.mp hsome
        exact .refuses hget
      · obtain ⟨rfl, rfl⟩ := Prod.mk.inj (Option.some.inj hop)
        have hnone : h.get r.table = none := by simpa using hsome
        have hlooks := Op.looks (c := c) (r := .addTable r) (h := h) rfl fun _ _ => hnone
        rwa [show h.get (Request.addTable r).table = none from hnone] at hlooks
    | removeTable r =>
      obtain ⟨rfl, rfl⟩ := Prod.mk.inj (Option.some.inj hop)
      exact Op.looks (r := .removeTable r) rfl (by simp)
  | holding r id =>
    cases r with
    | get r | contains r =>
      obtain ⟨rfl, rfl⟩ := Prod.mk.inj (Option.some.inj hop)
      exact .reads (by simp [Request.key?]) rfl
    | put r | update r | delete r =>
      obtain ⟨rfl, rfl⟩ := Prod.mk.inj (Option.some.inj hop)
      exact .changes (by simp [Request.event?])
    | addTable r | removeTable r => cases hop
  | checked r found =>
    cases r with
    | addTable r =>
      obtain ⟨rfl, rfl⟩ := Prod.mk.inj (Option.some.inj hop)
      exact .adds
    | removeTable r =>
      obtain ⟨rfl, rfl⟩ := Prod.mk.inj (Option.some.inj hop)
      exact .removes
    | _ => cases hop
  | changed r | returned response => cases hop

theorem publish_cases (hpublish : phase.publish c = some phase') : ∃ r : Request, phase = .changed r ∧
    r.event? ≠ none ∧ ∀ t, phase' = .returned ((r.act c (some t)).1.map ResponseEnvelope.mk) := by
  cases phase with
  | changed r =>
    cases r with
    | put r | update r | delete r =>
      obtain rfl := Option.some.inj hpublish
      exact ⟨_, rfl, by simp [Request.event?], fun _ => rfl⟩
    | _ => cases hpublish
  | _ => cases hpublish

theorem Op.request (h : Op c h phase phase' h') {r : Request} (hr : phase'.request? = some r) :
    phase.request? = some r := by
  cases h with
  | missing | refuses | reads | adds | removes => cases hr
  | finds | makes | looks | changes => exact hr

/-- The tables that a `put` has made and that no call has changed or confirmed since. -/
def bareAfter : Phase → Heap → List Nat → List Nat
  | .called (.put r), h, bare => if (h.get r.table).isNone then (h.create r.table).1 :: bare else bare
  | .holding r id, _, bare => if r.writes then bare.filter (· ≠ id) else bare
  | .checked (.addTable r) _, h, bare => bare.filter (· ≠ (h.create r.table).1)
  | _, _, bare => bare

end Phase

/-! ## Interleavings -/

structure Call where
  request : RequestEnvelope
  phase : Phase
  /-- The calls that had returned when this one was made. -/
  before : List Nat

/-- The calls of all clients on one store, by the order in which they were made. -/
structure Calls where
  heap : Heap
  calls : List Call
  bare : List Nat

inductive Label
  | invoke (request : RequestEnvelope)
  | op (call : Nat)
  | publish (call : Nat)

namespace Calls

variable (c : Codecs)

def initial (h : Heap) : Calls := { heap := h, calls := [], bare := [] }

def response (w : Calls) (i : Nat) : Option (Except TransportError ResponseEnvelope) :=
  ((w.calls[i]?).map Call.phase).bind Phase.response

/-- The calls that have returned. -/
def done (w : Calls) : List Nat := (List.range w.calls.length).filter fun i => (w.response i).isSome

def setPhase (w : Calls) (i : Nat) (call : Call) (phase : Phase) : Calls :=
  { w with calls := w.calls.set i { call with phase } }

/-- One step of one call. -/
def next (w : Calls) : Label → Option Calls
  | .invoke request =>
    some { w with calls := w.calls ++ [{ request, phase := .start c request, before := w.done }] }
  | .op i => do
    let call ← w.calls[i]?
    let (phase, heap) ← call.phase.op c w.heap
    return { w.setPhase i call phase with heap, bare := call.phase.bareAfter w.heap w.bare }
  | .publish i => do
    let call ← w.calls[i]?
    let phase ← call.phase.publish c
    return w.setPhase i call phase

def Step (w : Calls) (l : Label) (w' : Calls) : Prop := w.next c l = some w'

variable {c} {w w' : Calls} {l : Label} {i j : Nat} {call call' : Call} {phase : Phase}

theorem next_op (h : w.next c (.op i) = some w') : ∃ call phase heap, w.calls[i]? = some call ∧
    Phase.Op c w.heap call.phase phase heap ∧
    w' = { w.setPhase i call phase with heap, bare := call.phase.bareAfter w.heap w.bare } := by
  obtain ⟨call, hcall, h⟩ := Option.bind_eq_some_iff.mp h
  obtain ⟨⟨phase, heap⟩, hop, h⟩ := Option.bind_eq_some_iff.mp h
  exact ⟨call, phase, heap, hcall, Phase.op_cases hop, (Option.some.inj h).symm⟩

theorem next_publish (h : w.next c (.publish i) = some w') : ∃ call phase, w.calls[i]? = some call ∧
    call.phase.publish c = some phase ∧ w' = w.setPhase i call phase := by
  obtain ⟨call, hcall, h⟩ := Option.bind_eq_some_iff.mp h
  obtain ⟨phase, hpublish, h⟩ := Option.bind_eq_some_iff.mp h
  exact ⟨call, phase, hcall, hpublish, (Option.some.inj h).symm⟩

theorem next_cases (h : w.next c l = some w') :
    (∃ request, l = .invoke request ∧
      w' = { w with calls := w.calls ++ [{ request, phase := .start c request, before := w.done }] }) ∨
    (∃ i call phase heap, l = .op i ∧ w.calls[i]? = some call ∧ Phase.Op c w.heap call.phase phase heap ∧
      w' = { w.setPhase i call phase with heap, bare := call.phase.bareAfter w.heap w.bare }) ∨
    (∃ i call phase, l = .publish i ∧ w.calls[i]? = some call ∧ call.phase.publish c = some phase ∧
      w' = w.setPhase i call phase) := by
  cases l with
  | invoke request => exact .inl ⟨request, rfl, (Option.some.inj h).symm⟩
  | op i =>
    obtain ⟨call, phase, heap, hnext⟩ := next_op h
    exact .inr (.inl ⟨i, call, phase, heap, rfl, hnext⟩)
  | publish i =>
    obtain ⟨call, phase, hnext⟩ := next_publish h
    exact .inr (.inr ⟨i, call, phase, rfl, hnext⟩)

theorem calls_setPhase (hi : w.calls[i]? = some call) (j : Nat) :
    (w.setPhase i call phase).calls[j]? = if j = i then some { call with phase } else w.calls[j]? := by
  have hlt := (List.getElem?_eq_some_iff.mp hi).1
  unfold setPhase
  rw [List.getElem?_set]
  split_ifs with h₁ h₂ h₂ <;> first | rfl | omega

theorem response_setPhase (hi : w.calls[i]? = some call) (j : Nat) :
    (w.setPhase i call phase).response j = if j = i then phase.response else w.response j := by
  unfold Calls.response
  rw [calls_setPhase hi]
  split_ifs <;> rfl

/-- Call `i` moves on, and no other call. -/
structure Moves (w w' : Calls) (i : Nat) (call : Call) (phase : Phase) : Prop where
  found : w.calls[i]? = some call
  calls : ∀ j, w'.calls[j]? = if j = i then some { call with phase } else w.calls[j]?

theorem moves_setPhase (hi : w.calls[i]? = some call) : Moves w (w.setPhase i call phase) i call phase :=
  ⟨hi, calls_setPhase hi⟩

theorem Moves.get (hm : Moves w w' i call phase) (hj : w'.calls[j]? = some call') :
    j = i ∧ call' = { call with phase } ∨ j ≠ i ∧ w.calls[j]? = some call' := by
  rw [hm.calls] at hj
  split_ifs at hj with heq
  · exact .inl ⟨heq, (Option.some.inj hj).symm⟩
  · exact .inr ⟨heq, hj⟩

theorem calls_append (j : Nat) :
    (w.calls ++ [call])[j]? = if j = w.calls.length then some call else w.calls[j]? := by
  split_ifs with hj
  · rw [hj, List.getElem?_concat_length]
  · rw [List.getElem?_append]
    split_ifs with hlt
    · rfl
    · rw [List.getElem?_eq_none (by simp; omega), List.getElem?_eq_none (by omega)]

theorem calls_invoke (j : Nat) (hj : (w.calls ++ [call])[j]? = some call') :
    w.calls[j]? = some call' ∨ j = w.calls.length ∧ call' = call := by
  rw [calls_append] at hj
  split_ifs at hj with hlast
  · exact .inr ⟨hlast, (Option.some.inj hj).symm⟩
  · exact .inl hj

/-- A call works on the request that it was made with. -/
def Faithful (c : Codecs) (w : Calls) : Prop :=
  ∀ (i : Nat) (call : Call) (r : Request),
    w.calls[i]? = some call → call.phase.request? = some r → Request.parse c call.request = .ok r

theorem Faithful.setPhase (h : Faithful c w) (hi : w.calls[i]? = some call)
    (hphase : ∀ r, phase.request? = some r → call.phase.request? = some r) : Faithful c (w.setPhase i call phase) := by
  intro j call' r hj hr
  rw [calls_setPhase hi] at hj
  split_ifs at hj
  · obtain rfl := Option.some.inj hj
    exact h i call r hi (hphase r hr)
  · exact h j call' r hj hr

theorem Faithful.step (h : Faithful c w) (hstep : Step c w l w') : Faithful c w' := by
  obtain ⟨request, rfl, rfl⟩ | ⟨i, call, phase, heap, rfl, hi, hop, rfl⟩ | ⟨i, call, phase, rfl, hi, hpublish, rfl⟩ :=
    next_cases hstep
  · intro j call' r hj hr
    rcases calls_invoke j hj with hj | ⟨-, rfl⟩
    · exact h j call' r hj hr
    · simp only [Phase.start] at hr
      split at hr
      next => cases hr
      next r' hparse =>
        obtain rfl := Option.some.inj hr
        exact hparse
  · exact h.setPhase hi fun r hr => hop.request hr
  · obtain ⟨r', hphase, -, hreturned⟩ := Phase.publish_cases hpublish
    exact h.setPhase hi fun r hr => by rw [hreturned .new] at hr; cases hr

theorem faithful_initial (h : Heap) : Faithful c (initial h) := fun i call r hi => by simp [initial] at hi

theorem faithful_of_run {h : Heap} {ls : List Label} (hrun : Run (Step c) (initial h) ls w) : Faithful c w :=
  hrun.invariant (P := fun _ w => Faithful c w) (faithful_initial h) fun _ _ _ _ h hstep => h.step hstep

end Calls

end TrenchDb.Storage
