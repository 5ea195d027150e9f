import TrenchDb.Lib.Stopping
import TrenchDb.Storage.Encoding

/-!
# The handlers, one statement after another

The `call` of each handler of `trench/src/api/table.rs` and `collection.rs` in the order of the source, where every
statement sees what those before it have changed, and an early return keeps it.
-/

open TrenchDb.Lib TrenchDb.Lib.Stopping TrenchDb.Rpc TrenchDb.Transport

namespace TrenchDb.Storage

/-! ## Statements -/

/-- `async fn call`, of a handler that runs alone. -/
abbrev HandlerCall : Type := Stopping Shared TransportError (List UInt8)

abbrev Statement (α : Type) : Type := Stopping Shared TransportError α

namespace Statement

/-- `self.store.get`. -/
def get (table : String) : Statement (Option (Collection String (List UInt8))) := look fun s => s.store.get table

/-- `self.store.create`. -/
def create (table : String) : Statement (Collection String (List UInt8)) :=
  act fun s => ((s.store.create table).1, { s with store := (s.store.create table).2 })

/-- `self.store.remove`. -/
def remove (table : String) : Statement Unit := act fun s => ((), { s with store := s.store.remove table })

/-- A change of a table through its handle. -/
def share (table : String) (c : Collection String (List UInt8)) : Statement Unit :=
  act fun s => ((), { s with store := s.store.share table c })

def publishEvent (op table key : String) : Statement Unit := act fun s => ((), Storage.publishEvent op table key s)

/-- `ok_or_else` of a table that is not there. -/
def okOrNotFound (table : Option (Collection String (List UInt8))) : Statement (Collection String (List UInt8)) :=
  of (match table with
    | none => .error (.InternalError "table not found")
    | some c => .ok c)

end Statement

open Statement

/-! ## Calls -/

section Calls

variable (c : Codecs) (payload : List UInt8)

def GetHandler.call : HandlerCall := do
  let request ← of (decode c.getRequest payload)
  of (validateName request.table "table")
  of (validateKey request.key)
  let table ← okOrNotFound (← get request.table)
  return encode c.getResponse { value := table.get request.key }

def PutHandler.call : HandlerCall := do
  let request ← of (decode c.putRequest payload)
  of (validateName request.table "table")
  of (validateNotMetadataTable request.table "write")
  of (validateKey request.key)
  of (validateValue request.value)
  let table ← create request.table
  share request.table (table.insert request.key request.value)
  Statement.publishEvent "insert" request.table request.key
  return encode c.putResponse { ok := true }

def UpdateHandler.call : HandlerCall := do
  let request ← of (decode c.updateRequest payload)
  of (validateName request.table "table")
  of (validateNotMetadataTable request.table "update")
  of (validateKey request.key)
  of (validateValue request.value)
  let table ← okOrNotFound (← get request.table)
  share request.table (table.update request.key request.value)
  Statement.publishEvent "update" request.table request.key
  return encode c.updateResponse { ok := true }

def DeleteHandler.call : HandlerCall := do
  let request ← of (decode c.deleteRequest payload)
  of (validateName request.table "table")
  of (validateNotMetadataTable request.table "delete")
  of (validateKey request.key)
  let table ← okOrNotFound (← get request.table)
  share request.table (table.remove request.key).2
  Statement.publishEvent "delete" request.table request.key
  return encode c.deleteResponse { ok := true }

def ContainsHandler.call : HandlerCall := do
  let request ← of (decode c.containsRequest payload)
  of (validateName request.table "table")
  of (validateKey request.key)
  let table ← get request.table
  let found := (table.map fun table => table.contains request.key).getD false
  return encode c.containsResponse { «exists» := found }

def AddTableHandler.call : HandlerCall := do
  let request ← of (decode c.addTableRequest payload)
  of (validateName request.table "table")
  of (validateNotMetadataTable request.table "create")
  let table ← get request.table
  if table.isSome then
    stop (.InternalError "table already exists")
  else
    let _ ← create request.table
    return encode c.addTableResponse { ok := true }

def RemoveTableHandler.call : HandlerCall := do
  let request ← of (decode c.removeTableRequest payload)
  of (validateName request.table "table")
  of (validateNotMetadataTable request.table "remove")
  let existed := (← get request.table).isSome
  remove request.table
  return encode c.removeTableResponse { ok := existed }

end Calls

/-- The calls of the seven handlers. -/
def handlerCalls (c : Codecs) : List (List UInt8 → HandlerCall) :=
  [GetHandler.call c, PutHandler.call c, UpdateHandler.call c, DeleteHandler.call c, ContainsHandler.call c,
    AddTableHandler.call c, RemoveTableHandler.call c]

/-! ## What the statements do -/

section Rules

variable {α β : Type} {f : α → Statement β}

theorem clean_of {r : Except TransportError α} (h : ∀ a, Clean (f a)) : Clean (of r >>= f) := .bind (reads_of r) h

theorem clean_get {table : String} {f : Option (Collection String (List UInt8)) → Statement β} (h : ∀ t, Clean (f t)) :
    Clean (get table >>= f) := .bind (reads_look _) h

theorem returns_then {p : Statement α} (hp : Returns p) {b : β} : Returns (p >>= fun _ => pure b) :=
  hp.bind fun _ => returns_pure b

end Rules

variable {c : Codecs} {payload : List UInt8}

theorem get_clean : Clean (GetHandler.call c payload) :=
  clean_of fun _ => clean_of fun _ => clean_of fun _ => clean_get fun _ => clean_of fun _ => (returns_pure _).clean

theorem put_clean : Clean (PutHandler.call c payload) :=
  clean_of fun _ => clean_of fun _ => clean_of fun _ => clean_of fun _ => clean_of fun _ =>
    -- From here on nothing fails.
    ((returns_act _).bind fun _ => (returns_act _).bind fun _ => returns_then (returns_act _)).clean

theorem update_clean : Clean (UpdateHandler.call c payload) :=
  clean_of fun _ => clean_of fun _ => clean_of fun _ => clean_of fun _ => clean_of fun _ => clean_get fun _ =>
    clean_of fun _ => ((returns_act _).bind fun _ => returns_then (returns_act _)).clean

theorem delete_clean : Clean (DeleteHandler.call c payload) :=
  clean_of fun _ => clean_of fun _ => clean_of fun _ => clean_of fun _ => clean_get fun _ =>
    clean_of fun _ => ((returns_act _).bind fun _ => returns_then (returns_act _)).clean

theorem contains_clean : Clean (ContainsHandler.call c payload) :=
  clean_of fun _ => clean_of fun _ => clean_of fun _ => clean_get fun _ => (returns_pure _).clean

theorem addTable_clean : Clean (AddTableHandler.call c payload) := by
  refine clean_of fun request => clean_of fun _ => clean_of fun _ => clean_get fun table => ?_
  split
  · exact (reads_of (.error _)).clean
  · exact (returns_then (returns_act _)).clean

theorem removeTable_clean : Clean (RemoveTableHandler.call c payload) :=
  clean_of fun _ => clean_of fun _ => clean_of fun _ => clean_get fun _ => (returns_then (returns_act _)).clean

/-! ## The handlers of the API -/

section Refines

variable {α β : Type} {s : Shared} {check : β → Except TransportError α} {run : α → Shared → List UInt8 × Shared}

/-- The end of a handler: an error, or what `run` does. -/
def finish (run : α → Shared → List UInt8 × Shared) : Except TransportError α → HandlerCall
  | .error e => stop e
  | .ok a => act (run a)

theorem handler_eq (check : Shared → List UInt8 → Except TransportError α) (run : α → Shared → List UInt8 × Shared) :
    handler check run payload s = finish run (check s payload) s := by
  unfold handler
  cases check s payload <;> rfl

theorem of_finish {x : Except TransportError β} {f : β → HandlerCall} (h : ∀ b, f b s = finish run (check b) s) :
    (of x >>= f) s = finish run (x >>= check) s := by
  cases x with
  | error e => rfl
  | ok b => exact h b

theorem found_finish {table : String} {f : Collection String (List UInt8) → HandlerCall}
    {check : Collection String (List UInt8) → Except TransportError α} (h : ∀ t, f t s = finish run (check t) s) :
    (get table >>= fun found => okOrNotFound found >>= f) s = finish run (existing s table >>= check) s := by
  show (okOrNotFound (s.store.get table) >>= f) s = _
  unfold okOrNotFound existing
  cases s.store.get table with
  | none => rfl
  | some t => exact h t

theorem get_call : GetHandler.call c payload s = GetHandler c payload s := by
  rw [GetHandler, handler_eq]
  exact of_finish fun request => of_finish fun _ => of_finish fun _ => found_finish fun _ => rfl

theorem put_call : PutHandler.call c payload s = PutHandler c payload s := by
  rw [PutHandler, handler_eq]
  exact of_finish fun request => of_finish fun _ => of_finish fun _ => of_finish fun _ => of_finish fun _ => rfl

theorem update_call : UpdateHandler.call c payload s = UpdateHandler c payload s := by
  rw [UpdateHandler, handler_eq]
  exact of_finish fun request => of_finish fun _ => of_finish fun _ => of_finish fun _ => of_finish fun _ =>
    found_finish fun _ => rfl

theorem delete_call : DeleteHandler.call c payload s = DeleteHandler c payload s := by
  rw [DeleteHandler, handler_eq]
  exact of_finish fun request => of_finish fun _ => of_finish fun _ => of_finish fun _ => found_finish fun _ => rfl

theorem contains_call : ContainsHandler.call c payload s = ContainsHandler c payload s := by
  rw [ContainsHandler, handler_eq]
  exact of_finish fun request => of_finish fun _ => of_finish fun _ => rfl

theorem addTable_call : AddTableHandler.call c payload s = AddTableHandler c payload s := by
  rw [AddTableHandler, handler_eq]
  refine of_finish fun request => of_finish fun _ => of_finish fun _ => ?_
  show (if (s.store.get request.table).isSome then _ else _ : HandlerCall) s = _
  cases s.store.get request.table <;> rfl

theorem removeTable_call : RemoveTableHandler.call c payload s = RemoveTableHandler c payload s := by
  rw [RemoveTableHandler, handler_eq]
  exact of_finish fun request => of_finish fun _ => of_finish fun _ => rfl

end Refines

/-- A request that fails leaves the tables with their keys, values and versions, and has published nothing. -/
theorem failed_no_effect (c : Codecs) {call : List UInt8 → HandlerCall} (hcall : call ∈ handlerCalls c)
    (payload : List UInt8) (s s' : Shared) (e : TransportError) (h : call payload s = (.error e, s')) :
    (∀ table, s'.store.get table = s.store.get table) ∧ s'.published = s.published := by
  have hclean : Clean (call payload) := by
    simp only [handlerCalls, List.mem_cons, List.not_mem_nil, or_false] at hcall
    rcases hcall with rfl | rfl | rfl | rfl | rfl | rfl | rfl
    · exact get_clean
    · exact put_clean
    · exact update_clean
    · exact delete_clean
    · exact contains_clean
    · exact addTable_clean
    · exact removeTable_clean
  obtain rfl := hclean s e s' h
  exact ⟨fun _ => rfl, rfl⟩

theorem failed_no_effect_delete : ∃ s',
    DeleteHandler.call prefixedCodecs deleteAlice.payload Shared.new =
        (.error (.InternalError "table not found"), s') ∧
      (∀ table, s'.store.get table = Shared.new.store.get table) ∧ s'.published = Shared.new.published := by
  have hfails : DeleteHandler.call prefixedCodecs deleteAlice.payload Shared.new =
      (.error (.InternalError "table not found"), Shared.new) := by
    have hdecode : decode prefixedCodecs.deleteRequest deleteAlice.payload = .ok ⟨"users", "alice"⟩ :=
      decode_encode (formatCodec_roundTrips _) (by decide +kernel)
    rw [DeleteHandler.call, hdecode]
    rfl
  exact ⟨_, hfails, failed_no_effect prefixedCodecs (by simp [handlerCalls]) _ _ _ _ hfails⟩

end TrenchDb.Storage
