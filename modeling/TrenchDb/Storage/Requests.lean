import TrenchDb.Storage.Api

/-!
# What a request asks for

A handler decodes and checks its request before it touches the store. Here the two parts are apart:
`parse` reads no store, and `act` is what the rest does to the one table that the request names.
-/

open TrenchDb.Rpc TrenchDb.Transport

namespace TrenchDb.Storage

abbrev Table : Type := Collection String (List UInt8)

namespace MemoryStore

variable {κ ν : Type} [DecidableEq κ]

/-- The store with the given table under the name, or with none. -/
def set (s : MemoryStore κ ν) (table : κ) : Option (Collection κ ν) → MemoryStore κ ν
  | some c => s.share table c
  | none => s.remove table

variable {s s' : MemoryStore κ ν} {table table' : κ} {t : Option (Collection κ ν)}

theorem ext_get (h : ∀ table, s.get table = s'.get table) : s = s' := by
  obtain ⟨map⟩ := s
  obtain ⟨map'⟩ := s'
  exact congrArg mk (Finmap.ext_lookup h)

@[simp] theorem get_set : (s.set table t).get table = t := by cases t <;> simp [set]

theorem get_set_of_ne (h : table' ≠ table) : (s.set table t).get table' = s.get table' := by
  cases t
  · exact get_remove_of_ne h
  · exact get_share_of_ne h

theorem set_get (h : s.get table = t) : s.set table t = s := by
  refine ext_get fun table' => ?_
  by_cases hname : table' = table
  · rw [hname, get_set, h]
  · exact get_set_of_ne hname

theorem share_eq_set (c : Collection κ ν) : s.share table c = s.set table (some c) := rfl

theorem remove_eq_set : s.remove table = s.set table none := rfl

theorem create_eq : s.create table = ((s.get table).getD .new, s.set table (some ((s.get table).getD .new))) := by
  unfold create
  cases h : s.map.lookup table with
  | none => simp [get, h, set, share]
  | some c => rw [show s.get table = some c from h, Option.getD_some, set_get h]

theorem set_set (t' : Option (Collection κ ν)) : (s.set table t').set table t = s.set table t := by
  refine ext_get fun table' => ?_
  by_cases hname : table' = table
  · rw [hname, get_set, get_set]
  · rw [get_set_of_ne hname, get_set_of_ne hname, get_set_of_ne hname]

end MemoryStore

/-! ## Checked requests -/

inductive Request
  | get (request : GetRequest)
  | put (request : PutRequest)
  | update (request : UpdateRequest)
  | delete (request : DeleteRequest)
  | contains (request : ContainsRequest)
  | addTable (request : AddTableRequest)
  | removeTable (request : RemoveTableRequest)

namespace Request

def table : Request → String
  | .get r => r.table
  | .put r => r.table
  | .update r => r.table
  | .delete r => r.table
  | .contains r => r.table
  | .addTable r => r.table
  | .removeTable r => r.table

/-- The checks of the handlers, each in its handler's order. -/
def validate : Request → Except TransportError Unit
  | .get r => do
    validateName r.table "table"
    validateKey r.key
  | .put r => do
    validateName r.table "table"
    validateNotMetadataTable r.table "write"
    validateKey r.key
    validateValue r.value
  | .update r => do
    validateName r.table "table"
    validateNotMetadataTable r.table "update"
    validateKey r.key
    validateValue r.value
  | .delete r => do
    validateName r.table "table"
    validateNotMetadataTable r.table "delete"
    validateKey r.key
  | .contains r => do
    validateName r.table "table"
    validateKey r.key
  | .addTable r => do
    validateName r.table "table"
    validateNotMetadataTable r.table "create"
  | .removeTable r => do
    validateName r.table "table"
    validateNotMetadataTable r.table "remove"

variable (c : Codecs)

def decoded (request : RequestEnvelope) : Except TransportError Request :=
  match request.action with
  | "get" => (decode c.getRequest request.payload).map .get
  | "put" => (decode c.putRequest request.payload).map .put
  | "update" => (decode c.updateRequest request.payload).map .update
  | "delete" => (decode c.deleteRequest request.payload).map .delete
  | "contains" => (decode c.containsRequest request.payload).map .contains
  | "add_table" => (decode c.addTableRequest request.payload).map .addTable
  | "remove_table" => (decode c.removeTableRequest request.payload).map .removeTable
  | action => .error (.ActionNotFound action)

def parse (request : RequestEnvelope) : Except TransportError Request := do
  let r ← decoded c request
  r.validate
  return r

/-- The response of the handler, and the table that it leaves behind. -/
def act : Request → Option Table → Except TransportError (List UInt8) × Option Table
  | .get r, some t => (.ok (encode c.getResponse { value := t.get r.key }), some t)
  | .get _, none => (.error (.InternalError "table not found"), none)
  | .put r, t => (.ok (encode c.putResponse { ok := true }), some ((t.getD .new).insert r.key r.value))
  | .update r, some t => (.ok (encode c.updateResponse { ok := true }), some (t.update r.key r.value))
  | .update _, none => (.error (.InternalError "table not found"), none)
  | .delete r, some t => (.ok (encode c.deleteResponse { ok := true }), some (t.remove r.key).2)
  | .delete _, none => (.error (.InternalError "table not found"), none)
  | .contains r, t =>
    (.ok (encode c.containsResponse { «exists» := (t.map fun t => t.contains r.key).getD false }), t)
  | .addTable _, some t => (.error (.InternalError "table already exists"), some t)
  | .addTable _, none => (.ok (encode c.addTableResponse { ok := true }), some .new)
  | .removeTable _, t => (.ok (encode c.removeTableResponse { ok := t.isSome }), none)

/-- What a request on a key does to the collection. -/
def apply : Request → Table → Table
  | .put r, t => t.insert r.key r.value
  | .update r, t => t.update r.key r.value
  | .delete r, t => (t.remove r.key).2
  | _, t => t

/-- The event that a `put`, `update` or `delete` publishes. -/
def event? : Request → Option (List UInt8)
  | .put r => some (asBytes ("insert" ++ ":" ++ r.table ++ ":" ++ r.key))
  | .update r => some (asBytes ("update" ++ ":" ++ r.table ++ ":" ++ r.key))
  | .delete r => some (asBytes ("delete" ++ ":" ++ r.table ++ ":" ++ r.key))
  | _ => none

/-- The events of the whole handler: none if it fails. -/
def events (r : Request) (t : Option Table) : List (List UInt8) :=
  match (r.act c t).1 with
  | .ok _ => r.event?.toList
  | .error _ => []

def perform (r : Request) (s : Shared) : Outcome Shared ResponseEnvelope :=
  ((r.act c (s.store.get r.table)).1.map ResponseEnvelope.mk,
    { store := s.store.set r.table (r.act c (s.store.get r.table)).2
      published := s.published ++ r.events c (s.store.get r.table) })

end Request

/-! ## The handlers in two parts -/

section Handled

open Request

variable {c : Codecs}

/-- The response of a handler, as the dispatcher wraps it. -/
def wrapped (o : Outcome Shared (List UInt8)) : Outcome Shared ResponseEnvelope :=
  o.andThen fun payload s => (.ok { payload }, s)

/-- What becomes of a request once it is decoded. -/
def answered (c : Codecs) (d : Except TransportError Request) (s : Shared) : Outcome Shared ResponseEnvelope :=
  match d.bind fun r => r.validate.map fun _ => r with
  | .error e => (.error e, s)
  | .ok r => r.perform c s

theorem handler_answered {α ρ : Type} {check : Shared → List UInt8 → Except TransportError α}
    {run : α → Shared → List UInt8 × Shared} {d : List UInt8 → Except TransportError ρ} (f : ρ → Request)
    (rest : ρ → Shared → Except TransportError α)
    (hcheck : ∀ s payload, check s payload = (d payload).bind fun r => (f r).validate.bind fun _ => rest r s)
    (hrest : ∀ r s, wrapped (handler (fun s _ => rest r s) run [] s) = (f r).perform c s) (payload : List UInt8)
    (s : Shared) : wrapped (handler check run payload s) = answered c ((d payload).map f) s := by
  unfold answered
  cases hd : d payload with
  | error e => simp [handler, hcheck, hd, wrapped, Outcome.andThen, Except.bind, Except.map]
  | ok r =>
    cases hv : (f r).validate with
    | error e => simp [handler, hcheck, hd, hv, wrapped, Outcome.andThen, Except.bind, Except.map]
    | ok u => simpa [handler, hcheck, hd, hv, Except.bind, Except.map] using hrest r s

theorem existing_eq {s : Shared} {table : String} : existing s table =
    match s.store.get table with
    | some t => .ok t
    | none => .error (.InternalError "table not found") := by
  unfold existing
  cases s.store.get table <;> rfl

theorem get_answered (payload : List UInt8) (s : Shared) : wrapped (GetHandler c payload s) =
    answered c ((decode c.getRequest payload).map .get) s := by
  refine handler_answered .get (fun r s => (existing s r.table).map fun t => (r, t)) (fun s payload => ?_)
    (fun r s => ?_) payload s
  · cases decode c.getRequest payload with
    | error e => rfl
    | ok r =>
      simp only [validate, bind, Except.bind]
      cases validateName r.table "table" <;> cases validateKey r.key <;> cases existing s r.table <;> rfl
  · cases ht : s.store.get r.table <;>
      simp [wrapped, handler, existing_eq, ht, perform, act, events, event?, table, Outcome.andThen, Except.map,
        MemoryStore.set_get ht]

theorem put_answered (payload : List UInt8) (s : Shared) : wrapped (PutHandler c payload s) =
    answered c ((decode c.putRequest payload).map .put) s := by
  refine handler_answered .put (fun r _ => .ok r) (fun s payload => ?_) (fun r s => ?_) payload s
  · cases decode c.putRequest payload with
    | error e => rfl
    | ok r =>
      simp only [validate, bind, Except.bind]
      cases validateName r.table "table" <;> cases validateNotMetadataTable r.table "write" <;>
        cases validateKey r.key <;> cases validateValue r.value <;> rfl
  · simp [wrapped, handler, MemoryStore.create_eq, MemoryStore.share_eq_set, MemoryStore.set_set, publishEvent,
      perform, act, events, event?, table, Outcome.andThen, Except.map]

theorem update_answered (payload : List UInt8) (s : Shared) : wrapped (UpdateHandler c payload s) =
    answered c ((decode c.updateRequest payload).map .update) s := by
  refine handler_answered .update (fun r s => (existing s r.table).map fun t => (r, t)) (fun s payload => ?_)
    (fun r s => ?_) payload s
  · cases decode c.updateRequest payload with
    | error e => rfl
    | ok r =>
      simp only [validate, bind, Except.bind]
      cases validateName r.table "table" <;> cases validateNotMetadataTable r.table "update" <;>
        cases validateKey r.key <;> cases validateValue r.value <;> cases existing s r.table <;> rfl
  · cases ht : s.store.get r.table <;>
      simp [wrapped, handler, existing_eq, ht, perform, act, events, event?, table, publishEvent, Outcome.andThen,
        Except.map, MemoryStore.set_get ht, MemoryStore.share_eq_set]

theorem delete_answered (payload : List UInt8) (s : Shared) : wrapped (DeleteHandler c payload s) =
    answered c ((decode c.deleteRequest payload).map .delete) s := by
  refine handler_answered .delete (fun r s => (existing s r.table).map fun t => (r, t)) (fun s payload => ?_)
    (fun r s => ?_) payload s
  · cases decode c.deleteRequest payload with
    | error e => rfl
    | ok r =>
      simp only [validate, bind, Except.bind]
      cases validateName r.table "table" <;> cases validateNotMetadataTable r.table "delete" <;>
        cases validateKey r.key <;> cases existing s r.table <;> rfl
  · cases ht : s.store.get r.table <;>
      simp [wrapped, handler, existing_eq, ht, perform, act, events, event?, table, publishEvent, Outcome.andThen,
        Except.map, MemoryStore.set_get ht, MemoryStore.share_eq_set]

theorem contains_answered (payload : List UInt8) (s : Shared) : wrapped (ContainsHandler c payload s) =
    answered c ((decode c.containsRequest payload).map .contains) s := by
  refine handler_answered .contains (fun r _ => .ok r) (fun s payload => ?_) (fun r s => ?_) payload s
  · cases decode c.containsRequest payload with
    | error e => rfl
    | ok r =>
      simp only [validate, bind, Except.bind]
      cases validateName r.table "table" <;> cases validateKey r.key <;> rfl
  · simp [wrapped, handler, perform, act, events, event?, table, Outcome.andThen, Except.map,
      MemoryStore.set_get (s := s.store) rfl]

theorem addTable_answered (payload : List UInt8) (s : Shared) : wrapped (AddTableHandler c payload s) =
    answered c ((decode c.addTableRequest payload).map .addTable) s := by
  refine handler_answered .addTable
    (fun r s => if (s.store.get r.table).isSome then .error (.InternalError "table already exists") else .ok r)
    (fun s payload => ?_) (fun r s => ?_) payload s
  · cases decode c.addTableRequest payload with
    | error e => rfl
    | ok r =>
      simp only [validate, bind, Except.bind]
      cases validateName r.table "table" <;> cases validateNotMetadataTable r.table "create" <;>
        cases s.store.get r.table <;> rfl
  · cases ht : s.store.get r.table <;>
      simp [wrapped, handler, ht, MemoryStore.create_eq, perform, act, events, event?, table, Outcome.andThen,
        Except.map, MemoryStore.set_get ht]

theorem removeTable_answered (payload : List UInt8) (s : Shared) : wrapped (RemoveTableHandler c payload s) =
    answered c ((decode c.removeTableRequest payload).map .removeTable) s := by
  refine handler_answered .removeTable (fun r _ => .ok r) (fun s payload => ?_) (fun r s => ?_) payload s
  · cases decode c.removeTableRequest payload with
    | error e => rfl
    | ok r =>
      simp only [validate, bind, Except.bind]
      cases validateName r.table "table" <;> cases validateNotMetadataTable r.table "remove" <;> rfl
  · simp [wrapped, handler, MemoryStore.remove_eq_set, perform, act, events, event?, table, Outcome.andThen,
      Except.map]

theorem getHandler_get : (buildActions c).getHandler "get" = some (GetHandler c) := by
  simp [buildActions, Actions.getHandler_registerAction_of_ne]

theorem getHandler_put : (buildActions c).getHandler "put" = some (PutHandler c) := by
  simp [buildActions, Actions.getHandler_registerAction_of_ne]

theorem getHandler_update : (buildActions c).getHandler "update" = some (UpdateHandler c) := by
  simp [buildActions, Actions.getHandler_registerAction_of_ne]

theorem getHandler_delete : (buildActions c).getHandler "delete" = some (DeleteHandler c) := by
  simp [buildActions, Actions.getHandler_registerAction_of_ne]

theorem getHandler_contains : (buildActions c).getHandler "contains" = some (ContainsHandler c) := by
  simp [buildActions, Actions.getHandler_registerAction_of_ne]

theorem getHandler_addTable : (buildActions c).getHandler "add_table" = some (AddTableHandler c) := by
  simp [buildActions, Actions.getHandler_registerAction_of_ne]

theorem getHandler_removeTable : (buildActions c).getHandler "remove_table" = some (RemoveTableHandler c) := by
  simp [buildActions]

theorem getHandler_other {action : String} (hget : action ≠ "get") (hput : action ≠ "put") (hupdate : action ≠ "update")
    (hdelete : action ≠ "delete") (hcontains : action ≠ "contains") (hadd : action ≠ "add_table")
    (hremove : action ≠ "remove_table") : (buildActions c).getHandler action = none := by
  unfold buildActions
  rw [Actions.getHandler_registerAction_of_ne _ _ hremove, Actions.getHandler_registerAction_of_ne _ _ hadd,
    Actions.getHandler_registerAction_of_ne _ _ hcontains, Actions.getHandler_registerAction_of_ne _ _ hdelete,
    Actions.getHandler_registerAction_of_ne _ _ hupdate, Actions.getHandler_registerAction_of_ne _ _ hput,
    Actions.getHandler_registerAction_of_ne _ _ hget]
  rfl

theorem dispatch_wrapped {request : RequestEnvelope} {h : Handler Shared} (s : Shared)
    (hget : (buildActions c).getHandler request.action = some h) :
    (buildActions c).dispatch request s = wrapped (h request.payload s) := by
  unfold Actions.dispatch wrapped
  rw [hget]

theorem dispatch_answered (request : RequestEnvelope) (s : Shared) :
    (buildActions c).dispatch request s = answered c (decoded c request) s := by
  generalize hd : decoded c request = d
  unfold decoded at hd
  split at hd <;> subst hd
  · next h => exact (dispatch_wrapped s (by rw [h]; exact getHandler_get)).trans (get_answered _ _)
  · next h => exact (dispatch_wrapped s (by rw [h]; exact getHandler_put)).trans (put_answered _ _)
  · next h => exact (dispatch_wrapped s (by rw [h]; exact getHandler_update)).trans (update_answered _ _)
  · next h => exact (dispatch_wrapped s (by rw [h]; exact getHandler_delete)).trans (delete_answered _ _)
  · next h => exact (dispatch_wrapped s (by rw [h]; exact getHandler_contains)).trans (contains_answered _ _)
  · next h => exact (dispatch_wrapped s (by rw [h]; exact getHandler_addTable)).trans (addTable_answered _ _)
  · next h => exact (dispatch_wrapped s (by rw [h]; exact getHandler_removeTable)).trans (removeTable_answered _ _)
  · next hget hput hupdate hdelete hcontains hadd hremove =>
    unfold Actions.dispatch
    rw [getHandler_other hget hput hupdate hdelete hcontains hadd hremove]
    rfl

theorem handleRequest_parse (request : RequestEnvelope) (s : Shared) : (buildActions c).handleRequest request s =
    match parse c request with
    | .error e => (.error e, s)
    | .ok r => r.perform c s := by
  rw [Actions.handleRequest_eq, dispatch_answered]
  unfold answered parse
  cases decoded c request with
  | error e => rfl
  | ok r => simp only [bind, Except.bind]; cases r.validate <;> rfl

end Handled

/-! ## What the checks admit -/

namespace Request

theorem bind_ok {x y : Except TransportError Unit} : (x.bind fun _ => y) = .ok () ↔ x = .ok () ∧ y = .ok () := by
  cases x with
  | error e => simp [Except.bind]
  | ok u => simp [Except.bind]

/-- The key of a request that has one. -/
def key? : Request → Option String
  | .get r => some r.key
  | .put r => some r.key
  | .update r => some r.key
  | .delete r => some r.key
  | .contains r => some r.key
  | .addTable _ | .removeTable _ => none

/-- The request may change a table or the registry. -/
def writes : Request → Bool
  | .get _ | .contains _ => false
  | _ => true

variable {r : Request}

theorem validate_table (h : r.validate = .ok ()) : validateName r.table "table" = .ok () := by
  cases r <;> exact (bind_ok.mp h).1

theorem validate_key (h : r.validate = .ok ()) {key : String} (hkey : r.key? = some key) :
    validateKey key = .ok () := by
  cases r with
  | get r | contains r =>
    obtain rfl := Option.some.inj hkey
    exact (bind_ok.mp h).2
  | put r | update r =>
    obtain rfl := Option.some.inj hkey
    exact (bind_ok.mp (bind_ok.mp (bind_ok.mp h).2).2).1
  | delete r =>
    obtain rfl := Option.some.inj hkey
    exact (bind_ok.mp (bind_ok.mp h).2).2
  | addTable r | removeTable r => cases hkey

theorem validateNotMetadataTable_ok {name action : String} :
    validateNotMetadataTable name action = .ok () ↔ name ≠ METADATA_TABLE := by
  simp [validateNotMetadataTable, isMetadataTable]

theorem validate_writes (h : r.validate = .ok ()) (hwrites : r.writes = true) : r.table ≠ METADATA_TABLE := by
  cases r with
  | get r | contains r => cases hwrites
  | put r | update r | delete r => exact validateNotMetadataTable_ok.mp (bind_ok.mp (bind_ok.mp h).2).1
  | addTable r | removeTable r => exact validateNotMetadataTable_ok.mp (bind_ok.mp h).2

theorem parse_ok {c : Codecs} {request : RequestEnvelope} (h : parse c request = .ok r) : r.validate = .ok () := by
  unfold parse at h
  cases hd : decoded c request with
  | error e => simp [hd, bind, Except.bind] at h
  | ok r' =>
    cases hv : r'.validate with
    | error e => simp [hd, hv, bind, Except.bind] at h
    | ok u =>
      simp only [hd, hv, bind, Except.bind] at h
      cases h
      exact hv

theorem parse_of_decoded {c : Codecs} {request : RequestEnvelope} (hd : decoded c request = .ok r)
    (hv : r.validate = .ok ()) : parse c request = .ok r := by
  simp only [parse, hd, bind, Except.bind, hv]
  rfl

theorem act_some (c : Codecs) (hkey : r.key? ≠ none) (t : Table) : (r.act c (some t)).2 = some (r.apply t) := by
  cases r with
  | addTable r | removeTable r => exact absurd rfl hkey
  | _ => rfl

theorem act_changes (c : Codecs) (hevent : r.event? ≠ none) (t t' : Table) :
    (r.act c (some t)).1 = (r.act c (some t')).1 := by
  cases r with
  | put r | update r | delete r => rfl
  | _ => exact absurd rfl hevent

theorem act_reads (c : Codecs) (h : r.writes = false) (t : Option Table) : (r.act c t).2 = t := by
  cases r with
  | get r => cases t <;> rfl
  | contains r => rfl
  | _ => cases h

end Request

/-! ## One request after another -/

section Serve

variable (c : Codecs)

/-- The state after a request, whatever its response. -/
def after (request : RequestEnvelope) (s : Shared) : Shared := ((buildActions c).handleRequest request s).2

def serve (requests : List RequestEnvelope) (s : Shared) : Shared :=
  requests.foldl (fun s request => after c request s) s

theorem after_eq (request : RequestEnvelope) (s : Shared) : after c request s =
    match Request.parse c request with
    | .error _ => s
    | .ok r => (r.perform c s).2 := by
  unfold after
  rw [handleRequest_parse]
  cases Request.parse c request <;> rfl

theorem serve_snoc (requests : List RequestEnvelope) (request : RequestEnvelope) (s : Shared) :
    serve c (requests ++ [request]) s = after c request (serve c requests s) := by
  simp [serve]

variable {c} {Inv P : Shared → Prop} {Good : RequestEnvelope → Shared → Prop}

theorem serve_iff (hinv : ∀ request s, Inv s → Inv (after c request s))
    (hstep : ∀ request s, Inv s → P s → (P (after c request s) ↔ Good request s)) {s : Shared} (hs : Inv s) (h0 : P s)
    (requests : List RequestEnvelope) :
    (∀ p, p <+: requests → P (serve c p s)) ↔
      ∀ p request, p ++ [request] <+: requests → Good request (serve c p s) := by
  have hreach : ∀ p, Inv (serve c p s) := fun p => by
    induction p using List.reverseRecOn with
    | nil => exact hs
    | append_singleton p request ih => exact serve_snoc c p request s ▸ hinv _ _ ih
  constructor
  · intro h p request hp
    refine (hstep request _ (hreach p) (h p ((List.prefix_append _ _).trans hp))).mp ?_
    exact serve_snoc c p request s ▸ h _ hp
  · intro h p
    induction p using List.reverseRecOn with
    | nil => exact fun _ => h0
    | append_singleton p request ih =>
      intro hp
      rw [serve_snoc]
      exact (hstep request _ (hreach p) (ih ((List.prefix_append _ _).trans hp))).mpr (h p request hp)

theorem forall_prefix_iff {α : Type} {Q : α → Prop} {l : List α} : (∀ p a, p ++ [a] <+: l → Q a) ↔ ∀ a ∈ l, Q a := by
  constructor
  · intro h a ha
    obtain ⟨p, rest, rfl⟩ := List.append_of_mem ha
    exact h p a ⟨rest, by simp⟩
  · intro h p a hp
    exact h a (hp.subset (by simp))

end Serve

end TrenchDb.Storage
