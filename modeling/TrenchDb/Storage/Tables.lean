import TrenchDb.Storage.Requests

/-!
# What the store is for

A store of tables is a map from names to maps from keys to values. The handlers implement
that map, request by request, with the same responses.
-/

open TrenchDb.Rpc TrenchDb.Transport

namespace TrenchDb.Storage

/-! ## Maps of maps -/

/-- The values under the keys of the tables. -/
abbrev Tables (κ ν : Type) : Type := κ → Option (κ → Option ν)

section Abstraction

variable {κ ν : Type} [DecidableEq κ]

/-- What is stored, without the versions. -/
def MemoryStore.tables (s : MemoryStore κ ν) : Tables κ ν := fun table => (s.get table).map Collection.get

variable {s s' : MemoryStore κ ν} {c : Collection κ ν} {t : Option (Collection κ ν)} {table key : κ} {value : ν}

theorem Collection.get_new_eq : (new : Collection κ ν).get = fun _ => none := funext fun _ => get_new

theorem Collection.get_insert_eq : (c.insert key value).get = Function.update c.get key (some value) := by
  funext key'
  by_cases h : key' = key
  · rw [h, get_insert, Function.update_self]
  · rw [get_insert_of_ne h, Function.update_of_ne h]

theorem Collection.get_update_eq : (c.update key value).get = Function.update c.get key (some value) := by
  funext key'
  by_cases h : key' = key
  · rw [h, get_update, Function.update_self]
  · rw [get_update_of_ne h, Function.update_of_ne h]

theorem Collection.get_remove_eq : (c.remove key).2.get = Function.update c.get key none := by
  funext key'
  by_cases h : key' = key
  · rw [h, get_remove, Function.update_self]
  · rw [get_remove_of_ne h, Function.update_of_ne h]

theorem Collection.contains_eq : c.contains key = (c.get key).isSome := by
  rw [contains, get, Option.isSome_map]

theorem MemoryStore.tables_set : (s.set table t).tables = Function.update s.tables table (t.map Collection.get) := by
  funext table'
  by_cases h : table' = table
  · rw [h, tables, get_set, Function.update_self]
  · rw [tables, get_set_of_ne h, Function.update_of_ne h, tables]

end Abstraction

/-! ## What the requests mean -/

/-- What a request is told. -/
inductive Result where
  | value (value : Option (List UInt8))
  | done (ok : Bool)
  | found («exists» : Bool)
  deriving DecidableEq

namespace Request

/-- What a request means for its table: its result, or `none` if it is refused, and the table it leaves. -/
def effect : Request → Option (String → Option (List UInt8)) →
    Option Result × Option (String → Option (List UInt8))
  | .get r, some values => (some (.value (values r.key)), some values)
  | .get _, none => (none, none)
  | .put r, t => (some (.done true), some (Function.update (t.getD fun _ => none) r.key (some r.value)))
  | .update r, some values => (some (.done true), some (Function.update values r.key (some r.value)))
  | .update _, none => (none, none)
  | .delete r, some values => (some (.done true), some (Function.update values r.key none))
  | .delete _, none => (none, none)
  | .contains r, t => (some (.found (t.bind fun values => values r.key).isSome), t)
  | .addTable _, some values => (none, some values)
  | .addTable _, none => (some (.done true), some fun _ => none)
  | .removeTable _, t => (some (.done t.isSome), none)

def meaning (r : Request) (t : Tables String (List UInt8)) : Option Result × Tables String (List UInt8) :=
  ((r.effect (t r.table)).1, Function.update t r.table (r.effect (t r.table)).2)

variable (c : Codecs)

/-- The response with this result. -/
def response : Request → Result → List UInt8
  | .get _, .value value => encode c.getResponse { value }
  | .put _, .done ok => encode c.putResponse { ok }
  | .update _, .done ok => encode c.updateResponse { ok }
  | .delete _, .done ok => encode c.deleteResponse { ok }
  | .contains _, .found «exists» => encode c.containsResponse { «exists» }
  | .addTable _, .done ok => encode c.addTableResponse { ok }
  | .removeTable _, .done ok => encode c.removeTableResponse { ok }
  | _, _ => []

/-- Why a request is refused that its table does not suit. -/
def refusal : Request → TransportError
  | .addTable _ => .InternalError "table already exists"
  | _ => .InternalError "table not found"

/-- What is answered. -/
def answer (r : Request) (result : Option Result) : Except TransportError (List UInt8) :=
  match result with
  | some result => .ok (r.response c result)
  | none => .error r.refusal

theorem act_refines (r : Request) (t : Option Table) :
    (r.act c t).1 = r.answer c (r.effect (t.map Collection.get)).1 ∧
      (r.act c t).2.map Collection.get = (r.effect (t.map Collection.get)).2 := by
  cases r with
  | get q => cases t <;> exact ⟨rfl, rfl⟩
  | put q =>
    refine ⟨rfl, congrArg some ?_⟩
    rw [Collection.get_insert_eq]
    cases t with
    | none => exact congrArg (fun values => Function.update values _ _) Collection.get_new_eq
    | some t => rfl
  | update q =>
    cases t with
    | none => exact ⟨rfl, rfl⟩
    | some t => exact ⟨rfl, congrArg some Collection.get_update_eq⟩
  | delete q =>
    cases t with
    | none => exact ⟨rfl, rfl⟩
    | some t => exact ⟨rfl, congrArg some Collection.get_remove_eq⟩
  | contains q =>
    cases t with
    | none => exact ⟨rfl, rfl⟩
    | some t =>
      refine ⟨?_, rfl⟩
      simp only [act, answer, effect, response, Option.map_some, Option.getD_some, Option.bind_some,
        Collection.contains_eq]
  | addTable q =>
    cases t with
    | none => exact ⟨rfl, congrArg some Collection.get_new_eq⟩
    | some t => exact ⟨rfl, rfl⟩
  | removeTable q => cases t <;> exact ⟨rfl, rfl⟩

end Request

/-! ## The handlers implement the map -/

/-- A request as the map sees it. -/
def Tables.handle (c : Codecs) (request : RequestEnvelope) (t : Tables String (List UInt8)) :
    Except TransportError ResponseEnvelope × Tables String (List UInt8) :=
  match Request.parse c request with
  | .error e => (.error e, t)
  | .ok r => ((r.answer c (r.meaning t).1).map ResponseEnvelope.mk, (r.meaning t).2)

variable {c : Codecs}

theorem handle_refines (request : RequestEnvelope) (s : Shared) :
    ((buildActions c).handleRequest request s).1 = (Tables.handle c request s.store.tables).1 ∧
      (after c request s).store.tables = (Tables.handle c request s.store.tables).2 := by
  rw [after, handleRequest_parse, Tables.handle]
  cases Request.parse c request with
  | error e => exact ⟨rfl, rfl⟩
  | ok r =>
    obtain ⟨hanswer, htable⟩ := r.act_refines c (s.store.get r.table)
    refine ⟨congrArg (Except.map ResponseEnvelope.mk) hanswer, ?_⟩
    show (s.store.set r.table (r.act c (s.store.get r.table)).2).tables = _
    rw [MemoryStore.tables_set, htable]
    rfl

/-- The responses to requests that come one after another. -/
def replies (c : Codecs) : List RequestEnvelope → Shared → List (Except TransportError ResponseEnvelope)
  | [], _ => []
  | request :: requests, s =>
    ((buildActions c).handleRequest request s).1 :: replies c requests (after c request s)

/-- The same requests as the map sees them. -/
def Tables.run (c : Codecs) : List RequestEnvelope → Tables String (List UInt8) →
    List (Except TransportError ResponseEnvelope) × Tables String (List UInt8)
  | [], t => ([], t)
  | request :: requests, t =>
    ((Tables.handle c request t).1 :: (run c requests (Tables.handle c request t).2).1,
      (run c requests (Tables.handle c request t).2).2)

/-- Whatever the requests, the store answers them like a map from names to maps from keys to values,
and then holds what that map holds. -/
theorem refines_tables (c : Codecs) (requests : List RequestEnvelope) (s : Shared) :
    replies c requests s = (Tables.run c requests s.store.tables).1 ∧
      (serve c requests s).store.tables = (Tables.run c requests s.store.tables).2 := by
  induction requests generalizing s with
  | nil => exact ⟨rfl, rfl⟩
  | cons request requests ih =>
    obtain ⟨hreply, htables⟩ := @handle_refines c request s
    obtain ⟨hreplies, hserve⟩ := ih (after c request s)
    rw [htables] at hreplies hserve
    exact ⟨congrArg₂ List.cons hreply hreplies, hserve⟩

/-! ## Once more -/

namespace Request

theorem effect_again (r : Request) (t : Option (String → Option (List UInt8))) :
    (r.effect (r.effect t).2).2 = (r.effect t).2 := by
  cases r <;> cases t <;> simp [effect]

theorem effect_repeats (r : Request) (t : Option (String → Option (List UInt8))) {result : Result}
    (h : (r.effect (r.effect t).2).1 = some result) :
    (r.effect t).1 = some result ∨ ∃ q, r = .removeTable q ∧ t.isSome = true ∧ result = .done false := by
  cases r with
  | removeTable q =>
    cases t with
    | none => exact .inl h
    | some values => exact .inr ⟨q, rfl, rfl, (Option.some.inj h).symm⟩
  | get q | update q | delete q =>
    cases t with
    | none => cases h
    | some values => exact .inl h
  | put q | contains q => exact .inl h
  | addTable q => cases t <;> cases h

theorem meaning_refused {r : Request} {t : Tables String (List UInt8)} (h : (r.meaning t).1 = none) :
    (r.meaning t).2 = t := by
  have heffect : (r.effect (t r.table)).2 = t r.table := by
    simp only [meaning] at h
    cases r with
    | get q | update q | delete q | addTable q =>
      cases htable : t _ <;> rw [htable] at h <;> first | rfl | cases h
    | put q | contains q | removeTable q => cases h
  rw [meaning, heffect, Function.update_eq_self]

theorem meaning_again (r : Request) (t : Tables String (List UInt8)) :
    (r.meaning (r.meaning t).2).2 = (r.meaning t).2 := by
  simp only [meaning, Function.update_self, effect_again, Function.update_idem]

theorem meaning_repeats (r : Request) (t : Tables String (List UInt8)) {result : Result}
    (h : (r.meaning (r.meaning t).2).1 = some result) :
    (r.meaning t).1 = some result ∨ ∃ q, r = .removeTable q ∧ (t r.table).isSome = true ∧ result = .done false := by
  simp only [meaning, Function.update_self] at h ⊢
  exact r.effect_repeats _ h

end Request

end TrenchDb.Storage
