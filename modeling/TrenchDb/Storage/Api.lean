import TrenchDb.Rpc.Envelope
import TrenchDb.Storage.Store

/-!
# The storage API

`trench/src/api`: the checks on names, keys and values, the requests and responses, and the handlers
that `build_actions` registers.
-/

open TrenchDb.Rpc TrenchDb.Transport

namespace TrenchDb.Storage

/-! ## Checks -/

def MAX_TABLE_NAME_LEN : Nat := 128
def MAX_KEY_NAME_LEN : Nat := 256
def MAX_VALUE_LEN : Nat := 4 * 1024 * 1024

def METADATA_TABLE : String := "__metadata"

/-- `'a'..='z' | 'A'..='Z' | '0'..='9' | '_' | '-' | '.'`. -/
def isNameChar (c : Char) : Bool :=
  ('a' ≤ c && c ≤ 'z') || ('A' ≤ c && c ≤ 'Z') || ('0' ≤ c && c ≤ '9') || c == '_' || c == '-' || c == '.'

/-- The checks that names and keys share. Lengths are in UTF-8 bytes. -/
def validateText (text field : String) (max : Nat) : Except TransportError Unit :=
  if text = "" then
    .error (.InternalError (field ++ " cannot be empty"))
  else if max < text.utf8ByteSize then
    .error (.InternalError (field ++ " is too long: max " ++ toString max ++ " bytes"))
  else if ¬ text.toList.all isNameChar then
    .error (.InternalError (field ++ " contains invalid characters"))
  else
    .ok ()

def validateName (name field : String) : Except TransportError Unit := validateText name field MAX_TABLE_NAME_LEN

def validateKey (key : String) : Except TransportError Unit := validateText key "key" MAX_KEY_NAME_LEN

def validateValue (value : List UInt8) : Except TransportError Unit :=
  if MAX_VALUE_LEN < value.length then
    .error (.InternalError ("value is too large: max " ++ toString MAX_VALUE_LEN ++ " bytes"))
  else
    .ok ()

def isMetadataTable (name : String) : Bool := name == METADATA_TABLE

def validateNotMetadataTable (name action : String) : Except TransportError Unit :=
  if isMetadataTable name then
    .error (.InternalError (action ++ " is not allowed on the reserved metadata table"))
  else
    .ok ()

theorem validateText_ok {text field : String} {max : Nat} : validateText text field max = .ok () ↔
    text ≠ "" ∧ text.utf8ByteSize ≤ max ∧ text.toList.all isNameChar = true := by
  unfold validateText
  split_ifs with hempty hlong hchars
  · simp [hempty]
  · simp [hlong]
  · simp [hempty, not_lt.mp hlong, hchars]
  · simp [hchars]

theorem validateText_error {text field : String} {max : Nat} {e : TransportError}
    (h : validateText text field max = .error e) : ∃ message, e = .InternalError (field ++ message) := by
  unfold validateText at h
  split_ifs at h
  all_goals obtain rfl := Except.error.inj h
  · exact ⟨_, rfl⟩
  · exact ⟨_, by rw [String.append_assoc, String.append_assoc]⟩
  · exact ⟨_, rfl⟩

/-! ## Requests and responses -/

structure GetRequest where
  table : String
  key : String

structure GetResponse where
  value : Option (List UInt8)

structure PutRequest where
  table : String
  key : String
  value : List UInt8

structure PutResponse where
  ok : Bool

structure UpdateRequest where
  table : String
  key : String
  value : List UInt8

structure UpdateResponse where
  ok : Bool

structure DeleteRequest where
  table : String
  key : String

structure DeleteResponse where
  ok : Bool

structure ContainsRequest where
  table : String
  key : String

structure ContainsResponse where
  «exists» : Bool

structure AddTableRequest where
  table : String

structure AddTableResponse where
  ok : Bool

structure RemoveTableRequest where
  table : String

structure RemoveTableResponse where
  ok : Bool

/-- The derived codecs. -/
structure Codecs where
  getRequest : Codec GetRequest
  getResponse : Codec GetResponse
  putRequest : Codec PutRequest
  putResponse : Codec PutResponse
  updateRequest : Codec UpdateRequest
  updateResponse : Codec UpdateResponse
  deleteRequest : Codec DeleteRequest
  deleteResponse : Codec DeleteResponse
  containsRequest : Codec ContainsRequest
  containsResponse : Codec ContainsResponse
  addTableRequest : Codec AddTableRequest
  addTableResponse : Codec AddTableResponse
  removeTableRequest : Codec RemoveTableRequest
  removeTableResponse : Codec RemoveTableResponse

def decode {α : Type} (c : Codec α) (payload : List UInt8) : Except TransportError α :=
  (c.byteDeserialize payload).mapError fun e => .InternalError ("decode failed: " ++ e)

def encode {α : Type} (c : Codec α) (value : α) : List UInt8 := c.byteSerialize value

theorem decode_encode {α : Type} {c : Codec α} (h : c.RoundTrips) {value : α}
    (hlt : (encode c value).length < 2 ^ 64) : decode c (encode c value) = .ok value := by
  rw [decode, encode, h value hlt]
  rfl

/-- What is assumed of the codecs that a `put` and a `get` use. -/
structure Codecs.RoundTrip (c : Codecs) : Prop where
  getRequest : c.getRequest.RoundTrips
  getResponse : c.getResponse.RoundTrips
  putRequest : c.putRequest.RoundTrips
  putResponse : c.putResponse.RoundTrips

/-! ## The handlers -/

/-- What the handlers share: the store, and the storage events published so far. -/
structure Shared where
  store : MemoryStore String (List UInt8)
  published : List (List UInt8)

def Shared.new : Shared := { store := .new, published := [] }

/-- The outcome of publishing is dropped. -/
def publishEvent (op table key : String) (s : Shared) : Shared :=
  { s with published := s.published ++ [asBytes (op ++ ":" ++ table ++ ":" ++ key)] }

/-- An existing table, or the error of the handlers. -/
def existing (s : Shared) (table : String) : Except TransportError (Collection String (List UInt8)) :=
  match s.store.get table with
  | none => .error (.InternalError "table not found")
  | some c => .ok c

/-- A handler fails before it changes anything. -/
def handler {α : Type} (check : Shared → List UInt8 → Except TransportError α)
    (run : α → Shared → List UInt8 × Shared) : Handler Shared := fun payload s =>
  match check s payload with
  | .error e => (.error e, s)
  | .ok request => (.ok (run request s).1, (run request s).2)

variable (c : Codecs)

def GetHandler : Handler Shared :=
  handler
    (fun s payload => do
      let request ← decode c.getRequest payload
      validateName request.table "table"
      validateKey request.key
      let table ← existing s request.table
      return (request, table))
    fun (request, table) s => (encode c.getResponse { value := table.get request.key }, s)

def PutHandler : Handler Shared :=
  handler
    (fun _ payload => do
      let request ← decode c.putRequest payload
      validateName request.table "table"
      validateNotMetadataTable request.table "write"
      validateKey request.key
      validateValue request.value
      return request)
    fun request s =>
      let (table, store) := s.store.create request.table
      let store := store.share request.table (table.insert request.key request.value)
      (encode c.putResponse { ok := true }, publishEvent "insert" request.table request.key { s with store })

def UpdateHandler : Handler Shared :=
  handler
    (fun s payload => do
      let request ← decode c.updateRequest payload
      validateName request.table "table"
      validateNotMetadataTable request.table "update"
      validateKey request.key
      validateValue request.value
      let table ← existing s request.table
      return (request, table))
    fun (request, table) s =>
      let store := s.store.share request.table (table.update request.key request.value)
      (encode c.updateResponse { ok := true }, publishEvent "update" request.table request.key { s with store })

def DeleteHandler : Handler Shared :=
  handler
    (fun s payload => do
      let request ← decode c.deleteRequest payload
      validateName request.table "table"
      validateNotMetadataTable request.table "delete"
      validateKey request.key
      let table ← existing s request.table
      return (request, table))
    fun (request, table) s =>
      let store := s.store.share request.table (table.remove request.key).2
      (encode c.deleteResponse { ok := true }, publishEvent "delete" request.table request.key { s with store })

def ContainsHandler : Handler Shared :=
  handler
    (fun _ payload => do
      let request ← decode c.containsRequest payload
      validateName request.table "table"
      validateKey request.key
      return request)
    fun request s =>
      let found := ((s.store.get request.table).map fun table => table.contains request.key).getD false
      (encode c.containsResponse { «exists» := found }, s)

def AddTableHandler : Handler Shared :=
  handler
    (fun s payload => do
      let request ← decode c.addTableRequest payload
      validateName request.table "table"
      validateNotMetadataTable request.table "create"
      if (s.store.get request.table).isSome then
        throw (.InternalError "table already exists")
      return request)
    fun request s => (encode c.addTableResponse { ok := true }, { s with store := (s.store.create request.table).2 })

def RemoveTableHandler : Handler Shared :=
  handler
    (fun _ payload => do
      let request ← decode c.removeTableRequest payload
      validateName request.table "table"
      validateNotMetadataTable request.table "remove"
      return request)
    fun request s =>
      let existed := (s.store.get request.table).isSome
      (encode c.removeTableResponse { ok := existed }, { s with store := s.store.remove request.table })

def buildActions : Actions Shared :=
  ((((((Actions.new.registerAction "get" (GetHandler c)).registerAction "put" (PutHandler c)).registerAction
    "update" (UpdateHandler c)).registerAction "delete" (DeleteHandler c)).registerAction
    "contains" (ContainsHandler c)).registerAction "add_table" (AddTableHandler c)).registerAction
    "remove_table" (RemoveTableHandler c)

/-- A handler that fails leaves everything as it was. -/
def FailsCleanly (h : Handler Shared) : Prop := ∀ payload s e, (h payload s).1 = .error e → (h payload s).2 = s

theorem handler_failsCleanly {α : Type} (check : Shared → List UInt8 → Except TransportError α)
    (run : α → Shared → List UInt8 × Shared) : FailsCleanly (handler check run) := by
  intro payload s e h
  unfold handler at h ⊢
  cases hc : check s payload with
  | error e => rfl
  | ok request =>
    rw [hc] at h
    cases h

theorem buildActions_failCleanly : (buildActions c).All FailsCleanly :=
  Actions.all_new |>.register _ (handler_failsCleanly _ _) |>.register _ (handler_failsCleanly _ _)
    |>.register _ (handler_failsCleanly _ _) |>.register _ (handler_failsCleanly _ _)
    |>.register _ (handler_failsCleanly _ _) |>.register _ (handler_failsCleanly _ _)
    |>.register _ (handler_failsCleanly _ _)

theorem handleRequest_error {request : RequestEnvelope} {s s' : Shared} {e : TransportError}
    (h : (buildActions c).handleRequest request s = (.error e, s')) : s' = s := by
  rw [Actions.handleRequest_eq, Actions.dispatch] at h
  cases hh : (buildActions c).getHandler request.action with
  | none =>
    rw [hh] at h
    exact (Prod.mk.inj h).2.symm
  | some handler =>
    have hclean := buildActions_failCleanly c _ _ hh request.payload s
    rcases ho : handler request.payload s with ⟨_ | _, s''⟩ <;> rw [ho] at hclean <;>
      simp only [hh, ho, Outcome.andThen, Prod.mk.injEq, reduceCtorEq, false_and] at h
    rw [← h.2]
    exact hclean _ rfl

end TrenchDb.Storage
