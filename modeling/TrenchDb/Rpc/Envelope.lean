import Mathlib.Data.Finmap
import TrenchDb.Transport.Stream

/-!
# Requests, responses and handlers

`transport/src/server/actions.rs` and `dispatcher.rs`. A handler may use shared state, which it
takes and returns.
-/

open TrenchDb.Transport

namespace TrenchDb.Rpc

/-! ## Serialization -/

/-- The `byteser` implementation of one type. The crate is not part of the repository. -/
structure Codec (α : Type) where
  byteSerialize : α → List UInt8
  byteDeserialize : List UInt8 → Except String α

/-- What is assumed of `byteser`: a value is read back from its encoding, if that fits into memory. -/
def Codec.RoundTrips {α : Type} (c : Codec α) : Prop :=
  ∀ a, (c.byteSerialize a).length < 2 ^ 64 → c.byteDeserialize (c.byteSerialize a) = .ok a

structure RequestEnvelope where
  action : String
  payload : List UInt8
  deriving DecidableEq, Repr

structure ResponseEnvelope where
  payload : List UInt8
  deriving DecidableEq, Repr

/-- The two codecs of a connection. -/
structure Envelopes where
  request : Codec RequestEnvelope
  response : Codec ResponseEnvelope

structure Envelopes.RoundTrip (b : Envelopes) : Prop where
  request : b.request.RoundTrips
  response : b.response.RoundTrips

/-- What is assumed of `byteser` on byte vectors: an envelope takes at least the room of its payload. -/
structure Envelopes.Covers (b : Envelopes) : Prop where
  request : ∀ e : RequestEnvelope, e.payload.length ≤ (b.request.byteSerialize e).length
  response : ∀ e : ResponseEnvelope, e.payload.length ≤ (b.response.byteSerialize e).length

/-- A payload that one `send_data` call on a fresh stream takes and sends. -/
def Fits (payload : List UInt8) : Prop := payload ≠ [] ∧ (payload.length : Int) ≤ DEFAULT_WINDOW

instance (payload : List UInt8) : Decidable (Fits payload) := by unfold Fits; infer_instance

theorem Fits.lt {payload : List UInt8} (h : Fits payload) : payload.length < 2 ^ 64 := by
  have := h.2
  unfold DEFAULT_WINDOW at this
  omega

theorem Fits.lt_of_le {payload : List UInt8} {n : Nat} (h : Fits payload) (hle : n ≤ payload.length) : n < 2 ^ 64 :=
  lt_of_le_of_lt hle h.lt

/-! ## Actions -/

/-- `Handler::call`, on the state that handlers share. -/
abbrev Handler (σ : Type) := List UInt8 → σ → Outcome σ (List UInt8)

structure Actions (σ : Type) where
  actionMap : Finmap fun _ : String => Handler σ

namespace Actions

variable {σ : Type}

def new : Actions σ := { actionMap := ∅ }

def registerAction (a : Actions σ) (actionName : String) (handler : Handler σ) : Actions σ :=
  { actionMap := a.actionMap.insert actionName handler }

def getHandler (a : Actions σ) (actionName : String) : Option (Handler σ) := a.actionMap.lookup actionName

@[simp] theorem getHandler_registerAction (a : Actions σ) (name : String) (handler : Handler σ) :
    (a.registerAction name handler).getHandler name = some handler := by
  simp [getHandler, registerAction]

theorem getHandler_registerAction_of_ne (a : Actions σ) {name name' : String} (handler : Handler σ)
    (h : name' ≠ name) : (a.registerAction name handler).getHandler name' = a.getHandler name' := by
  simp [getHandler, registerAction, h]

/-- All registered handlers have the property. -/
def All (P : Handler σ → Prop) (a : Actions σ) : Prop := ∀ name handler, a.getHandler name = some handler → P handler

theorem all_new {P : Handler σ → Prop} : (new : Actions σ).All P := by
  intro name handler h
  simp [getHandler, new] at h

theorem All.register {P : Handler σ → Prop} {a : Actions σ} (h : a.All P) (name : String) {handler : Handler σ}
    (hp : P handler) : (a.registerAction name handler).All P := by
  intro name' handler' h'
  by_cases hname : name' = name
  · subst hname
    rw [getHandler_registerAction] at h'
    exact Option.some.inj h' ▸ hp
  · rw [getHandler_registerAction_of_ne _ _ hname] at h'
    exact h name' handler' h'

/-- `Dispatcher::dispatch`. -/
def dispatch (a : Actions σ) (request : RequestEnvelope) (store : σ) : Outcome σ ResponseEnvelope :=
  match a.getHandler request.action with
  | some handler => (handler request.payload store).andThen fun payload store => (.ok { payload }, store)
  | none => (.error (.ActionNotFound request.action), store)

/-- `ResilientServer::handle_request`. -/
def handleRequest (a : Actions σ) (request : RequestEnvelope) (store : σ) : Outcome σ ResponseEnvelope :=
  (a.dispatch request store).andThen fun response store => (.ok { payload := response.payload }, store)

theorem handleRequest_eq (a : Actions σ) (request : RequestEnvelope) (store : σ) :
    a.handleRequest request store = a.dispatch request store := by
  unfold handleRequest Outcome.andThen
  rcases a.dispatch request store with ⟨_ | ⟨payload⟩, store'⟩ <;> rfl

/-- Handling the requests one after another succeeds, with these responses. -/
inductive Served (a : Actions σ) : σ → List RequestEnvelope → List ResponseEnvelope → σ → Prop
  | nil (store : σ) : Served a store [] [] store
  | cons {store store' store'' : σ} {request : RequestEnvelope} {response : ResponseEnvelope}
      {requests : List RequestEnvelope} {responses : List ResponseEnvelope} :
      a.handleRequest request store = (.ok response, store') → Served a store' requests responses store'' →
      Served a store (request :: requests) (response :: responses) store''

theorem Served.length_eq {a : Actions σ} {store store' : σ} {requests : List RequestEnvelope}
    {responses : List ResponseEnvelope} (h : a.Served store requests responses store') :
    requests.length = responses.length := by
  induction h with
  | nil => rfl
  | cons _ _ ih => rw [List.length_cons, List.length_cons, ih]

end Actions

end TrenchDb.Rpc
