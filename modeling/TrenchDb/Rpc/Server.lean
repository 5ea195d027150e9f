import TrenchDb.Rpc.Envelope
import TrenchDb.Transport.Session

/-!
# The server

`ResilientServer::run` in `transport/src/server/resilient_server.rs`, as a program.
-/

open TrenchDb.Transport

namespace TrenchDb.Rpc

/-- Where `run` stands. With `responding` the handler has returned. -/
inductive Serving where
  | listening
  | reading (streamId : UInt32)
  | responding (streamId : UInt32) (responsePayload : List UInt8)
  | closing (streamId : UInt32)
  | flushing
  | stopped (result : Except TransportError Unit)
  deriving DecidableEq

/-- The server, with the state of its handlers. `handled` records what they were given and returned. -/
structure Server (σ : Type) where
  phase : Serving
  store : σ
  handled : List (RequestEnvelope × ResponseEnvelope)

namespace Server

variable {σ : Type}

def start (store : σ) : Server σ := { phase := .listening, store, handled := [] }

def demand (v : Server σ) : Demand :=
  match v.phase with
  | .listening => .recvFrame
  | .reading s => .call (.recvData s)
  | .responding s payload => .call (.sendData s payload)
  | .closing s => .call (.closeStream s)
  | .flushing => .call .flush
  | .stopped _ => .gone

/-- The match on the type of a received frame. -/
def received (v : Server σ) : Except TransportError Frame → Server σ
  | .error .ConnectionClosed => { v with phase := .stopped (.ok ()) }
  | .error e => { v with phase := .stopped (.error e) }
  | .ok frame =>
    match frame.header.frameType with
    | .Data => { v with phase := .reading frame.header.streamId }
    | .Error =>
      match ErrorPayload.decode frame.payload with
      | .error e =>
        { v with phase := .stopped (.error (.InternalError ("Failed to decode error frame: " ++ e.display))) }
      | .ok p => { v with phase := .stopped (.error (.RemoteError p.errorCode p.streamId p.message)) }
    | _ => v

/-- What `run` does with the payload that `recv_data` returned. -/
def handle (b : Envelopes) (a : Actions σ) (v : Server σ) (s : UInt32) (payload : List UInt8) : Server σ :=
  if payload = [] then
    { v with phase := .listening }
  else
    match b.request.byteDeserialize payload with
    | .error e => { v with phase := .stopped (.error (.InternalError ("Failed to deserialize request: " ++ e))) }
    | .ok request =>
      match a.handleRequest request v.store with
      | (.error e, store) => { v with phase := .stopped (.error e), store }
      | (.ok response, store) =>
        { phase := .responding s (b.response.byteSerialize response), store,
          handled := v.handled ++ [(request, response)] }

def replied (b : Envelopes) (a : Actions σ) (v : Server σ) : Reply → Server σ
  | .error e => { v with phase := .stopped (.error e) }
  | .ok answer =>
    match v.phase, answer with
    | .reading s, .data payload => v.handle b a s (payload.getD [])
    | .responding s _, .done => { v with phase := .closing s }
    | .closing _, .done => { v with phase := .flushing }
    | .flushing, .done => { v with phase := .listening }
    -- No method answers in another way.
    | _, _ => { v with phase := .stopped (.ok ()) }

/-- `ResilientServer::run`. -/
def run (b : Envelopes) (a : Actions σ) : Program (Server σ) :=
  { demand, replied := replied b a, received }

/-- Nothing is buffered while the server listens, or is about to look for data. -/
def Quiet (v : Server σ) : Prop := v.phase = .listening ∨ ∃ s, v.phase = .reading s

theorem run_polite (b : Envelopes) (a : Actions σ) : (run b a).Polite Quiet := by
  refine ⟨fun v hd => ?_, fun v hd => ?_, fun v c reply hd hq => ?_⟩
  · cases hp : v.phase <;> simp [run, demand, hp] at hd
    exact .inl hp
  · cases hp : v.phase <;> simp [run, demand, hp] at hd
  · rcases reply with e | answer
    · rcases hq with h | ⟨_, h⟩ <;> cases h
    · unfold run replied at hq
      cases hp : v.phase <;> cases answer <;> simp [run, demand, hp, Quiet] at hd hq
      case reading.data s payload =>
        refine .inr (.inr ⟨.inr ⟨s, hp⟩, s, payload, hd.symm, rfl, ?_⟩)
        by_contra hne
        rw [handle, if_neg hne] at hq
        split at hq
        · simp at hq
        · split at hq <;> simp at hq
      case flushing.done => exact .inl hd.symm

end Server

end TrenchDb.Rpc
