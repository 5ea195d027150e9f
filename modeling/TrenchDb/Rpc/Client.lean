import TrenchDb.Rpc.Envelope
import TrenchDb.Transport.Session

/-!
# The two clients

`send_request` of `trench-cli/src/client.rs` on one persistent manager, and
`ResilientClient::send_message` of `transport/src/client/resilient_client.rs`, which builds a new
manager for each call. Both start with `start_handshake` and share the exchange on one stream.
-/

open TrenchDb.Transport

namespace TrenchDb.Rpc

/-- `Box<dyn Error>`: the errors that the clients return. -/
inductive ClientError where
  | transport (e : TransportError)
  | io (kind message : String)
  | codec (message : String)
  deriving DecidableEq

/-! ## One exchange -/

/-- Where the exchange of one request and its response stands. -/
inductive Exchange where
  | opening
  | sending (streamId : UInt32)
  | closing (streamId : UInt32)
  | flushing (streamId : UInt32)
  | waiting (streamId : UInt32)
  deriving DecidableEq

/-- What the clients report when the server ends the stream without a response. -/
structure Refusals where
  closed : ClientError
  reset : UInt32 → ClientError

namespace Exchange

def demand (request : List UInt8) : Exchange → Demand
  | .opening => .call .openStream
  | .sending s => .call (.sendData s request)
  | .closing s => .call (.closeStream s)
  | .flushing _ => .call .flush
  | .waiting _ => .recvFrame

def replied : Exchange → Answer → Exchange
  | .opening, .opened s => .sending s
  | .sending s, .done => .closing s
  | .closing s, .done => .flushing s
  | .flushing s, .done => .waiting s
  -- No method answers in another way.
  | x, _ => x

/-- The loop over received frames: it goes on, or leaves with the payload of the response. -/
def received (r : Refusals) (s : UInt32) (frame : Frame) : Except ClientError (Option (List UInt8)) :=
  if frame.header.streamId ≠ s then
    .ok none
  else
    match frame.header.frameType with
    | .Data => .ok (some frame.payload)
    | .Close => .error r.closed
    | .Reset => .error (r.reset s)
    | .Error =>
      match ErrorPayload.decode frame.payload with
      | .error e => .error (.transport e)
      | .ok p => .error (.transport (.RemoteError p.errorCode p.streamId p.message))
    | _ => .ok none

end Exchange

/-! ## A sequence of requests -/

inductive Calling where
  | greeting
  | awaiting
  | exchanging (x : Exchange)
  /-- The manager was taken apart, its socket is kept. -/
  | reclaimed
  | finished
  | failed (e : ClientError)
  deriving DecidableEq

/-- A client that still has requests to send, and the results so far. -/
structure Client where
  todo : List RequestEnvelope
  results : List (Except ClientError ResponseEnvelope)
  phase : Calling

namespace Client

def demand (b : Envelopes) (c : Client) : Demand :=
  match c.phase with
  | .greeting => .call .startHandshake
  | .awaiting => .recvFrame
  | .exchanging x => x.demand ((c.todo.head?.map b.request.byteSerialize).getD [])
  | .reclaimed => .idle
  | .finished | .failed _ => .gone

/-- The next request, if there is one. -/
def proceed (c : Client) : Client :=
  { c with phase := if c.todo = [] then .finished else .exchanging .opening }

def fail (c : Client) (e : ClientError) : Client := { c with phase := .failed e }

def replied (c : Client) : Reply → Client
  | .error e => c.fail (.transport e)
  | .ok answer =>
    match c.phase with
    | .greeting => { c with phase := .awaiting }
    | .exchanging x => { c with phase := .exchanging (x.replied answer) }
    | _ => c

/-- `delivered` is what the client does with the payload of a response. -/
def received (r : Refusals) (delivered : Client → List UInt8 → Client) (c : Client) :
    Except TransportError Frame → Client
  | .error e => c.fail (.transport e)
  | .ok frame =>
    match c.phase with
    -- The loop of `start_handshake`; only a `Welcome` frame completes the handshake of an initiator.
    | .awaiting => if frame.header.frameType = .Welcome then c.proceed else c
    | .exchanging (.waiting s) =>
      match Exchange.received r s frame with
      | .error e => c.fail e
      | .ok none => c
      | .ok (some payload) => delivered c payload
    | _ => c

/-- A client, by what it reports and what it does with a response. -/
def program (b : Envelopes) (r : Refusals) (delivered : Client → List UInt8 → Client) : Program Client :=
  { demand := demand b, replied, received := received r delivered }

/-! ### `send_request` -/

def sendRequestRefusals : Refusals :=
  { closed := .transport .ConnectionClosed, reset := fun s => .transport (.StreamReset s) }

/-- The response is decoded in the loop; then comes the next request on the same manager. -/
def sendRequestDelivered (b : Envelopes) (c : Client) (payload : List UInt8) : Client :=
  match b.response.byteDeserialize payload with
  | .error e => c.fail (.transport (.InternalError ("Failed to deserialize response: " ++ e)))
  | .ok response => Client.proceed { c with todo := c.todo.tail, results := c.results ++ [.ok response] }

/-- `send_request` for each of the requests, on a manager that has just been connected. -/
def sendRequest (b : Envelopes) : Program Client := program b sendRequestRefusals (sendRequestDelivered b)

def connect (requests : List RequestEnvelope) : Client := { todo := requests, results := [], phase := .greeting }

/-! ### `ResilientClient::send_message` -/

def sendMessageRefusals : Refusals :=
  { closed := .io "BrokenPipe" "remote closed stream before sending response"
    reset := fun _ => .io "ConnectionReset" "stream was reset by remote" }

/-- The socket is stored back before the response is decoded. -/
def sendMessageDelivered (b : Envelopes) (c : Client) (payload : List UInt8) : Client :=
  { todo := c.todo.tail, phase := .reclaimed
    results := c.results ++ [(b.response.byteDeserialize payload).mapError .codec] }

/-- `send_message` for each of the requests. -/
def sendMessage (b : Envelopes) : Program Client := program b sendMessageRefusals (sendMessageDelivered b)

/-- The next `send_message` call, if there is one: it starts with a new manager. -/
def callAgain (c : Client) : Client := { c with phase := if c.todo = [] then .finished else .greeting }

/-- After `build_stream`. -/
def buildStream (requests : List RequestEnvelope) : Client :=
  { todo := requests, results := [], phase := .reclaimed }

/-! ### Flushing before waiting -/

def Quiet (c : Client) : Prop := c.phase = .awaiting ∨ (∃ s, c.phase = .exchanging (.waiting s)) ∨ c.phase = .reclaimed

theorem program_polite (b : Envelopes) (r : Refusals) (delivered : Client → List UInt8 → Client) :
    (program b r delivered).Polite Quiet := by
  refine ⟨fun c hd => ?_, fun c hd => ?_, fun c call reply hd hq => ?_⟩
  · rcases hp : c.phase with _ | _ | x | _ | _ | _ <;> simp [program, demand, hp] at hd
    · exact .inl hp
    · cases x <;> simp [Exchange.demand] at hd
      exact .inr (.inl ⟨_, hp⟩)
  · rcases hp : c.phase with _ | _ | x | _ | _ | _ <;> simp [program, demand, hp] at hd
    · cases x <;> simp [Exchange.demand] at hd
    · exact .inr (.inr hp)
  · cases reply with
    | error e => rcases hq with h | ⟨_, h⟩ | h <;> simp [program, replied, fail] at h
    | ok answer =>
      rcases hp : c.phase with _ | _ | x | _ | _ | _ <;>
        simp [program, demand, replied, hp, Quiet] at hd hq
      · exact .inr (.inl hd.symm)
      · cases x <;> cases answer <;> simp [Exchange.demand, Exchange.replied] at hd hq
        exact .inl hd.symm

end Client

end TrenchDb.Rpc
