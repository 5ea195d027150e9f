import Mathlib.Data.Finmap
import TrenchDb.Transport.Frame

/-!
# Streams and inbound stream frames

`transport/src/tcp/stream.rs` and `transport/src/tcp/receiver.rs`. Windows are `i64`
in the source and `Int` here; only `apply_window_increment` saturates there.
-/

open TrenchDb.Lib.BigEndian

namespace TrenchDb.Transport

def DEFAULT_WINDOW : Int := 65536

/-- `i64::MAX`. -/
def I64_MAX : Int := 9223372036854775807

/-! ## Stream states -/

inductive StreamState where
  | Open
  | HalfClosedLocal
  | HalfClosedRemote
  | Closed
  | Reset
  deriving DecidableEq, Repr

namespace StreamState

def canSend : StreamState → Bool
  | .Open | .HalfClosedRemote => true
  | _ => false

def canReceive : StreamState → Bool
  | .Open | .HalfClosedLocal => true
  | _ => false

def isClosed : StreamState → Bool
  | .Closed | .Reset => true
  | _ => false

end StreamState

/-! ## One stream -/

structure Stream where
  id : UInt32
  state : StreamState
  sendWindow : Int
  recvWindow : Int
  recvQueue : List (List UInt8)
  deriving DecidableEq, Repr

namespace Stream

def new (id : UInt32) : Stream :=
  { id, state := .Open, sendWindow := DEFAULT_WINDOW, recvWindow := DEFAULT_WINDOW, recvQueue := [] }

def checkSendWindow (s : Stream) (byteCount : Nat) : Except TransportError Unit :=
  if s.sendWindow < byteCount then .error (.FlowControlViolation s.id) else .ok ()

/-- Deducts, then clamps to 0. -/
def consumeSendWindow (s : Stream) (byteCount : Nat) : Stream :=
  { s with sendWindow := if s.sendWindow - byteCount < 0 then 0 else s.sendWindow - byteCount }

theorem sendWindow_consume {s : Stream} {n : Nat} (h : (n : Int) ≤ s.sendWindow) :
    (s.consumeSendWindow n).sendWindow = s.sendWindow - n := by
  unfold consumeSendWindow
  rw [if_neg (by omega)]

/-- `saturating_add`; an increment is never negative. -/
def applyWindowIncrement (s : Stream) (increment : UInt32) : Stream :=
  { s with sendWindow := min (s.sendWindow + increment.toNat) I64_MAX }

/-- Deducts from the window, clamped to 0, and enqueues. -/
def pushRecv (s : Stream) (payload : List UInt8) : Stream :=
  { s with
    recvWindow := if s.recvWindow - payload.length < 0 then 0 else s.recvWindow - payload.length
    recvQueue := s.recvQueue ++ [payload] }

def popRecv (s : Stream) : Option (List UInt8) × Stream :=
  match s.recvQueue with
  | [] => (none, s)
  | payload :: rest =>
    (some payload, { s with recvWindow := s.recvWindow + payload.length, recvQueue := rest })

theorem popRecv_none {s rest : Stream} (h : s.popRecv = (none, rest)) : s.recvQueue = [] := by
  unfold popRecv at h
  split at h
  · assumption
  · simp at h

theorem popRecv_some {s rest : Stream} {payload : List UInt8} (h : s.popRecv = (some payload, rest)) :
    s.recvQueue = payload :: rest.recvQueue ∧
      rest = { s with recvWindow := s.recvWindow + payload.length, recvQueue := rest.recvQueue } := by
  unfold popRecv at h
  split at h <;> simp only [Prod.mk.injEq, reduceCtorEq, false_and, Option.some.injEq] at h
  obtain ⟨rfl, rfl⟩ := h
  exact ⟨by assumption, rfl⟩

/-- We sent a `CLOSE(FIN)` frame. -/
def onLocalClose (s : Stream) : Stream :=
  { s with state := match s.state with
    | .Open => .HalfClosedLocal
    | .HalfClosedRemote => .Closed
    | other => other }

/-- We received a `CLOSE(FIN)` frame. -/
def onRemoteClose (s : Stream) : Stream :=
  { s with state := match s.state with
    | .Open => .HalfClosedRemote
    | .HalfClosedLocal => .Closed
    | other => other }

def onReset (s : Stream) : Stream := { s with state := .Reset }

end Stream

/-! ## The stream map -/

/-- `HashMap<u32, Stream>`. -/
abbrev Streams := Finmap fun _ : UInt32 => Stream

inductive Role where
  | Initiator
  | Acceptor
  deriving DecidableEq, Repr

/-- The parity of the ids that the remote side opens. -/
def expectedParity : Role → UInt32
  | .Initiator => 0
  | .Acceptor => 1

def handleOpen (streams : Streams) (role : Role) (streamId : UInt32) : Outcome Streams Unit :=
  if streamId % 2 ≠ expectedParity role then
    (.error (.InvalidFrame ("remote opened stream " ++ toString streamId ++ " but parity is wrong")),
      streams)
  else if streamId ∈ streams then
    (.error (.InvalidFrame ("remote opened stream " ++ toString streamId ++ " but it already exists")),
      streams)
  else
    (.ok (), streams.insert streamId (Stream.new streamId))

def handleData (streams : Streams) (streamId : UInt32) (payload : List UInt8) : Outcome Streams Unit :=
  match streams.lookup streamId with
  | none => (.error (.UnknownStream streamId), streams)
  | some stream =>
    if ¬ stream.state.canReceive then
      (.error (.InvalidFrame ("Data frame on non-receivable stream " ++ toString streamId)), streams)
    else
      (.ok (), streams.insert streamId (stream.pushRecv payload))

def handleClose (streams : Streams) (streamId : UInt32) : Outcome Streams Unit :=
  match streams.lookup streamId with
  | none => (.error (.UnknownStream streamId), streams)
  | some stream =>
    let stream := stream.onRemoteClose
    if stream.state = .Closed then
      (.ok (), streams.erase streamId)
    else
      (.ok (), streams.insert streamId stream)

def handleReset (streams : Streams) (streamId : UInt32) : Streams := streams.erase streamId

def handleWindow (streams : Streams) (streamId : UInt32) (payload : List UInt8) : Outcome Streams Unit :=
  match streams.lookup streamId with
  | none => (.error (.UnknownStream streamId), streams)
  | some stream =>
    if payload.length ≠ 4 then
      (.error (.InvalidFrame "Window frame payload must be exactly 4 bytes"), streams)
    else
      (.ok (), streams.insert streamId (stream.applyWindowIncrement (UInt32.ofNat (ofBE payload))))

end TrenchDb.Transport
