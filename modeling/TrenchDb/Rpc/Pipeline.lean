import TrenchDb.Rpc.Answers

/-!
# Pipelined requests

A client sends requests on several streams of one connection and does not wait for the answers. The
server of `Answers`, fed with the bytes of that client in any chunks.
-/

open TrenchDb.Lib.Lts TrenchDb.Lib.Incremental TrenchDb.Transport

namespace TrenchDb.Rpc

/-! ## What the client sends -/

/-- A request is one `Data` frame. The client may close its side after it. -/
inductive Sent
  | opens (streamId : UInt32)
  | request (streamId : UInt32) (payload : List UInt8)
  | closes (streamId : UInt32)
  deriving DecidableEq, Repr

namespace Sent

def streamId : Sent → UInt32
  | .opens s => s
  | .request s _ => s
  | .closes s => s

def frame : Sent → Frame
  | .opens s => openFrame s
  | .request s payload => dataFrame s payload
  | .closes s => closeFrame s

def request? : Sent → Option (UInt32 × List UInt8)
  | .request s payload => some (s, payload)
  | .opens _ | .closes _ => none

end Sent

/-- How far the client is with a stream. -/
inductive Stage
  | unopened
  | opened
  | requested
  | closed
  deriving DecidableEq, Repr

/-- One request on each stream, of an id that the client may open and a size that a frame may have.
The frames of different streams may come in any order. -/
def Pipelined : (UInt32 → Stage) → List Sent → Prop
  | _, [] => True
  | stages, .opens s :: script =>
    s % 2 = 1 ∧ stages s = .unopened ∧ Pipelined (Function.update stages s .opened) script
  | stages, .request s payload :: script =>
    payload.length ≤ MAX_FRAME_SIZE ∧ stages s = .opened ∧ Pipelined (Function.update stages s .requested) script
  | stages, .closes s :: script => stages s = .requested ∧ Pipelined (Function.update stages s .closed) script

/-- The requests, in the order in which they arrive. -/
def requests (script : List Sent) : List (UInt32 × List UInt8) := script.filterMap Sent.request?

/-- The frames of the script, behind the handshake. -/
def pipelined (script : List Sent) : List Frame := helloFrame :: script.map Sent.frame

/-! ## What becomes of a request -/

/-- `refused` has a handler that succeeds, and a response that `send_data` refuses. -/
inductive Verdict
  | skipped
  | failed
  | refused
  | answered (response : List UInt8)
  deriving DecidableEq, Repr

namespace Verdict

/-- The handler of the request succeeds. -/
def succeeds : Verdict → Bool
  | .refused | .answered _ => true
  | .skipped | .failed => false

/-- `run` listens again after the request. -/
def goesOn : Verdict → Bool
  | .skipped | .answered _ => true
  | .failed | .refused => false

/-- The answer on stream `s`. For an empty response `send_data` sends nothing. -/
def frames (s : UInt32) : Verdict → List Frame
  | .answered response => (if response = [] then [] else [dataFrame s response]) ++ [closeFrame s]
  | .skipped | .failed | .refused => []

end Verdict

section Judged

variable {σ : Type} (b : Envelopes) (a : Actions σ)

/-- The encoded response to a payload, or the error with which `run` returns. -/
def serve (payload : List UInt8) (store : σ) : Except TransportError (List UInt8) × σ :=
  match b.request.byteDeserialize payload with
  | .error e => (.error (.InternalError ("Failed to deserialize request: " ++ e)), store)
  | .ok request =>
    match a.handleRequest request store with
    | (.error e, store) => (.error e, store)
    | (.ok response, store) => (.ok (b.response.byteSerialize response), store)

/-- A request that fails counts as left out: it leaves the store as it was. -/
def judge (payload : List UInt8) (store : σ) : Verdict × σ :=
  if payload = [] then
    (.skipped, store)
  else
    match serve b a payload store with
    | (.error _, _) => (.failed, store)
    | (.ok response, store) =>
      (if DEFAULT_WINDOW < (response.length : Int) then .refused else .answered response, store)

def judged : List (UInt32 × List UInt8) → σ → List (UInt32 × Verdict)
  | [], _ => []
  | (s, payload) :: rest, store => (s, (judge b a payload store).1) :: judged rest (judge b a payload store).2

/-- The answers of `run`, which returns at the first request that fails or whose response is refused. -/
def answersTo (requests : List (UInt32 × List UInt8)) (store : σ) : List Frame :=
  ((judged b a requests store).takeWhile fun x => x.2.goesOn).flatMap fun x => x.2.frames x.1

end Judged

/-! ## The server and the bytes of the client -/

/-- The server, and what it has not read of the client's bytes. -/
structure Fed (σ : Type) where
  service : Service σ
  unread : List UInt8

namespace Fed

variable {σ : Type} (b : Envelopes) (a : Actions σ)

def start (store : σ) (frames : List Frame) : Fed σ := ⟨.start store, frames.flatMap Frame.wire⟩

/-- The server makes its call, or its `recv_frame` call reads more of the bytes, in any chunks. -/
inductive Step (x : Fed σ) : Event → Fed σ → Prop
  | call {c : Call} : x.service.server.demand = .call c →
      Step x (.called c (x.service.manager.perform c).1)
        ⟨x.service.next (x.service.manager.perform c).2
          (x.service.server.replied b a (x.service.manager.perform c).1), x.unread⟩
  | recv {chunks : List (List UInt8)} {rest : List UInt8} {r : Option (Except TransportError Frame)}
      {m : StreamManager} : x.service.server.demand = .recvFrame → (∀ chunk ∈ chunks, chunk ≠ []) →
      x.unread = chunks.flatten ++ rest → x.service.manager.recvFrame (chunks.map .ok) = (r, m, []) →
      Step x (.received r) ⟨x.service.next m ((Server.run b a).heard x.service.server r), rest⟩

/-- `run` has returned, or it waits for a frame and nothing is left that could make one. -/
def Done (x : Fed σ) : Prop :=
  (∃ r, x.service.server.phase = .stopped r) ∨
    (x.service.server.phase = .listening ∧ x.unread = [] ∧ (x.service.manager.recvFrame []).1 = none)

end Fed

/-- The server has been through the whole script. -/
def Completes {σ : Type} (b : Envelopes) (a : Actions σ) (store : σ) (script : List Sent) (w : Service σ) : Prop :=
  ∃ ls x, Run (Fed.Step b a) (Fed.start store (pipelined script)) ls x ∧ x.Done ∧ x.service = w

/-- The answers that have been written to the socket. -/
def Service.delivered {σ : Type} (w : Service σ) : List Frame :=
  (trnc.parse w.manager.conn.stream.written).1.filter isAnswer

/-! ## Verdicts -/

section Verdicts

variable {σ : Type} {b : Envelopes} {a : Actions σ} {store store' : σ} {s : UInt32} {payload response : List UInt8}
  {rest : List (UInt32 × List UInt8)} {v : Server σ}

theorem answersTo_cons : answersTo b a ((s, payload) :: rest) store =
    if (judge b a payload store).1.goesOn then
      (judge b a payload store).1.frames s ++ answersTo b a rest (judge b a payload store).2
    else [] := by
  rw [answersTo, judged, List.takeWhile_cons]
  split_ifs <;> rfl

theorem answersTo_skipped : answersTo b a ((s, []) :: rest) store = answersTo b a rest store := by
  rw [answersTo_cons]
  rfl

theorem answersTo_failed {e : TransportError} (hne : payload ≠ []) (h : serve b a payload store = (.error e, store')) :
    answersTo b a ((s, payload) :: rest) store = [] := by
  rw [answersTo_cons]
  unfold judge
  rw [if_neg hne, h]
  rfl

/-- What is left to send of a response, and of what comes after it. -/
def replies (b : Envelopes) (a : Actions σ) (s : UInt32) (response : List UInt8)
    (rest : List (UInt32 × List UInt8)) (store : σ) : List Frame :=
  if DEFAULT_WINDOW < (response.length : Int) then []
  else (Verdict.answered response).frames s ++ answersTo b a rest store

theorem answersTo_served (hne : payload ≠ []) (h : serve b a payload store = (.ok response, store')) :
    answersTo b a ((s, payload) :: rest) store = replies b a s response rest store' := by
  rw [answersTo_cons]
  unfold judge replies
  rw [if_neg hne, h]
  dsimp only
  split_ifs <;> simp_all [Verdict.goesOn]

theorem handle_skipped : v.handle b a s [] = { v with phase := .listening } := if_pos rfl

theorem handle_failed {e : TransportError} (hne : payload ≠ []) (h : serve b a payload v.store = (.error e, store')) :
    (v.handle b a s payload).phase = .stopped (.error e) := by
  unfold serve at h
  unfold Server.handle
  rw [if_neg hne]
  split at h
  · simp_all
  · split at h <;> simp_all

theorem handle_served (hne : payload ≠ []) (h : serve b a payload v.store = (.ok response, store')) :
    (v.handle b a s payload).phase = .responding s response ∧ (v.handle b a s payload).store = store' := by
  unfold serve at h
  unfold Server.handle
  rw [if_neg hne]
  split at h
  · simp_all
  · split at h <;> simp_all

end Verdicts

/-! ## Answers on the socket -/

theorem parse_part {fs : List Frame} {bytes rest : List UInt8} (hvalid : ∀ f ∈ fs, f.Valid)
    (hbytes : bytes ++ rest = fs.flatMap Frame.wire) : (trnc.parse bytes).1 <+: fs := by
  induction fs generalizing bytes with
  | nil =>
    obtain ⟨rfl, -⟩ := List.append_eq_nil_iff.mp hbytes
    rw [trnc.parse_more verdict_nil]
  | cons f fs ih =>
    rcases trnc.verdict_encodings verdict_nil (fun g hg => trnc_encodes (hvalid g hg)) hbytes with
      hmore | ⟨g, gs, hcons, hitem, hrest⟩
    · rw [trnc.parse_more hmore]
      exact List.nil_prefix
    · obtain ⟨rfl, rfl⟩ := List.cons.inj hcons
      rw [trnc.parse_item hitem]
      exact List.cons_prefix_cons.mpr ⟨rfl, ih (fun g hg => hvalid g (List.mem_cons_of_mem _ hg)) hrest⟩

/-- Every answer is on the socket. Behind them there may be frames that are no answers. -/
def AnswersWritten (m : StreamManager) : Prop :=
  ∃ pre post, m.emitted = pre ++ post ∧ (∀ f ∈ post, isAnswer f = false) ∧
    pre.flatMap Frame.wire <+: m.conn.stream.written

section Written

variable {σ : Type} {w : Service σ} {m m' : StreamManager} {outs : List Frame}

theorem AnswersWritten.delivered (h : AnswersWritten w.manager) (hsound : w.manager.Sound) :
    w.delivered = w.answers := by
  obtain ⟨pre, post, hemit, hpost, tail, htail⟩ := h
  have hvalid := hsound.valid
  have hbytes := hsound.sentBytes_eq
  rw [hemit] at hvalid
  rw [Connection.sentBytes, hemit, List.flatMap_append, ← htail, List.append_assoc] at hbytes
  have hparse := parse_part (fun f hf => hvalid f (List.mem_append_right _ hf)) (List.append_cancel_left hbytes)
  have hnone : (trnc.parse tail).1.filter isAnswer = [] :=
    List.filter_eq_nil_iff.mpr fun f hf => by simp [hpost f (hparse.subset hf)]
  have hnone' : post.filter isAnswer = [] := List.filter_eq_nil_iff.mpr fun f hf => by simp [hpost f hf]
  rw [Service.delivered, Service.answers, ← htail,
    trnc.parse_encodings (fun f hf => trnc_encodes (hvalid f (List.mem_append_left _ hf))), hemit,
    List.filter_append, List.filter_append, hnone, hnone']

theorem answersWritten_of_empty (hsound : m.Sound) (hempty : m.conn.writeBuffer = []) : AnswersWritten m := by
  refine ⟨m.emitted, [], (List.append_nil _).symm, nofun, ?_⟩
  rw [← hsound.sentBytes_eq, Connection.sentBytes, hempty, List.append_nil]

theorem AnswersWritten.sends {c : Connection} {bytes : List UInt8} (h : AnswersWritten m)
    (hconn : c.sentBytes = m.conn.sentBytes ∧ c.stream = m.conn.stream) (hsends : c.Sends bytes m'.conn)
    (hemit : m'.emitted = m.emitted ++ outs) (houts : outs.filter isAnswer = []) : AnswersWritten m' := by
  obtain ⟨pre, post, hpre, hpost, hwritten⟩ := h
  refine ⟨pre, post ++ outs, by rw [hemit, hpre, List.append_assoc], ?_, hwritten.trans ?_⟩
  · intro f hf
    rcases List.mem_append.mp hf with hf | hf
    · exact hpost f hf
    · exact Bool.eq_false_iff.mpr (List.filter_eq_nil_iff.mp houts f hf)
  · have hle := hsends.written_le
    rw [hconn.2] at hle
    refine List.prefix_of_prefix_length_le ?_ (List.prefix_append _ m'.conn.writeBuffer) hle
    rw [show m'.conn.stream.written ++ m'.conn.writeBuffer = m'.conn.sentBytes from rfl, hsends.sentBytes_eq, hconn.1,
      Connection.sentBytes, List.append_assoc]
    exact List.prefix_append _ _

end Written

end TrenchDb.Rpc
