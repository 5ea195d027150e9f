import TrenchDb.Lib.Format
import TrenchDb.Rpc.Envelope

/-!
# A serialization with length prefixes

A codec that keeps what is assumed of `byteser`.
-/

open TrenchDb.Lib

namespace TrenchDb.Rpc

/-- The codec of a format. Bytes after the value are ignored. -/
def formatCodec {α : Type} (F : Format α) : Codec α :=
  { byteSerialize := F.put
    byteDeserialize := fun bytes => match F.get bytes with
      | some (a, _) => .ok a
      | none => .error "unexpected end of input" }

theorem formatCodec_roundTrips {α : Type} (F : Format α) : (formatCodec F).RoundTrips := by
  intro a h
  have hget := F.get_put a [] h
  rw [List.append_nil] at hget
  simp only [formatCodec, hget]

def requestFormat : Format RequestEnvelope :=
  (Format.string.pair Format.bytes).equiv
    { toFun := fun e => (e.action, e.payload)
      invFun := fun p => ⟨p.1, p.2⟩
      left_inv := fun _ => rfl
      right_inv := fun _ => rfl }

def responseFormat : Format ResponseEnvelope :=
  Format.bytes.equiv
    { toFun := fun e => e.payload
      invFun := fun p => ⟨p⟩
      left_inv := fun _ => rfl
      right_inv := fun _ => rfl }

def prefixed : Envelopes := { request := formatCodec requestFormat, response := formatCodec responseFormat }

theorem prefixed_roundTrip : prefixed.RoundTrip :=
  ⟨formatCodec_roundTrips requestFormat, formatCodec_roundTrips responseFormat⟩

theorem prefixed_covers : prefixed.Covers where
  request e := (Format.length_le_bytes e.payload).trans
    (Format.length_le_pair_right Format.string Format.bytes (e.action, e.payload))
  response e := Format.length_le_bytes e.payload

theorem prefixed_request_ne (e : RequestEnvelope) : prefixed.request.byteSerialize e ≠ [] :=
  List.append_ne_nil_of_left_ne_nil (Format.bytes_ne_nil _) _

theorem prefixed_response_ne (e : ResponseEnvelope) : prefixed.response.byteSerialize e ≠ [] :=
  Format.bytes_ne_nil _

/-! ## An echo server -/

def echo : Actions Unit := Actions.new.registerAction "echo" fun payload store => (.ok payload, store)

def ping : RequestEnvelope := { action := "echo", payload := [7] }
def pong : ResponseEnvelope := { payload := [7] }

theorem echo_served (n : Nat) : echo.Served () (List.replicate n ping) (List.replicate n pong) () := by
  induction n with
  | zero => exact .nil ()
  | succ n ih =>
    refine .cons ?_ ih
    rw [Actions.handleRequest_eq, Actions.dispatch, show ping.action = "echo" from rfl, echo,
      Actions.getHandler_registerAction]
    rfl

theorem ping_fits : Fits (prefixed.request.byteSerialize ping) := by decide +kernel
theorem pong_fits : Fits (prefixed.response.byteSerialize pong) := by decide +kernel

end TrenchDb.Rpc
