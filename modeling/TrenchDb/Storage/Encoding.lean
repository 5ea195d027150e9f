import TrenchDb.Rpc.Encoding
import TrenchDb.Storage.Requests

/-!
# The storage messages with length prefixes
-/

open TrenchDb.Lib TrenchDb.Rpc

namespace TrenchDb.Storage

/-- The requests on one key. -/
def keyFormat : Format (String × String) := Format.string.pair Format.string

def keyValueFormat : Format (String × String × List UInt8) := Format.string.pair (Format.string.pair Format.bytes)

def prefixedCodecs : Codecs where
  getRequest := formatCodec (keyFormat.equiv
    ⟨fun r => (r.table, r.key), fun p => ⟨p.1, p.2⟩, fun _ => rfl, fun _ => rfl⟩)
  getResponse := formatCodec (Format.bytes.option.equiv ⟨fun r => r.value, fun v => ⟨v⟩, fun _ => rfl, fun _ => rfl⟩)
  putRequest := formatCodec (keyValueFormat.equiv
    ⟨fun r => (r.table, r.key, r.value), fun p => ⟨p.1, p.2.1, p.2.2⟩, fun _ => rfl, fun _ => rfl⟩)
  putResponse := formatCodec (Format.bool.equiv ⟨fun r => r.ok, fun v => ⟨v⟩, fun _ => rfl, fun _ => rfl⟩)
  updateRequest := formatCodec (keyValueFormat.equiv
    ⟨fun r => (r.table, r.key, r.value), fun p => ⟨p.1, p.2.1, p.2.2⟩, fun _ => rfl, fun _ => rfl⟩)
  updateResponse := formatCodec (Format.bool.equiv ⟨fun r => r.ok, fun v => ⟨v⟩, fun _ => rfl, fun _ => rfl⟩)
  deleteRequest := formatCodec (keyFormat.equiv
    ⟨fun r => (r.table, r.key), fun p => ⟨p.1, p.2⟩, fun _ => rfl, fun _ => rfl⟩)
  deleteResponse := formatCodec (Format.bool.equiv ⟨fun r => r.ok, fun v => ⟨v⟩, fun _ => rfl, fun _ => rfl⟩)
  containsRequest := formatCodec (keyFormat.equiv
    ⟨fun r => (r.table, r.key), fun p => ⟨p.1, p.2⟩, fun _ => rfl, fun _ => rfl⟩)
  containsResponse := formatCodec (Format.bool.equiv ⟨fun r => r.exists, fun v => ⟨v⟩, fun _ => rfl, fun _ => rfl⟩)
  addTableRequest := formatCodec (Format.string.equiv ⟨fun r => r.table, fun t => ⟨t⟩, fun _ => rfl, fun _ => rfl⟩)
  addTableResponse := formatCodec (Format.bool.equiv ⟨fun r => r.ok, fun v => ⟨v⟩, fun _ => rfl, fun _ => rfl⟩)
  removeTableRequest := formatCodec (Format.string.equiv ⟨fun r => r.table, fun t => ⟨t⟩, fun _ => rfl, fun _ => rfl⟩)
  removeTableResponse := formatCodec (Format.bool.equiv ⟨fun r => r.ok, fun v => ⟨v⟩, fun _ => rfl, fun _ => rfl⟩)

theorem prefixedCodecs_roundTrip : prefixedCodecs.RoundTrip where
  getRequest := formatCodec_roundTrips _
  getResponse := formatCodec_roundTrips _
  putRequest := formatCodec_roundTrips _
  putResponse := formatCodec_roundTrips _

theorem length_le_putRequest (table key : String) (value : List UInt8) :
    value.length ≤ (encode prefixedCodecs.putRequest { table, key, value }).length :=
  (Format.length_le_bytes value).trans ((Format.length_le_pair_right Format.string Format.bytes (key, value)).trans
    (Format.length_le_pair_right Format.string (Format.string.pair Format.bytes) (table, key, value)))

/-! ## Requests on one table -/

def putAlice : RequestEnvelope :=
  { action := "put", payload := encode prefixedCodecs.putRequest { table := "users", key := "alice", value := [1] } }

theorem parse_putAlice : Request.parse prefixedCodecs putAlice = .ok (.put ⟨"users", "alice", [1]⟩) := by
  have hdecode : decode prefixedCodecs.putRequest putAlice.payload = .ok ⟨"users", "alice", [1]⟩ :=
    decode_encode prefixedCodecs_roundTrip.putRequest (by decide +kernel)
  exact Request.parse_of_decoded (congrArg (Except.map Request.put) hdecode) (by decide +kernel)

def getAlice : RequestEnvelope :=
  { action := "get", payload := encode prefixedCodecs.getRequest { table := "users", key := "alice" } }

def deleteAlice : RequestEnvelope :=
  { action := "delete", payload := encode prefixedCodecs.deleteRequest { table := "users", key := "alice" } }

def addUsers : RequestEnvelope :=
  { action := "add_table", payload := encode prefixedCodecs.addTableRequest { table := "users" } }

def removeUsers : RequestEnvelope :=
  { action := "remove_table", payload := encode prefixedCodecs.removeTableRequest { table := "users" } }

end TrenchDb.Storage
