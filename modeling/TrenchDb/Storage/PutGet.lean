import TrenchDb.Rpc.Matching
import TrenchDb.Storage.Encoding

/-!
# Storing a value and reading it back

A `put` and then a `get` of the same key, over one connection to the storage server.
-/

open TrenchDb.Lib TrenchDb.Lib.Lts TrenchDb.Rpc TrenchDb.Transport

namespace TrenchDb.Storage

/-! ## The handlers on these requests -/

section Handlers

variable (c : Codecs) (table key : String) (value : List UInt8)

def putEnvelope : RequestEnvelope := { action := "put", payload := encode c.putRequest { table, key, value } }
def getEnvelope : RequestEnvelope := { action := "get", payload := encode c.getRequest { table, key } }
def putReply : ResponseEnvelope := { payload := encode c.putResponse { ok := true } }
def getReply : ResponseEnvelope := { payload := encode c.getResponse { value := some value } }

/-- The state after a `put`. -/
def stored (s : Shared) : Shared :=
  publishEvent "insert" table key { s with
    store := (s.store.create table).2.share table ((s.store.create table).1.insert key value) }

variable {c table key value} {s : Shared}

theorem contents_stored (table' key' : String) : (stored table key value s).store.contents table' key' =
    if table' = table ∧ key' = key then some value else s.store.contents table' key' := by
  show ((s.store.create table).2.share table ((s.store.create table).1.insert key value)).contents table' key' = _
  by_cases htable : table' = table
  · subst htable
    rw [MemoryStore.contents, MemoryStore.get_share, Option.bind_some]
    by_cases hkey : key' = key
    · subst hkey
      simp
    · rw [Collection.get_insert_of_ne hkey, MemoryStore.create_contents, if_neg (by simp [hkey])]
  · rw [MemoryStore.contents, MemoryStore.get_share_of_ne htable, if_neg (by simp [htable])]
    exact MemoryStore.contents_create

theorem put_handled (hround : c.putRequest.RoundTrips) (hlt : (putEnvelope c table key value).payload.length < 2 ^ 64)
    (hname : validateName table "table" = .ok ()) (htable : isMetadataTable table = false)
    (hkey : validateKey key = .ok ()) (hvalue : validateValue value = .ok ()) :
    (buildActions c).handleRequest (putEnvelope c table key value) s =
      (.ok (putReply c), stored table key value s) := by
  have hmeta : validateNotMetadataTable table "write" = .ok () := by simp [validateNotMetadataTable, htable]
  rw [Actions.handleRequest_eq, Actions.dispatch, show (putEnvelope c table key value).action = "put" from rfl,
    getHandler_put]
  simp only [PutHandler, handler, putEnvelope, decode_encode hround hlt, bind, Except.bind, hname, hmeta, hkey, hvalue]
  rfl

theorem get_handled (hround : c.getRequest.RoundTrips) (hlt : (getEnvelope c table key).payload.length < 2 ^ 64)
    (hname : validateName table "table" = .ok ()) (hkey : validateKey key = .ok ())
    (hcontents : s.store.contents table key = some value) :
    (buildActions c).handleRequest (getEnvelope c table key) s = (.ok (getReply c value), s) := by
  obtain ⟨collection, htable, hvalue⟩ := Option.bind_eq_some_iff.mp hcontents
  rw [Actions.handleRequest_eq, Actions.dispatch, show (getEnvelope c table key).action = "get" from rfl,
    getHandler_get]
  simp only [GetHandler, handler, getEnvelope, decode_encode hround hlt, bind, Except.bind, hname, hkey, existing,
    htable]
  rw [getReply, ← hvalue]
  rfl

end Handlers

/-! ## Over a connection -/

section Connected

variable {b : Envelopes} {c : Codecs} {table key : String} {value : List UInt8}

/-- The `put` succeeded and the `get` returned the value. -/
def ReadBack (c : Codecs) (value : List UInt8) (s : Session (Parties Shared)) : Prop :=
  ∃ p g : ResponseEnvelope, (clientOf s).results = [.ok p, .ok g] ∧
    decode c.putResponse p.payload = .ok { ok := true } ∧ decode c.getResponse g.payload = .ok { value := some value }

/-- A `put` and a `get` on a new connection to a server with an empty store. -/
def putThenGet (c : Codecs) (table key : String) (value : List UInt8) : Session (Parties Shared) :=
  opened (Client.connect [putEnvelope c table key value, getEnvelope c table key]) Shared.new

theorem putGet_served (hcodecs : c.RoundTrip) (hput : (putEnvelope c table key value).payload.length < 2 ^ 64)
    (hget : (getEnvelope c table key).payload.length < 2 ^ 64) (hname : validateName table "table" = .ok ())
    (htable : isMetadataTable table = false) (hkey : validateKey key = .ok ()) (hvalue : validateValue value = .ok ()) :
    (buildActions c).Served Shared.new [putEnvelope c table key value, getEnvelope c table key]
      [putReply c, getReply c value] (stored table key value Shared.new) :=
  .cons (put_handled hcodecs.putRequest hput hname htable hkey hvalue)
    (.cons (get_handled hcodecs.getRequest hget hname hkey (by rw [contents_stored, if_pos ⟨rfl, rfl⟩])) (.nil _))

theorem put_stops (hround : b.RoundTrip) (hcovers : b.Covers) (hcodecs : c.RoundTrip)
    (hname : validateName table "table" = .ok ()) (htable : isMetadataTable table = false)
    (hkey : validateKey key = .ok ()) (hvalue : validateValue value = .ok ())
    (hnot : ¬ Passable b (putEnvelope c table key value) (putReply c)) :
    ¬ Inevitably (Goes b (buildActions c) Client.sendRequestRefusals (Client.sendRequestDelivered b))
      (ReadBack c value) (putThenGet c table key value) := by
  intro hgoal
  refine requests_stop [getEnvelope c table key] hround (.nil Shared.new) (by simp) (by simp) (by simp) ?_
    (hgoal.mono fun s hs => ?_)
  · by_cases hreq : Fits (b.request.byteSerialize (putEnvelope c table key value))
    · exact .inr (.inr ⟨_, _,
        put_handled hcodecs.putRequest (hreq.lt_of_le (hcovers.request _)) hname htable hkey hvalue,
        fun hresp => hnot ⟨hreq, hresp⟩⟩)
    · exact .inr (.inl hreq)
  · obtain ⟨p, g, hresults, -⟩ := hs
    simp [hresults]

theorem get_stops (hround : b.RoundTrip) (hcovers : b.Covers) (hcodecs : c.RoundTrip)
    (hname : validateName table "table" = .ok ()) (htable : isMetadataTable table = false)
    (hkey : validateKey key = .ok ()) (hvalue : validateValue value = .ok ())
    (hput : Passable b (putEnvelope c table key value) (putReply c))
    (hnot : ¬ Passable b (getEnvelope c table key) (getReply c value)) :
    ¬ Inevitably (Goes b (buildActions c) Client.sendRequestRefusals (Client.sendRequestDelivered b))
      (ReadBack c value) (putThenGet c table key value) := by
  intro hgoal
  have hhandled := put_handled (s := Shared.new) hcodecs.putRequest (hput.1.lt_of_le (hcovers.request _)) hname htable
    hkey hvalue
  refine requests_stop [] hround (.cons hhandled (.nil _)) (by simpa using hput.1) (by simpa using hput.2)
    (by simp) ?_ (hgoal.mono fun s hs => ?_)
  · by_cases hreq : Fits (b.request.byteSerialize (getEnvelope c table key))
    · exact .inr (.inr ⟨getReply c value, _,
        get_handled hcodecs.getRequest (hreq.lt_of_le (hcovers.request _)) hname hkey
        (by rw [contents_stored, if_pos ⟨rfl, rfl⟩]), fun hresp => hnot ⟨hreq, hresp⟩⟩)
    · exact .inr (.inl hreq)
  · obtain ⟨p, g, hresults, -⟩ := hs
    simp [hresults]

/-- A value that the API admits can be stored and read back, in every order of the steps, if and only if
both requests and both responses fit. -/
theorem put_then_get (hround : b.RoundTrip) (hcovers : b.Covers) (hcodecs : c.RoundTrip)
    (hname : validateName table "table" = .ok ()) (htable : isMetadataTable table = false)
    (hkey : validateKey key = .ok ()) (hvalue : validateValue value = .ok ()) :
    Inevitably (fun s s' => ∃ l, Session.Step (programs (Client.sendRequest b) b (buildActions c)) s l s')
      (ReadBack c value) (putThenGet c table key value) ↔
    Passable b (putEnvelope c table key value) (putReply c) ∧
      Passable b (getEnvelope c table key) (getReply c value) := by
  constructor
  · intro hgoal
    have hput : Passable b (putEnvelope c table key value) (putReply c) := by
      by_contra hnot
      exact put_stops hround hcovers hcodecs hname htable hkey hvalue hnot hgoal
    refine ⟨hput, ?_⟩
    by_contra hnot
    exact get_stops hround hcovers hcodecs hname htable hkey hvalue hput hnot hgoal
  · rintro ⟨hput, hget⟩
    have hserved := putGet_served hcodecs (hput.1.lt_of_le (hcovers.request _))
      (hget.1.lt_of_le (hcovers.request _)) hname htable hkey hvalue
    refine ((requests_answered hround hserved).mpr ⟨by simp, by simp [hput, hget]⟩).mono fun s hs => ?_
    exact ⟨putReply c, getReply c value, hs,
      decode_encode hcodecs.putResponse (hput.2.lt_of_le (hcovers.response _)),
      decode_encode hcodecs.getResponse (hget.2.lt_of_le (hcovers.response _))⟩

theorem put_then_get_world :
    Inevitably
      (fun s s' => ∃ l,
        Session.Step (programs (Client.sendRequest prefixed) prefixed (buildActions prefixedCodecs)) s l s')
      (ReadBack prefixedCodecs (asBytes "world")) (putThenGet prefixedCodecs "default" "hello" (asBytes "world")) :=
  (put_then_get prefixed_roundTrip prefixed_covers prefixedCodecs_roundTrip (by decide +kernel) (by decide +kernel)
    (by decide +kernel) (by decide +kernel)).mpr (by decide +kernel)

/-- The API admits a value of 65,537 bytes, and one `send_data` call refuses the `put` that carries it. -/
theorem put_too_large :
    (validateName "default" "table" = .ok () ∧ isMetadataTable "default" = false ∧ validateKey "hello" = .ok () ∧
      validateValue (List.replicate 65537 0) = .ok ()) ∧
    (prefixed.RoundTrip ∧ prefixed.Covers ∧ prefixedCodecs.RoundTrip) ∧
    ¬ Inevitably (fun s s' => ∃ l,
        Session.Step (programs (Client.sendRequest prefixed) prefixed (buildActions prefixedCodecs)) s l s')
      (ReadBack prefixedCodecs (List.replicate 65537 0))
      (putThenGet prefixedCodecs "default" "hello" (List.replicate 65537 0)) := by
  have hname : validateName "default" "table" = .ok () := by decide +kernel
  have htable : isMetadataTable "default" = false := by decide +kernel
  have hkey : validateKey "hello" = .ok () := by decide +kernel
  have hvalue : validateValue (List.replicate 65537 0) = .ok () := by
    rw [validateValue, List.length_replicate, if_neg (by decide)]
  have hlong := (length_le_putRequest "default" "hello" (List.replicate 65537 0)).trans
    (prefixed_covers.request (putEnvelope prefixedCodecs "default" "hello" (List.replicate 65537 0)))
  rw [List.length_replicate] at hlong
  refine ⟨⟨hname, htable, hkey, hvalue⟩, ⟨prefixed_roundTrip, prefixed_covers, prefixedCodecs_roundTrip⟩,
    put_stops prefixed_roundTrip prefixed_covers prefixedCodecs_roundTrip hname htable hkey hvalue fun hpass => ?_⟩
  have hshort := hpass.1.2
  simp only [DEFAULT_WINDOW] at hshort
  omega

end Connected

end TrenchDb.Storage
