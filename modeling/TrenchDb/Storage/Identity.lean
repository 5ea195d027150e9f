import TrenchDb.Storage.Encoding
import TrenchDb.Storage.Requests

/-!
# The stored node identity

`trench/src/identity/seed.rs`, which `run_server` calls before it accepts connections. It writes to the
table `metadata`. The table that the handlers refuse is `__metadata`.
-/

open TrenchDb.Rpc TrenchDb.Transport

namespace TrenchDb.Storage

abbrev Uuid : Type := BitVec 128

structure IssuerIdentity where
  id : Uuid
  fingerprint : String
  address : String
  region : String
  status : String
  issuerBootstraped : Bool

structure NodeIdentity where
  id : Uuid
  region : String
  address : String
  status : String
  issuer : IssuerIdentity
  fingerprint : String
  signature : String
  bootstraped : Bool

/-- `seed_identity` has its own table name, and publishes no event. -/
def seedIdentity (b : Codec NodeIdentity) (node : NodeIdentity) (s : Shared) : Shared :=
  let (table, store) := s.store.create "metadata"
  { s with store := store.share "metadata" (table.insert "node_identity" (b.byteSerialize node)) }

/-- The table `metadata` once it is seeded. -/
def seededTable (b : Codec NodeIdentity) (node : NodeIdentity) (s : Shared) : Table :=
  (s.store.create "metadata").1.insert "node_identity" (b.byteSerialize node)

/-! ## Operations that change nothing -/

namespace Collection

variable {κ ν : Type} [DecidableEq κ] {c : Collection κ ν} {key : κ} {value : ν}

theorem ext_lookup {c' : Collection κ ν} (h : ∀ key, c.map.lookup key = c'.map.lookup key) : c = c' := by
  obtain ⟨map⟩ := c
  obtain ⟨map'⟩ := c'
  exact congrArg mk (Finmap.ext_lookup h)

theorem insert_eq_self : c.insert key value = c ↔ c.map.lookup key = some (.new value) := by
  constructor
  · intro h
    rw [← h]
    simp [insert]
  · intro h
    refine ext_lookup fun key' => ?_
    by_cases hkey : key' = key
    · rw [hkey, h]
      exact Finmap.lookup_insert _
    · simp [insert, hkey]

/-- The version moves on, even where it wraps. -/
theorem update_ne_self : c.update key value ≠ c := by
  intro h
  have hlookup : (c.update key value).map.lookup key = c.map.lookup key := by rw [h]
  unfold update at hlookup
  cases hl : c.map.lookup key with
  | none => simp [hl] at hlookup
  | some record =>
    simp only [hl, Finmap.lookup_insert, Option.some.injEq] at hlookup
    have hversion : record.version + 1 = record.version := congrArg Record.version hlookup
    grind

theorem remove_eq_self : (c.remove key).2 = c ↔ c.contains key = false := by
  constructor
  · intro h
    rw [← h]
    simp [remove, contains]
  · intro h
    refine ext_lookup fun key' => ?_
    by_cases hkey : key' = key
    · rw [hkey, show c.map.lookup key = none by simpa [contains] using h]
      exact Finmap.lookup_erase _ _
    · simp [remove, hkey]

end Collection

/-! ## What may change it -/

/-- The record that was seeded is there, with its bytes and its version. -/
def RecordKept (bytes : List UInt8) (s : Shared) : Prop :=
  ∃ t, s.store.get "metadata" = some t ∧ t.map.lookup "node_identity" = some (.new bytes)

def TableKept (t : Table) (s : Shared) : Prop := s.store.get "metadata" = some t

namespace Request

/-- The request names the record or its table, and is no `put` of the bytes that are there. -/
def AltersRecord (bytes : List UInt8) : Request → Prop
  | .put r => r.table = "metadata" ∧ r.key = "node_identity" ∧ r.value ≠ bytes
  | .update r => r.table = "metadata" ∧ r.key = "node_identity"
  | .delete r => r.table = "metadata" ∧ r.key = "node_identity"
  | .removeTable r => r.table = "metadata"
  | .get _ | .contains _ | .addTable _ => False

/-- The same for the whole table: a `put` of what is there and a `delete` of what is not there are harmless. -/
def AltersTable (t : Table) : Request → Prop
  | .put r => r.table = "metadata" ∧ t.map.lookup r.key ≠ some (.new r.value)
  | .update r => r.table = "metadata"
  | .delete r => r.table = "metadata" ∧ t.contains r.key = true
  | .removeTable r => r.table = "metadata"
  | .get _ | .contains _ | .addTable _ => False

variable (c : Codecs) {r : Request} {t : Table} {bytes : List UInt8}

theorem alters_record_table (h : r.AltersRecord bytes) : r.table = "metadata" := by
  cases r with
  | put r | update r | delete r => exact h.1
  | removeTable r => exact h
  | get r | contains r | addTable r => exact h.elim

theorem alters_table_table (h : r.AltersTable t) : r.table = "metadata" := by
  cases r with
  | put r | delete r => exact h.1
  | update r | removeTable r => exact h
  | get r | contains r | addTable r => exact h.elim

theorem act_keeps_record (hname : r.table = "metadata") (ht : t.map.lookup "node_identity" = some (.new bytes)) :
    (∃ t', (r.act c (some t)).2 = some t' ∧ t'.map.lookup "node_identity" = some (.new bytes)) ↔
      ¬ r.AltersRecord bytes := by
  cases r with
  | get r | contains r | addTable r => simp [act, AltersRecord, ht]
  | put r =>
    by_cases hkey : r.key = "node_identity"
    · simp [act, AltersRecord, Collection.insert, Record.new, hkey, show r.table = "metadata" from hname]
    · simp [act, AltersRecord, Collection.insert, hkey, Ne.symm hkey, ht]
  | update r =>
    by_cases hkey : r.key = "node_identity"
    · have hl : t.map.lookup r.key = some (.new bytes) := hkey ▸ ht
      simp [act, AltersRecord, Collection.update, Record.new, Record.next, hl, hkey,
        show r.table = "metadata" from hname]
    · simp only [act, AltersRecord, hkey, and_false, not_false_eq_true, iff_true]
      refine ⟨_, rfl, ?_⟩
      unfold Collection.update
      split <;> simp [Ne.symm hkey, ht]
  | delete r =>
    by_cases hkey : r.key = "node_identity"
    · simp [act, AltersRecord, Collection.remove, hkey, show r.table = "metadata" from hname]
    · simp [act, AltersRecord, Collection.remove, hkey, Ne.symm hkey, ht]
  | removeTable r => simp [act, AltersRecord, show r.table = "metadata" from hname]

theorem act_keeps_table (hname : r.table = "metadata") : (r.act c (some t)).2 = some t ↔ ¬ r.AltersTable t := by
  cases r with
  | get r | contains r | addTable r => simp [act, AltersTable]
  | put r => simp [act, AltersTable, Collection.insert_eq_self, show r.table = "metadata" from hname]
  | update r => simp [act, AltersTable, Collection.update_ne_self, show r.table = "metadata" from hname]
  | delete r => simp [act, AltersTable, Collection.remove_eq_self, show r.table = "metadata" from hname]
  | removeTable r => simp [act, AltersTable, show r.table = "metadata" from hname]

end Request

/-! ## Requests after the seeding -/

section Served

variable {c : Codecs} {s : Shared} {t : Table} {bytes : List UInt8}

open Request in
theorem after_metadata {request : RequestEnvelope} {r : Request} (hparse : parse c request = .ok r)
    (hs : s.store.get "metadata" = some t) : (after c request s).store.get "metadata" =
      if r.table = "metadata" then (r.act c (some t)).2 else some t := by
  rw [after_eq, hparse]
  show (s.store.set r.table (r.act c (s.store.get r.table)).2).get "metadata" = _
  split_ifs with hname
  · rw [hname, MemoryStore.get_set, hs]
  · rw [MemoryStore.get_set_of_ne (Ne.symm hname), hs]

theorem after_refused {request : RequestEnvelope} {e : TransportError} (hparse : Request.parse c request = .error e) :
    after c request s = s := by
  rw [after_eq, hparse]

theorem after_recordKept (request : RequestEnvelope) (hs : RecordKept bytes s) :
    RecordKept bytes (after c request s) ↔ ∀ r, Request.parse c request = .ok r → ¬ r.AltersRecord bytes := by
  obtain ⟨t, ht, hrecord⟩ := hs
  cases hparse : Request.parse c request with
  | error e =>
    rw [after_refused hparse]
    simpa using ⟨t, ht, hrecord⟩
  | ok r =>
    simp only [Except.ok.injEq, forall_eq', RecordKept, after_metadata hparse ht]
    split_ifs with hname
    · exact r.act_keeps_record c hname hrecord
    · exact ⟨fun _ halters => hname (Request.alters_record_table halters), fun _ => ⟨t, rfl, hrecord⟩⟩

theorem after_tableKept (request : RequestEnvelope) (hs : TableKept t s) :
    TableKept t (after c request s) ↔ ∀ r, Request.parse c request = .ok r → ¬ r.AltersTable t := by
  cases hparse : Request.parse c request with
  | error e =>
    rw [after_refused hparse]
    simpa using hs
  | ok r =>
    simp only [Except.ok.injEq, forall_eq', TableKept, after_metadata hparse hs]
    split_ifs with hname
    · exact r.act_keeps_table c hname
    · exact ⟨fun _ halters => hname (Request.alters_table_table halters), fun _ => rfl⟩

end Served

section Seeded

variable (c : Codecs) (b : Codec NodeIdentity) (node : NodeIdentity) (s : Shared)

theorem seeded_table : TableKept (seededTable b node s) (seedIdentity b node s) := MemoryStore.get_share

theorem seeded_record : RecordKept (b.byteSerialize node) (seedIdentity b node s) :=
  ⟨_, seeded_table b node s, Finmap.lookup_insert _⟩

/-- The record and its table stay as they were seeded, in every state that the requests lead through, if
and only if the checks of the handlers refuse each request that alters them. -/
theorem identity_kept (requests : List RequestEnvelope) :
    ((∀ p, p <+: requests → RecordKept (b.byteSerialize node) (serve c p (seedIdentity b node s))) ↔
      ∀ request ∈ requests, ∀ r, Request.parse c request = .ok r → ¬ r.AltersRecord (b.byteSerialize node)) ∧
    ((∀ p, p <+: requests → TableKept (seededTable b node s) (serve c p (seedIdentity b node s))) ↔
      ∀ request ∈ requests, ∀ r, Request.parse c request = .ok r → ¬ r.AltersTable (seededTable b node s)) := by
  constructor
  · have hserved := @serve_iff c (fun _ => True) (RecordKept (b.byteSerialize node)) _ (fun _ _ _ => trivial)
      (fun request s _ hs => after_recordKept request hs) _ trivial (seeded_record b node s) requests
    exact hserved.trans forall_prefix_iff
  · have hserved := @serve_iff c (fun _ => True) (TableKept (seededTable b node s)) _ (fun _ _ _ => trivial)
      (fun request s _ hs => after_tableKept request hs) _ trivial (seeded_table b node s) requests
    exact hserved.trans forall_prefix_iff

end Seeded

/-- A client may delete the record: the checks know only the name `__metadata`. -/
def deleteIdentity : RequestEnvelope :=
  { action := "delete"
    payload := encode prefixedCodecs.deleteRequest { table := "metadata", key := "node_identity" } }

theorem identity_deleted : ¬ ∃ (b : Codec NodeIdentity) (node : NodeIdentity) (s : Shared),
    RecordKept (b.byteSerialize node) (serve prefixedCodecs [deleteIdentity] (seedIdentity b node s)) := by
  rintro ⟨b, node, s, hkept⟩
  have hround : prefixedCodecs.deleteRequest.RoundTrips := formatCodec_roundTrips _
  have hdecode : decode prefixedCodecs.deleteRequest deleteIdentity.payload = .ok ⟨"metadata", "node_identity"⟩ :=
    decode_encode hround (by decide +kernel)
  have hparse : Request.parse prefixedCodecs deleteIdentity = .ok (.delete ⟨"metadata", "node_identity"⟩) :=
    Request.parse_of_decoded (congrArg (Except.map Request.delete) hdecode) (by decide +kernel)
  exact (after_recordKept deleteIdentity (seeded_record b node s)).mp hkept _ hparse ⟨rfl, rfl⟩

end TrenchDb.Storage
