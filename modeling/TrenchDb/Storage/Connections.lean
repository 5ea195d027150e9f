import TrenchDb.Rpc.Conversation
import TrenchDb.Storage.PutGet
import TrenchDb.Storage.Tables

/-!
# The store over its connections

Connections to the storage server, one after another, see maps of maps.
-/

open TrenchDb.Lib TrenchDb.Rpc TrenchDb.Transport

namespace TrenchDb.Storage

/-! ## The conversations of maps of maps -/

namespace Tables

variable (c : Codecs)

/-- The responses of maps of maps, up to the first request that they refuse. -/
def converse : List RequestEnvelope → Tables String (List UInt8) → List ResponseEnvelope × Tables String (List UInt8)
  | [], t => ([], t)
  | request :: requests, t =>
    match (handle c request t).1 with
    | .error _ => ([], (handle c request t).2)
    | .ok response =>
      (response :: (converse requests (handle c request t).2).1, (converse requests (handle c request t).2).2)

def visit : List (List RequestEnvelope) → Tables String (List UInt8) →
    List (List ResponseEnvelope) × Tables String (List UInt8)
  | [], t => ([], t)
  | requests :: visits, t =>
    ((converse c requests t).1 :: (visit visits (converse c requests t).2).1,
      (visit visits (converse c requests t).2).2)

end Tables

variable {c : Codecs} {b : Envelopes} {s last : Shared} {visits : List (List RequestEnvelope)}

theorem converse_refines (requests : List RequestEnvelope) (s : Shared) :
    ((buildActions c).converse requests s).responses = (Tables.converse c requests s.store.tables).1 ∧
      ((buildActions c).converse requests s).store.store.tables = (Tables.converse c requests s.store.tables).2 := by
  induction requests generalizing s with
  | nil => exact ⟨rfl, rfl⟩
  | cons request requests ih =>
    obtain ⟨hanswer, hafter⟩ := handle_refines (c := c) request s
    rw [after] at hafter
    rcases hhandle : (buildActions c).handleRequest request s with ⟨e | response, s'⟩
    · rw [hhandle] at hanswer hafter
      rw [Actions.converse_error _ hhandle, Tables.converse, ← hanswer, ← hafter]
      exact ⟨rfl, rfl⟩
    · rw [hhandle] at hanswer hafter
      obtain ⟨hresponses, hstore⟩ := ih s'
      rw [Actions.converse_ok _ hhandle, Tables.converse, ← hanswer, ← hafter]
      exact ⟨congrArg (response :: ·) hresponses, hstore⟩

theorem visit_refines (visits : List (List RequestEnvelope)) (s : Shared) :
    ((buildActions c).visit visits s).1 = (Tables.visit c visits s.store.tables).1 ∧
      ((buildActions c).visit visits s).2.store.tables = (Tables.visit c visits s.store.tables).2 := by
  induction visits generalizing s with
  | nil => exact ⟨rfl, rfl⟩
  | cons requests visits ih =>
    obtain ⟨hresponses, hstore⟩ := converse_refines (c := c) requests s
    obtain ⟨hvisits, hlast⟩ := ih ((buildActions c).converse requests s).store
    rw [hstore] at hvisits hlast
    exact ⟨congrArg₂ List.cons hresponses hvisits, hlast⟩

/-! ## The clients see them -/

/-- Connections one after another, whose requests and responses fit into a window: in every order of the steps of
each, the clients get the responses of maps of maps, up to the first request of a connection that these refuse, and
the store holds in the end what they hold. -/
theorem visits_refine (hround : b.RoundTrip) (hvisits : ∀ requests ∈ visits, Sendable b requests)
    (hresponses : ∀ responses ∈ (Tables.visit c visits s.store.tables).1, ∀ response ∈ responses,
      Fits (b.response.byteSerialize response)) :
    (∃ results last, Visits b (buildActions c) s visits results last) ∧
    ∀ results last, Visits b (buildActions c) s visits results last →
      results = (Tables.visit c visits s.store.tables).1.map (fun responses => responses.map .ok) ∧
      last.store.tables = (Tables.visit c visits s.store.tables).2 := by
  obtain ⟨hvisit, hlast⟩ := visit_refines (c := c) visits s
  rw [← hvisit] at hresponses ⊢
  rw [← hlast]
  refine ⟨visits_exist hround hvisits hresponses, fun results last h => ?_⟩
  obtain ⟨hresults, rfl⟩ := h.visited hround hvisits hresponses
  exact ⟨hresults, rfl⟩

/-- A `get` from a table that is not there ends the first connection. -/
def twoVisits : List (List RequestEnvelope) :=
  [[putEnvelope prefixedCodecs "default" "hello" (asBytes "world"), getEnvelope prefixedCodecs "other" "hello",
      putEnvelope prefixedCodecs "default" "hello" []],
    [getEnvelope prefixedCodecs "default" "hello"]]

theorem twoVisits_visit : (Tables.visit prefixedCodecs twoVisits Shared.new.store.tables).1 =
    [[putReply prefixedCodecs], [getReply prefixedCodecs (asBytes "world")]] := by decide +kernel

theorem visits_refine_twoVisits :
    (∃ results last, Visits prefixed (buildActions prefixedCodecs) Shared.new twoVisits results last) ∧
    ∀ results last, Visits prefixed (buildActions prefixedCodecs) Shared.new twoVisits results last →
      results = [[.ok (putReply prefixedCodecs)], [.ok (getReply prefixedCodecs (asBytes "world"))]] := by
  have h := visits_refine (c := prefixedCodecs) (s := Shared.new) prefixed_roundTrip
    (show ∀ requests ∈ twoVisits, Sendable prefixed requests by decide +kernel)
    (by rw [twoVisits_visit]; decide +kernel)
  rw [twoVisits_visit] at h
  exact ⟨h.1, fun results last hvisits => (h.2 results last hvisits).1⟩

end TrenchDb.Storage
