import TrenchDb.Storage.Concurrent
import TrenchDb.Storage.Encoding

/-!
# The reserved table

No request changes the table `__metadata`, in any interleaving. A call that writes has checked the name,
and a handle it holds leads to the collection of another name.
-/

open TrenchDb.Lib.Lts TrenchDb.Rpc TrenchDb.Transport

namespace TrenchDb.Storage.Calls

variable {c : Codecs} {h : Heap} {w w' : Calls} {l : Label} {ls : List Label}

/-- What keeps the reserved table as it was in `h`. -/
structure Untouched (h : Heap) (w : Calls) : Prop where
  registered : w.heap.get METADATA_TABLE = h.get METADATA_TABLE
  stored : ∀ id, h.get METADATA_TABLE = some id → w.heap.cells id = h.cells id
  elsewhere : ∀ (i : Nat) (call : Call) (r : Request) (id : Nat), w.calls[i]? = some call →
    call.phase = .holding r id → r.writes = true → h.get METADATA_TABLE ≠ some id

theorem op_untouched {phase phase' : Phase} {heap heap' : Heap} (hop : Phase.Op c heap phase phase' heap')
    (hvalid : ∀ r, phase.request? = some r → r.validate = .ok ())
    (helsewhere : ∀ r id, phase = .holding r id → r.writes = true → heap.get METADATA_TABLE ≠ some id) :
    heap'.get METADATA_TABLE = heap.get METADATA_TABLE ∧
      (∀ id, heap.get METADATA_TABLE = some id → heap'.cells id = heap.cells id) ∧
      ∀ r id, phase' = .holding r id → r.writes = true → heap.get METADATA_TABLE ≠ some id := by
  have hname : ∀ r : Request, phase.request? = some r → r.writes = true → METADATA_TABLE ≠ r.table :=
    fun r hr hwrites => (Request.validate_writes (hvalid r hr) hwrites).symm
  cases hop with
  | missing | refuses | reads => exact ⟨rfl, fun _ _ => rfl, by simp [Phase.fails]⟩
  | looks => exact ⟨rfl, fun _ _ => rfl, by simp⟩
  | @finds r id hkey hget =>
    refine ⟨rfl, fun _ _ => rfl, fun r' id' hphase hwrites hmeta => ?_⟩
    cases hphase
    exact hname r rfl hwrites (heap.inj _ _ _ hmeta hget)
  | @makes r hget =>
    have hne := hname (.put r) rfl rfl
    refine ⟨Heap.get_insertNew_of_ne hne, fun id hmeta => ?_, fun r' id' hphase _ hmeta => ?_⟩
    · exact Heap.cells_insertNew_of_ne (heap.bound _ _ hmeta).ne
    · cases hphase
      exact absurd (heap.bound _ _ hmeta) (lt_irrefl _)
  | @changes r id hevent =>
    have hwrites : r.writes = true := by
      cases r with
      | put | update | delete => rfl
      | _ => exact absurd rfl hevent
    refine ⟨rfl, fun id' hmeta => Heap.cells_modify_of_ne fun heq => ?_, by simp⟩
    exact helsewhere r id rfl hwrites (heq ▸ hmeta)
  | @adds r found =>
    have hne := hname (.addTable r) rfl rfl
    unfold Heap.create
    split
    next id hget => exact ⟨rfl, fun _ _ => rfl, by simp [Phase.replies]⟩
    next hget =>
      exact ⟨Heap.get_insertNew_of_ne hne, fun id hmeta => Heap.cells_insertNew_of_ne (heap.bound _ _ hmeta).ne,
        by simp [Phase.replies]⟩
  | @removes r found =>
    exact ⟨Heap.get_remove_of_ne (hname (.removeTable r) rfl rfl), fun _ _ => rfl, by simp [Phase.replies]⟩

theorem Untouched.step (hw : Untouched h w) (hfaithful : Faithful c w) (hstep : Step c w l w') : Untouched h w' := by
  obtain ⟨request, rfl, rfl⟩ | ⟨i, call, phase, heap, rfl, hi, hop, rfl⟩ | ⟨i, call, phase, rfl, hi, hpublish, rfl⟩ :=
    next_cases hstep
  · refine ⟨hw.registered, hw.stored, fun j call r id hj hphase => ?_⟩
    rcases calls_invoke j hj with hj | ⟨-, rfl⟩
    · exact hw.elsewhere j call r id hj hphase
    · simp only [Phase.start] at hphase
      split at hphase <;> cases hphase
  · have hvalid := fun r hr => Request.parse_ok (hfaithful i call r hi hr)
    obtain ⟨hregistered, hstored, helsewhere⟩ := op_untouched hop hvalid fun r id hphase hwrites hmeta =>
      hw.elsewhere i call r id hi hphase hwrites (hw.registered ▸ hmeta)
    refine ⟨hregistered.trans hw.registered, fun id hmeta => ?_, fun j call' r id hj hphase hwrites hmeta => ?_⟩
    · exact (hstored id (hw.registered ▸ hmeta)).trans (hw.stored id hmeta)
    · rw [show ({ w.setPhase i call phase with heap, bare := _ } : Calls).calls = (w.setPhase i call phase).calls from
        rfl, calls_setPhase hi] at hj
      split_ifs at hj
      · obtain rfl := Option.some.inj hj
        exact helsewhere r id hphase hwrites (hw.registered ▸ hmeta)
      · exact hw.elsewhere j call' r id hj hphase hwrites hmeta
  · refine ⟨hw.registered, hw.stored, fun j call' r id hj hphase => ?_⟩
    obtain ⟨r', -, -, hreturned⟩ := Phase.publish_cases hpublish
    rw [calls_setPhase hi] at hj
    split_ifs at hj
    · obtain rfl := Option.some.inj hj
      rw [hreturned .new] at hphase
      cases hphase
    · exact hw.elsewhere j call' r id hj hphase

theorem untouched_of_run (hrun : Run (Step c) (initial h) ls w) : Untouched h w := by
  induction hrun with
  | nil => exact ⟨rfl, fun _ _ => rfl, fun i call r id hi => by simp [initial] at hi⟩
  | snoc hrun hstep ih => exact ih.step (faithful_of_run hrun) hstep

theorem after_metadataTable (request : RequestEnvelope) (s : Shared) :
    (after c request s).store.get METADATA_TABLE = s.store.get METADATA_TABLE := by
  rw [after_eq]
  cases hparse : Request.parse c request with
  | error e => rfl
  | ok r =>
    cases hwrites : r.writes with
    | false => simp only [Request.perform, Request.act_reads c hwrites, MemoryStore.set_get]
    | true => exact MemoryStore.get_set_of_ne (Request.validate_writes (Request.parse_ok hparse) hwrites).symm

/-- From any store, in any interleaving of any requests: the reserved table is there if it was, with the keys,
values and versions that it had. -/
theorem reserved_kept (hrun : Run (Step c) (initial h) ls w) :
    (w.heap.get METADATA_TABLE = h.get METADATA_TABLE ∧ w.heap.lookup METADATA_TABLE = h.lookup METADATA_TABLE) ∧
      ∀ requests s, (serve c requests s).store.get METADATA_TABLE = s.store.get METADATA_TABLE := by
  have hw := untouched_of_run hrun
  refine ⟨⟨hw.registered, ?_⟩, fun requests s => ?_⟩
  · unfold Heap.lookup
    rw [hw.registered]
    cases hmeta : h.get METADATA_TABLE with
    | none => rfl
    | some id => rw [Option.map_some, Option.map_some, hw.stored id hmeta]
  · induction requests using List.reverseRecOn with
    | nil => rfl
    | append_singleton requests request ih => rw [serve_snoc, after_metadataTable, ih]

/-- A store with the reserved table and one key in it. -/
def metadataHeap : Heap := (Heap.new.insertNew METADATA_TABLE).modify 0 fun t => t.insert "node" [7]

/-- A refused `put` between the operations of another, and a refused `remove_table`. -/
def attempts : List Label :=
  [.invoke { action := "put", payload := encode prefixedCodecs.putRequest ⟨"users", "alice", [1]⟩ }, .op 0,
    .invoke { action := "put", payload := encode prefixedCodecs.putRequest ⟨METADATA_TABLE, "node", [8]⟩ }, .op 0,
    .invoke { action := "remove_table", payload := encode prefixedCodecs.removeTableRequest ⟨METADATA_TABLE⟩ },
    .publish 0]

theorem reserved_kept_attempts :
    (played (next prefixedCodecs) (initial metadataHeap) attempts).heap.lookup METADATA_TABLE =
      metadataHeap.lookup METADATA_TABLE :=
  (reserved_kept (run_played (fun _ _ _ hs => hs) (by decide +kernel))).1.2

end TrenchDb.Storage.Calls
