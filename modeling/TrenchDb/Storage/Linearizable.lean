import TrenchDb.Storage.Encoding
import TrenchDb.Storage.Timeline

/-!
# Linearizability

The handlers look up a table and then work on it, in separate operations. Calls explain each other as a
sequence as long as no table changes in between: the three gaps are a table that a `put` has made and not
yet filled, an `add_table` that finds a table after it saw none, and a `remove_table` that finds what it
did not see, or does not find what it saw.
-/

open TrenchDb.Lib.Linearize TrenchDb.Lib.Lts TrenchDb.Rpc TrenchDb.Transport

namespace TrenchDb.Storage

variable {c : Codecs}

/-! ## The gaps -/

/-- The next operation meets a gap. -/
def Phase.races : Phase → Heap → List Nat → Bool
  | .holding (.get _) id, _, bare => id ∈ bare
  | .holding (.update _) id, _, bare => id ∈ bare
  | .holding (.delete _) id, _, bare => id ∈ bare
  | .called (.addTable r), h, bare => (h.get r.table).any fun id => id ∈ bare
  | .checked (.addTable r) _, h, bare => (h.get r.table).any fun id => id ∉ bare
  | .checked (.removeTable r) found, h, bare =>
    (h.get r.table).isSome != found || (h.get r.table).any fun id => id ∈ bare
  | _, _, _ => false

namespace Calls

def races (w : Calls) : Label → Bool
  | .op i => ((w.calls[i]?).map fun call => call.phase.races w.heap w.bare).getD false
  | _ => false

def SoundStep (c : Codecs) (w : Calls) (l : Label) (w' : Calls) : Prop := Step c w l w' ∧ w.races l = false

/-! ## What is to be explained -/

def request (w : Calls) (i : Nat) : RequestEnvelope :=
  ((w.calls[i]?).map Call.request).getD { action := "", payload := [] }

/-- The order runs calls, one after another, from the store of `h`, and gives their responses; once all have
returned, it also gives the store. -/
structure Explains (c : Codecs) (h : Heap) (w : Calls) (order : List Nat) : Prop where
  calls : ∀ i ∈ order, i < w.calls.length
  linear : Linearization (fun s i => (alone c (w.request i) s).2) (fun s i => (alone c (w.request i) s).1) h.view
    w.before w.response order
  final : (∀ i, i < w.calls.length → w.response i ≠ none) →
    order.foldl (fun s i => (alone c (w.request i) s).2) h.view = w.heap.view

/-- There is such an order. -/
def Linearizable (c : Codecs) (h : Heap) (w : Calls) : Prop := ∃ order, Explains c h w order

variable {h : Heap} {reqs : Nat → RequestEnvelope} {w w' : Calls} {order : List Nat} {cut : Nat → Option Nat}
  {i : Nat} {call : Call} {phase : Phase}

/-! ## The operations -/

theorem Timeline.act_filled {r : Request} {id : Nat} (ht : Timeline c h reqs w order cut) (hevent : r.event? ≠ none)
    (hheld : call.phase = .holding r id)
    (hget : w.heap.get r.table = some id) (hraces : call.phase.races w.heap w.bare = false) :
    r.act c (w.filled r.table) = ((r.act c (some .new)).1, some (r.apply (w.heap.cells id))) := by
  by_cases hid : id ∈ w.bare
  · cases r with
    | put q =>
      rw [filled_bare hget hid, (ht.bare id hid).2.1]
      rfl
    | update q | delete q => simp [hheld, Phase.races, hid] at hraces
    | get q | contains q | addTable q | removeTable q => exact absurd rfl hevent
  · rw [filled_some hget hid]
    refine Prod.ext (r.act_changes c hevent _ _) ?_
    cases r with
    | put q | update q | delete q => rfl
    | get q | contains q | addTable q | removeTable q => exact absurd rfl hevent

section Ops

variable {r : Request} {id : Nat} (ht : Timeline c h reqs w order cut) (hparse : Request.parse c (reqs i) = .ok r)
  (hm : Moves w w' i call phase)
include ht hparse hm

theorem Timeline.answer {t : Option Table} (hnone : call.phase.outcome c = none)
    (hcalled : ∀ q id, call.phase ≠ .holding (.put q) id) (hheap : w'.heap = w.heap) (hbare : w'.bare = w.bare)
    (hfilled : w.filled r.table = t) (hphase : phase = .returned ((r.act c t).1.map ResponseEnvelope.mk))
    (hact : (r.act c t).2 = t) : Timeline c h reqs w' (order ++ [i]) cut := by
  have halone := alone_ok hparse (storeAfter c h reqs order)
  rw [ht.store, hfilled, hact, MemoryStore.set_get ((ht.store _).trans hfilled)] at halone
  have hsame : w'.filled = w.filled := by
    funext table
    simp only [filled, hheap, hbare]
  refine ht.finish hm hnone (hheap ▸ Heap.Grows.refl w.heap) ?_ (fun table => ?_) fun id hid =>
    ⟨hbare ▸ hid, by rw [hheap], fun q => hcalled q id⟩
  · rw [halone, hphase]
    rfl
  · rw [halone, ht.store, hsame]

theorem Timeline.missing (hkey : r.key? ≠ none) (hput : ∀ q, r ≠ .put q) (hcalled : call.phase = .called r)
    (hget : w.heap.get r.table = none) (hphase : phase = .returned ((r.act c none).1.map ResponseEnvelope.mk))
    (hheap : w'.heap = w.heap) (hbare : w'.bare = w.bare) : Timeline c h reqs w' (order ++ [i]) cut := by
  refine ht.answer hparse hm (by rw [hcalled]; rfl) (fun q id => by rw [hcalled]; simp) hheap hbare (filled_none hget)
    hphase ?_
  cases r with
  | get q | update q | delete q | contains q => rfl
  | put q => exact absurd rfl (hput q)
  | addTable q | removeTable q => exact absurd rfl hkey

theorem Timeline.reads (hkey : r.key? ≠ none) (hreads : r.writes = false) (hheld : call.phase = .holding r id)
    (hget : w.heap.get r.table = some id) (hraces : call.phase.races w.heap w.bare = false)
    (hphase : phase = .returned ((r.act c (some (w.heap.cells id))).1.map ResponseEnvelope.mk))
    (hheap : w'.heap = w.heap) (hbare : w'.bare = w.bare) : Timeline c h reqs w' (order ++ [i]) cut := by
  have hnone : call.phase.outcome c = none := by rw [hheld]; rfl
  have hcalled : ∀ q id, call.phase ≠ .holding (.put q) id := by
    rintro q id' hp
    rw [hheld] at hp
    obtain ⟨rfl, -⟩ := Phase.holding.inj hp
    cases hreads
  by_cases hid : id ∈ w.bare
  · -- Only a `contains` may read a table that is not filled: it holds no key yet.
    cases r with
    | contains q =>
      refine ht.answer hparse hm hnone hcalled hheap hbare (filled_bare hget hid) ?_ rfl
      rw [hphase, (ht.bare id hid).2.1]
      rfl
    | get q => simp [hheld, Phase.races, hid] at hraces
    | put q | update q | delete q | addTable q | removeTable q => cases hreads
  · exact ht.answer hparse hm hnone hcalled hheap hbare (filled_some hget hid) hphase (r.act_reads c hreads _)

theorem Timeline.changes (hevent : r.event? ≠ none) (hheld : call.phase = .holding r id)
    (hget : w.heap.get r.table = some id) (hraces : call.phase.races w.heap w.bare = false)
    (hphase : phase = .changed r)
    (hheap : w'.heap = w.heap.modify id r.apply) (hbare : w'.bare = w.bare.filter (· ≠ id)) :
    Timeline c h reqs w' (order ++ [i]) cut := by
  have halone := alone_ok hparse (storeAfter c h reqs order)
  rw [ht.store, ht.act_filled hevent hheld hget hraces] at halone
  have hmem : ∀ {id'}, id' ∈ w'.bare ↔ id' ∈ w.bare ∧ id' ≠ id := by simp [hbare]
  refine ht.finish hm (by rw [hheld]; rfl) (hheap ▸ Heap.grows_modify hget r.apply) ?_ (fun table => ?_)
    fun id' hid' => ?_
  · rw [halone, hphase]
    rfl
  · rw [halone]
    by_cases hname : table = r.table
    · have hget' : w'.heap.get r.table = some id := by
        rw [hheap]
        exact hget
      rw [hname, MemoryStore.get_set, filled_some hget' (by simp [hmem]), hheap, Heap.cells_modify]
    · rw [MemoryStore.get_set_of_ne hname, ht.store]
      refine (filled_congr (by rw [hheap]; rfl) fun id' hid' => ?_).symm
      have hne : id' ≠ id := by
        rintro rfl
        exact hname (w.heap.inj _ _ _ hid' hget)
      exact ⟨by simp [hmem, hne], by rw [hheap, Heap.cells_modify_of_ne hne]⟩
  · obtain ⟨hid, hne⟩ := hmem.mp hid'
    refine ⟨hid, by rw [hheap, Heap.cells_modify_of_ne hne], fun q hp => ?_⟩
    rw [hheld] at hp
    exact hne (Phase.holding.inj hp).2.symm

end Ops

section Tables

theorem Timeline.add (ht : Timeline c h reqs w order cut) {q : AddTableRequest} {found : Bool}
    (hparse : Request.parse c (reqs i) = .ok (.addTable q))
    (hm : Moves w w' i call (Phase.replies (encode c.addTableResponse { ok := true })))
    (hchecked : call.phase = .checked (.addTable q) found) (hraces : call.phase.races w.heap w.bare = false)
    (hheap : w'.heap = (w.heap.create q.table).2) (hbare : w'.bare = w.bare.filter (· ≠ (w.heap.create q.table).1)) :
    Timeline c h reqs w' (order ++ [i]) cut := by
  have hfilled : w.filled q.table = none := by
    cases hget : w.heap.get q.table with
    | none => exact filled_none hget
    | some id => exact filled_bare hget (by simpa [hchecked, Phase.races, hget] using hraces)
  have halone := alone_ok hparse (storeAfter c h reqs order)
  rw [ht.store, show (Request.addTable q).table = q.table from rfl, hfilled] at halone
  have hmem : ∀ {id}, id ∈ w'.bare ↔ id ∈ w.bare ∧ id ≠ (w.heap.create q.table).1 := by simp [hbare]
  have hcells : ∀ id, id < w.heap.next → w'.heap.cells id = w.heap.cells id := by
    intro id hlt
    rw [hheap]
    cases hget : w.heap.get q.table with
    | none => rw [Heap.create_of_none hget, Heap.cells_insertNew_of_ne hlt.ne]
    | some id' => rw [Heap.create_of_some hget]
  have hcreated : w'.heap.get q.table = some (w.heap.create q.table).1 := by
    rw [hheap]
    cases hget : w.heap.get q.table with
    | none => rw [Heap.create_of_none hget, Heap.get_insertNew]
    | some id => rw [Heap.create_of_some hget, hget]
  refine ht.finish hm (by rw [hchecked]; rfl) (hheap ▸ Heap.grows_create _ _) ?_ (fun table => ?_) fun id hid => ?_
  · rw [halone]
    rfl
  · rw [halone]
    by_cases hname : table = q.table
    · rw [hname]
      refine MemoryStore.get_set.trans (Eq.symm ?_)
      refine (filled_some (w := w') hcreated fun hid => (hmem.mp hid).2 rfl).trans (congrArg some ?_)
      cases hget : w.heap.get q.table with
      | none => rw [hheap, Heap.create_of_none hget, Heap.cells_insertNew]
      | some id =>
        rw [hheap, Heap.create_of_some hget]
        exact (ht.bare id (by simpa [hchecked, Phase.races, hget] using hraces)).2.1
    · rw [MemoryStore.get_set_of_ne hname, ht.store]
      refine (filled_congr ?_ fun id hid => ⟨?_, hcells id (w.heap.bound _ _ hid)⟩).symm
      · rw [hheap]
        cases hget : w.heap.get q.table with
        | none => rw [Heap.create_of_none hget, Heap.get_insertNew_of_ne hname]
        | some id => rw [Heap.create_of_some hget]
      · refine hmem.trans (and_iff_left ?_)
        cases hget : w.heap.get q.table with
        | none => exact Heap.create_of_none hget ▸ (w.heap.bound _ _ hid).ne
        | some id' =>
          rw [Heap.create_of_some hget]
          rintro rfl
          exact hname (w.heap.inj _ _ _ hid hget)
  · obtain ⟨⟨table, hget⟩, -⟩ := ht.bare id (hmem.mp hid).1
    exact ⟨(hmem.mp hid).1, hcells id (w.heap.bound _ _ hget), fun q => by rw [hchecked]; simp⟩

theorem Timeline.removeNone (ht : Timeline c h reqs w order cut) {q : RemoveTableRequest}
    (hparse : Request.parse c (reqs i) = .ok (.removeTable q))
    (hm : Moves w w' i call (Phase.replies (encode c.removeTableResponse { ok := false })))
    (hchecked : call.phase = .checked (.removeTable q) false) (hget : w.heap.get q.table = none)
    (hheap : w'.heap = w.heap.remove q.table) (hbare : w'.bare = w.bare) : Timeline c h reqs w' (order ++ [i]) cut := by
  have hfilled := (ht.store q.table).trans (filled_none hget)
  have halone := alone_removeTable hparse (storeAfter c h reqs order)
  rw [hfilled, MemoryStore.set_get hfilled] at halone
  refine ht.finish hm (by rw [hchecked]; rfl) (hheap ▸ Heap.grows_remove hget) ?_ (fun table => ?_) fun id hid =>
    ⟨hbare ▸ hid, by rw [hheap]; rfl, fun q => by rw [hchecked]; simp⟩
  · rw [halone]
    rfl
  · rw [halone, ht.store]
    refine (filled_congr ?_ fun id _ => ⟨by rw [hbare], by rw [hheap]; rfl⟩).symm
    rw [hheap]
    by_cases hname : table = q.table
    · rw [hname, Heap.get_remove, hget]
    · rw [Heap.get_remove_of_ne hname]

theorem Timeline.remove (ht : Timeline c h reqs w order cut) {q : RemoveTableRequest} {found : Bool}
    (hparse : Request.parse c (reqs i) = .ok (.removeTable q))
    (hm : Moves w w' i call (Phase.replies (encode c.removeTableResponse { ok := found })))
    (hchecked : call.phase = .checked (.removeTable q) found) (hraces : call.phase.races w.heap w.bare = false)
    (hheap : w'.heap = w.heap.remove q.table) (hbare : w'.bare = w.bare) :
    ∃ cut', Timeline c h reqs w' (order ++ [i]) cut' := by
  simp only [hchecked, Phase.races, Bool.or_eq_false_iff, bne_eq_false_iff_eq] at hraces
  cases hget : w.heap.get q.table with
  | none =>
    rw [hget] at hraces
    obtain rfl : false = found := hraces.1
    exact ⟨cut, ht.removeNone hparse hm hchecked hget hheap hbare⟩
  | some id =>
    rw [hget] at hraces
    obtain rfl : true = found := hraces.1
    exact ⟨_, ht.sever hparse hm hchecked hget (by simpa using hraces.2) hheap hbare⟩

end Tables

theorem Timeline.work (ht : Timeline c h reqs w order cut) {r : Request} {id : Nat}
    (hparse : Request.parse c (reqs i) = .ok r) (hkey : r.key? ≠ none) (hm : Moves w w' i call phase)
    (hheld : call.phase = .holding r id) (hcut : cut id ≠ none)
    (hphase : phase.outcome c = some ((r.act c (some (w.heap.cells id))).1.map ResponseEnvelope.mk))
    (hheap : w'.heap = w.heap.modify id r.apply) (hbare : w'.bare = call.phase.bareAfter w.heap w.bare) :
    ∃ order', Timeline c h reqs w' order' cut := by
  obtain ⟨k, hk⟩ := Option.ne_none_iff_exists'.mp hcut
  obtain ⟨earlier, table, hs⟩ := ht.cuts id k hk
  refine ht.behind hparse hkey hm hheld hk hphase hheap ?_
  rw [hbare, hheld, Phase.bareAfter]
  split_ifs
  · refine List.filter_eq_self.mpr fun id' hid' => ?_
    obtain ⟨⟨table', hget⟩, -⟩ := ht.bare id' hid'
    simp only [ne_eq, decide_not, Bool.not_eq_eq_eq_not, Bool.not_true, decide_eq_false_iff_not]
    rintro rfl
    exact hs.gone table' hget
  · rfl

theorem Timeline.op (ht : Timeline c h reqs w order cut) (hfaithful : Faithful c w) {phase' : Phase} {heap : Heap}
    (hi : w.calls[i]? = some call) (hop : Phase.Op c w.heap call.phase phase' heap)
    (hraces : call.phase.races w.heap w.bare = false)
    (hw' : w' = { w.setPhase i call phase' with heap, bare := call.phase.bareAfter w.heap w.bare }) :
    ∃ order' cut', Timeline c h reqs w' order' cut' := by
  have hm : Moves w w' i call phase' := ⟨hi, fun j => by rw [hw']; exact calls_setPhase hi j⟩
  have hparse : ∀ r, call.phase.request? = some r → Request.parse c (reqs i) = .ok r :=
    fun r hr => ht.agree i call hi ▸ hfaithful i call r hi hr
  have hheap : w'.heap = heap := by rw [hw']
  have hbare : w'.bare = call.phase.bareAfter w.heap w.bare := by rw [hw']
  generalize hphase : call.phase = before at hop
  rw [hphase] at hparse hbare
  cases hop with
  | @missing r hkey hput hget =>
    refine ⟨_, cut, ht.missing (hparse r rfl) hm hkey hput hphase hget rfl hheap (hbare.trans ?_)⟩
    cases r with
    | put q => exact absurd rfl (hput q)
    | _ => rfl
  | @finds r id hkey hget =>
    refine ⟨order, cut, ht.continue hm (by rw [hphase]; rfl) hheap (hbare.trans ?_) (by rw [hphase]; simp)
      fun r' id' hp => ?_⟩
    · cases r with
      | put q => simp [Phase.bareAfter, show w.heap.get q.table = some id from hget]
      | _ => rfl
    · cases hp
      exact hget
  | @makes r hget =>
    refine ⟨order, cut, ht.make hm hphase hget hheap (hbare.trans ?_)⟩
    simp [Phase.bareAfter, hget, Heap.create_of_none hget]
  | @refuses r id hget =>
    have hid : id ∉ w.bare := by simpa [hphase, Phase.races, hget] using hraces
    exact ⟨_, cut, ht.answer (hparse _ rfl) hm (by rw [hphase]; rfl) (fun q id => by rw [hphase]; simp) hheap hbare
      (filled_some hget hid) rfl rfl⟩
  | @looks r hkey hadd =>
    refine ⟨order, cut, ht.continue hm (by rw [hphase]; rfl) hheap (hbare.trans ?_) (by rw [hphase]; simp) (by simp)⟩
    cases r with
    | put q => cases hkey
    | _ => rfl
  | @reads r id hkey hreads =>
    have hbare' : w'.bare = w.bare := by simp [hbare, Phase.bareAfter, hreads]
    rcases ht.held i call r id hi hphase with hget | hcut
    · exact ⟨_, cut, ht.reads (hparse r rfl) hm hkey hreads hphase hget hraces rfl hheap hbare'⟩
    · have happly : r.apply (w.heap.cells id) = w.heap.cells id :=
        Option.some.inj ((r.act_some c hkey _).symm.trans (r.act_reads c hreads _))
      obtain ⟨order', ht'⟩ :=
        ht.work (hparse r rfl) hkey hm hphase hcut rfl (hheap.trans (Heap.modify_self happly).symm)
        (by rw [hphase, hbare])
      exact ⟨order', cut, ht'⟩
  | @changes r id hevent =>
    have hwrites : r.writes = true ∧ r.key? ≠ none := by
      cases r with
      | put q | update q | delete q => exact ⟨rfl, by simp [Request.key?]⟩
      | _ => exact absurd rfl hevent
    rcases ht.held i call r id hi hphase with hget | hcut
    · exact ⟨_, cut, ht.changes (hparse r rfl) hm hevent hphase hget hraces rfl hheap
        (by simp [hbare, Phase.bareAfter, hwrites.1])⟩
    · obtain ⟨order', ht'⟩ := ht.work (hparse r rfl) hwrites.2 hm hphase hcut
        (congrArg (fun o => some (Except.map ResponseEnvelope.mk o)) (r.act_changes c hevent _ _)) hheap
        (by rw [hphase, hbare])
      exact ⟨order', cut, ht'⟩
  | @adds r found => exact ⟨_, cut, ht.add (hparse _ rfl) hm hphase hraces hheap hbare⟩
  | @removes r found =>
    obtain ⟨cut', ht'⟩ := ht.remove (hparse _ rfl) hm hphase hraces hheap hbare
    exact ⟨_, cut', ht'⟩

/-! ## Whole runs -/

theorem Timeline.step (ht : Timeline c h reqs w order cut) (hfaithful : Faithful c w) {l : Label}
    (hagree : ∀ (j : Nat) (call : Call), w'.calls[j]? = some call → call.request = reqs j)
    (hstep : SoundStep c w l w') : ∃ order' cut', Timeline c h reqs w' order' cut' := by
  obtain ⟨hnext, hraces⟩ := hstep
  obtain ⟨request, rfl, hw'⟩ | ⟨i, call, phase, heap, rfl, hi, hop, hw'⟩ | ⟨i, call, phase, rfl, hi, hpublish, hw'⟩ :=
    next_cases hnext
  · obtain ⟨order', ht'⟩ := ht.invoke hw' (hagree _ _ (by rw [hw', calls_append, if_pos rfl]))
    exact ⟨order', cut, ht'⟩
  · exact ht.op hfaithful hi hop (by simpa [races, hi] using hraces) hw'
  · obtain ⟨r, hphase, -, hreturned⟩ := Phase.publish_cases hpublish
    have hm : Moves w w' i call phase := ⟨hi, fun j => by rw [hw']; exact calls_setPhase hi j⟩
    refine ⟨order, cut, ht.continue hm ?_ (by rw [hw']; rfl) (by rw [hw']; rfl) (by rw [hphase]; simp)
      fun r' id hp => ?_⟩
    · rw [hphase, hreturned .new]
      rfl
    · rw [hreturned .new] at hp
      cases hp

theorem timeline_initial : Timeline c h reqs (initial h) [] fun _ => none where
  agree i call hi := by simp [initial] at hi
  linear := Linearization.nil fun i => by simp [outcome, initial]
  known := by simp
  past i call hi := by simp [initial] at hi
  store table := by
    show h.view.get table = _
    rw [Heap.get_view, Heap.lookup]
    cases hget : h.get table with
    | none => exact (filled_none hget).symm
    | some id => exact (filled_some (w := initial h) hget (by simp [initial])).symm
  bare id hid := by simp [initial] at hid
  held i call r id hi := by simp [initial] at hi
  cuts id k hcut := by cases hcut
  single id id' k hcut := by cases hcut

theorem Step.request_kept {l : Label} (hstep : Step c w l w') {j : Nat} {call : Call} (hj : w.calls[j]? = some call) :
    ∃ call', w'.calls[j]? = some call' ∧ call'.request = call.request := by
  have hmoved : ∀ {i call' phase}, w.calls[i]? = some call' →
      ∃ call'', (w.setPhase i call' phase).calls[j]? = some call'' ∧ call''.request = call.request := by
    intro i call' phase hi
    rw [calls_setPhase hi]
    split_ifs with heq
    · obtain rfl := Option.some.inj (hi.symm.trans (heq ▸ hj))
      exact ⟨_, rfl, rfl⟩
    · exact ⟨call, hj, rfl⟩
  obtain ⟨request, rfl, rfl⟩ | ⟨i, call', phase, heap, rfl, hi, hop, rfl⟩ | ⟨i, call', phase, rfl, hi, hpublish, rfl⟩ :=
    next_cases hstep
  · exact ⟨call, by rw [List.getElem?_append_left (List.getElem?_eq_some_iff.mp hj).1, hj], rfl⟩
  · exact hmoved hi
  · exact hmoved hi

theorem timeline_of_run {ls : List Label} (hrun : Run (SoundStep c) (initial h) ls w)
    (hagree : ∀ (j : Nat) (call : Call), w.calls[j]? = some call → call.request = reqs j) :
    ∃ order cut, Timeline c h reqs w order cut := by
  induction hrun with
  | nil => exact ⟨[], _, timeline_initial⟩
  | snoc hrun hstep ih =>
    obtain ⟨order, cut, ht⟩ := ih fun j call hj => by
      obtain ⟨call', hj', hrequest⟩ := hstep.1.request_kept hj
      rw [← hrequest]
      exact hagree j call' hj'
    exact ht.step (faithful_of_run (hrun.mono fun _ _ _ hs => hs.1)) hagree hstep

theorem Timeline.explains (ht : Timeline c h w.request w order cut) : Explains c h w order where
  calls i hi := by
    by_contra hle
    exact ht.known i hi (by simp [outcome, List.getElem?_eq_none (not_lt.mp hle)])
  linear := ht.linear.weaken (fun _ _ => List.Subset.refl _) fun _ _ hr => outcome_of_response hr
  final hall := by
    have hbare : ∀ id, id ∉ w.bare := by
      intro id hid
      obtain ⟨-, -, j, call, q, hj, hphase⟩ := ht.bare id hid
      refine hall j (List.getElem?_eq_some_iff.mp hj).1 ?_
      simp [Calls.response, Phase.response, hj, hphase]
    refine MemoryStore.ext_get fun table => ?_
    rw [show List.foldl _ h.view order = storeAfter c h w.request order from rfl, ht.store, Heap.get_view, Heap.lookup]
    cases hget : w.heap.get table with
    | none => exact filled_none hget
    | some id => exact filled_some hget (hbare id)

/-- While no operation meets a gap, the calls are linearizable in every state. -/
theorem linearizable {ls : List Label} (hrun : Run (SoundStep c) (initial h) ls w) : Linearizable c h w := by
  obtain ⟨order, cut, ht⟩ := timeline_of_run hrun fun j call hj => show call.request = w.request j by simp [request, hj]
  exact ⟨order, ht.explains⟩

def usersHeap : Heap := Heap.new.insertNew "users"

/-- A `put` and a `get` go on with a table that a `remove_table` has taken away. -/
def detached : List Label :=
  [.invoke putAlice, .invoke removeUsers, .invoke getAlice, .op 0, .op 2, .op 1, .op 1, .op 0, .op 2, .publish 0]

theorem linearizable_detached : Linearizable prefixedCodecs usersHeap
    (played (guarded (next prefixedCodecs) fun w l => !w.races l) (initial usersHeap) detached) :=
  linearizable ((run_guarded (fun _ _ _ h => h) (by decide +kernel)).mono fun _ _ _ hs =>
    ⟨hs.1, (Bool.not_eq_true' _).mp hs.2⟩)

/-! ## What happens in the gaps -/

/-- Call `i` and then call `j` give the responses that they have. -/
def inOrder (c : Codecs) (h : Heap) (w : Calls) (i j : Nat) : Bool :=
  w.response i = some (alone c (w.request i) h.view).1 ∧
    w.response j = some (alone c (w.request j) (alone c (w.request i) h.view).2).1

theorem Linearizable.pair (hw : Linearizable c h w) (hlength : w.calls.length = 2) (h₀ : w.response 0 ≠ none)
    (h₁ : w.response 1 ≠ none) : inOrder c h w 0 1 = true ∨ inOrder c h w 1 0 = true := by
  obtain ⟨order, hcalls, hlinear, -⟩ := hw
  obtain ⟨r₀, hr₀⟩ := Option.ne_none_iff_exists'.mp h₀
  obtain ⟨r₁, hr₁⟩ := Option.ne_none_iff_exists'.mp h₁
  have hperm : order.Perm [0, 1] := by
    refine (List.perm_ext_iff_of_nodup hlinear.nodup (by decide)).mpr fun i => ⟨fun hi => ?_, fun hi => ?_⟩
    · have := hcalls i hi
      simp only [List.mem_cons, List.not_mem_nil, or_false]
      omega
    · rcases List.mem_pair.mp hi with rfl | rfl
      · exact hlinear.complete 0 r₀ hr₀
      · exact hlinear.complete 1 r₁ hr₁
  have hanswers := hlinear.answers
  obtain ⟨a, b, rfl⟩ := List.length_eq_two.mp hperm.length_eq
  have hfirst := hanswers [] a [b] rfl
  have hsecond := hanswers [a] b [] rfl
  have hmem : (a = 0 ∧ b = 1) ∨ a = 1 ∧ b = 0 := by
    have ha := hperm.subset (List.mem_cons_self ..)
    have hb := hperm.subset (List.mem_cons_of_mem a (List.mem_cons_self ..))
    have hne := hlinear.nodup
    simp only [List.mem_cons, List.not_mem_nil, or_false, List.nodup_cons] at ha hb hne
    omega
  rcases hmem with ⟨rfl, rfl⟩ | ⟨rfl, rfl⟩
  · left
    simp only [inOrder, decide_eq_true_eq]
    exact ⟨by rw [hr₀, ← hfirst r₀ hr₀]; rfl, by rw [hr₁, ← hsecond r₁ hr₁]; rfl⟩
  · right
    simp only [inOrder, decide_eq_true_eq]
    exact ⟨by rw [hr₁, ← hfirst r₁ hr₁]; rfl, by rw [hr₀, ← hsecond r₀ hr₀]; rfl⟩

/-- Two `add_table` calls that both succeed, a `get` that finds an empty table before its first `put` is done, and
two `remove_table` calls that both find the table. -/
def gaps : List (Heap × List Label) :=
  [(Heap.new, [.invoke addUsers, .invoke addUsers, .op 0, .op 1, .op 0, .op 1]),
    (Heap.new, [.invoke putAlice, .invoke getAlice, .op 0, .op 1, .op 1, .op 0, .publish 0]),
    (usersHeap, [.invoke removeUsers, .invoke removeUsers, .op 0, .op 1, .op 0, .op 1])]

theorem gap_not_linearizable {g : Heap × List Label} (hg : g ∈ gaps) :
    Run (Step prefixedCodecs) (initial g.1) g.2 (played (next prefixedCodecs) (initial g.1) g.2) ∧
      ¬ Linearizable prefixedCodecs g.1 (played (next prefixedCodecs) (initial g.1) g.2) := by
  have hruns : gaps.all (fun g => (g.2.foldlM (next prefixedCodecs) (initial g.1)).isSome) = true := by decide +kernel
  have hbroken : ∀ g ∈ gaps, let w := played (next prefixedCodecs) (initial g.1) g.2
      w.calls.length = 2 ∧ w.response 0 ≠ none ∧ w.response 1 ≠ none ∧
        inOrder prefixedCodecs g.1 w 0 1 = false ∧ inOrder prefixedCodecs g.1 w 1 0 = false := by decide +kernel
  refine ⟨run_played (fun _ _ _ hs => hs) (List.all_eq_true.mp hruns g hg), fun hlinear => ?_⟩
  obtain ⟨hlength, h₀, h₁, h₀₁, h₁₀⟩ := hbroken g hg
  rcases hlinear.pair hlength h₀ h₁ with h | h
  · exact absurd h (by rw [h₀₁]; decide)
  · exact absurd h (by rw [h₁₀]; decide)

theorem not_linearizable : ¬ ∀ c h ls w, Run (Step c) (initial h) ls w → Linearizable c h w := by
  intro hall
  obtain ⟨hrun, hbroken⟩ := gap_not_linearizable (List.mem_cons_self ..)
  exact hbroken (hall _ _ _ _ hrun)

end Calls

end TrenchDb.Storage
