import TrenchDb.Lib.Linearize
import TrenchDb.Storage.Concurrent

/-!
# Timelines

The calls that have taken effect, in an order that explains them, with the collections that are no longer
in the registry.
-/

open TrenchDb.Lib.Linearize TrenchDb.Rpc TrenchDb.Transport

namespace TrenchDb.Storage

/-! ## One call alone -/

variable {c : Codecs}

/-- The response and the store after one call that runs alone. -/
def alone (c : Codecs) (request : RequestEnvelope) (store : MemoryStore String (List UInt8)) :
    Except TransportError ResponseEnvelope × MemoryStore String (List UInt8) :=
  (((buildActions c).handleRequest request { store, published := [] }).1,
    ((buildActions c).handleRequest request { store, published := [] }).2.store)

theorem alone_error {request : RequestEnvelope} {e : TransportError} (hparse : Request.parse c request = .error e)
    (store : MemoryStore String (List UInt8)) : alone c request store = (.error e, store) := by
  simp only [alone, handleRequest_parse, hparse]

theorem alone_ok {request : RequestEnvelope} {r : Request} (hparse : Request.parse c request = .ok r)
    (store : MemoryStore String (List UInt8)) : alone c request store =
      ((r.act c (store.get r.table)).1.map ResponseEnvelope.mk, store.set r.table (r.act c (store.get r.table)).2) := by
  simp only [alone, handleRequest_parse, hparse]
  rfl

theorem alone_removeTable {request : RequestEnvelope} {table : String}
    (hparse : Request.parse c request = .ok (.removeTable ⟨table⟩)) (store : MemoryStore String (List UInt8)) :
    alone c request store = (.ok { payload := encode c.removeTableResponse { ok := (store.get table).isSome } },
      store.set table none) := alone_ok hparse store

/-! ## Timelines -/

/-- The response of a call that has taken effect. -/
def Phase.outcome (c : Codecs) : Phase → Option (Except TransportError ResponseEnvelope)
  | .changed r => some ((r.act c (some .new)).1.map ResponseEnvelope.mk)
  | .returned response => some response
  | _ => none

namespace Calls

variable {h : Heap} {reqs : Nat → RequestEnvelope} {w w' : Calls} {order : List Nat} {cut : Nat → Option Nat}
  {i : Nat} {call : Call} {phase : Phase}

def before (w : Calls) (i : Nat) : List Nat := ((w.calls[i]?).map Call.before).getD []

def outcome (c : Codecs) (w : Calls) (i : Nat) : Option (Except TransportError ResponseEnvelope) :=
  ((w.calls[i]?).map Call.phase).bind (Phase.outcome c)

/-- The store after the calls of the list, one after another. -/
def storeAfter (c : Codecs) (h : Heap) (reqs : Nat → RequestEnvelope) (order : List Nat) :
    MemoryStore String (List UInt8) := order.foldl (fun s i => (alone c (reqs i) s).2) h.view

/-- What the registry shows, without the tables that are not yet filled. -/
def filled (w : Calls) (table : String) : Option Table :=
  ((w.heap.get table).filter fun id => id ∉ w.bare).map w.heap.cells

theorem filled_none {table : String} (hget : w.heap.get table = none) : w.filled table = none := by
  simp [filled, hget]

theorem filled_some {table : String} {id : Nat} (hget : w.heap.get table = some id) (hid : id ∉ w.bare) :
    w.filled table = some (w.heap.cells id) := by
  simp [filled, hget, Option.filter, hid]

theorem filled_bare {table : String} {id : Nat} (hget : w.heap.get table = some id) (hid : id ∈ w.bare) :
    w.filled table = none := by
  simp [filled, hget, Option.filter, hid]

theorem filled_congr {table : String} (hget : w'.heap.get table = w.heap.get table)
    (hsame : ∀ id, w.heap.get table = some id → (id ∈ w'.bare ↔ id ∈ w.bare) ∧ w'.heap.cells id = w.heap.cells id) :
    w'.filled table = w.filled table := by
  cases hid : w.heap.get table with
  | none => rw [filled_none hid, filled_none (hget.trans hid)]
  | some id =>
    obtain ⟨hbare, hcells⟩ := hsame id hid
    by_cases hmem : id ∈ w.bare
    · rw [filled_bare hid hmem, filled_bare (hget.trans hid) (hbare.mpr hmem)]
    · rw [filled_some hid hmem, filled_some (hget.trans hid) (fun h => hmem (hbare.mp h)), hcells]

/-- Call `k` took collection `id` out of the registry. In the sequence the collection is there, as its handles
see it, right before `k`; and all who hold a handle began after the calls that they must come after. -/
structure Severed (c : Codecs) (h : Heap) (reqs : Nat → RequestEnvelope) (w : Calls) (order : List Nat) (id k : Nat)
    (earlier : List Nat) (table : String) : Prop where
  lt : id < w.heap.next
  gone : ∀ table, w.heap.get table ≠ some id
  split : ∃ later, order = earlier ++ k :: later
  removes : Request.parse c (reqs k) = .ok (.removeTable ⟨table⟩)
  present : (storeAfter c h reqs earlier).get table = some (w.heap.cells id)
  holders : ∀ (i : Nat) (call : Call) (r : Request), w.calls[i]? = some call → call.phase = .holding r id →
    r.table = table ∧ ∀ j ∈ call.before, j ∈ earlier

/-- The calls that have taken effect, in an order that explains them. `cut` says which call took a collection
out of the registry: what happens to it later takes effect right before that call. -/
structure Timeline (c : Codecs) (h : Heap) (reqs : Nat → RequestEnvelope) (w : Calls) (order : List Nat)
    (cut : Nat → Option Nat) : Prop where
  agree : ∀ (i : Nat) (call : Call), w.calls[i]? = some call → call.request = reqs i
  linear : Linearization (fun s i => (alone c (reqs i) s).2) (fun s i => (alone c (reqs i) s).1) h.view w.before
    (w.outcome c) order
  known : ∀ i ∈ order, w.outcome c i ≠ none
  past : ∀ (i : Nat) (call : Call), w.calls[i]? = some call → ∀ j ∈ call.before, w.outcome c j ≠ none
  store : ∀ table, (storeAfter c h reqs order).get table = w.filled table
  bare : ∀ id ∈ w.bare, (∃ table, w.heap.get table = some id) ∧ w.heap.cells id = .new ∧
    ∃ (i : Nat) (call : Call) (q : PutRequest), w.calls[i]? = some call ∧ call.phase = .holding (.put q) id
  held : ∀ (i : Nat) (call : Call) (r : Request) (id : Nat), w.calls[i]? = some call → call.phase = .holding r id →
    w.heap.get r.table = some id ∨ cut id ≠ none
  cuts : ∀ id k, cut id = some k → ∃ earlier table, Severed c h reqs w order id k earlier table
  single : ∀ id id' k, cut id = some k → cut id' = some k → id = id'

namespace Moves

variable (hm : Moves w w' i call phase)
include hm

theorem before_eq : w'.before = w.before := by
  funext j
  unfold before
  rw [hm.calls]
  split_ifs with hj
  · rw [hj, hm.found]
    rfl
  · rfl

theorem outcome_eq : w'.outcome c = Function.update (w.outcome c) i (phase.outcome c) := by
  funext j
  unfold outcome
  rw [hm.calls]
  split_ifs with hj
  · rw [hj, Function.update_self]
    rfl
  · rw [Function.update_of_ne hj]

theorem outcome_self : w.outcome c i = call.phase.outcome c := by
  unfold outcome
  rw [hm.found]
  rfl

theorem outcome_mono {j : Nat} (hkeep : call.phase.outcome c = none ∨ phase.outcome c = call.phase.outcome c)
    (hj : w.outcome c j ≠ none) : w'.outcome c j ≠ none := by
  rw [hm.outcome_eq]
  by_cases heq : j = i
  · subst heq
    rw [hm.outcome_self] at hj
    rw [Function.update_self, hkeep.resolve_left hj]
    exact hj
  · rwa [Function.update_of_ne heq]

theorem agree (h : ∀ (j : Nat) (call : Call), w.calls[j]? = some call → call.request = reqs j) :
    ∀ (j : Nat) (call : Call), w'.calls[j]? = some call → call.request = reqs j := by
  intro j call' hj
  rcases hm.get hj with ⟨rfl, rfl⟩ | ⟨-, hj⟩
  · exact h j call hm.found
  · exact h j call' hj

theorem past (hkeep : call.phase.outcome c = none ∨ phase.outcome c = call.phase.outcome c)
    (h : ∀ (j : Nat) (call : Call), w.calls[j]? = some call → ∀ k ∈ call.before, w.outcome c k ≠ none) :
    ∀ (j : Nat) (call : Call), w'.calls[j]? = some call → ∀ k ∈ call.before, w'.outcome c k ≠ none := by
  intro j call' hj k hk
  refine hm.outcome_mono hkeep ?_
  rcases hm.get hj with ⟨rfl, rfl⟩ | ⟨-, hj⟩
  · exact h j call hm.found k hk
  · exact h j call' hj k hk

theorem holding {id : Nat} (hnone : ∀ r, phase ≠ .holding r id) (j : Nat) (call' : Call) (r : Request)
    (hj : w'.calls[j]? = some call') (hphase : call'.phase = .holding r id) : w.calls[j]? = some call' := by
  rcases hm.get hj with ⟨-, rfl⟩ | ⟨-, hj⟩
  · exact absurd hphase (hnone r)
  · exact hj

end Moves

theorem Severed.kept {id k : Nat} {earlier : List Nat} {table : String}
    (hs : Severed c h reqs w order id k earlier table) (hnext : w.heap.next ≤ w'.heap.next)
    (hgone : ∀ table, w'.heap.get table ≠ some id) (hcells : w'.heap.cells id = w.heap.cells id)
    (hheld : ∀ (j : Nat) (call : Call) (r : Request),
      w'.calls[j]? = some call → call.phase = .holding r id → w.calls[j]? = some call) (extra : List Nat) :
    Severed c h reqs w' (order ++ extra) id k earlier table := by
  obtain ⟨later, hsplit⟩ := hs.split
  exact ⟨hs.lt.trans_le hnext, hgone, ⟨later ++ extra, by simp [hsplit]⟩, hs.removes, hcells ▸ hs.present,
    fun j call' r hj hphase => hs.holders j call' r (hheld j call' r hj hphase) hphase⟩

theorem Severed.extend {id k : Nat} {earlier : List Nat} {table : String}
    (hs : Severed c h reqs w order id k earlier table) (hm : Moves w w' i call phase) (hgrows : w.heap.Grows w'.heap)
    (hheld : ∀ r id, phase = .holding r id → w'.heap.get r.table = some id) (extra : List Nat) :
    Severed c h reqs w' (order ++ extra) id k earlier table := by
  obtain ⟨hgone, hcells⟩ := hgrows.detached id hs.lt hs.gone
  exact hs.kept hgrows.next hgone hcells (hm.holding fun r hp => hgone _ (hheld r id hp)) extra

theorem Timeline.extend (ht : Timeline c h reqs w order cut) (hm : Moves w w' i call phase)
    (hkeep : call.phase.outcome c = none ∨ phase.outcome c = call.phase.outcome c) (hgrows : w.heap.Grows w'.heap)
    (hheld : ∀ r id, phase = .holding r id → w'.heap.get r.table = some id) (extra : List Nat)
    (hextra : ∀ j ∈ extra, w'.outcome c j ≠ none)
    (hlinear : Linearization (fun s i => (alone c (reqs i) s).2) (fun s i => (alone c (reqs i) s).1) h.view w'.before
      (w'.outcome c) (order ++ extra))
    (hstore : ∀ table, (storeAfter c h reqs (order ++ extra)).get table = w'.filled table)
    (hbare : ∀ id ∈ w'.bare, (∃ table, w'.heap.get table = some id) ∧ w'.heap.cells id = .new ∧
      ∃ (i : Nat) (call : Call) (q : PutRequest), w'.calls[i]? = some call ∧ call.phase = .holding (.put q) id) :
    Timeline c h reqs w' (order ++ extra) cut where
  agree := hm.agree ht.agree
  linear := hlinear
  known j hj := by
    rcases List.mem_append.mp hj with hj | hj
    · exact hm.outcome_mono hkeep (ht.known j hj)
    · exact hextra j hj
  past := hm.past hkeep ht.past
  store := hstore
  bare := hbare
  held j call' r id hj hphase := by
    rcases hm.get hj with ⟨-, rfl⟩ | ⟨-, hj⟩
    · exact .inl (hheld r id hphase)
    · exact (ht.held j call' r id hj hphase).imp_left (hgrows.get _ _)
  cuts id k hcut := by
    obtain ⟨earlier, table, hs⟩ := ht.cuts id k hcut
    exact ⟨earlier, table, hs.extend hm hgrows hheld extra⟩
  single := ht.single

theorem Timeline.mem (ht : Timeline c h reqs w order cut) {j : Nat} (hj : w.outcome c j ≠ none) : j ∈ order := by
  obtain ⟨r, hr⟩ := Option.ne_none_iff_exists'.mp hj
  exact ht.linear.complete j r hr

theorem Timeline.not_mem (ht : Timeline c h reqs w order cut) (hm : Moves w w' i call phase)
    (hnone : call.phase.outcome c = none) : i ∉ order := fun hi => ht.known i hi (hm.outcome_self.trans hnone)

theorem Timeline.before_mem (ht : Timeline c h reqs w order cut) (hi : w.calls[i]? = some call) :
    w.before i = call.before ∧ ∀ j ∈ call.before, j ∈ order := by
  refine ⟨by simp [before, hi], fun j hj => ht.mem (ht.past i call hi j hj)⟩

theorem Timeline.bare_kept (ht : Timeline c h reqs w order cut) (hm : Moves w w' i call phase) {id : Nat}
    (hid : id ∈ w.bare) (hget : ∀ table, w.heap.get table = some id → w'.heap.get table = some id)
    (hcells : w'.heap.cells id = w.heap.cells id) (hother : ∀ q, call.phase ≠ .holding (.put q) id) :
    (∃ table, w'.heap.get table = some id) ∧ w'.heap.cells id = .new ∧
      ∃ (i : Nat) (call : Call) (q : PutRequest), w'.calls[i]? = some call ∧ call.phase = .holding (.put q) id := by
  obtain ⟨⟨table, hattached⟩, hnew, j, call', q, hj, hphase⟩ := ht.bare id hid
  refine ⟨⟨table, hget table hattached⟩, hcells.trans hnew, j, call', q, ?_, hphase⟩
  rw [hm.calls, if_neg]
  · exact hj
  · rintro rfl
    obtain rfl := Option.some.inj (hm.found.symm.trans hj)
    exact hother q hphase

theorem Timeline.finish (ht : Timeline c h reqs w order cut) (hm : Moves w w' i call phase)
    (hnone : call.phase.outcome c = none) (hgrows : w.heap.Grows w'.heap)
    (hanswer : phase.outcome c = some (alone c (reqs i) (storeAfter c h reqs order)).1)
    (hstore : ∀ table, (alone c (reqs i) (storeAfter c h reqs order)).2.get table = w'.filled table)
    (hsub : ∀ id ∈ w'.bare, id ∈ w.bare ∧ w'.heap.cells id = w.heap.cells id ∧
      ∀ q, call.phase ≠ .holding (.put q) id) : Timeline c h reqs w' (order ++ [i]) cut := by
  obtain ⟨hbefore, hearlier⟩ := ht.before_mem hm.found
  refine ht.extend hm (.inl hnone) hgrows (fun r id hphase => ?_) [i] (fun j hj => ?_) ?_ (fun table => ?_)
    fun id hid => ht.bare_kept hm (hsub id hid).1 (fun _ => hgrows.get _ _) (hsub id hid).2.1 (hsub id hid).2.2
  · rw [hphase] at hanswer
    cases hanswer
  · obtain rfl := List.mem_singleton.mp hj
    rw [hm.outcome_eq, Function.update_self, hanswer]
    simp
  · rw [hm.before_eq, hm.outcome_eq, hanswer]
    exact ht.linear.snoc (ht.not_mem hm hnone) (hbefore ▸ hearlier)
  · rw [← hstore]
    simp [storeAfter]

theorem Timeline.continue (ht : Timeline c h reqs w order cut) (hm : Moves w w' i call phase)
    (hphase : phase.outcome c = call.phase.outcome c) (hheap : w'.heap = w.heap)
    (hbare : w'.bare = w.bare) (hcalled : ∀ r id, call.phase ≠ .holding r id)
    (hheld : ∀ r id, phase = .holding r id → w.heap.get r.table = some id) : Timeline c h reqs w' order cut := by
  have hgrows : w.heap.Grows w'.heap := hheap ▸ Heap.Grows.refl w.heap
  have hfilled : w'.filled = w.filled := by
    funext table
    simp only [filled, hheap, hbare]
  have hextend := ht.extend hm (.inr hphase) hgrows (fun r id hp => hheap ▸ hheld r id hp) [] (by simp) ?_
    (fun table => ?_)
    fun id hid => ht.bare_kept hm (hbare ▸ hid) (fun _ => hgrows.get _ _) (by rw [hheap]) fun q => hcalled _ _
  · simpa using hextend
  · rw [List.append_nil, hm.before_eq, hm.outcome_eq, hphase, ← hm.outcome_self, Function.update_eq_self]
    exact ht.linear
  · rw [List.append_nil, ht.store, hfilled]

theorem Timeline.make (ht : Timeline c h reqs w order cut) {q : PutRequest}
    (hm : Moves w w' i call (.holding (.put q) w.heap.next)) (hcalled : call.phase = .called (.put q))
    (hget : w.heap.get q.table = none) (hheap : w'.heap = w.heap.insertNew q.table)
    (hbare : w'.bare = w.heap.next :: w.bare) : Timeline c h reqs w' order cut := by
  have hgrows : w.heap.Grows w'.heap := hheap ▸ Heap.grows_insertNew hget
  have hnone : call.phase.outcome c = none := by rw [hcalled]; rfl
  have hextend := ht.extend hm (.inl hnone) hgrows (fun r id hp => ?_) [] (by simp) ?_ (fun table => ?_)
    fun id hid => ?_
  · simpa using hextend
  · cases hp
    exact hheap ▸ Heap.get_insertNew
  · rw [List.append_nil, hm.before_eq, hm.outcome_eq,
      show Phase.outcome c (.holding (.put q) w.heap.next) = none from rfl,
      ← hnone, ← hm.outcome_self, Function.update_eq_self]
    exact ht.linear
  · rw [List.append_nil, ht.store]
    by_cases hname : table = q.table
    · have hget' : w'.heap.get table = some w.heap.next := by rw [hname, hheap, Heap.get_insertNew]
      rw [filled_none (hname ▸ hget), filled_bare hget' (by simp [hbare])]
    · refine (filled_congr (by rw [hheap, Heap.get_insertNew_of_ne hname]) fun id hid => ?_).symm
      have hne := (w.heap.bound _ _ hid).ne
      exact ⟨by simp [hbare, hne], by rw [hheap, Heap.cells_insertNew_of_ne hne]⟩
  · rw [hbare] at hid
    rcases List.mem_cons.mp hid with rfl | hid
    · exact ⟨⟨q.table, hheap ▸ Heap.get_insertNew⟩, hheap ▸ Heap.cells_insertNew, i, _, q, by rw [hm.calls, if_pos rfl],
        rfl⟩
    · obtain ⟨⟨table, hattached⟩, -⟩ := ht.bare id hid
      refine ht.bare_kept hm hid (fun _ => hgrows.get _ _) ?_ fun q' => by rw [hcalled]; simp
      rw [hheap, Heap.cells_insertNew_of_ne (w.heap.bound _ _ hattached).ne]

theorem Severed.mem {id k : Nat} {earlier : List Nat} {table : String}
    (hs : Severed c h reqs w order id k earlier table) : k ∈ order := by
  obtain ⟨later, hsplit⟩ := hs.split
  simp [hsplit]

theorem Timeline.holder (ht : Timeline c h reqs w order cut) {table : String} {id j : Nat} {call' : Call} {r : Request}
    (hget : w.heap.get table = some id) (hj : w.calls[j]? = some call') (hphase : call'.phase = .holding r id) :
    r.table = table := by
  rcases ht.held j call' r id hj hphase with hattached | hcut
  · exact w.heap.inj _ _ _ hattached hget
  · obtain ⟨k, hk⟩ := Option.ne_none_iff_exists'.mp hcut
    obtain ⟨earlier, table', hs⟩ := ht.cuts id k hk
    exact absurd hget (hs.gone table)

theorem single_update (hsingle : ∀ id id' k, cut id = some k → cut id' = some k → id = id')
    (hfresh : ∀ id, cut id ≠ some i) (id : Nat) : ∀ id₁ id₂ k, Function.update cut id (some i) id₁ = some k →
      Function.update cut id (some i) id₂ = some k → id₁ = id₂ := by
  intro id₁ id₂ k h₁ h₂
  by_cases hsame₁ : id₁ = id <;> by_cases hsame₂ : id₂ = id
  · rw [hsame₁, hsame₂]
  · rw [hsame₁, Function.update_self] at h₁
    rw [Function.update_of_ne hsame₂, ← h₁] at h₂
    exact absurd h₂ (hfresh id₂)
  · rw [hsame₂, Function.update_self] at h₂
    rw [Function.update_of_ne hsame₁, ← h₂] at h₁
    exact absurd h₁ (hfresh id₁)
  · rw [Function.update_of_ne hsame₁] at h₁
    rw [Function.update_of_ne hsame₂] at h₂
    exact hsingle id₁ id₂ k h₁ h₂

section Sever

variable {q : RemoveTableRequest} {id : Nat}

theorem get_of_removed (hheap : w'.heap = w.heap.remove q.table) {table : String} {id' : Nat}
    (hget : w'.heap.get table = some id') : table ≠ q.table ∧ w.heap.get table = some id' := by
  rw [hheap] at hget
  have hne : table ≠ q.table := by
    rintro rfl
    rw [Heap.get_remove] at hget
    cases hget
  exact ⟨hne, Heap.get_remove_of_ne hne ▸ hget⟩

theorem Timeline.sever_cuts (ht : Timeline c h reqs w order cut)
    (hparse : Request.parse c (reqs i) = .ok (.removeTable q)) (hm : Moves w w' i call phase)
    (hnone : ∀ r id, phase ≠ .holding r id) (hget : w.heap.get q.table = some id) (hid : id ∉ w.bare)
    (hheap : w'.heap = w.heap.remove q.table) {id' k : Nat} (hcut : Function.update cut id (some i) id' = some k) :
    ∃ earlier table, Severed c h reqs w' (order ++ [i]) id' k earlier table := by
  have hnext : w'.heap.next = w.heap.next := by rw [hheap]; rfl
  have hcells : w'.heap.cells = w.heap.cells := by rw [hheap]; rfl
  by_cases hsame : id' = id
  · subst hsame
    obtain rfl : i = k := by simpa using hcut
    refine ⟨order, q.table, hnext ▸ w.heap.bound _ _ hget, fun table hget' => ?_, ⟨[], rfl⟩, hparse, ?_,
      fun j call' r hj hphase => ?_⟩
    · obtain ⟨hne, hattached⟩ := get_of_removed hheap hget'
      exact hne (w.heap.inj _ _ _ hattached hget)
    · rw [hcells]
      exact (ht.store q.table).trans (filled_some hget hid)
    · have hj' := hm.holding (fun r => hnone r id') j call' r hj hphase
      exact ⟨ht.holder hget hj' hphase, (ht.before_mem hj').2⟩
  · rw [Function.update_of_ne hsame] at hcut
    obtain ⟨earlier, table, hs⟩ := ht.cuts id' k hcut
    exact ⟨earlier, table, hs.kept hnext.ge (fun table hget' => hs.gone table (get_of_removed hheap hget').2)
      (by rw [hcells]) (hm.holding fun r => hnone r id') [i]⟩

theorem Timeline.sever (ht : Timeline c h reqs w order cut)
    (hparse : Request.parse c (reqs i) = .ok (.removeTable q))
    (hm : Moves w w' i call (Phase.replies (encode c.removeTableResponse { ok := true })))
    (hcalled : call.phase = .checked (.removeTable q) true) (hget : w.heap.get q.table = some id)
    (hid : id ∉ w.bare) (hheap : w'.heap = w.heap.remove q.table) (hbare : w'.bare = w.bare) :
    Timeline c h reqs w' (order ++ [i]) (Function.update cut id (some i)) := by
  have hnone : call.phase.outcome c = none := by rw [hcalled]; rfl
  have hnew := ht.not_mem hm hnone
  obtain ⟨hbefore, hearlier⟩ := ht.before_mem hm.found
  have halone := alone_ok hparse (storeAfter c h reqs order)
  rw [show (Request.removeTable q).table = q.table from rfl,
    (ht.store q.table).trans (filled_some hget hid)] at halone
  have hcells : w'.heap.cells = w.heap.cells := by rw [hheap]; rfl
  have hfresh : ∀ id, cut id ≠ some i := fun id hcut => by
    obtain ⟨earlier, table, hs⟩ := ht.cuts id i hcut
    exact hnew hs.mem
  refine ⟨hm.agree ht.agree, ?_, fun j hj => ?_, hm.past (.inl hnone) ht.past, fun table => ?_, fun id' hid' => ?_,
    fun j call' r id' hj hphase => ?_, fun id' k => ht.sever_cuts hparse hm nofun hget hid hheap,
    single_update ht.single hfresh id⟩
  · have hlinear := ht.linear.snoc hnew (hbefore ▸ hearlier)
    rw [hm.before_eq, hm.outcome_eq]
    rwa [show order.foldl _ h.view = storeAfter c h reqs order from rfl, halone] at hlinear
  · rcases List.mem_append.mp hj with hj | hj
    · exact hm.outcome_mono (.inl hnone) (ht.known j hj)
    · obtain rfl := List.mem_singleton.mp hj
      rw [hm.outcome_eq, Function.update_self]
      simp [Phase.replies, Phase.outcome]
  · have hsnoc : storeAfter c h reqs (order ++ [i]) = (storeAfter c h reqs order).set q.table none := by
      simp only [storeAfter, List.foldl_append, List.foldl_cons, List.foldl_nil]
      exact congrArg Prod.snd halone
    rw [hsnoc]
    by_cases hname : table = q.table
    · rw [hname, MemoryStore.get_set, filled_none (by rw [hheap, Heap.get_remove])]
    · rw [MemoryStore.get_set_of_ne hname, ht.store]
      exact (filled_congr (by rw [hheap, Heap.get_remove_of_ne hname])
        fun id' _ => ⟨by rw [hbare], by rw [hcells]⟩).symm
  · rw [hbare] at hid'
    refine ht.bare_kept hm hid' (fun table hattached => ?_) (by rw [hcells]) fun q' => by rw [hcalled]; simp
    have hne : table ≠ q.table := by
      rintro rfl
      cases hattached.symm.trans hget
      exact hid hid'
    rw [hheap, Heap.get_remove_of_ne hne, hattached]
  · have hj' := hm.holding nofun j call' r hj hphase
    by_cases hsame : id' = id
    · exact .inr (by simp [hsame])
    · rw [Function.update_of_ne hsame]
      refine (ht.held j call' r id' hj' hphase).imp_left fun hattached => ?_
      rw [hheap, Heap.get_remove_of_ne, hattached]
      intro hname
      rw [hname, hget] at hattached
      exact hsame (Option.some.inj hattached).symm

end Sever

theorem Severed.insert {id k k' : Nat} {earlier earlier' later : List Nat} {table : String}
    (hs : Severed c h reqs w (earlier ++ k :: later) id k' earlier' table) (hne : k' ≠ k)
    (hskip : ∀ m, storeAfter c h reqs (earlier ++ i :: k :: m) = storeAfter c h reqs (earlier ++ k :: m))
    (hm : Moves w w' i call phase) (hnone : ∀ r, phase ≠ .holding r id) (hnext : w'.heap.next = w.heap.next)
    (hget : ∀ table, w'.heap.get table = w.heap.get table) (hcells : w'.heap.cells id = w.heap.cells id) :
    ∃ earlier'', Severed c h reqs w' (earlier ++ i :: k :: later) id k' earlier'' table := by
  have hholders : ∀ (j : Nat) (call' : Call) (r : Request), w'.calls[j]? = some call' → call'.phase = .holding r id →
      r.table = table ∧ ∀ l ∈ call'.before, l ∈ earlier' := by
    exact fun j call' r hj hphase => hs.holders j call' r (hm.holding hnone j call' r hj hphase) hphase
  have hgone : ∀ table, w'.heap.get table ≠ some id := fun table => hget table ▸ hs.gone table
  obtain ⟨later', hsplit⟩ := hs.split
  rcases List.append_eq_append_iff.mp hsplit with ⟨m, rfl, hm'⟩ | ⟨m, rfl, hm'⟩
  · cases m with
    | nil => exact absurd (List.cons.inj hm').1.symm hne
    | cons a m =>
      obtain ⟨rfl, rfl⟩ := List.cons.inj hm'
      refine ⟨earlier ++ i :: k :: m, hnext ▸ hs.lt, hgone, ⟨later', by simp⟩, hs.removes, ?_,
        fun j call' r hj hphase => ?_⟩
      · rw [hskip, hcells]
        exact hs.present
      · refine ⟨(hholders j call' r hj hphase).1, fun l hl => ?_⟩
        have := (hholders j call' r hj hphase).2 l hl
        simp only [List.mem_append, List.mem_cons] at this ⊢
        tauto
  · cases m with
    | nil => exact absurd (List.cons.inj hm').1 hne
    | cons a m =>
      obtain ⟨rfl, rfl⟩ := List.cons.inj hm'
      exact ⟨earlier', hnext ▸ hs.lt, hgone, ⟨m ++ i :: k :: later, by simp⟩, hs.removes, hcells ▸ hs.present, hholders⟩

theorem Severed.hidden {r : Request} {id k : Nat} {earlier : List Nat}
    (hs : Severed c h reqs w order id k earlier r.table) (hparse : Request.parse c (reqs i) = .ok r)
    (hkey : r.key? ≠ none) : alone c (reqs k) (alone c (reqs i) (storeAfter c h reqs earlier)).2 =
      alone c (reqs k) (storeAfter c h reqs earlier) := by
  have hself := alone_ok hparse (storeAfter c h reqs earlier)
  rw [hs.present, Request.act_some c hkey] at hself
  rw [hself, alone_removeTable hs.removes, alone_removeTable hs.removes, hs.present, MemoryStore.get_set,
    MemoryStore.set_set]
  rfl

theorem storeAfter_skip {k : Nat} {earlier : List Nat}
    (hhidden : alone c (reqs k) (alone c (reqs i) (storeAfter c h reqs earlier)).2 =
      alone c (reqs k) (storeAfter c h reqs earlier)) (later : List Nat) :
    storeAfter c h reqs (earlier ++ i :: k :: later) = storeAfter c h reqs (earlier ++ k :: later) := by
  simp only [storeAfter, List.foldl_append, List.foldl_cons]
  exact congrArg (fun p => List.foldl _ (Prod.snd p) later) hhidden

/-- A call works on a collection that is no longer in the registry: it takes effect right before the
`remove_table`, which hides it. -/
theorem Timeline.behind (ht : Timeline c h reqs w order cut) {r : Request} {id k : Nat}
    (hparse : Request.parse c (reqs i) = .ok r) (hkey : r.key? ≠ none) (hm : Moves w w' i call phase)
    (hheld : call.phase = .holding r id) (hcut : cut id = some k)
    (hphase : phase.outcome c = some ((r.act c (some (w.heap.cells id))).1.map ResponseEnvelope.mk))
    (hheap : w'.heap = w.heap.modify id r.apply) (hbare : w'.bare = w.bare) :
    ∃ order', Timeline c h reqs w' order' cut := by
  have hnone : call.phase.outcome c = none := by rw [hheld]; rfl
  obtain ⟨earlier, table, hs⟩ := ht.cuts id k hcut
  obtain ⟨later, rfl⟩ := hs.split
  obtain ⟨rfl, hearlier⟩ := hs.holders i call r hm.found hheld
  have hself := alone_ok hparse (storeAfter c h reqs earlier)
  rw [hs.present, Request.act_some c hkey] at hself
  have hhidden := hs.hidden hparse hkey
  have hskip := storeAfter_skip hhidden
  have hnot : ∀ r' id', phase ≠ .holding r' id' := by
    rintro r' id' rfl
    cases hphase
  have hnext : w'.heap.next = w.heap.next := by rw [hheap]; rfl
  have hget : ∀ table, w'.heap.get table = w.heap.get table := fun table => by rw [hheap]; rfl
  have hcells : ∀ id', id' ≠ id → w'.heap.cells id' = w.heap.cells id' := fun id' hne => by
    rw [hheap, Heap.cells_modify_of_ne hne]
  have hattached : ∀ {table id'}, w.heap.get table = some id' → id' ≠ id := fun hget heq => hs.gone _ (heq ▸ hget)
  refine ⟨earlier ++ i :: k :: later, hm.agree ht.agree, ?_, fun j hj => ?_, hm.past (.inl hnone) ht.past,
    fun table => ?_, fun id' hid' => ?_, fun j call' r' id' hj hphase' => ?_, fun id' k' hcut' => ?_, ht.single⟩
  · have hlinear := ht.linear.insert (ht.not_mem hm hnone) ((ht.before_mem hm.found).1 ▸ hearlier)
      (congrArg Prod.snd hhidden) (congrArg Prod.fst hhidden)
    rw [hm.before_eq, hm.outcome_eq, hphase]
    rwa [show earlier.foldl _ h.view = storeAfter c h reqs earlier from rfl, hself] at hlinear
  · by_cases heq : j = i
    · rw [hm.outcome_eq, heq, Function.update_self, hphase]
      simp
    · refine hm.outcome_mono (.inl hnone) (ht.known j ?_)
      simp only [List.mem_append, List.mem_cons] at hj ⊢
      tauto
  · rw [hskip, ht.store]
    exact (filled_congr (hget table) fun id' hid' => ⟨by rw [hbare], hcells id' (hattached hid')⟩).symm
  · rw [hbare] at hid'
    obtain ⟨⟨table, hid⟩, -⟩ := ht.bare id' hid'
    refine ht.bare_kept hm hid' (fun table => (hget table).trans) (hcells id' (hattached hid)) fun q heq => ?_
    rw [hheld] at heq
    exact hattached hid (Phase.holding.inj heq).2.symm
  · exact hget r'.table ▸ ht.held j call' r' id' (hm.holding (fun r => hnot r id') j call' r' hj hphase') hphase'
  · by_cases hsame : id' = id
    · subst hsame
      obtain rfl := Option.some.inj (hcut.symm.trans hcut')
      refine ⟨earlier ++ [i], r.table, hnext ▸ hs.lt, fun table => hget table ▸ hs.gone table,
        ⟨later, by simp⟩, hs.removes, ?_, fun j call' r' hj hphase' => ?_⟩
      · have hsnoc : storeAfter c h reqs (earlier ++ [i]) = (alone c (reqs i) (storeAfter c h reqs earlier)).2 := by
          simp [storeAfter]
        rw [hsnoc, hself, MemoryStore.get_set, hheap, Heap.cells_modify]
      · have hj' := hm.holding (fun r => hnot r id') j call' r' hj hphase'
        obtain ⟨htable, hbefore⟩ := hs.holders j call' r' hj' hphase'
        exact ⟨htable, fun l hl => List.mem_append_left _ (hbefore l hl)⟩
    · obtain ⟨earlier', table', hs'⟩ := ht.cuts id' k' hcut'
      have hne : k' ≠ k := fun heq => hsame (ht.single id' id k (heq ▸ hcut') hcut)
      obtain ⟨earlier'', hs''⟩ :=
        hs'.insert hne hskip hm (fun r => hnot r id') hnext hget (hcells id' hsame)
      exact ⟨earlier'', table', hs''⟩

theorem outcome_of_response {j : Nat} {response : Except TransportError ResponseEnvelope}
    (hj : w.response j = some response) : w.outcome c j = some response := by
  obtain ⟨phase, hphase, hresponse⟩ := Option.bind_eq_some_iff.mp hj
  cases phase with
  | returned response' => exact Option.bind_eq_some_iff.mpr ⟨_, hphase, hresponse⟩
  | _ => cases hresponse

theorem mem_done {j : Nat} (hj : j ∈ w.done) : w.outcome c j ≠ none := by
  obtain ⟨response, hresponse⟩ := Option.isSome_iff_exists.mp (List.mem_filter.mp hj).2
  rw [outcome_of_response hresponse]
  simp

theorem start_ne_holding (request : RequestEnvelope) {r : Request} {id : Nat} :
    Phase.start c request ≠ .holding r id := by
  unfold Phase.start
  split <;> simp

/-- One more call, and nothing else. -/
structure Joins (w w' : Calls) (new : Call) : Prop where
  calls : w'.calls = w.calls ++ [new]
  heap : w'.heap = w.heap
  bare : w'.bare = w.bare

namespace Joins

variable {new : Call} (hm : Joins w w' new)
include hm

theorem get {j : Nat} {call' : Call} (hj : w'.calls[j]? = some call') :
    w.calls[j]? = some call' ∨ j = w.calls.length ∧ call' = new := calls_invoke j (hm.calls ▸ hj)

theorem keeps {j : Nat} {call' : Call} (hj : w.calls[j]? = some call') : w'.calls[j]? = some call' := by
  rw [hm.calls, List.getElem?_append_left (List.getElem?_eq_some_iff.mp hj).1, hj]

theorem outcome_eq : w'.outcome c = Function.update (w.outcome c) w.calls.length (new.phase.outcome c) := by
  funext j
  unfold outcome
  rw [hm.calls, calls_append]
  split_ifs with hj
  · rw [hj, Function.update_self]
    rfl
  · rw [Function.update_of_ne hj]

theorem outcome_mono {j : Nat} (hj : w.outcome c j ≠ none) : j ≠ w.calls.length ∧ w'.outcome c j ≠ none := by
  have hne : j ≠ w.calls.length := by
    rintro rfl
    simp [outcome] at hj
  exact ⟨hne, by rwa [hm.outcome_eq, Function.update_of_ne hne]⟩

theorem before_eq : w'.before = Function.update w.before w.calls.length new.before := by
  funext j
  unfold before
  rw [hm.calls, calls_append]
  split_ifs with hj
  · rw [hj, Function.update_self]
    rfl
  · rw [Function.update_of_ne hj]

end Joins

theorem Timeline.join (ht : Timeline c h reqs w order cut) {new : Call} (hm : Joins w w' new)
    (hrequest : new.request = reqs w.calls.length) (hnew : ∀ r id, new.phase ≠ .holding r id)
    (hdone : ∀ k ∈ new.before, w.outcome c k ≠ none) (extra : List Nat) (hextra : ∀ j ∈ extra, w'.outcome c j ≠ none)
    (hlinear : Linearization (fun s i => (alone c (reqs i) s).2) (fun s i => (alone c (reqs i) s).1) h.view w'.before
      (w'.outcome c) (order ++ extra))
    (hstore : storeAfter c h reqs (order ++ extra) = storeAfter c h reqs order) :
    Timeline c h reqs w' (order ++ extra) cut where
  agree j call' hj := by
    rcases hm.get hj with hj | ⟨rfl, rfl⟩
    · exact ht.agree j call' hj
    · exact hrequest
  linear := hlinear
  known j hj := (List.mem_append.mp hj).elim (fun hj => (hm.outcome_mono (ht.known j hj)).2) (hextra j)
  past j call' hj k hk := by
    rcases hm.get hj with hj | ⟨rfl, rfl⟩
    · exact (hm.outcome_mono (ht.past j call' hj k hk)).2
    · exact (hm.outcome_mono (hdone k hk)).2
  store table := by rw [hstore, ht.store, filled, filled, hm.heap, hm.bare]
  bare id hid := by
    obtain ⟨hattached, hempty, j, call', q, hj, hphase⟩ := ht.bare id (hm.bare ▸ hid)
    rw [hm.heap]
    exact ⟨hattached, hempty, j, call', q, hm.keeps hj, hphase⟩
  held j call' r id hj hphase := by
    rcases hm.get hj with hj | ⟨rfl, rfl⟩
    · exact hm.heap ▸ ht.held j call' r id hj hphase
    · exact absurd hphase (hnew r id)
  cuts id k hcut := by
    obtain ⟨earlier, table, hs⟩ := ht.cuts id k hcut
    refine ⟨earlier, table, hs.kept (by rw [hm.heap]) (fun table => by rw [hm.heap]; exact hs.gone table)
      (by rw [hm.heap]) (fun j call' r hj hphase => ?_) extra⟩
    exact (hm.get hj).resolve_right fun hlast => hnew r id (hlast.2 ▸ hphase)
  single := ht.single

theorem Timeline.invoke (ht : Timeline c h reqs w order cut) {request : RequestEnvelope}
    (hw' : w' = { w with calls := w.calls ++ [{ request, phase := .start c request, before := w.done }] })
    (hrequest : request = reqs w.calls.length) : ∃ order', Timeline c h reqs w' order' cut := by
  set new : Call := { request, phase := .start c request, before := w.done } with hnew
  have hm : Joins w w' new := by
    subst hw'
    exact ⟨rfl, rfl, rfl⟩
  have hjoin := ht.join hm hrequest (fun r id => start_ne_holding request) fun k => mem_done
  have hlast : w.outcome c w.calls.length = none := by simp [outcome]
  have hweak : Linearization (fun s i => (alone c (reqs i) s).2) (fun s i => (alone c (reqs i) s).1) h.view w'.before
      (w.outcome c) order := by
    refine ht.linear.weaken (fun j hj => ?_) fun j r hr => hr
    rw [hm.before_eq, Function.update_of_ne (hm.outcome_mono (ht.known j hj)).1]
    exact List.Subset.refl _
  cases hparse : Request.parse c request with
  | error e =>
    have hphase : new.phase.outcome c = some (.error e) := by simp [hnew, Phase.start, hparse, Phase.outcome]
    have halone := alone_error (hrequest ▸ hparse) (storeAfter c h reqs order)
    refine ⟨_, hjoin [w.calls.length] (fun j hj => ?_) ?_ ?_⟩
    · obtain rfl := List.mem_singleton.mp hj
      rw [hm.outcome_eq, Function.update_self, hphase]
      simp
    · have hlinear := hweak.snoc (fun hmem => ht.known _ hmem hlast) (by
        rw [hm.before_eq, Function.update_self]
        exact fun j hj => ht.mem (mem_done hj))
      rw [hm.outcome_eq, hphase]
      rwa [show order.foldl _ h.view = storeAfter c h reqs order from rfl, halone] at hlinear
    · simp only [storeAfter, List.foldl_append, List.foldl_cons, List.foldl_nil]
      exact congrArg Prod.snd halone
  | ok r =>
    have hphase : new.phase.outcome c = none := by simp [hnew, Phase.start, hparse, Phase.outcome]
    refine ⟨_, hjoin [] (by simp) ?_ (by rw [List.append_nil])⟩
    rwa [List.append_nil, hm.outcome_eq, hphase, ← hlast, Function.update_eq_self]

end Calls

end TrenchDb.Storage
