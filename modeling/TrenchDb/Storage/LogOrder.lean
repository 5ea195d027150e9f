import TrenchDb.Lib.Follow
import TrenchDb.Storage.Encoding
import TrenchDb.Storage.World

/-!
# The order of the log

A handler changes a collection and then publishes the event, and nothing keeps another call on the same key
from doing both in between. The log has the order of the changes as long as no event overtakes the event of
an earlier change of its key.
-/

open TrenchDb.Lib.Follow TrenchDb.Lib.Lts TrenchDb.Rpc TrenchDb.Transport

namespace TrenchDb.Storage

/-! ## Keys in the log -/

/-- The calls with an entry for the key, in the order of the entries. -/
def idsOn (entries : List (Nat × WalEntry)) (table key : String) : List Nat :=
  (entries.filter fun p => p.2.key = some (compositeKey (asBytes table) (asBytes key))).map Prod.fst

theorem idsOn_append (entries entries' : List (Nat × WalEntry)) (table key : String) :
    idsOn (entries ++ entries') table key = idsOn entries table key ++ idsOn entries' table key := by
  simp [idsOn]

theorem idsOn_sublist {entries entries' : List (Nat × WalEntry)} (h : entries.Sublist entries') (table key : String) :
    (idsOn entries table key).Sublist (idsOn entries' table key) := (h.filter _).map _

theorem compositeKey_eq {table table' key key' : List UInt8} (htable : colon ∉ table) (hkey : colon ∉ key)
    (h : compositeKey table key = compositeKey table' key') : table = table' ∧ key = key' := by
  by_cases htable' : colon ∈ table'
  · have hone : (compositeKey table key).count colon = 1 := by
      simp [compositeKey, List.count_eq_zero_of_not_mem htable, List.count_eq_zero_of_not_mem hkey]
    have htwo := List.count_pos_iff.mpr htable'
    rw [h, compositeKey, List.count_append, List.count_cons_self] at hone
    omega
  · exact compositeKey_injective htable htable' h

namespace Request

/-- The request is on this key of this table. -/
def on (r : Request) (table key : String) : Bool := r.table = table ∧ r.key? = some key

theorem idsOn_event {r : Request} {e : List UInt8} (hr : r.validate = .ok ()) (he : r.event? = some e) (i : Nat)
    (table key : String) : idsOn [(i, walEntry e)] table key = if r.on table key then [i] else [] := by
  obtain ⟨key', hkey'⟩ : ∃ key', r.key? = some key' := by
    cases r with
    | put q | update q | delete q | get q | contains q => exact ⟨_, rfl⟩
    | addTable q | removeTable q => cases he
  have hentry : (walEntry e).key = some (compositeKey (asBytes r.table) (asBytes key')) := by
    rw [walEntry_of_event hr he hkey']
  have hsame : compositeKey (asBytes r.table) (asBytes key') = compositeKey (asBytes table) (asBytes key) ↔
      r.table = table ∧ key' = key := by
    constructor
    · intro h
      obtain ⟨htables, hkeys⟩ :=
        compositeKey_eq (colon_not_mem (validate_table hr)) (colon_not_mem (validate_key hr hkey')) h
      exact ⟨asBytes_injective htables, asBytes_injective hkeys⟩
    · rintro ⟨rfl, rfl⟩
      rfl
  by_cases h : r.table = table ∧ key' = key
  · simp [idsOn, on, hentry, hkey', h]
  · have hon : r.on table key = false := by simpa [on, hkey'] using h
    simp [idsOn, hentry, hsame, h, hon]

end Request

namespace Calls

variable {c : Codecs} {w : Calls} {i : Nat} {call : Call} {phase : Phase}

/-- The request of a call, decoded. -/
def request? (c : Codecs) (w : Calls) (i : Nat) : Option Request :=
  (w.calls[i]?).bind fun call => (Request.parse c call.request).toOption

/-- The call is on this key of this table. -/
def on (c : Codecs) (w : Calls) (table key : String) (i : Nat) : Bool := (w.request? c i).any fun r => r.on table key

theorem Moves.pending_eq {w' : Calls} (hm : Moves w w' i call phase) (j : Nat) :
    w'.pending j = if j = i then phase.pending else w.pending j := by
  unfold pending
  rw [hm.calls]
  split_ifs <;> rfl

theorem Moves.on_eq {w' : Calls} (hm : Moves w w' i call phase) : w'.on c = w.on c := by
  funext table key j
  unfold on request?
  rw [hm.calls]
  split_ifs with h
  · rw [h, hm.found]
    rfl
  · rfl

end Calls

theorem Phase.Op.unpublished {c : Codecs} {h h' : Heap} {phase phase' : Phase} (hop : Phase.Op c h phase phase' h') :
    phase.pending = none ∧ phase.response = none := by
  cases hop <;> exact ⟨rfl, rfl⟩

namespace World

variable {c : Codecs} {w w' : World} {e : Event} {es : List Event} {h : Heap} {spawns : Bool} {i : Nat}

/-- The calls that changed the key, in the order of their changes. -/
def changedOn (c : Codecs) (w : World) (table key : String) : List Nat :=
  w.changes.filter (w.calls.on c table key)

/-- For each key, the entries are in the order of the changes. -/
structure LogOrder (c : Codecs) (w : World) : Prop where
  nodup : w.changes.Nodup
  order : ∀ table key, (idsOn w.supervisor.wal table key).Sublist (w.changedOn c table key)

/-- A call publishes while an earlier change of the same key is not yet published. -/
def overtakes (w : World) : Event → Bool
  | .publish i _ => (w.calls.pending i).any fun r => w.changes.any fun j =>
    [j, i].isSublist w.changes && (w.calls.pending j).any fun r' => r'.table = r.table ∧ r'.key? = r.key?
  | _ => false

def OrderlyStep (c : Codecs) (w : World) (e : Event) (w' : World) : Prop := Step c w e w' ∧ w.overtakes e = false

/-! ## The events that are not yet published -/

structure Ordered (c : Codecs) (w : World) : Prop where
  nodup : w.changes.Nodup
  waiting : ∀ i, w.calls.pending i ≠ none → i ∈ w.changes
  changed : ∀ i ∈ w.changes, ∃ call, w.calls.calls[i]? = some call ∧
    (call.phase.pending ≠ none ∨ call.phase.response ≠ none)
  follows : ∀ table key, Follows (fun i => w.calls.pending i ≠ none) (w.changedOn c table key)
    (idsOn w.supervisor.entries table key)

theorem changedOn_eq {table key : String} (hchanges : w'.changes = w.changes)
    (hcalls : ∀ i ∈ w.changes, w'.calls.calls[i]? = w.calls.calls[i]?) :
    w'.changedOn c table key = w.changedOn c table key := by
  unfold changedOn
  rw [hchanges]
  exact List.filter_congr fun i hi => by rw [Calls.on, Calls.on, Calls.request?, Calls.request?, hcalls i hi]

theorem Ordered.unchanged (hw : Ordered c w) {call : Call} (hi : w.calls.calls[i]? = some call)
    (hpending : call.phase.pending = none) (hresponse : call.phase.response = none) : i ∉ w.changes := by
  intro hmem
  obtain ⟨call', hi', hphase⟩ := hw.changed i hmem
  obtain rfl := Option.some.inj (hi.symm.trans hi')
  exact hphase.elim (fun h => h hpending) fun h => h hresponse

theorem Ordered.congr (hw : Ordered c w) (hchanges : w'.changes = w.changes)
    (hentries : w'.supervisor.entries.Sublist w.supervisor.entries)
    (hpending : ∀ i, w'.calls.pending i = w.calls.pending i)
    (hcalls : ∀ i ∈ w.changes, w'.calls.calls[i]? = w.calls.calls[i]?) : Ordered c w' := by
  refine ⟨hchanges ▸ hw.nodup, fun i hi => ?_, fun i hi => ?_, fun table key => ?_⟩
  · rw [hchanges]
    exact hw.waiting i (hpending i ▸ hi)
  · rw [hchanges] at hi
    rw [hcalls i hi]
    exact hw.changed i hi
  · rw [changedOn_eq hchanges hcalls]
    refine ((hw.follows table key).congr fun i _ => ?_).forget (idsOn_sublist hentries table key)
    rw [hpending]

theorem Ordered.invoke (hw : Ordered c w) {request : RequestEnvelope} {calls : Calls}
    (hnext : w.calls.next c (.invoke request) = some calls) : Ordered c { w with calls } := by
  obtain rfl := Option.some.inj hnext
  have hstart : (Phase.start c request).pending = none := by
    unfold Phase.start
    split <;> rfl
  refine hw.congr rfl (.refl _) (fun i => ?_) fun i hi => ?_
  · unfold Calls.pending
    rw [Calls.calls_append]
    split_ifs with hlast
    · simp [hlast, hstart]
    · rfl
  · obtain ⟨call, hcall, -⟩ := hw.changed i hi
    rw [Calls.calls_append, if_neg (List.getElem?_eq_some_iff.mp hcall).1.ne]

theorem Ordered.change (hw : Ordered c w) {calls : Calls} {call : Call} {phase : Phase}
    (hm : w.calls.Moves calls i call phase) (hnew : i ∉ w.changes) (hphase : phase.pending ≠ none) :
    Ordered c { w with calls, changes := w.changes ++ [i] } := by
  have hother : ∀ j ∈ w.changes, j ≠ i := fun j hj heq => hnew (heq ▸ hj)
  refine ⟨?_, fun j hj => ?_, fun j hj => ?_, fun table key => ?_⟩
  · simpa using hw.nodup.concat hnew
  · by_cases hsame : j = i
    · simp [hsame]
    · exact List.mem_append_left _ (hw.waiting j (by simpa [hm.pending_eq, hsame] using hj))
  · rcases List.mem_append.mp hj with hj | hj
    · obtain ⟨call', hcall, hchanged⟩ := hw.changed j hj
      exact ⟨call', (hm.calls j).trans ((if_neg (hother j hj)).trans hcall), hchanged⟩
    · obtain rfl := List.mem_singleton.mp hj
      exact ⟨_, (hm.calls j).trans (if_pos rfl), .inl hphase⟩
  · have hkept : Follows (fun j => calls.pending j ≠ none) (w.changedOn c table key)
        (idsOn w.supervisor.entries table key) := by
      refine (hw.follows table key).congr fun j hj => ?_
      rw [hm.pending_eq, if_neg (hother j (List.mem_of_mem_filter hj))]
    have hsnoc : changedOn c { w with calls, changes := w.changes ++ [i] } table key =
        w.changedOn c table key ++ [i].filter (w.calls.on c table key) := by
      simp only [changedOn, List.filter_append, hm.on_eq]
    rw [hsnoc]
    cases hon : w.calls.on c table key i with
    | true =>
      rw [List.filter_cons_of_pos hon]
      exact hkept.join (by simpa [hm.pending_eq] using hphase)
    | false =>
      rw [List.filter_cons_of_neg (by simp [hon]), List.filter_nil, List.append_nil]
      exact hkept

theorem Ordered.op (hw : Ordered c w) {calls : Calls} (hnext : w.calls.next c (.op i) = some calls) :
    Ordered c { w with calls, changes := if (calls.pending i).isSome then w.changes ++ [i] else w.changes } := by
  obtain ⟨call, phase, hm, hcall, hresponse⟩ : ∃ call phase, w.calls.Moves calls i call phase ∧
      call.phase.pending = none ∧ call.phase.response = none := by
    obtain ⟨call, phase, heap, hi, hop, rfl⟩ := Calls.next_op hnext
    exact ⟨call, phase, ⟨hi, Calls.calls_setPhase hi⟩, hop.unpublished⟩
  have hnew := hw.unchanged hm.found hcall hresponse
  rw [hm.pending_eq, if_pos rfl]
  cases hphase : phase.pending with
  | none =>
    refine hw.congr rfl (.refl _) (fun j => ?_) fun j hj => ?_
    · rw [hm.pending_eq]
      split_ifs with hj
      · rw [hphase, hj, Calls.pending, hm.found]
        exact hcall.symm
      · rfl
    · rw [hm.calls, if_neg]
      rintro rfl
      exact hnew hj
  | some r => exact hw.change hm hnew (by simp [hphase])

theorem overtakes_false {r : Request} (hr : w.calls.pending i = some r)
    (h : w.overtakes (.publish i spawns) = false) {j : Nat} (hj : [j, i].Sublist w.changes) {r' : Request}
    (hr' : w.calls.pending j = some r') : ¬ (r'.table = r.table ∧ r'.key? = r.key?) := by
  intro hsame
  have hmem : j ∈ w.changes := hj.subset List.mem_cons_self
  simp only [overtakes, hr, Option.any_some, List.any_eq_false] at h
  refine h j hmem ?_
  simp [List.isSublist_iff_sublist.mpr hj, hr', hsame]

theorem Ordered.settles (hw : Ordered c w) {r : Request} {waiting : Nat → Prop} (hr : w.calls.pending i = some r)
    (hfaithful : Calls.Faithful c w.calls) (horderly : w.overtakes (.publish i spawns) = false)
    (hwaits : ∀ j, waiting j ↔ w.calls.pending j ≠ none ∧ j ≠ i) (table key : String) :
    Follows waiting (w.changedOn c table key)
      (idsOn w.supervisor.entries table key ++ if r.on table key then [i] else []) := by
  have hof : ∀ j r', w.calls.pending j = some r' → w.calls.on c table key j = r'.on table key := by
    intro j r' hr'
    obtain ⟨call', hj, hphase⟩ := pending_eq hr'
    have hparse := hfaithful j call' r' hj (by rw [hphase]; rfl)
    simp [Calls.on, Calls.request?, hj, hparse, Except.toOption]
  cases hon : r.on table key with
  | true =>
    have hmem : i ∈ w.changedOn c table key :=
      List.mem_filter.mpr ⟨hw.waiting i (by simp [hr]), (hof i r hr).trans hon⟩
    refine (hw.follows table key).settle (hw.nodup.filter _) hmem (by simp [hr]) (fun j hj => ?_) hwaits
    refine not_not.mpr (Option.eq_none_iff_forall_ne_some.mpr fun r' hr' => ?_)
    have hon' : r'.on table key = true :=
      (hof j r' hr').symm.trans (List.mem_filter.mp (hj.subset List.mem_cons_self)).2
    refine overtakes_false hr horderly (hj.trans List.filter_sublist) hr' ?_
    simp only [Request.on, decide_eq_true_eq] at hon hon'
    exact ⟨hon'.1.trans hon.1.symm, hon'.2.trans hon.2.symm⟩
  | false =>
    rw [if_neg (by simp), List.append_nil]
    refine (hw.follows table key).congr fun j hj => ?_
    have hne : j ≠ i := by
      rintro rfl
      have hon' := (hof j r hr).symm.trans (List.mem_filter.mp hj).2
      rw [hon] at hon'
      cases hon'
    simp [hwaits, hne]

theorem Ordered.publish (hw : Ordered c w) (hfaithful : Calls.Faithful c w.calls) {r : Request} {payload : List UInt8}
    {calls : Calls} (hr : w.calls.pending i = some r) (hpayload : r.event? = some payload)
    (hnext : w.calls.next c (.publish i) = some calls) (horderly : w.overtakes (.publish i spawns) = false) :
    Ordered c { w with
      calls, supervisor := (w.published i payload spawns).1, lost := (w.published i payload spawns).2 } := by
  obtain ⟨call, hi, hchanged⟩ := pending_eq hr
  obtain ⟨phase, hm, hpending, hresponse⟩ : ∃ phase, w.calls.Moves calls i call phase ∧ phase.pending = none ∧
      phase.response ≠ none := by
    obtain ⟨call', phase, hi', hpublish, rfl⟩ := Calls.next_publish hnext
    obtain rfl := Option.some.inj (hi.symm.trans hi')
    obtain ⟨_, -, -, hreturned⟩ := Phase.publish_cases hpublish
    rw [hreturned .new]
    exact ⟨_, Calls.moves_setPhase hi, rfl, by simp [Phase.response]⟩
  have hparse := hfaithful i call r hi (by rw [hchanged]; rfl)
  have hwaits : ∀ j, calls.pending j ≠ none ↔ w.calls.pending j ≠ none ∧ j ≠ i := by
    intro j
    rw [hm.pending_eq]
    split_ifs with hsame
    · simp [hsame, hpending]
    · simp [hsame]
  have hmem := hw.waiting i (by simp [hr])
  refine ⟨hw.nodup, fun j hj => hw.waiting j ((hwaits j).mp hj).1, fun j hj => ?_, fun table key => ?_⟩
  · by_cases hsame : j = i
    · exact ⟨_, (hm.calls j).trans (if_pos hsame), .inr hresponse⟩
    · obtain ⟨call', hcall, hphase⟩ := hw.changed j hj
      exact ⟨call', (hm.calls j).trans ((if_neg hsame).trans hcall), hphase⟩
  · have hkept := hw.settles hr hfaithful horderly hwaits table key
    have hchangedOn : changedOn c { w with
        calls, supervisor := (w.published i payload spawns).1, lost := (w.published i payload spawns).2 } table key =
        w.changedOn c table key := by
      rw [changedOn, hm.on_eq, changedOn]
    rw [hchangedOn]
    by_cases hrefuses : w.supervisor.Refuses spawns
    · rw [(@published_refused w i payload spawns hrefuses).2.1]
      exact hkept.forget (List.sublist_append_left _ _)
    · rw [(@published_accepted w i payload spawns hrefuses).2.1, idsOn_append,
        Request.idsOn_event (Request.parse_ok hparse) hpayload]
      exact hkept

theorem Ordered.turn (hw : Ordered c w) {supervisor : EventLoopSupervisor}
    (hturn : w.supervisor.turn = some supervisor) : Ordered c { w with supervisor } :=
  hw.congr rfl (EventLoopSupervisor.turn_sublist hturn) (fun _ => rfl) fun _ _ => rfl

theorem Ordered.step (hw : Ordered c w) (hfaithful : Calls.Faithful c w.calls) (hstep : OrderlyStep c w e w') :
    Ordered c w' := by
  obtain ⟨request, calls, rfl, hnext, rfl⟩ | ⟨i, calls, rfl, hnext, rfl⟩ |
    ⟨i, spawns, r, payload, calls, rfl, hr, hpayload, hnext, rfl⟩ | ⟨supervisor, rfl, hturn, rfl⟩ := next_cases hstep.1
  · exact hw.invoke hnext
  · exact hw.op hnext
  · exact hw.publish hfaithful hr hpayload hnext hstep.2
  · exact hw.turn hturn

theorem ordered_initial : Ordered c (initial h spawns) where
  nodup := .nil
  waiting i hi := by simp [initial, Calls.initial, Calls.pending] at hi
  changed i hi := by cases hi
  follows table key := by cases spawns <;> exact follows_nil

theorem ordered_of_run (hrun : Run (OrderlyStep c) (initial h spawns) es w) : Ordered c w := by
  induction hrun with
  | nil => exact ordered_initial
  | snoc hrun hstep ih => exact ih.step (faithful_of_run (hrun.mono fun _ _ _ hs => hs.1)) hstep

/-- The log has the order of the changes in every state of a run in which no event overtakes that of an earlier
change of its key. -/
theorem log_order (hrun : Run (OrderlyStep c) (initial h spawns) es w) : LogOrder c w := by
  have hw := ordered_of_run hrun
  refine ⟨hw.nodup, fun table key => ?_⟩
  have hwal : (idsOn w.supervisor.wal table key).Sublist (idsOn w.supervisor.entries table key) :=
    idsOn_sublist (List.sublist_append_left _ _) table key
  exact hwal.trans (hw.follows table key).sublist

/-! ## A put and a delete -/

/-- The `delete` begins before the `put` has published its event. -/
def interleaved : List Event :=
  [.invoke putAlice, .op 0, .op 0, .invoke deleteAlice, .op 1, .publish 0 true, .turn, .op 1, .publish 1 true, .turn,
    .turn, .turn]

theorem log_order_interleaved :
    let w := played (guarded (next prefixedCodecs) fun w e => !w.overtakes e) (initial .new true) interleaved
    LogOrder prefixedCodecs w ∧ w.supervisor.wal.map (fun p => (p.1, p.2.operation)) = [(0, some 1), (1, some 2)] :=
  ⟨log_order ((run_guarded (fun _ _ _ h => h) (by decide +kernel)).mono fun _ _ _ hs =>
    ⟨hs.1, (Bool.not_eq_true' _).mp hs.2⟩), by decide +kernel⟩

/-- The `delete` is done before the `put` has published its event. -/
def overtaking : List Event :=
  [.invoke putAlice, .op 0, .op 0, .invoke deleteAlice, .op 1, .op 1, .publish 1 true, .publish 0 true, .turn, .turn,
    .turn, .turn]

/-- The log ends with the `insert` of a key that is not stored. -/
theorem log_disorder : ∃ w, Run (Step prefixedCodecs) (initial .new true) overtaking w ∧
    ¬ LogOrder prefixedCodecs w ∧ w.calls.heap.view.contents "users" "alice" = none ∧
    w.supervisor.wal.map (fun p => (p.1, p.2.operation)) = [(1, some 2), (0, some 1)] := by
  have hrun : Run (Step prefixedCodecs) (initial .new true) overtaking
      (played (next prefixedCodecs) (initial .new true) overtaking) :=
    run_played (fun _ _ _ hs => hs) (by decide +kernel)
  refine ⟨_, hrun, fun h => ?_, by decide +kernel, by decide +kernel⟩
  have horder := h.order "users" "alice"
  revert horder
  decide +kernel

end World

end TrenchDb.Storage
