import TrenchDb.Storage.Accounts

/-!
# A request that is sent again

The client repeats a request whose response is lost, also when the server has already acted on it.
-/

open TrenchDb.Rpc TrenchDb.Transport

namespace TrenchDb.Storage

/-- The response of `remove_table` for a table that is not there. -/
def removedNothing (c : Codecs) : List UInt8 := encode c.removeTableResponse { ok := false }

/-- A request that succeeded succeeds again, with the same response, and leaves the data as they are. -/
def Repeats (c : Codecs) (request : RequestEnvelope) (s : Shared) : Prop :=
  ∀ response s', (buildActions c).handleRequest request s = (.ok response, s') →
    ∃ s'', (buildActions c).handleRequest request s' = (.ok response, s'') ∧ s''.store.SameData s'.store

variable {c : Codecs} {request : RequestEnvelope} {s s' : Shared} {response : ResponseEnvelope} {r : Request}
  {t : Option Table}

/-! ## One table -/

/-- The same table, or none. -/
def SameTable (t t' : Option Table) : Prop :=
  t.isSome = t'.isSome ∧ ∀ key, (t.bind fun c => c.get key) = t'.bind fun c => c.get key

theorem MemoryStore.sameData_set {store : MemoryStore String (List UInt8)} {table : String}
    (h : SameTable t (store.get table)) : (store.set table t).SameData store := by
  constructor
  · intro table'
    by_cases hname : table' = table
    · rw [hname, get_set]
      exact h.1
    · rw [get_set_of_ne hname]
  · intro table' key
    unfold contents
    by_cases hname : table' = table
    · rw [hname, get_set]
      exact h.2 key
    · rw [get_set_of_ne hname]

theorem Collection.get_congr_insert {t : Table} {key : String} {value : List UInt8} (key' : String) :
    ((t.insert key value).insert key value).get key' = (t.insert key value).get key' := by
  by_cases h : key' = key
  · rw [h, get_insert, get_insert]
  · rw [get_insert_of_ne h]

theorem Collection.get_congr_update {t : Table} {key : String} {value : List UInt8} (key' : String) :
    ((t.update key value).update key value).get key' = (t.update key value).get key' := by
  by_cases h : key' = key
  · rw [h, get_update, get_update]
  · rw [get_update_of_ne h]

theorem Collection.get_congr_remove {t : Table} {key : String} (key' : String) :
    ((t.remove key).2.remove key).2.get key' = (t.remove key).2.get key' := by
  by_cases h : key' = key
  · rw [h, get_remove, get_remove]
  · rw [get_remove_of_ne h]

theorem act_again {payload : List UInt8} (h : (r.act c t).1 = .ok payload) (hadd : ∀ q, r ≠ .addTable q) :
    SameTable (r.act c (r.act c t).2).2 (r.act c t).2 ∧
      ∃ payload', (r.act c (r.act c t).2).1 = .ok payload' ∧
        (payload' = payload ∨ ∃ q, r = .removeTable q ∧ t.isSome = true ∧ payload' = removedNothing c) := by
  cases r with
  | get q =>
    cases t with
    | none => exact nomatch h
    | some t => exact ⟨⟨rfl, fun _ => rfl⟩, payload, h, .inl rfl⟩
  | contains q => exact ⟨⟨rfl, fun _ => rfl⟩, payload, h, .inl rfl⟩
  | put q => exact ⟨⟨rfl, fun key => Collection.get_congr_insert key⟩, payload, h, .inl rfl⟩
  | update q =>
    cases t with
    | none => exact nomatch h
    | some t => exact ⟨⟨rfl, fun key => Collection.get_congr_update key⟩, payload, h, .inl rfl⟩
  | delete q =>
    cases t with
    | none => exact nomatch h
    | some t => exact ⟨⟨rfl, fun key => Collection.get_congr_remove key⟩, payload, h, .inl rfl⟩
  | addTable q => exact absurd rfl (hadd q)
  | removeTable q =>
    refine ⟨⟨rfl, fun _ => rfl⟩, removedNothing c, rfl, ?_⟩
    cases t with
    | none => exact .inl (Except.ok.inj h)
    | some t => exact .inr ⟨q, rfl, rfl, rfl⟩

/-! ## The handlers -/

theorem handleRequest_ok (h : (buildActions c).handleRequest request s = (.ok response, s')) :
    ∃ r, Request.parse c request = .ok r ∧ (r.act c (s.store.get r.table)).1 = .ok response.payload ∧
      s'.store = s.store.set r.table (r.act c (s.store.get r.table)).2 := by
  rw [handleRequest_parse] at h
  cases hparse : Request.parse c request with
  | error e =>
    rw [hparse] at h
    exact nomatch h
  | ok r =>
    rw [hparse] at h
    obtain ⟨hresponse, hstate⟩ := Prod.mk.inj h
    refine ⟨r, rfl, ?_, (congrArg Shared.store hstate).symm⟩
    cases hact : (r.act c (s.store.get r.table)).1 with
    | error e =>
      rw [hact] at hresponse
      exact nomatch hresponse
    | ok payload =>
      rw [hact] at hresponse
      obtain rfl := Except.ok.inj hresponse
      rfl

theorem map_eq_ok {ε α β : Type} {x : Except ε α} {f : α → β} {b : β} (h : x.map f = .ok b) :
    ∃ a, x = .ok a ∧ f a = b := by
  cases x with
  | error e => exact nomatch h
  | ok a => exact ⟨a, rfl, Except.ok.inj h⟩

theorem decoded_of_parse (h : Request.parse c request = .ok r) : Request.decoded c request = .ok r := by
  unfold Request.parse at h
  cases hd : Request.decoded c request with
  | error e =>
    rw [hd] at h
    exact nomatch h
  | ok r' =>
    rw [hd] at h
    cases hv : r'.validate with
    | error e => simp [bind, Except.bind, hv] at h
    | ok u =>
      simp only [bind, Except.bind, hv, pure, Except.pure, Except.ok.injEq] at h
      rw [h]

theorem action_addTable {q : AddTableRequest} (h : Request.parse c request = .ok (.addTable q)) :
    request.action = "add_table" := by
  have hdecoded := decoded_of_parse h
  unfold Request.decoded at hdecoded
  split at hdecoded
  case h_6 haction => exact haction
  case h_8 => exact nomatch hdecoded
  all_goals
    obtain ⟨_, -, hkind⟩ := map_eq_ok hdecoded
    exact nomatch hkind

theorem handleRequest_again (hparse : Request.parse c request = .ok r) (hne : ∀ q, r ≠ .addTable q)
    (h : (buildActions c).handleRequest request s = (.ok response, s')) :
    ∃ response' s'', (buildActions c).handleRequest request s' = (.ok response', s'') ∧
      s''.store.SameData s'.store ∧
      (response' = response ∨ ∃ q, r = .removeTable q ∧ (s.store.get q.table).isSome = true ∧
        response'.payload = removedNothing c) := by
  obtain ⟨r', hparse', hact, hstore⟩ := handleRequest_ok h
  obtain rfl := Except.ok.inj (hparse.symm.trans hparse')
  obtain ⟨hsame, payload', hagain, hpayload⟩ := act_again hact hne
  have htable : s'.store.get r.table = (r.act c (s.store.get r.table)).2 := by
    rw [hstore, MemoryStore.get_set]
  refine ⟨{ payload := payload' }, (r.perform c s').2, ?_, ?_, ?_⟩
  · rw [handleRequest_parse, hparse]
    refine Prod.ext ?_ rfl
    show (r.act c (s'.store.get r.table)).1.map ResponseEnvelope.mk = _
    rw [htable, hagain]
    rfl
  · show (s'.store.set r.table (r.act c (s'.store.get r.table)).2).SameData s'.store
    exact MemoryStore.sameData_set (by rwa [htable])
  · rcases hpayload with rfl | ⟨q, rfl, hexists, rfl⟩
    · exact .inl rfl
    · exact .inr ⟨q, rfl, hexists, rfl⟩

/-- A request that succeeded and comes again, for all actions but `add_table`. -/
theorem resend (h : (buildActions c).handleRequest request s = (.ok response, s'))
    (hadd : request.action ≠ "add_table") :
    ∃ response' s'', (buildActions c).handleRequest request s' = (.ok response', s'') ∧
      s''.store.SameData s'.store ∧
      (response' = response ∨ ∃ q, Request.parse c request = .ok (.removeTable q) ∧
        (s.store.get q.table).isSome = true ∧ response'.payload = removedNothing c) := by
  obtain ⟨r, hparse, -, -⟩ := handleRequest_ok h
  have hne : ∀ q, r ≠ .addTable q := by
    rintro q rfl
    exact hadd (action_addTable hparse)
  obtain ⟨response', s'', hagain, hsame, hresponse⟩ := handleRequest_again hparse hne h
  refine ⟨response', s'', hagain, hsame, hresponse.imp_right ?_⟩
  rintro ⟨q, rfl, hexists⟩
  exact ⟨q, hparse, hexists⟩

theorem resend_putAlice : ∃ response' s'',
    (buildActions prefixedCodecs).handleRequest putAlice (after prefixedCodecs putAlice Shared.new) =
        (.ok response', s'') ∧
      s''.store.SameData (after prefixedCodecs putAlice Shared.new).store ∧
      (response' = { payload := encode prefixedCodecs.putResponse { ok := true } } ∨
        ∃ q, Request.parse prefixedCodecs putAlice = .ok (.removeTable q) ∧
          (Shared.new.store.get q.table).isSome = true ∧ response'.payload = removedNothing prefixedCodecs) := by
  refine resend (Prod.ext ?_ rfl) (by decide)
  rw [handleRequest_parse, parse_putAlice]
  rfl

/-! ## Exactly when the response is the same -/

/-- The request adds a table that is missing, or removes one that is there. -/
def Changes (s : Shared) : Request → Prop
  | .addTable q => s.store.get q.table = none
  | .removeTable q => (s.store.get q.table).isSome = true
  | _ => False

theorem handleRequest_act (hparse : Request.parse c request = .ok r) (s : Shared) :
    (buildActions c).handleRequest request s =
      ((r.act c (s.store.get r.table)).1.map ResponseEnvelope.mk, (r.perform c s).2) := by
  rw [handleRequest_parse, hparse]
  rfl

theorem store_perform (r : Request) (s : Shared) :
    (r.perform c s).2.store.get r.table = (r.act c (s.store.get r.table)).2 := MemoryStore.get_set

theorem repeats_iff (hdistinct : encode c.removeTableResponse { ok := true } ≠ removedNothing c) :
    Repeats c request s ↔ ∀ r, Request.parse c request = .ok r → ¬ Changes s r := by
  constructor
  · intro hrepeats r hparse hchanges
    cases r with
    | get q | put q | update q | delete q | contains q => exact hchanges
    | addTable q =>
      have hnone : s.store.get (Request.addTable q).table = none := hchanges
      have hfirst := handleRequest_act hparse s
      rw [hnone] at hfirst
      obtain ⟨s'', hsecond, -⟩ := hrepeats _ _ hfirst
      rw [handleRequest_act hparse, store_perform, hnone] at hsecond
      exact nomatch (Prod.mk.inj hsecond).1
    | removeTable q =>
      obtain ⟨t, hsome⟩ := Option.isSome_iff_exists.mp hchanges
      replace hsome : s.store.get (Request.removeTable q).table = some t := hsome
      have hfirst := handleRequest_act hparse s
      rw [hsome] at hfirst
      obtain ⟨s'', hsecond, -⟩ := hrepeats _ _ hfirst
      rw [handleRequest_act hparse, store_perform, hsome] at hsecond
      have hpayload := congrArg ResponseEnvelope.payload (Except.ok.inj (Prod.mk.inj hsecond).1)
      exact hdistinct hpayload.symm
  · intro hchanges response s' h
    obtain ⟨r, hparse, hact, -⟩ := handleRequest_ok h
    have hne : ∀ q, r ≠ .addTable q := by
      rintro q rfl
      -- An `add_table` that succeeded found no table.
      apply hchanges _ hparse
      show s.store.get (Request.addTable q).table = none
      cases hget : s.store.get (Request.addTable q).table with
      | none => rfl
      | some t =>
        rw [hget] at hact
        exact nomatch hact
    obtain ⟨response', s'', hagain, hsame, rfl | ⟨q, rfl, hexists, -⟩⟩ := handleRequest_again hparse hne h
    · exact ⟨s'', hagain, hsame⟩
    · exact absurd hexists (hchanges _ hparse)

/-- The response of `remove_table` tells whether the table was there. -/
theorem removeUsers_not_repeated : ∃ request s, ¬ Repeats prefixedCodecs request s := by
  refine ⟨removeUsers, after prefixedCodecs putAlice Shared.new, fun hrepeats => ?_⟩
  apply (repeats_iff (by decide)).mp hrepeats _ parse_removeUsers
  rw [after_eq, parse_putAlice]
  have hput := @store_perform prefixedCodecs (.put ⟨"users", "alice", [1]⟩) Shared.new
  show (((Request.put ⟨"users", "alice", [1]⟩).perform prefixedCodecs Shared.new).2.store.get "users").isSome = true
  exact congrArg Option.isSome hput

end TrenchDb.Storage
