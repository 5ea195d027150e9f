import TrenchDb.Storage.Encoding
import TrenchDb.Storage.Events

/-!
# The log and the live keys

What the log says is stored, against what is stored. A `put`, `update` or `delete` leaves an entry for
its key. A `remove_table` leaves none.
-/

open TrenchDb.Rpc TrenchDb.Transport

namespace TrenchDb.Storage

/-! ## Reading the log -/

/-- The keys after one more entry. -/
def account (keys : Finset (List UInt8)) (entry : WalEntry) : Finset (List UInt8) :=
  match entry.key with
  | none => keys
  | some key =>
    if entry.operation = some 1 ∨ entry.operation = some 3 then insert key keys
    else if entry.operation = some 2 then keys.erase key
    else keys

def accounted (entries : List WalEntry) : Finset (List UInt8) := entries.foldl account ∅

/-- The log when every published event was accepted, dispatched and appended. -/
def Shared.wal (s : Shared) : List WalEntry := s.published.map walEntry

/-- `table:key` is in the store. -/
def Shared.Live (s : Shared) (k : List UInt8) : Prop :=
  ∃ table key, s.store.contents table key ≠ none ∧ k = compositeKey (asBytes table) (asBytes key)

/-- The log accounts for the live keys. -/
def Accounts (s : Shared) : Prop := ∀ k, k ∈ accounted s.wal ↔ s.Live k

/-- Names of tables that hold keys have passed the check. -/
def Named (s : Shared) : Prop := ∀ table key, s.store.contents table key ≠ none → colon ∉ asBytes table

/-! ## The contents after a request -/

section Contents

variable {κ ν : Type} [DecidableEq κ] {s : MemoryStore κ ν} {table key : κ} {t t' : Option (Collection κ ν)}

theorem contents_set (table' key' : κ) : (s.set table t).contents table' key' =
    if table' = table then t.bind fun c => c.get key' else s.contents table' key' := by
  unfold MemoryStore.contents
  split_ifs with h
  · rw [h, MemoryStore.get_set]
  · rw [MemoryStore.get_set_of_ne h]

theorem contents_set_key {c : Collection κ ν} {v : Option ν} (hself : c.get key = v)
    (hother : ∀ key', key' ≠ key → c.get key' = s.contents table key') (table' key' : κ) :
    (s.set table (some c)).contents table' key' =
      if table' = table ∧ key' = key then v else s.contents table' key' := by
  rw [contents_set]
  by_cases htable : table' = table
  · by_cases hkey : key' = key
    · simp [htable, hkey, hself]
    · simpa [htable, hkey] using hother key' hkey
  · simp [htable]

end Contents

section Performed

variable {c : Codecs} {s : Shared} {table key table' key' : String} {value : List UInt8}

open Request

theorem contents_put : ((Request.put ⟨table, key, value⟩).perform c s).2.store.contents table' key' =
    if table' = table ∧ key' = key then some value else s.store.contents table' key' := by
  simp only [perform, Request.table, act]
  refine contents_set_key Collection.get_insert (fun key' hkey => ?_) table' key'
  rw [Collection.get_insert_of_ne hkey, MemoryStore.contents]
  cases s.store.get table <;> simp

theorem contents_update (ht : s.store.get table ≠ none) :
    ((Request.update ⟨table, key, value⟩).perform c s).2.store.contents table' key' =
      if table' = table ∧ key' = key then some value else s.store.contents table' key' := by
  obtain ⟨t, ht⟩ := Option.ne_none_iff_exists'.mp ht
  simp only [perform, Request.table, ht, act]
  refine contents_set_key Collection.get_update (fun key' hkey => ?_) table' key'
  rw [Collection.get_update_of_ne hkey, MemoryStore.contents, ht, Option.bind_some]

theorem contents_delete (ht : s.store.get table ≠ none) :
    ((Request.delete ⟨table, key⟩).perform c s).2.store.contents table' key' =
      if table' = table ∧ key' = key then none else s.store.contents table' key' := by
  obtain ⟨t, ht⟩ := Option.ne_none_iff_exists'.mp ht
  simp only [perform, Request.table, ht, act]
  refine contents_set_key Collection.get_remove (fun key' hkey => ?_) table' key'
  rw [Collection.get_remove_of_ne hkey, MemoryStore.contents, ht, Option.bind_some]

theorem contents_addTable :
    ((Request.addTable ⟨table⟩).perform c s).2.store.contents table' key' = s.store.contents table' key' := by
  simp only [perform, Request.table, contents_set]
  split_ifs with htable
  · subst htable
    unfold MemoryStore.contents
    cases s.store.get table' <;> simp [act]
  · rfl

theorem contents_removeTable : ((Request.removeTable ⟨table⟩).perform c s).2.store.contents table' key' =
    if table' = table then none else s.store.contents table' key' := contents_set table' key'

theorem perform_missing {r : Request} (hr : (∃ q, r = .update q) ∨ ∃ q, r = .delete q)
    (ht : s.store.get r.table = none) : (r.perform c s).2 = s := by
  have hact : (r.act c none).2 = none ∧ r.events c none = [] := by
    rcases hr with ⟨q, rfl⟩ | ⟨q, rfl⟩ <;> exact ⟨rfl, rfl⟩
  simp only [perform, ht, hact, MemoryStore.set_get ht, List.append_nil]

theorem events_silent {r : Request} (h : r.event? = none) (t : Option Table) : r.events c t = [] := by
  unfold events
  rw [h]
  split <;> rfl

theorem perform_reads {r : Request} (hr : r.writes = false) : (r.perform c s).2 = s := by
  have hevents : r.event? = none := by
    cases r with
    | get q | contains q => rfl
    | _ => cases hr
  simp only [perform, act_reads c hr, MemoryStore.set_get, events_silent hevents, List.append_nil]

end Performed

/-! ## One more entry -/

section Steps

variable {s s' : Shared} {table key : String} {value : List UInt8} {entry : WalEntry}

theorem mem_accounted_append {entries : List WalEntry} {k : List UInt8} :
    k ∈ accounted (entries ++ [entry]) ↔ k ∈ account (accounted entries) entry := by
  simp [accounted]

theorem accounts_insert (hcontents : ∀ table' key', s'.store.contents table' key' =
      if table' = table ∧ key' = key then some value else s.store.contents table' key')
    (hwal : s'.wal = s.wal ++ [entry]) (hkey : entry.key = some (compositeKey (asBytes table) (asBytes key)))
    (hop : entry.operation = some 1 ∨ entry.operation = some 3) (h : Accounts s) : Accounts s' := by
  intro k
  rw [hwal, mem_accounted_append, account, hkey]
  simp only [hop, if_true, Finset.mem_insert, h k]
  constructor
  · rintro (rfl | ⟨table', key', hlive, rfl⟩)
    · exact ⟨table, key, by simp [hcontents], rfl⟩
    · refine ⟨table', key', ?_, rfl⟩
      rw [hcontents]
      split_ifs <;> simp [hlive]
  · rintro ⟨table', key', hlive, rfl⟩
    rw [hcontents] at hlive
    split_ifs at hlive with hsame
    · exact .inl (by rw [hsame.1, hsame.2])
    · exact .inr ⟨table', key', hlive, rfl⟩

theorem accounts_erase (hnamed : Named s) (htable : colon ∉ asBytes table)
    (hcontents : ∀ table' key', s'.store.contents table' key' =
      if table' = table ∧ key' = key then none else s.store.contents table' key')
    (hwal : s'.wal = s.wal ++ [entry]) (hkey : entry.key = some (compositeKey (asBytes table) (asBytes key)))
    (hop : entry.operation = some 2) (h : Accounts s) : Accounts s' := by
  intro k
  have haccount : account (accounted s.wal) entry =
      (accounted s.wal).erase (compositeKey (asBytes table) (asBytes key)) := by
    simp only [account, hkey, hop]
    exact if_neg (by decide)
  rw [hwal, mem_accounted_append, haccount, Finset.mem_erase, h k]
  constructor
  · rintro ⟨hne, table', key', hlive, rfl⟩
    refine ⟨table', key', ?_, rfl⟩
    rw [hcontents, if_neg]
    · exact hlive
    · rintro ⟨rfl, rfl⟩
      exact hne rfl
  · rintro ⟨table', key', hlive, rfl⟩
    rw [hcontents] at hlive
    split_ifs at hlive with hother
    · exact absurd rfl hlive
    · refine ⟨fun heq => hother ?_, table', key', hlive, rfl⟩
      obtain ⟨htables, hkeys⟩ := compositeKey_injective (hnamed table' key' hlive) htable heq
      exact ⟨asBytes_injective htables, asBytes_injective hkeys⟩

theorem accounts_same (hcontents : ∀ table' key', s'.store.contents table' key' = s.store.contents table' key')
    (hwal : s'.wal = s.wal) : Accounts s' ↔ Accounts s := by
  unfold Accounts Shared.Live
  simp only [hcontents, hwal]

theorem accounts_removed (hnamed : Named s) (hcontents : ∀ table' key', s'.store.contents table' key' =
      if table' = table then none else s.store.contents table' key')
    (hwal : s'.wal = s.wal) (h : Accounts s) : Accounts s' ↔ ∀ key, s.store.contents table key = none := by
  constructor
  · intro h' key
    by_contra hlive
    have hmem := (h _).mpr ⟨table, key, hlive, rfl⟩
    rw [← hwal, h'] at hmem
    obtain ⟨table', key', hlive', heq⟩ := hmem
    rw [hcontents] at hlive'
    split_ifs at hlive' with hother
    · exact hlive' rfl
    · exact hother (asBytes_injective (compositeKey_injective (hnamed _ _ hlive) (hnamed _ _ hlive') heq).1.symm)
  · intro hempty
    refine (accounts_same (fun table' key' => ?_) hwal).mpr h
    rw [hcontents]
    split_ifs with hsame
    · rw [hsame, hempty]
    · rfl

end Steps

/-! ## One request after another -/

section Served

variable {c : Codecs} {s : Shared} {r : Request}

open Request

theorem wal_perform (r : Request) (s : Shared) :
    (r.perform c s).2.wal = s.wal ++ (r.events c (s.store.get r.table)).map walEntry := by
  simp [Shared.wal, perform]

theorem wal_silent (h : r.event? = none) : (r.perform c s).2.wal = s.wal := by
  rw [wal_perform, events_silent h, List.map_nil, List.append_nil]

theorem wal_present {e : List UInt8} (he : r.event? = some e) (ht : s.store.get r.table ≠ none) :
    (r.perform c s).2.wal = s.wal ++ [walEntry e] := by
  obtain ⟨t, ht⟩ := Option.ne_none_iff_exists'.mp ht
  have hevents : r.events c (some t) = [e] := by
    cases r with
    | put q | update q | delete q => exact congrArg Option.toList he
    | get q | contains q | addTable q | removeTable q => cases he
  rw [wal_perform, ht, hevents, List.map_singleton]

theorem named_perform (hr : r.validate = .ok ()) (hs : Named s) : Named (r.perform c s).2 := by
  intro table key hlive
  by_cases htable : table = r.table
  · exact htable ▸ colon_not_mem (validate_table hr)
  · refine hs table key ?_
    simpa [perform, contents_set, htable] using hlive

/-- A `remove_table` of a table that holds a key. -/
def DropsKeys (s : Shared) : Request → Prop
  | .removeTable r => ∃ key, s.store.contents r.table key ≠ none
  | _ => False

theorem perform_accounts (hr : r.validate = .ok ()) (hnamed : Named s) (h : Accounts s) :
    Accounts (r.perform c s).2 ↔ ¬ DropsKeys s r := by
  have htable := colon_not_mem (validate_table hr)
  cases r with
  | get q | contains q =>
    rw [perform_reads rfl]
    exact iff_of_true h id
  | put q =>
    have hentry := walEntry_of_event hr rfl rfl
    exact iff_of_true (accounts_insert (fun _ _ => contents_put) (wal_perform _ s) (congrArg WalEntry.key hentry)
      (.inl (congrArg WalEntry.operation hentry)) h) id
  | update q =>
    refine iff_of_true ?_ id
    by_cases ht : s.store.get q.table = none
    · rwa [perform_missing (.inl ⟨q, rfl⟩) ht]
    · have hentry := walEntry_of_event hr rfl rfl
      exact accounts_insert (fun _ _ => contents_update ht) (wal_present rfl ht) (congrArg WalEntry.key hentry)
        (.inr (congrArg WalEntry.operation hentry)) h
  | delete q =>
    refine iff_of_true ?_ id
    by_cases ht : s.store.get q.table = none
    · rwa [perform_missing (.inr ⟨q, rfl⟩) ht]
    · have hentry := walEntry_of_event hr rfl rfl
      exact accounts_erase hnamed htable (fun _ _ => contents_delete ht) (wal_present rfl ht)
        (congrArg WalEntry.key hentry) (congrArg WalEntry.operation hentry) h
  | addTable q =>
    exact iff_of_true ((accounts_same (fun _ _ => contents_addTable) (wal_silent rfl)).mpr h) id
  | removeTable q =>
    rw [accounts_removed hnamed (fun _ _ => contents_removeTable) (wal_silent rfl) h]
    simp [DropsKeys]

theorem named_after (request : RequestEnvelope) (hs : Named s) : Named (after c request s) := by
  rw [after_eq]
  cases hparse : parse c request with
  | error e => exact hs
  | ok r => exact named_perform (parse_ok hparse) hs

theorem accounts_after (request : RequestEnvelope) (hnamed : Named s) (h : Accounts s) :
    Accounts (after c request s) ↔ ∀ r, parse c request = .ok r → ¬ DropsKeys s r := by
  rw [after_eq]
  cases hparse : parse c request with
  | error e => simpa using h
  | ok r => simpa using perform_accounts (parse_ok hparse) hnamed h

theorem named_new : Named Shared.new := fun _ _ hlive => absurd MemoryStore.contents_new hlive

theorem accounts_new : Accounts Shared.new := by
  intro k
  refine iff_of_false (Finset.notMem_empty k) ?_
  rintro ⟨table, key, hlive, -⟩
  exact hlive MemoryStore.contents_new

variable (c) in
/-- From the empty store, the log accounts for the live keys in every state that the requests lead through,
if and only if no `remove_table` meets a table that holds a key. -/
theorem wal_accounts (requests : List RequestEnvelope) :
    (∀ p, p <+: requests → Accounts (serve c p Shared.new)) ↔ ∀ p request, p ++ [request] <+: requests →
      ∀ r, parse c request = .ok r → ¬ DropsKeys (serve c p Shared.new) r :=
  @serve_iff c Named Accounts (fun request s => ∀ r, parse c request = .ok r → ¬ DropsKeys s r)
    (fun request _ => named_after request) (fun request _ => accounts_after request) Shared.new named_new accounts_new
    requests

end Served

/-! ## A table that goes with its keys -/

theorem parse_removeUsers : Request.parse prefixedCodecs removeUsers = .ok (.removeTable ⟨"users"⟩) := by
  have hround : prefixedCodecs.removeTableRequest.RoundTrips := formatCodec_roundTrips _
  have hdecode : decode prefixedCodecs.removeTableRequest removeUsers.payload = .ok ⟨"users"⟩ :=
    decode_encode hround (by decide +kernel)
  exact Request.parse_of_decoded (congrArg (Except.map Request.removeTable) hdecode) (by decide +kernel)

/-- The log still says `users:alice`. -/
theorem wal_unaccounted : ¬ Accounts (serve prefixedCodecs [putAlice, removeUsers] Shared.new) := by
  have hput : Accounts (after prefixedCodecs putAlice Shared.new) := by
    refine (accounts_after putAlice named_new accounts_new).mpr fun r hr => ?_
    obtain rfl := Except.ok.inj (parse_putAlice.symm.trans hr)
    exact id
  intro h
  refine (accounts_after removeUsers (named_after putAlice named_new) hput).mp h _ parse_removeUsers ⟨"alice", ?_⟩
  rw [after_eq, parse_putAlice]
  show ((Request.put ⟨"users", "alice", [1]⟩).perform prefixedCodecs Shared.new).2.store.contents "users" "alice" ≠ none
  rw [contents_put]
  simp

end TrenchDb.Storage
