import TrenchDb.Lib.Overwrite
import TrenchDb.Wal.Broken

/-!
# Recovery that is started again

The last entry for a table says whether it exists, and the last one for a key what it holds.
-/

open TrenchDb.Lib TrenchDb.Storage

namespace TrenchDb.Wal

/-- Whether an entry makes a table exist or not, where it says so. -/
def WalEntry.existence (table : String) : WalEntry → Option Bool
  | .CreateTable t | .Insert t _ _ | .Update t _ _ => if t = table then some true else none
  | .RemoveTable t => if t = table then some false else none
  | .Delete _ _ => none

/-- What an entry leaves under a key, where it changes that. -/
def WalEntry.value (table key : String) : WalEntry → Option (Option (List UInt8))
  | .Insert t k v | .Update t k v => if t = table ∧ k = key then some (some v) else none
  | .RemoveTable t => if t = table then some none else none
  | .Delete t k => if t = table ∧ k = key then some none else none
  | .CreateTable _ => none

section Entries

variable (s : MemoryStore String (List UInt8)) (entry : WalEntry) (table key : String)

theorem get_create : (s.create table).2.get table = some (s.create table).1 := by
  unfold MemoryStore.create MemoryStore.get
  cases h : s.map.lookup table with
  | some c => exact h
  | none => simp

theorem get_create_of_ne {table table' : String} (h : table' ≠ table) :
    (s.create table).2.get table' = s.get table' := by
  unfold MemoryStore.create MemoryStore.get
  cases s.map.lookup table with
  | some c => rfl
  | none => simp [h]

theorem get_applyEntry : ((applyEntry memoryTable s entry).get table).isSome =
    (entry.existence table).getD (s.get table).isSome := by
  cases entry with
  | CreateTable t =>
    by_cases h : t = table
    · subst h
      simp [applyEntry, memoryTable, WalEntry.existence, get_create]
    · simp [applyEntry, memoryTable, WalEntry.existence, h, get_create_of_ne s (Ne.symm h)]
  | RemoveTable t =>
    by_cases h : t = table
    · subst h
      simp [applyEntry, memoryTable, WalEntry.existence]
    · simp [applyEntry, memoryTable, WalEntry.existence, h, MemoryStore.get_remove_of_ne (Ne.symm h)]
  | Insert t k v | Update t k v =>
    by_cases h : t = table
    · subst h
      simp [applyEntry, memoryTable, WalEntry.existence]
    · simp [applyEntry, memoryTable, WalEntry.existence, h, MemoryStore.get_share_of_ne (Ne.symm h),
        get_create_of_ne s (Ne.symm h)]
  | Delete t k =>
    cases hget : s.get t with
    | none => simp [applyEntry, memoryTable, WalEntry.existence, hget]
    | some c =>
      by_cases h : t = table
      · subst h
        simp [applyEntry, memoryTable, WalEntry.existence, hget]
      · simp [applyEntry, memoryTable, WalEntry.existence, hget, MemoryStore.get_share_of_ne (Ne.symm h)]

theorem contents_share {t k : String} {c : Collection String (List UInt8)} {found : Option (List UInt8)}
    (hkey : c.get k = found) (hother : ∀ key, key ≠ k → c.get key = s.contents t key) :
    ((s.create t).2.share t c).contents table key =
      (if t = table ∧ k = key then some found else none).getD (s.contents table key) := by
  by_cases ht : t = table
  · subst ht
    rw [MemoryStore.contents, MemoryStore.get_share, Option.bind_some]
    by_cases hk : k = key
    · subst hk
      simp [hkey]
    · simp [hk, hother key (Ne.symm hk)]
  · rw [MemoryStore.contents, MemoryStore.get_share_of_ne (Ne.symm ht), get_create_of_ne s (Ne.symm ht)]
    simp [ht, MemoryStore.contents]

theorem contents_applyEntry : (applyEntry memoryTable s entry).contents table key =
    (entry.value table key).getD (s.contents table key) := by
  cases entry with
  | CreateTable t => exact MemoryStore.contents_create
  | RemoveTable t =>
    by_cases h : t = table
    · subst h
      simp [applyEntry, memoryTable, WalEntry.value, MemoryStore.contents]
    · simp [applyEntry, memoryTable, WalEntry.value, MemoryStore.contents, h, MemoryStore.get_remove_of_ne (Ne.symm h)]
  | Insert t k v =>
    have happly : applyEntry memoryTable s (.Insert t k v) =
        (s.create t).2.share t ((s.create t).1.insert k v) := rfl
    rw [happly]
    refine contents_share s table key Collection.get_insert fun key hne => ?_
    rw [Collection.get_insert_of_ne hne, MemoryStore.create_contents]
  | Update t k v =>
    have happly : applyEntry memoryTable s (.Update t k v) =
        (s.create t).2.share t ((s.create t).1.update k v) := rfl
    rw [happly]
    refine contents_share s table key Collection.get_update fun key hne => ?_
    rw [Collection.get_update_of_ne hne, MemoryStore.create_contents]
  | Delete t k =>
    unfold applyEntry memoryTable
    cases hget : s.get t with
    | none =>
      by_cases h : t = table ∧ k = key
      · obtain ⟨rfl, rfl⟩ := h
        simp [WalEntry.value, hget, MemoryStore.contents]
      · simp [WalEntry.value, h, hget]
    | some c =>
      -- The table is there, and `create` would find it.
      have hcreate : (s.create t).2 = s := by
        unfold MemoryStore.create
        rw [show s.map.lookup t = some c from hget]
      have hcontents : ∀ key, c.get key = s.contents t key := fun key => by
        rw [MemoryStore.contents, hget, Option.bind_some]
      have hshare := contents_share s table key (@Collection.get_remove _ _ _ c k) fun key hne => by
        rw [Collection.get_remove_of_ne hne, hcontents]
      rw [hcreate] at hshare
      simpa [hget, WalEntry.value] using hshare

end Entries

theorem sameData_restart {part entries : List WalEntry} (hpart : part <+: entries)
    (s : MemoryStore String (List UInt8)) :
    MemoryStore.SameData (entries.foldl (applyEntry memoryTable) (part.foldl (applyEntry memoryTable) s))
      (entries.foldl (applyEntry memoryTable) s) := by
  constructor
  · intro table
    exact @Overwrite.view_restart _ _ _ _ (fun s => (MemoryStore.get s table).isSome) _
      (fun s e => get_applyEntry s e table) _ _ hpart s
  · intro table key
    exact @Overwrite.view_restart _ _ _ _ (fun s => MemoryStore.contents s table key) _
      (fun s e => contents_applyEntry s e table key) _ _ hpart s

theorem replay_restart {entries : List WalEntry} {file : List UInt8} (hfits : ∀ e ∈ entries, Fits e)
    (hcut : file <+: logFile entries) (hheader : WAL_HEADER_SIZE ≤ file.length)
    (s : MemoryStore String (List UInt8)) :
    MemoryStore.SameData (replay memoryTable (replay memoryTable s (some file)).2 (some (logFile entries))).2
      (replay memoryTable s (some (logFile entries))).2 := by
  unfold replay
  rw [replay_whole hfits, replay_whole hfits, replay_prefix_store hfits hcut hheader]
  exact sameData_restart (List.take_prefix _ _) s

/-- Entries of which some were applied before all of them are applied. -/
theorem recovery_restart {part entries : List WalEntry} (hpart : part <+: entries) :
    MemoryStore.SameData (entries.foldl (applyEntry memoryTable) (part.foldl (applyEntry memoryTable) .new))
      (entries.foldl (applyEntry memoryTable) .new) :=
  sameData_restart hpart .new

/-- A table that is removed between two writes to it. -/
def rewritten : List WalEntry :=
  [.Insert "t" "a" [1], .RemoveTable "t", .Update "t" "b" [2], .Delete "u" "a"]

theorem recovery_restart_rewritten :
    MemoryStore.SameData
      (rewritten.foldl (applyEntry memoryTable) ((rewritten.take 1).foldl (applyEntry memoryTable) .new))
      (rewritten.foldl (applyEntry memoryTable) .new) :=
  recovery_restart (List.take_prefix _ _)

end TrenchDb.Wal
