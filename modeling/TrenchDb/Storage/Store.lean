import Mathlib.Data.Finmap

/-!
# The in-memory store

`engine/src/rec` and `engine/src/memory/store.rs`: records with versions, collections of records, and
the registry of tables. One operation runs at a time here.
-/

namespace TrenchDb.Storage

/-! ## Records -/

structure Record (ν : Type) where
  value : ν
  version : UInt64
  deriving DecidableEq, Repr

namespace Record

variable {ν : Type}

def new (value : ν) : Record ν := { value, version := 1 }

/-- `previous_version + 1` wraps in a release build. -/
def next (value : ν) (previousVersion : UInt64) : Record ν := { value, version := previousVersion + 1 }

end Record

/-! ## Collections -/

structure Collection (κ ν : Type) where
  map : Finmap fun _ : κ => Record ν

namespace Collection

variable {κ ν : Type} [DecidableEq κ]

def new : Collection κ ν := { map := ∅ }

def get (c : Collection κ ν) (key : κ) : Option ν := (c.map.lookup key).map Record.value

def insert (c : Collection κ ν) (key : κ) (value : ν) : Collection κ ν :=
  { map := c.map.insert key (.new value) }

/-- The value that was there, too. -/
def remove (c : Collection κ ν) (key : κ) : Option ν × Collection κ ν := (c.get key, { map := c.map.erase key })

def update (c : Collection κ ν) (key : κ) (value : ν) : Collection κ ν :=
  match c.map.lookup key with
  | some occupied => { map := c.map.insert key (.next value occupied.version) }
  | none => { map := c.map.insert key (.new value) }

def contains (c : Collection κ ν) (key : κ) : Bool := (c.map.lookup key).isSome

variable {c : Collection κ ν} {key key' : κ} {value : ν}

@[simp] theorem get_new : (new : Collection κ ν).get key = none := by simp [get, new]

@[simp] theorem get_insert : (c.insert key value).get key = some value := by simp [get, insert, Record.new]

theorem get_insert_of_ne (h : key' ≠ key) : (c.insert key value).get key' = c.get key' := by
  simp [get, insert, h]

@[simp] theorem get_remove : (c.remove key).2.get key = none := by simp [get, remove]

theorem get_remove_of_ne (h : key' ≠ key) : (c.remove key).2.get key' = c.get key' := by
  simp [get, remove, h]

@[simp] theorem get_update : (c.update key value).get key = some value := by
  unfold update
  split <;> simp [get, Record.new, Record.next]

theorem get_update_of_ne (h : key' ≠ key) : (c.update key value).get key' = c.get key' := by
  unfold update
  split <;> simp [get, h]

end Collection

/-! ## The registry of tables -/

structure MemoryStore (κ ν : Type) where
  map : Finmap fun _ : κ => Collection κ ν

namespace MemoryStore

variable {κ ν : Type} [DecidableEq κ]

def new : MemoryStore κ ν := { map := ∅ }

def get (s : MemoryStore κ ν) (table : κ) : Option (Collection κ ν) := s.map.lookup table

/-- The collection behind the handle that `create` returns, and the store with it. -/
def create (s : MemoryStore κ ν) (table : κ) : Collection κ ν × MemoryStore κ ν :=
  match s.map.lookup table with
  | some c => (c, s)
  | none => (.new, { map := s.map.insert table .new })

/-- A change through a handle to a collection is seen in the store, which shares it. -/
def share (s : MemoryStore κ ν) (table : κ) (c : Collection κ ν) : MemoryStore κ ν :=
  { map := s.map.insert table c }

def remove (s : MemoryStore κ ν) (table : κ) : MemoryStore κ ν := { map := s.map.erase table }

/-! ### What is stored -/

/-- The value under a key of a table. -/
def contents (s : MemoryStore κ ν) (table key : κ) : Option ν := (s.get table).bind fun c => c.get key

/-- The same tables, and the same values under the same keys. Versions may differ. -/
def SameData (s s' : MemoryStore κ ν) : Prop :=
  (∀ table, (s.get table).isSome = (s'.get table).isSome) ∧
    ∀ table key, s.contents table key = s'.contents table key

variable {s : MemoryStore κ ν} {table table' key : κ} {c : Collection κ ν}

@[simp] theorem get_share : (s.share table c).get table = some c := by simp [get, share]

theorem get_share_of_ne (h : table' ≠ table) : (s.share table c).get table' = s.get table' := by
  simp [get, share, h]

@[simp] theorem get_remove : (s.remove table).get table = none := by simp [get, remove]

theorem get_remove_of_ne (h : table' ≠ table) : (s.remove table).get table' = s.get table' := by
  simp [get, remove, h]

@[simp] theorem contents_new : (new : MemoryStore κ ν).contents table key = none := by
  simp [contents, get, new]

theorem create_contents : (s.create table).1.get key = s.contents table key := by
  unfold create contents get
  cases s.map.lookup table <;> simp

theorem contents_create : (s.create table).2.contents table' key = s.contents table' key := by
  unfold create
  cases hl : s.map.lookup table with
  | some c => rfl
  | none =>
    by_cases h : table' = table
    · subst h
      simp [contents, get, hl]
    · simp [contents, get, h]

end MemoryStore

end TrenchDb.Storage
