import TrenchDb.Storage.Events

/-!
# The text of an event and the fields of its entry

`publish_event` of `trench/src/api/table.rs` writes the text that `Dispatcher::dispatch` of `engine/src/events` takes
apart. They agree because of the checks of `trench/src/api` on names and keys.
-/

open TrenchDb.Transport

namespace TrenchDb.Storage

/-! ## Events -/

/-- What the handlers publish events of. -/
inductive Mutation
  | insert
  | update
  | delete
  deriving DecidableEq, Repr

namespace Mutation

def text : Mutation → String
  | .insert => "insert"
  | .update => "update"
  | .delete => "delete"

/-- The code of the operation in the log. -/
def code : Mutation → UInt8
  | .insert => 1
  | .delete => 2
  | .update => 3

theorem opCode_text (m : Mutation) : opCode (asBytes m.text) = some m.code := by cases m <;> decide +kernel

theorem colon_not_mem_text (m : Mutation) : colon ∉ asBytes m.text := by cases m <;> decide +kernel

theorem text_length (m : Mutation) : (asBytes m.text).length ≤ 6 := by cases m <;> decide +kernel

theorem code_injective : Function.Injective code := by
  intro m m' h
  cases m <;> cases m' <;> first | rfl | exact absurd h (by decide)

end Mutation

/-- An event of a table and a key that have passed the checks. -/
structure StorageEvent where
  mutation : Mutation
  table : String
  key : String
  validTable : validateName table "table" = .ok ()
  validKey : validateKey key = .ok ()

namespace StorageEvent

/-- `publish_event`. -/
def publish (e : StorageEvent) (s : Shared) : Shared := publishEvent e.mutation.text e.table e.key s

def payload (e : StorageEvent) : List UInt8 := asBytes (e.mutation.text ++ ":" ++ e.table ++ ":" ++ e.key)

variable (e e' : StorageEvent)

theorem compositeKey_eq_text :
    compositeKey (asBytes e.table) (asBytes e.key) = asBytes (e.table ++ ":" ++ e.key) := by
  have hcolon : asBytes ":" = [colon] := by decide +kernel
  rw [compositeKey, asBytes_append, asBytes_append, hcolon, List.append_assoc]
  rfl

theorem walEntry_payload : walEntry e.payload =
    { payload := e.payload, key := some (asBytes (e.table ++ ":" ++ e.key)), operation := some e.mutation.code,
      checksum := none } := by
  rw [payload, walEntry_event e.mutation.colon_not_mem_text (colon_not_mem e.validTable) (colon_not_mem e.validKey),
    e.mutation.opCode_text, compositeKey_eq_text]

theorem payload_length : e.payload.length ≤ 2000 :=
  eventText_length e.mutation.text_length e.validTable e.validKey

theorem eq_of_fields {e e' : StorageEvent}
    (hoperation : (walEntry e.payload).operation = (walEntry e'.payload).operation)
    (hkey : (walEntry e.payload).key = (walEntry e'.payload).key) : e = e' := by
  rw [walEntry_payload, walEntry_payload] at hoperation hkey
  have hcode := Mutation.code_injective (Option.some.inj hoperation)
  have hcomposite := Option.some.inj hkey
  rw [← compositeKey_eq_text, ← compositeKey_eq_text] at hcomposite
  obtain ⟨htable, hkey⟩ := compositeKey_injective (colon_not_mem e.validTable) (colon_not_mem e'.validTable) hcomposite
  cases e
  cases e'
  obtain rfl := hcode
  obtain rfl := asBytes_injective htable
  obtain rfl := asBytes_injective hkey
  rfl

/-- What is published is dispatched as an entry with the operation's code and the key `table:key`, which the log takes;
and no other event leaves an entry with the same operation and key. -/
theorem text_agrees (s : Shared) (wal : List (Nat × WalEntry)) (id : Nat) :
    (∃ entry, (e.publish s).published = s.published ++ [entry.payload] ∧
      EventLoopSupervisor.dispatch wal { id, payload := entry.payload } = wal ++ [(id, entry)] ∧
      entry.operation = some e.mutation.code ∧ entry.key = some (asBytes (e.table ++ ":" ++ e.key)) ∧
      entry.payload.length ≤ 2000) ∧
    ((walEntry e.payload).operation = (walEntry e'.payload).operation →
      (walEntry e.payload).key = (walEntry e'.payload).key →
      e.mutation = e'.mutation ∧ e.table = e'.table ∧ e.key = e'.key) := by
  refine ⟨⟨walEntry e.payload, ?_⟩, fun hoperation hkey => ?_⟩
  · have hentry := e.walEntry_payload
    have hdispatch : EventLoopSupervisor.dispatch wal { id, payload := e.payload } =
        wal ++ [(id, walEntry e.payload)] := by
      unfold EventLoopSupervisor.dispatch WALWriter.append
      rw [if_neg (Nat.not_lt.mpr e.payload_length)]
    rw [hentry] at hdispatch ⊢
    exact ⟨rfl, hdispatch, rfl, rfl, e.payload_length⟩
  · obtain rfl := eq_of_fields hoperation hkey
    exact ⟨rfl, rfl, rfl⟩

end StorageEvent

end TrenchDb.Storage
