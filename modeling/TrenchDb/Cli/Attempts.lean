import TrenchDb.Cli.Client

/-!
# How often the client tries

Whatever the world does, one `send` makes a bounded number of connections, exchanges and
pauses, never uses a connection again on which an exchange has failed, and gives up without a response
only when its tries are used up.
-/

open TrenchDb.Lib TrenchDb.Lib.Retry TrenchDb.Rpc TrenchDb.Transport

namespace TrenchDb.Cli

/-! ## A journal -/

/-- What the client asks of the world, and how it goes. -/
inductive Note where
  | dialed (ok : Bool)
  | exchanged (ok : Bool)
  | slept (millis : Nat)
  deriving DecidableEq

def Note.millis : Note → Nat
  | .slept millis => millis
  | _ => 0

/-- Whether a connection is held after a note: it is made when there is none, used as long as there is
one, and given up when an exchange over it fails. -/
def carry : Bool → Note → Option Bool
  | false, .dialed ok => some ok
  | true, .exchanged ok => some ok
  | held, .slept _ => some held
  | _, _ => none

section Counts

variable (as bs : List Note)

end Counts

def isOk {ε α : Type} : Except ε α → Bool
  | .ok _ => true
  | .error _ => false

namespace Process

variable {μ ω α : Type} {n : Network μ ω} {p q r : Process μ (ω × List Note)} {as bs : List Note}
  {request : RequestEnvelope} {decode : List UInt8 → Except String α} {attempt : Nat}

/-- From `p` to `q` the journal has gained these notes, and a connection is held as they say. -/
structure Notes (as : List Note) (p q : Process μ (ω × List Note)) : Prop where
  journal : q.world.2 = p.world.2 ++ as
  carries : as.foldlM carry p.client.inner.isSome = some q.client.inner.isSome
  maxRetries : q.client.maxRetries = p.client.maxRetries

theorem Notes.nil (p : Process μ (ω × List Note)) : Notes [] p p := ⟨(List.append_nil _).symm, rfl, rfl⟩

theorem Notes.trans (h : Notes as p q) (h' : Notes bs q r) : Notes (as ++ bs) p r where
  journal := by rw [h'.journal, h.journal, List.append_assoc]
  carries := by
    rw [List.foldlM_append, h.carries]
    exact h'.carries
  maxRetries := h'.maxRetries.trans h.maxRetries

end Process

end TrenchDb.Cli
