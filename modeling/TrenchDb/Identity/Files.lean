import Mathlib.Data.List.DropRight
import TrenchDb.Lib.Stopping
import TrenchDb.Storage.Identity

/-!
# Files and processes

What the calls of `std::fs` do to the files, and where they may stop. A path is a directory with a file
name in it.
-/

open TrenchDb.Lib TrenchDb.Lib.Stopping TrenchDb.Rpc TrenchDb.Storage

namespace TrenchDb.Identity

/-! ## Files -/

abbrev Path (D : Type) : Type := D × String

/-- The files that exist, with their bytes. -/
abbrev Disk (D : Type) : Type := Path D → Option (List UInt8)

/-- The calls of one start that use a file, in the order of the source. -/
inductive Call where
  | writeCert
  | writeKey
  | readCert
  | ensureRoot
  | writeIdentity
  | syncIdentity
  | copyCert
  | copyKey
  | copyCertBack
  | copyKeyBack
  | openIdentity
  | readIdentity
  deriving DecidableEq, Repr

/-- The call in which a process stops, because it crashes there or because the call fails. A call that
writes a file has created it, and written so many bytes, if `written` is a number. -/
structure Fault where
  call : Call
  written : Option Nat
  error : String
  deriving DecidableEq, Repr

/-- A running process: its working directory, the directory that a path names there, and where it stops. -/
structure Process (D : Type) where
  cwd : D
  resolve : String → D
  fault : Option Fault

abbrev Proc (D : Type) : Type → Type := Stopping (Disk D) String

variable {D : Type}

/-- What the process meets in this call. -/
def Process.stops (p : Process D) (call : Call) : Option Fault := p.fault.filter fun fault => fault.call = call

def notFound : String := "No such file or directory (os error 2)"

/-- A call that changes no file. -/
def useFile (p : Process D) (call : Call) : Proc D Unit :=
  match p.stops call with
  | some fault => stop fault.error
  | none => pure ()

/-- `fs::read`, or a `File::open` of a file that is read next. -/
def readFile (p : Process D) (call : Call) (path : Path D) : Proc D (List UInt8) := fun disk =>
  match p.stops call, disk path with
  | some fault, _ => (.error fault.error, disk)
  | none, some bytes => (.ok bytes, disk)
  | none, none => (.error notFound, disk)

/-- A vector that fits into no memory ends the process. -/
def allocate (bytes : List UInt8) : Proc D (List UInt8) :=
  if bytes.length < 2 ^ 64 then pure bytes else stop "memory allocation failed"

section Specs

theorem path_ne {path path' : Path D} (h : path.1 ≠ path'.1) : path ≠ path' := fun heq => h (congrArg Prod.fst heq)

variable {p : Process D} {call : Call} {path : Path D} {bytes : List UInt8} {disk : Disk D} {E : Disk D → Prop}

theorem Process.stops_eq_some {fault : Fault} :
    p.stops call = some fault ↔ p.fault = some fault ∧ fault.call = call := by
  simp [stops, Option.filter_eq_some_iff]

theorem Process.stops_fault {fault : Fault} (h : p.stops call = some fault) : p.fault ≠ none := by
  rw [(stops_eq_some.mp h).1]
  exact Option.some_ne_none fault

theorem ends_useFile {Q : Unit → Disk D → Prop} (hdone : Q () disk) (hstop : p.fault ≠ none → E disk) :
    Ends (useFile p call) Q E disk := by
  unfold useFile
  split
  next h => exact hstop (Process.stops_fault h)
  · exact hdone

theorem ends_readFile {Q : List UInt8 → Disk D → Prop} (hdone : ∀ bytes, disk path = some bytes → Q bytes disk)
    (hstop : p.fault ≠ none ∨ disk path = none → E disk) : Ends (readFile p call path) Q E disk := by
  unfold Ends readFile
  cases hstops : p.stops call with
  | some fault => exact hstop (.inl (Process.stops_fault hstops))
  | none =>
    cases hpath : disk path with
    | some bytes => exact hdone bytes hpath
    | none => exact hstop (.inr hpath)

theorem ends_allocate {Q : List UInt8 → Disk D → Prop} (hdone : bytes.length < 2 ^ 64 → Q bytes disk) (hstop : E disk) :
    Ends (allocate bytes) Q E disk := by
  unfold allocate
  split_ifs with h
  · exact hdone h
  · exact hstop

end Specs

/-! ## Writing -/

section Writes

variable [DecidableEq D]

def Disk.put (disk : Disk D) (path : Path D) (bytes : List UInt8) : Disk D := Function.update disk path (some bytes)

/-- `fs::write`, or `File::create` with `write_all`. -/
def writeFile (p : Process D) (call : Call) (path : Path D) (bytes : List UInt8) : Proc D Unit := fun disk =>
  match p.stops call with
  | none => (.ok (), disk.put path bytes)
  | some fault => (.error fault.error, match fault.written with
    | none => disk
    | some n => disk.put path (bytes.take n))

/-- `fs::copy` opens the source, then truncates the destination: a file that is copied onto itself is empty. -/
def copyFile (p : Process D) (call : Call) (source destination : Path D) : Proc D Unit := fun disk =>
  match disk source with
  | some bytes => writeFile p call destination (if source = destination then [] else bytes) disk
  | none => (.error notFound, disk)

variable {p : Process D} {call : Call} {path source destination : Path D} {bytes : List UInt8} {disk : Disk D}
  {Q : Unit → Disk D → Prop} {E : Disk D → Prop}

@[simp] theorem Disk.put_self : disk.put path bytes path = some bytes := Function.update_self ..

theorem Disk.put_of_ne (h : source ≠ path) : disk.put path bytes source = disk source := Function.update_of_ne h ..

theorem ends_writeFile (hdone : p.stops call = none → Q () (disk.put path bytes))
    (hsame : ∀ fault, p.stops call = some fault → fault.written = none → E disk)
    (hcut : ∀ fault n, p.stops call = some fault → fault.written = some n → E (disk.put path (bytes.take n))) :
    Ends (writeFile p call path bytes) Q E disk := by
  unfold Ends writeFile
  cases hstops : p.stops call with
  | none => exact hdone hstops
  | some fault =>
    cases hwritten : fault.written with
    | none => simpa only [hwritten] using hsame fault hstops hwritten
    | some n => simpa only [hwritten] using hcut fault n hstops hwritten

theorem ends_copyFile_any (hstop : E disk) (h : ∀ bytes, Ends (writeFile p call destination bytes) Q E disk) :
    Ends (copyFile p call source destination) Q E disk := by
  unfold Ends copyFile
  cases disk source with
  | none => exact hstop
  | some bytes => exact h _

theorem ends_copyFile_self (hstop : E disk) (h : Ends (writeFile p call path []) Q E disk) :
    Ends (copyFile p call path path) Q E disk := by
  unfold Ends copyFile
  cases disk path with
  | none => exact hstop
  | some bytes =>
    simp only [if_true]
    exact h

theorem ends_copyFile (hne : source ≠ destination) (hsource : disk source = some bytes)
    (h : Ends (writeFile p call destination bytes) Q E disk) : Ends (copyFile p call source destination) Q E disk := by
  unfold Ends copyFile
  simp only [hsource, if_neg hne]
  exact h

end Writes

end TrenchDb.Identity
