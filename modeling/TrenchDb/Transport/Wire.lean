import TrenchDb.Lib.Lts
import TrenchDb.Transport.Connection

/-!
# What reaches the wire

A connection whose writes may fail, and whose caller goes on after a failure. The write buffer keeps all
its bytes when a write fails, also those that the write had taken.
-/

open TrenchDb.Lib.Lts

namespace TrenchDb.Transport

/-! ## Calls -/

inductive WriteCall
  | bufferFrame (frame : Frame)
  | sendFrame (frame : Frame)
  | flush
  deriving DecidableEq, Repr

/-- A connection with its past: the encodings that were accepted so far, and whether a failed write took
some of the bytes that the write buffer still has. -/
structure Wire where
  conn : Connection
  accepted : List UInt8
  torn : Bool
  deriving DecidableEq, Repr

namespace Wire

/-- A fresh connection over a stream whose writes go as told. -/
def new (faults : List (Option WriteFault)) : Wire :=
  { conn := .new { written := [], faults }, accepted := [], torn := false }

/-- What `buffer_frame` appends to the write buffer. -/
def appended (c : Connection) (frame : Frame) : List UInt8 :=
  match encode frame, c.bufferFrame frame with
  | .ok bytes, (.ok (), _) => bytes
  | _, _ => []

def bufferFrame (w : Wire) (frame : Frame) : Wire :=
  { w with conn := (w.conn.bufferFrame frame).2, accepted := w.accepted ++ appended w.conn frame }

/-- Whether the coming write fails, and then after how many bytes. -/
def nextTaken (w : Wire) : Option Nat :=
  match w.conn.stream.faults with
  | some fault :: _ => some fault.taken
  | _ => none

def flush (w : Wire) : Wire :=
  { w with
    conn := w.conn.flush.2
    torn :=
      if w.conn.writeBuffer.isEmpty then w.torn
      else
        match w.nextTaken with
        | some taken => w.torn || decide (0 < taken)
        | none => false }

def call (w : Wire) : WriteCall → Wire
  | .bufferFrame frame => w.bufferFrame frame
  | .flush => w.flush
  | .sendFrame frame =>
    match w.conn.bufferFrame frame with
    | (.ok (), _) => (w.bufferFrame frame).flush
    | (.error _, _) => w.bufferFrame frame

/-! ## Which calls repeat bytes -/

/-- A write gets nothing through that an earlier one already did. -/
def Unrepeated (w : Wire) : Prop := w.torn = true → w.nextTaken = some 0

/-- A call that does not write over a torn buffer. -/
def Careful (w : Wire) : WriteCall → Prop
  | .bufferFrame _ => True
  | .flush => w.Unrepeated
  | .sendFrame frame => (w.conn.bufferFrame frame).1 = .ok () → w.Unrepeated

/-- One call of a caller that is careful. -/
def CarefulStep (w : Wire) (c : WriteCall) (w' : Wire) : Prop := w.Careful c ∧ w' = w.call c

/-! ## The two buffers -/

/-- Before the buffer everything accepted is on the wire, and of the buffer a part that failed writes
took. -/
def Ordered (w : Wire) : Prop :=
  ∃ sent taken, sent ++ w.conn.writeBuffer = w.accepted ∧ taken ≤ w.conn.writeBuffer.length ∧
    w.conn.stream.written = sent ++ w.conn.writeBuffer.take taken ∧ (w.torn = false → taken = 0)

variable {w w' : Wire} {frame : Frame} {c : WriteCall} {calls : List WriteCall}

theorem Ordered.on_socket (h : w.Ordered) : w.conn.stream.written <+: w.accepted := by
  obtain ⟨sent, taken, haccepted, -, hwritten, -⟩ := h
  rw [hwritten, ← haccepted]
  exact (List.prefix_append_right_inj sent).mpr (List.take_prefix _ _)

theorem bufferFrame_ordered (h : w.Ordered) : (w.bufferFrame frame).Ordered := by
  obtain ⟨sent, taken, haccepted, hle, hwritten, htorn⟩ := h
  refine ⟨sent, taken, ?_⟩
  unfold Wire.bufferFrame appended Connection.bufferFrame
  cases encode frame with
  | error e => simpa using ⟨haccepted, hle, hwritten, htorn⟩
  | ok bytes =>
    dsimp only
    split
    · simpa using ⟨haccepted, hle, hwritten, htorn⟩
    · refine ⟨?_, ?_, ?_, htorn⟩
      · simp [← haccepted]
      · simp only [List.length_append]
        omega
      · rw [hwritten, List.take_append_of_le_length hle]

theorem written_socketFlush (s : Socket) : s.flush.2.written = s.written := by
  unfold Socket.flush
  split <;> rfl

theorem writeAll_fault {s : Socket} {fault : WriteFault} {rest : List (Option WriteFault)}
    (h : s.faults = some fault :: rest) (bytes : List UInt8) :
    s.writeAll bytes = (.error fault.error, { written := s.written ++ bytes.take fault.taken, faults := rest }) := by
  unfold Socket.writeAll
  rw [h]

theorem writeAll_through {s : Socket} (h : ∀ fault rest, s.faults ≠ some fault :: rest) (bytes : List UInt8) :
    s.writeAll bytes = (.ok (), { written := s.written ++ bytes, faults := s.faults.tail }) := by
  unfold Socket.writeAll
  split
  · rename_i heq
    exact absurd heq (h _ _)
  · rfl

theorem bufferFrame_faults : (w.bufferFrame frame).conn.stream.faults = w.conn.stream.faults := by
  unfold Wire.bufferFrame Connection.bufferFrame
  cases encode frame with
  | error e => rfl
  | ok bytes =>
    dsimp only
    split <;> rfl

theorem flush_cases (hne : w.conn.writeBuffer ≠ []) :
    (w.nextTaken = none ∧ w.flush.conn.stream.written = w.conn.stream.written ++ w.conn.writeBuffer ∧
      w.flush.conn.writeBuffer = [] ∧ w.flush.torn = false) ∨
    ∃ taken, w.nextTaken = some taken ∧
      w.flush.conn.stream.written = w.conn.stream.written ++ w.conn.writeBuffer.take taken ∧
      w.flush.conn.writeBuffer = w.conn.writeBuffer ∧ w.flush.torn = (w.torn || decide (0 < taken)) := by
  have hbuffer : w.conn.writeBuffer.isEmpty = false := by simpa using hne
  unfold flush Connection.flush
  simp only [hbuffer, Bool.false_eq_true, if_false]
  by_cases hfault : ∃ fault rest, w.conn.stream.faults = some fault :: rest
  · obtain ⟨fault, rest, hfault⟩ := hfault
    have hnext : w.nextTaken = some fault.taken := by
      unfold nextTaken
      rw [hfault]
    rw [writeAll_fault hfault, hnext]
    exact .inr ⟨_, rfl, rfl, rfl, rfl⟩
  · have hthrough : ∀ fault rest, w.conn.stream.faults ≠ some fault :: rest := fun fault rest heq =>
      hfault ⟨fault, rest, heq⟩
    have hnext : w.nextTaken = none := by
      unfold nextTaken
      split
      · rename_i heq
        exact absurd heq (hthrough _ _)
      · rfl
    rw [writeAll_through hthrough, hnext]
    have hwritten := written_socketFlush
      { written := w.conn.stream.written ++ w.conn.writeBuffer, faults := w.conn.stream.faults.tail }
    refine .inl ⟨rfl, ?_⟩
    dsimp only
    split <;> rename_i heq <;> rw [heq] at hwritten <;> exact ⟨hwritten, rfl, rfl⟩

theorem flush_empty (hempty : w.conn.writeBuffer = []) : w.flush = w := by
  unfold flush Connection.flush
  simp [hempty]

theorem flush_ordered (h : w.Ordered) (hcareful : w.Unrepeated) : w.flush.Ordered := by
  by_cases hempty : w.conn.writeBuffer = []
  · rwa [flush_empty hempty]
  · obtain ⟨sent, taken, haccepted, hle, hwritten, htorn⟩ := h
    have hkeep : w.flush.accepted = w.accepted := rfl
    rcases flush_cases hempty with ⟨hnext, hall, hbuffer, hclean⟩ | ⟨n, hnext, hpart, hbuffer, htorn'⟩
    · -- Nothing of the buffer was on the wire, and now all of it is.
      have huntorn : w.torn = false := by
        by_contra htrue
        rw [hcareful (by simpa using htrue)] at hnext
        exact nomatch hnext
      rw [htorn huntorn, List.take_zero, List.append_nil] at hwritten
      refine ⟨w.accepted, 0, ?_, Nat.zero_le _, ?_, fun _ => rfl⟩
      · rw [hbuffer, List.append_nil, hkeep]
      · rw [hall, hwritten, haccepted, List.take_zero, List.append_nil]
    · rw [Ordered, hbuffer, hpart, htorn', hkeep]
      cases hold : w.torn with
      | false =>
        rw [htorn hold, List.take_zero, List.append_nil] at hwritten
        refine ⟨sent, min n w.conn.writeBuffer.length, haccepted, Nat.min_le_right _ _, ?_, ?_⟩
        · rw [hwritten, ← List.take_take, List.take_length]
        · simp
          omega
      | true =>
        obtain rfl : n = 0 := Option.some.inj (hnext.symm.trans (hcareful hold))
        refine ⟨sent, taken, haccepted, hle, ?_, by simp⟩
        rw [List.take_zero, List.append_nil, hwritten]

theorem call_ordered (h : w.Ordered) (hcareful : w.Careful c) : (w.call c).Ordered := by
  cases c with
  | bufferFrame frame => exact bufferFrame_ordered h
  | flush => exact flush_ordered h hcareful
  | sendFrame frame =>
    unfold call
    dsimp only
    split
    · rename_i conn heq
      refine flush_ordered (bufferFrame_ordered h) fun htorn => ?_
      have hnext := hcareful (by rw [heq]) htorn
      rwa [nextTaken, bufferFrame_faults]
    · exact bufferFrame_ordered h

/-- A caller that never writes over a torn buffer: of what it had accepted, the wire has a beginning. -/
theorem written_prefix {faults : List (Option WriteFault)} (hrun : Run CarefulStep (new faults) calls w) :
    w.conn.stream.written <+: w.accepted := by
  have hordered : w.Ordered := by
    refine hrun.invariant (P := fun _ w => w.Ordered) ?_ ?_
    · exact ⟨[], 0, rfl, Nat.zero_le _, rfl, fun _ => rfl⟩
    · rintro _ t c _ h ⟨hcareful, rfl⟩
      exact call_ordered h hcareful
  exact hordered.on_socket

def openFrame : Frame := Frame.empty .Open 0 1

/-- Three bytes, and then no call that writes. -/
def cutShort : Wire :=
  [WriteCall.bufferFrame openFrame, .flush, .bufferFrame openFrame].foldl call
    (new [some { taken := 3, error := "reset" }])

theorem run_cutShort : Run CarefulStep (new [some { taken := 3, error := "reset" }])
    [.bufferFrame openFrame, .flush, .bufferFrame openFrame] cutShort := by
  refine .cons ⟨trivial, rfl⟩ ?_
  refine .cons ⟨fun h => absurd h (by decide), rfl⟩ ?_
  exact .single ⟨trivial, rfl⟩

theorem written_prefix_cutShort : cutShort.conn.stream.written <+: cutShort.accepted :=
  written_prefix run_cutShort

/-- A write that took one byte is made again, from the first byte on. -/
theorem written_twice : ∃ (faults : List (Option WriteFault)) (calls : List WriteCall),
    ¬ (calls.foldl call (new faults)).conn.stream.written <+: (calls.foldl call (new faults)).accepted :=
  ⟨[some { taken := 1, error := "reset" }], [.bufferFrame openFrame, .flush, .flush], by decide +kernel⟩

end Wire

end TrenchDb.Transport
