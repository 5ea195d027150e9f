import TrenchDb.Lib.Lts
import TrenchDb.Transport.Chunks
import TrenchDb.Transport.Effects

/-!
# One manager and an arbitrary peer

Runs of a manager whose application makes any calls and whose peer sends any bytes.
Writes succeed; reads may bring bytes, the end of the stream or an I/O error.
-/

open TrenchDb.Lib.Incremental TrenchDb.Lib.Lts

namespace TrenchDb.Transport

/-- What the application sees: the reply to a call, or the result of a `recv_frame` call.
The result is `none` while `recv_frame` waits for bytes. -/
inductive Event where
  | called (call : Call) (reply : Reply)
  | received (result : Option (Except TransportError Frame))
  deriving DecidableEq

/-! ## Steps of an endpoint -/

/-- A step of an endpoint, with the frames it emits. -/
inductive Endpoint.Step (e : Endpoint) : Event → List Frame → Endpoint → Prop
  | call {c : Call} {reply : Reply} {outs : List Frame} {e' : Endpoint} :
      e.Acts c reply outs e' → Step e (.called c reply) outs e'
  | frame {f : Frame} {r : Except TransportError Unit} {outs : List Frame} {e' : Endpoint} : f.Valid →
      e.Receives f r outs e' → Step e (.received (some (r.map fun _ => f))) outs e'
  | noFrame (err : Option TransportError) : Step e (.received (err.map .error)) [] e

/-! ## Reading touches the read buffer only -/

namespace Connection

theorem recvFrame_unfold (c : Connection) (reads : List Read) :
    (∃ r c', c.recvFrame reads = (r, c', reads) ∧ (∀ f, r = some (.ok f) → f.Valid) ∧
      c'.stream = c.stream ∧ c'.writeBuffer = c.writeBuffer) ∨
    ∃ read rest, reads = read :: rest ∧
      ((∃ e, c.recvFrame reads = (some (.error e), c, rest)) ∨
        ∃ bytes, c.recvFrame reads = { c with readBuffer := c.readBuffer ++ bytes }.recvFrame rest) := by
  cases hd : decode c.readBuffer with
  | ok p =>
    refine .inl ⟨_, _, recvFrame_ok hd, ?_, rfl, rfl⟩
    intro f hf
    obtain rfl : p.1 = f := by simpa using hf
    exact valid_of_decode hd
  | error e =>
    by_cases he : e = .NeedMoreData
    · subst he
      cases reads with
      | nil => exact .inl ⟨_, _, recvFrame_nil hd, by simp, rfl, rfl⟩
      | cons read rest =>
        refine .inr ⟨read, rest, rfl, ?_⟩
        match read with
        | .error e => exact .inl ⟨_, recvFrame_ioError hd⟩
        | .ok [] => exact .inl ⟨_, recvFrame_eof hd⟩
        | .ok (b :: bs) => exact .inr ⟨_, recvFrame_bytes hd (by simp)⟩
    · exact .inl ⟨_, _, recvFrame_error hd he, by simp, rfl, rfl⟩

theorem recvFrame_frame (c : Connection) (reads : List Read) :
    (∀ f, (c.recvFrame reads).1 = some (.ok f) → f.Valid) ∧
    (c.recvFrame reads).2.1.stream = c.stream ∧
    (c.recvFrame reads).2.1.writeBuffer = c.writeBuffer := by
  induction reads generalizing c with
  | nil =>
    rcases c.recvFrame_unfold [] with ⟨r, c', heq, hv, hs⟩ | ⟨_, _, h, -⟩
    · rw [heq]; exact ⟨hv, hs⟩
    · simp at h
  | cons read rest ih =>
    rcases c.recvFrame_unfold (read :: rest) with ⟨r, c', heq, hv, hs⟩ | ⟨_, _, h, ⟨e, heq⟩ | ⟨bytes, heq⟩⟩
    · rw [heq]; exact ⟨hv, hs⟩
    · rw [heq]; exact ⟨by simp, rfl, rfl⟩
    · obtain ⟨-, rfl⟩ := List.cons.inj h
      rw [heq]; exact ih _

theorem recvFrame_used (c : Connection) (reads : List Read) :
    ∃ used, reads = used ++ (c.recvFrame reads).2.2 ∧
      c.recvFrame used = ((c.recvFrame reads).1, (c.recvFrame reads).2.1, []) := by
  induction reads generalizing c with
  | nil =>
    refine ⟨[], ?_, ?_⟩ <;> rcases c.recvFrame_unfold [] with ⟨r, c', heq, -⟩ | ⟨_, _, h, -⟩ <;> simp_all
  | cons read rest ih =>
    cases hd : decode c.readBuffer with
    | ok p => exact ⟨[], by rw [recvFrame_ok hd]; rfl, by rw [recvFrame_ok hd, recvFrame_ok hd]⟩
    | error e =>
      by_cases he : e = .NeedMoreData
      · subst he
        match read with
        | .error e =>
          exact ⟨[.error e], by rw [recvFrame_ioError hd]; rfl, by rw [recvFrame_ioError hd, recvFrame_ioError hd]⟩
        | .ok [] => exact ⟨[.ok []], by rw [recvFrame_eof hd]; rfl, by rw [recvFrame_eof hd, recvFrame_eof hd]⟩
        | .ok (b :: bs) =>
          obtain ⟨used, hused, heq⟩ := ih { c with readBuffer := c.readBuffer ++ b :: bs }
          refine ⟨.ok (b :: bs) :: used, ?_, ?_⟩
          · rw [recvFrame_bytes hd (by simp), List.cons_append, ← hused]
          · rw [recvFrame_bytes hd (by simp), recvFrame_bytes hd (by simp), heq]
      · exact ⟨[], by rw [recvFrame_error hd he]; rfl, by rw [recvFrame_error hd he, recvFrame_error hd he]⟩

theorem recvFrame_wire {f : Frame} (c : Connection) (hempty : c.readBuffer = []) (hv : f.Valid) :
    c.recvFrame [.ok f.wire] = (some (.ok f), c, []) := by
  have hwire : f.wire ≠ [] := by
    have hlen := wire_length f
    intro hnil
    rw [hnil, HEADER_SIZE, List.length_nil] at hlen
    omega
  have hdecode := decode_wire hv []
  rw [List.append_nil] at hdecode
  rw [TrenchDb.Transport.recvFrame_bytes (by rw [hempty]; rfl) hwire, hempty, List.nil_append,
    TrenchDb.Transport.recvFrame_ok hdecode, List.drop_length]
  rw [← hempty]

end Connection

/-! ## Runs -/

namespace StreamManager

/-- The frames emitted so far, written or buffered. -/
def emitted (m : StreamManager) : List Frame := (trnc.parse m.conn.sentBytes).1

/-- Writes succeed, and whole frames were emitted so far. -/
structure Sound (m : StreamManager) : Prop where
  settled : m.conn.Settled
  valid : ∀ f ∈ m.emitted, f.Valid
  sentBytes_eq : m.conn.sentBytes = m.emitted.flatMap Frame.wire

theorem Sound.of_read {m : StreamManager} (h : m.Sound) (buffer : List UInt8) :
    Sound { m with conn := { m.conn with readBuffer := buffer } } :=
  ⟨h.settled.of_read buffer, h.valid, h.sentBytes_eq⟩

/-- A manager on a fresh connection. -/
def fresh (role : Role) : StreamManager := .new (.new ⟨[], []⟩) role

theorem parse_wires {fs : List Frame} (h : ∀ f ∈ fs, f.Valid) :
    (trnc.parse (fs.flatMap Frame.wire)).1 = fs := by
  have := trnc.parse_encodings (fun f hf => trnc_encodes (h f hf)) []
  rw [List.append_nil] at this
  rw [this, trnc.parse_more (verdict_more.mpr rfl), List.append_nil]

theorem fresh_emitted (role : Role) : (fresh role).emitted = [] := @parse_wires [] (by simp)

theorem fresh_sound (role : Role) : (fresh role).Sound :=
  ⟨Connection.settled_new, by simp [fresh_emitted], rfl⟩

theorem Sound.sends {m m' : StreamManager} {outs : List Frame} (h : m.Sound) (hv : ∀ f ∈ outs, f.Valid)
    (hsends : m.conn.Sends (outs.flatMap Frame.wire) m'.conn) :
    m'.Sound ∧ m'.emitted = m.emitted ++ outs := by
  have hall : ∀ f ∈ m.emitted ++ outs, f.Valid := by
    intro f hf
    rcases List.mem_append.mp hf with hf | hf
    · exact h.valid f hf
    · exact hv f hf
  have hbytes : m'.conn.sentBytes = (m.emitted ++ outs).flatMap Frame.wire := by
    rw [hsends.sentBytes_eq, h.sentBytes_eq, List.flatMap_append]
  have hemit : m'.emitted = m.emitted ++ outs := by
    rw [emitted, hbytes, parse_wires hall]
  exact ⟨⟨hsends.settled, hemit ▸ hall, hemit ▸ hbytes⟩, hemit⟩

/-- Any call, or a `recv_frame` call that uses the reads it is given. -/
inductive Step (m : StreamManager) : Event → StreamManager → Prop
  | call (c : Call) : Step m (.called c (m.perform c).1) (m.perform c).2
  | recv {reads : List Read} {r : Option (Except TransportError Frame)} {m' : StreamManager} :
      m.recvFrame reads = (r, m', []) → Step m (.received r) m'

theorem recvFrame_none {m : StreamManager} {reads rest : List Read} {conn : Connection}
    (h : m.conn.recvFrame reads = (none, conn, rest)) : m.recvFrame reads = (none, { m with conn }, rest) := by
  rw [recvFrame, h]

theorem recvFrame_error {m : StreamManager} {reads rest : List Read} {conn : Connection} {e : TransportError}
    (h : m.conn.recvFrame reads = (some (.error e), conn, rest)) :
    m.recvFrame reads = (some (.error e), { m with conn }, rest) := by
  rw [recvFrame, h]

theorem recvFrame_some {m : StreamManager} {reads rest : List Read} {conn : Connection} {f : Frame}
    (h : m.conn.recvFrame reads = (some (.ok f), conn, rest)) :
    m.recvFrame reads = (some (({ m with conn }.dispatch f).1.map fun _ => f),
      ({ m with conn }.dispatch f).2, rest) := by
  rw [recvFrame, h]
  dsimp only [Outcome.andThen]
  cases ({ m with conn }.dispatch f).1 <;> rfl

theorem Step.arrives {m : StreamManager} {f : Frame} (hempty : m.conn.readBuffer = []) (hv : f.Valid) :
    m.Step (.received (some ((m.dispatch f).1.map fun _ => f))) (m.dispatch f).2 :=
  .recv (recvFrame_some (m.conn.recvFrame_wire hempty hv))

theorem recvFrame_step {m : StreamManager} (h : m.conn.Settled) (reads : List Read) :
    ∃ outs, m.endpoint.Step (.received (m.recvFrame reads).1) outs (m.recvFrame reads).2.1.endpoint ∧
      (∀ f ∈ outs, f.Valid) ∧
      ({ m.conn with readBuffer := (m.conn.recvFrame reads).2.1.readBuffer } : Connection).Sends
        (outs.flatMap Frame.wire) (m.recvFrame reads).2.1.conn := by
  obtain ⟨hvalid, hstream, hbuffer⟩ := m.conn.recvFrame_frame reads
  generalize hp : m.conn.recvFrame reads = p at hvalid hstream hbuffer
  obtain ⟨r, ⟨stream, readBuffer, writeBuffer⟩, rest⟩ := p
  obtain rfl : stream = m.conn.stream := hstream
  obtain rfl : writeBuffer = m.conn.writeBuffer := hbuffer
  have hs := h.of_read readBuffer
  match r with
  | none => rw [recvFrame_none hp]; exact ⟨[], .noFrame none, by simp, hs.sends_nothing⟩
  | some (.error e) => rw [recvFrame_error hp]; exact ⟨[], .noFrame (some e), by simp, hs.sends_nothing⟩
  | some (.ok f) =>
    rw [recvFrame_some hp]
    obtain ⟨outs, hrec, hsends, hv⟩ :=
      dispatch_receives (m := { m with conn := { m.conn with readBuffer } }) hs (hvalid f rfl)
    exact ⟨outs, .frame (hvalid f rfl) hrec, hv, hsends⟩

theorem recvFrame_frames {m m' : StreamManager} {fs : List Frame} {chunks : List (List UInt8)} {rest : List UInt8}
    {r : Option (Except TransportError Frame)} (hvalid : ∀ f ∈ fs, f.Valid) (hne : ∀ chunk ∈ chunks, chunk ≠ [])
    (hbytes : m.conn.readBuffer ++ chunks.flatten ++ rest = fs.flatMap Frame.wire)
    (hrecv : m.recvFrame (chunks.map .ok) = (r, m', [])) :
    (r = none ∧ m' = { m with conn := { m.conn with readBuffer := m.conn.readBuffer ++ chunks.flatten } }) ∨
    ∃ f fs' buffer, fs = f :: fs' ∧ buffer ++ rest = fs'.flatMap Frame.wire ∧
      r = some (({ m with conn := { m.conn with readBuffer := buffer } }.dispatch f).1.map fun _ => f) ∧
      m' = ({ m with conn := { m.conn with readBuffer := buffer } }.dispatch f).2 := by
  have hpull := recvFrame_pull m.conn chunks hne []
  rw [List.append_nil] at hpull
  rcases trnc.pull_encodings verdict_nil (fun f hf => trnc_encodes (hvalid f hf)) hbytes with
    hmore | ⟨f, fs', buffer, cs, hfs, hitem, hrest⟩
  · -- The bytes so far do not make a frame.
    have hwait : decode (m.conn.readBuffer ++ chunks.flatten) = .error .NeedMoreData := by
      have hbuffer := trnc.pull_buffer m.conn.readBuffer chunks
      rw [hmore] at hbuffer
      exact verdict_more.mp hbuffer
    rw [hmore] at hpull
    dsimp only at hpull
    rw [recvFrame_nil (by exact hwait)] at hpull
    rw [StreamManager.recvFrame_none hpull] at hrecv
    simp only [Prod.mk.injEq] at hrecv
    obtain ⟨rfl, rfl, -⟩ := hrecv
    exact .inl ⟨rfl, rfl⟩
  · -- The next frame is complete.
    rw [hitem] at hpull
    dsimp only at hpull
    rw [StreamManager.recvFrame_some hpull] at hrecv
    simp only [Prod.mk.injEq, List.append_nil, List.map_eq_nil_iff] at hrecv
    obtain ⟨rfl, rfl, rfl⟩ := hrecv
    exact .inr ⟨f, fs', _, hfs, by simpa using hrest, rfl, rfl⟩

theorem recvFrame_used (m : StreamManager) (reads : List Read) :
    ∃ used, m.recvFrame used = ((m.recvFrame reads).1, (m.recvFrame reads).2.1, []) := by
  obtain ⟨used, -, heq⟩ := m.conn.recvFrame_used reads
  refine ⟨used, ?_⟩
  unfold recvFrame
  rw [heq]
  generalize m.conn.recvFrame reads = p
  obtain ⟨_ | _ | f, c, rest⟩ := p <;> rfl

theorem awaitWelcome_run (n : Nat) (m : StreamManager) (reads : List Read) :
    ∃ ls, Run Step m ls (m.awaitWelcome n reads).2.1 := by
  induction n generalizing m reads with
  | zero => exact ⟨[], .nil⟩
  | succ n ih =>
    unfold awaitWelcome
    split_ifs
    · exact ⟨[], .nil⟩
    obtain ⟨used, hused⟩ := m.recvFrame_used reads
    have hstep := Step.recv hused
    generalize m.recvFrame reads = p at hstep
    obtain ⟨_ | _ | f, m', rest⟩ := p
    · exact ⟨_, .single hstep⟩
    · exact ⟨_, .single hstep⟩
    · dsimp only
      split_ifs
      · exact ⟨_, .single hstep⟩
      · obtain ⟨ls, hrun⟩ := ih m' rest
        exact ⟨_, .cons hstep hrun⟩

theorem Sound.step {m m' : StreamManager} {ev : Event} (h : m.Sound) (hstep : m.Step ev m') :
    m'.Sound ∧ ∃ outs, m.endpoint.Step ev outs m'.endpoint ∧ m'.emitted = m.emitted ++ outs := by
  cases hstep with
  | call c =>
    obtain ⟨outs, hacts, hsends, hv⟩ := perform_acts h.settled c
    obtain ⟨hsound, hemit⟩ := h.sends hv hsends
    exact ⟨hsound, outs, .call hacts, hemit⟩
  | @recv reads r _ hrecv =>
    obtain ⟨outs, hend, hv, hsends⟩ := recvFrame_step h.settled reads
    rw [hrecv] at hend hsends
    obtain ⟨hsound, hemit⟩ := (h.of_read _).sends hv hsends
    exact ⟨hsound, outs, hend, hemit⟩

theorem sound_of_run {role : Role} {ls : List Event} {m : StreamManager} (h : Run Step (fresh role) ls m) :
    m.Sound :=
  h.invariant (P := fun _ m => m.Sound) (fresh_sound role) fun _ _ _ _ hs hstep => (hs.step hstep).1

end StreamManager

end TrenchDb.Transport
