import TrenchDb.Cli.Commands
import TrenchDb.Lib.Retry

/-!
# The client that reconnects

`trench-cli/src/client.rs`: one connection that is kept, replaced when an exchange over it
fails, and tried again with longer and longer pauses.
-/

open TrenchDb.Lib TrenchDb.Lib.Retry TrenchDb.Rpc TrenchDb.Transport

namespace TrenchDb.Cli

/-! ## The world of the client -/

/-- What the client needs of the world `ω`: a connection with its handshake, one exchange over its
manager, the clock and the standard error. -/
structure Network (μ ω : Type) where
  connect : ω → Except String μ × ω
  sendRequest : RequestEnvelope → μ → ω → Except TransportError ResponseEnvelope × μ × ω
  sleep : Nat → ω → ω
  eprintln : String → ω → ω

/-- What connections, pauses and messages keep of the world. -/
structure Network.Keeps {μ ω : Type} (n : Network μ ω) (I : ω → Prop) : Prop where
  connect : ∀ w, I w → I (n.connect w).2
  sleep : ∀ millis w, I w → I (n.sleep millis w)
  eprintln : ∀ text w, I w → I (n.eprintln text w)

/-- And what the exchanges of one request keep. -/
structure Network.KeepsSending {μ ω : Type} (n : Network μ ω) (request : RequestEnvelope) (I : ω → Prop) : Prop
    extends n.Keeps I where
  sendRequest : ∀ manager w, I w → I (n.sendRequest request manager w).2.2

structure PersistentClient (μ : Type) where
  inner : Option μ
  maxRetries : Nat

def PersistentClient.new {μ : Type} : PersistentClient μ := { inner := none, maxRetries := 3 }

/-- A client in its world. -/
structure Process (μ ω : Type) where
  client : PersistentClient μ
  world : ω

namespace Process

variable {μ ω α : Type} (n : Network μ ω)

def hold (p : Process μ ω) (inner : Option μ) (world : ω) : Process μ ω :=
  { client := { p.client with inner }, world }

def sleep (millis : Nat) (p : Process μ ω) : Process μ ω := { p with world := n.sleep millis p.world }

def eprintln (text : String) (p : Process μ ω) : Process μ ω := { p with world := n.eprintln text p.world }

def connect (p : Process μ ω) : Except String Unit × Process μ ω :=
  match n.connect p.world with
  | (.ok manager, world) => (.ok (), p.hold (some manager) world)
  | (.error e, world) => (.error e, { p with world })

/-- The pause after a failed try. -/
def backoff (attempt : Nat) (p : Process μ ω) : Process μ ω := p.sleep n (500 * (attempt + 1))

/-- One round of the loop in `ensure_connected`. -/
def tryConnect (attempt : Nat) (p : Process μ ω) : Attempt String Unit × Process μ ω :=
  match p.connect n with
  | (.ok (), p) => (.stop (.ok ()), p)
  | (.error e, p) =>
    (.again e, p.eprintln n ("[client] connection failed (attempt " ++ toString (attempt + 1) ++ "): " ++ e))

def ensureConnected (p : Process μ ω) : Except String Unit × Process μ ω :=
  if p.client.inner.isSome then (.ok (), p)
  else retry (tryConnect n) (backoff n) p.client.maxRetries "failed to connect" p

/-- The part of a round of `send` that has a connection. -/
def exchange (request : RequestEnvelope) (decode : List UInt8 → Except String α) (attempt : Nat)
    (p : Process μ ω) : Attempt String α × Process μ ω :=
  match p.client.inner with
  -- `expect`: `ensure_connected` has left a manager.
  | none => (.stop (.error "manager must be connected"), p)
  | some manager =>
    match n.sendRequest request manager p.world with
    | (.ok response, manager, world) =>
      (.stop ((decode response.payload).mapError fun e => "failed to decode response: " ++ e),
        p.hold (some manager) world)
    | (.error e, _, world) =>
      (.again e.display, p.hold none
        (n.eprintln ("[client] send failed (attempt " ++ toString (attempt + 1) ++ "): " ++ e.display) world))

/-- One round of the loop in `send`. -/
def trySend (request : RequestEnvelope) (decode : List UInt8 → Except String α) (attempt : Nat)
    (p : Process μ ω) : Attempt String α × Process μ ω :=
  match p.ensureConnected n with
  | (.error e, p) => (.stop (.error e), p)
  | (.ok (), p) => p.exchange n request decode attempt

def send (action : String) (payload : List UInt8) (decode : List UInt8 → Except String α) (p : Process μ ω) :
    Except String α × Process μ ω :=
  retry (trySend n { action, payload } decode) (backoff n) p.client.maxRetries "send failed after retries" p

/-! ## What the loops come to -/

section Rules

variable {n} {p p' q : Process μ ω} {request : RequestEnvelope} {decode : List UInt8 → Except String α}
  {attempt k : Nat} {I : ω → Prop}

@[simp] theorem hold_inner (inner : Option μ) (world : ω) : (p.hold inner world).client.inner = inner := rfl
@[simp] theorem hold_maxRetries (inner : Option μ) (world : ω) :
    (p.hold inner world).client.maxRetries = p.client.maxRetries := rfl
@[simp] theorem hold_world (inner : Option μ) (world : ω) : (p.hold inner world).world = world := rfl
@[simp] theorem backoff_world : (p.backoff n attempt).world = n.sleep (500 * (attempt + 1)) p.world := rfl

theorem tryConnect_again {e : String} (h : p.tryConnect n attempt = (.again e, q)) :
    ∃ world, n.connect p.world = (.error e, world) ∧ q.client = p.client ∧
      q.world = n.eprintln ("[client] connection failed (attempt " ++ toString (attempt + 1) ++ "): " ++ e) world := by
  unfold tryConnect connect at h
  rcases hc : n.connect p.world with ⟨e' | manager, world⟩ <;> rw [hc] at h
  · obtain ⟨he, rfl⟩ := Prod.mk.inj h
    obtain rfl := Attempt.again.inj he
    exact ⟨world, rfl, rfl, rfl⟩
  · cases (Prod.mk.inj h).1

theorem tryConnect_stop {result : Except String Unit} (h : p.tryConnect n attempt = (.stop result, q)) :
    result = .ok () ∧ ∃ manager world, n.connect p.world = (.ok manager, world) ∧ q = p.hold (some manager) world := by
  unfold tryConnect connect at h
  rcases hc : n.connect p.world with ⟨e' | manager, world⟩ <;> rw [hc] at h
  · cases (Prod.mk.inj h).1
  · obtain ⟨hresult, rfl⟩ := Prod.mk.inj h
    exact ⟨(Attempt.stop.inj hresult).symm, manager, world, rfl, rfl⟩

theorem reaches_connect (h : Reaches (tryConnect n) (backoff n) k p attempt q) : q.client = p.client := by
  induction h with
  | start => rfl
  | next _ hop _ ih =>
    obtain ⟨_, -, hclient, -⟩ := tryConnect_again hop
    exact hclient.trans ih

/-- `expect` does not fail: a connection that was established is held. -/
theorem ensureConnected_ok (h : p.ensureConnected n = (.ok (), q)) : ∃ manager, q.client.inner = some manager := by
  unfold ensureConnected at h
  split_ifs at h with hheld
  · obtain rfl := (Prod.mk.inj h).2
    exact Option.isSome_iff_exists.mp hheld
  · have hended := retry_ended (tryConnect n) (backoff n) p.client.maxRetries "failed to connect" p
    rw [h] at hended
    cases hended with
    | stopped _ hop =>
      obtain ⟨-, manager, world, -, rfl⟩ := tryConnect_stop hop
      exact ⟨manager, rfl⟩

theorem ensureConnected_held (h : p.client.inner.isSome = true) : p.ensureConnected n = (.ok (), p) := if_pos h

theorem ensureConnected_ended (h : p.client.inner.isSome = false) :
    Ended (tryConnect n) (backoff n) p.client.maxRetries p (p.ensureConnected n).1 (p.ensureConnected n).2 := by
  rw [ensureConnected, if_neg (by rw [h]; decide)]
  exact retry_ended _ _ _ _ _

theorem exchange_again {manager : μ} {e : String} (hheld : p.client.inner = some manager)
    (h : p.exchange n request decode attempt = (.again e, q)) :
    ∃ err manager' world, n.sendRequest request manager p.world = (.error err, manager', world) ∧ e = err.display ∧
      q = p.hold none
        (n.eprintln ("[client] send failed (attempt " ++ toString (attempt + 1) ++ "): " ++ err.display) world) := by
  unfold exchange at h
  rw [hheld] at h
  dsimp only at h
  rcases hs : n.sendRequest request manager p.world with ⟨err | response, manager', world⟩ <;> rw [hs] at h
  · obtain ⟨he, rfl⟩ := Prod.mk.inj h
    exact ⟨err, manager', world, rfl, (Attempt.again.inj he).symm, rfl⟩
  · cases (Prod.mk.inj h).1

theorem exchange_stop {manager : μ} {result : Except String α} (hheld : p.client.inner = some manager)
    (h : p.exchange n request decode attempt = (.stop result, q)) :
    ∃ response manager' world, n.sendRequest request manager p.world = (.ok response, manager', world) ∧
      result = (decode response.payload).mapError (fun e => "failed to decode response: " ++ e) ∧
      q = p.hold (some manager') world := by
  unfold exchange at h
  rw [hheld] at h
  dsimp only at h
  rcases hs : n.sendRequest request manager p.world with ⟨err | response, manager', world⟩ <;> rw [hs] at h
  · cases (Prod.mk.inj h).1
  · obtain ⟨hresult, rfl⟩ := Prod.mk.inj h
    exact ⟨response, manager', world, rfl, (Attempt.stop.inj hresult).symm, rfl⟩

theorem ensureConnected_world (hkeeps : n.Keeps I) (h : I p.world) : I (p.ensureConnected n).2.world ∧
    (p.ensureConnected n).2.client.maxRetries = p.client.maxRetries := by
  cases hheld : p.client.inner.isSome with
  | true =>
    rw [ensureConnected_held hheld]
    exact ⟨h, rfl⟩
  | false =>
    have hagain : ∀ {m : Nat} {t u : Process μ ω} {e : String}, I t.world →
        t.tryConnect n m = (.again e, u) → I u.world := by
      intro m t u e ht hop
      obtain ⟨world, hc, -, hworld⟩ := tryConnect_again hop
      have hw := hkeeps.connect t.world ht
      rw [hc] at hw
      exact hworld ▸ hkeeps.eprintln _ _ hw
    have hreaches : ∀ {m : Nat} {t : Process μ ω},
        Reaches (tryConnect n) (backoff n) p.client.maxRetries p m t → I t.world := fun hreach =>
      hreach.invariant (P := fun _ t => I t.world) h fun _ _ _ _ ht _ hop => hkeeps.sleep _ _ (hagain ht hop)
    have hclient : ∀ {m : Nat} {t : Process μ ω},
        Reaches (tryConnect n) (backoff n) p.client.maxRetries p m t → t.client.maxRetries = p.client.maxRetries :=
      fun hreach => congrArg PersistentClient.maxRetries (reaches_connect hreach)
    have hended := ensureConnected_ended (n := n) hheld
    generalize p.ensureConnected n = o at hended
    obtain ⟨result, q⟩ := o
    cases hended with
    | stopped hreach hop =>
      obtain ⟨-, manager, world, hc, rfl⟩ := tryConnect_stop hop
      have hw := hkeeps.connect _ (hreaches hreach)
      rw [hc] at hw
      exact ⟨hw, (hold_maxRetries _ _).trans (hclient hreach)⟩
    | exhausted hreach hop =>
      obtain ⟨_, -, hsame, -⟩ := tryConnect_again hop
      exact ⟨hagain (hreaches hreach) hop, (congrArg PersistentClient.maxRetries hsame).trans (hclient hreach)⟩

theorem trySend_world {a : Attempt String α} (hkeeps : n.KeepsSending request I) (h : I p.world)
    (hop : p.trySend n request decode attempt = (a, q)) : I q.world := by
  have hensured := (ensureConnected_world hkeeps.toKeeps h).1
  unfold trySend at hop
  rcases hc : p.ensureConnected n with ⟨e | u, t⟩ <;> rw [hc] at hop hensured
  · obtain ⟨-, rfl⟩ := Prod.mk.inj hop
    exact hensured
  · obtain ⟨manager, hheld⟩ := ensureConnected_ok hc
    have hsent := hkeeps.sendRequest manager _ hensured
    cases a with
    | stop result =>
      obtain ⟨response, manager', world, hs, -, rfl⟩ := exchange_stop hheld hop
      rw [hs] at hsent
      exact hsent
    | again e =>
      obtain ⟨err, manager', world, hs, -, rfl⟩ := exchange_again hheld hop
      rw [hs] at hsent
      exact hkeeps.eprintln _ _ hsent

theorem reaches_world (hkeeps : n.KeepsSending request I) (h : I p.world)
    (hreach : Reaches (trySend n request decode) (backoff n) k p attempt q) : I q.world :=
  hreach.invariant (P := fun _ t => I t.world) h fun _ _ _ _ ht _ hop =>
    hkeeps.sleep _ _ (trySend_world hkeeps ht hop)

theorem send_world {action : String} {payload : List UInt8} (hkeeps : n.KeepsSending { action, payload } I)
    (h : I p.world) : I (p.send n action payload decode).2.world := by
  have hended := retry_ended (trySend n { action, payload } decode) (backoff n) p.client.maxRetries
    "send failed after retries" p
  rw [← send] at hended
  generalize p.send n action payload decode = o at hended
  obtain ⟨result, q⟩ := o
  cases hended with
  | stopped hreach hop | exhausted hreach hop => exact trySend_world hkeeps (reaches_world hkeeps h hreach) hop

/-! ### When the first try does -/

theorem ensureConnected_first {manager : μ} {world : ω} (hnone : p.client.inner.isSome = false)
    (h : n.connect p.world = (.ok manager, world)) : p.ensureConnected n = (.ok (), p.hold (some manager) world) := by
  rw [ensureConnected, if_neg (by rw [hnone]; decide)]
  exact retry_first (by simp [tryConnect, connect, h])

theorem send_first {action : String} {payload : List UInt8} {manager manager' : μ} {world : ω}
    {response : ResponseEnvelope} (hconnected : p.ensureConnected n = (.ok (), q))
    (hheld : q.client.inner = some manager)
    (hsend : n.sendRequest { action, payload } manager q.world = (.ok response, manager', world)) :
    p.send n action payload decode =
      ((decode response.payload).mapError (fun e => "failed to decode response: " ++ e),
        q.hold (some manager') world) :=
  retry_first (by simp [trySend, hconnected, exchange, hheld, hsend])

end Rules

end Process

end TrenchDb.Cli
