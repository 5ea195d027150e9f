import TrenchDb.Cli.Lossy
import TrenchDb.Cli.Repl

/-!
# A session with the server

From the bytes that the user types in to the lines that are printed, over a network that may lose what it
carries. What the store holds in the end is what maps of maps would hold.
-/

open TrenchDb.Lib TrenchDb.Rpc TrenchDb.Storage TrenchDb.Transport

namespace TrenchDb.Cli

/-! ## What is printed -/

/-- `String::from_utf8_lossy`, of which only text that is UTF-8 matters. -/
structure Utf8Lossy where
  fromUtf8Lossy : List UInt8 → String
  valid : ∀ s : String, fromUtf8Lossy (asBytes s) = s

/-- The line that tells a result. -/
def shown (u : Utf8Lossy) : Result → String
  | .value (some value) => u.fromUtf8Lossy value
  | .value none => "(not found)"
  | .done ok => "ok: " ++ toString ok
  | .found «exists» => toString «exists»

/-- What a command decodes from the response to its request, and prints. -/
def rendered (c : Codecs) (u : Utf8Lossy) : Request → List UInt8 → Except String String
  | .get _, payload => (c.getResponse.byteDeserialize payload).map fun resp => shown u (.value resp.value)
  | .put _, payload => (c.putResponse.byteDeserialize payload).map fun resp => shown u (.done resp.ok)
  | .update _, payload => (c.updateResponse.byteDeserialize payload).map fun resp => shown u (.done resp.ok)
  | .delete _, payload => (c.deleteResponse.byteDeserialize payload).map fun resp => shown u (.done resp.ok)
  | .contains _, payload =>
    (c.containsResponse.byteDeserialize payload).map fun resp => shown u (.found resp.exists)
  | .addTable _, payload => (c.addTableResponse.byteDeserialize payload).map fun resp => shown u (.done resp.ok)
  | .removeTable _, payload =>
    (c.removeTableResponse.byteDeserialize payload).map fun resp => shown u (.done resp.ok)

inductive Printed where
  | out (text : String)
  | err (text : String)
  deriving DecidableEq

namespace Process

variable {μ ω : Type} (n : Network μ ω) (c : Codecs) (u : Utf8Lossy)

/-- One command. -/
def execute (p : Process μ ω) : Executed → Printed × Process μ ω
  | .sent action r =>
    match p.send n action (encoded c r) (rendered c u r) with
    | (.ok text, p) => (.out text, p)
    | (.error e, p) => (.err ("error: " ++ e), p)
  | .failed e => (.err ("error: " ++ e), p)
  | .unknown name => (.err ("unknown command: " ++ name ++ ". Type 'help' for available commands."), p)

theorem execute_sent (p : Process μ ω) (action : String) (r : Request) :
    (p.execute n c u (.sent action r)).2 = (p.send n action (encoded c r) (rendered c u r)).2 ∧
    ∀ text, (p.send n action (encoded c r) (rendered c u r)).1 = .ok text →
      (p.execute n c u (.sent action r)).1 = .out text := by
  simp only [execute]
  rcases p.send n action (encoded c r) (rendered c u r) with ⟨e | text, p'⟩
  · exact ⟨rfl, nofun⟩
  · exact ⟨rfl, fun _ h => congrArg Printed.out (Except.ok.inj h)⟩

/-- The commands of a session, one after another. -/
def session : List Executed → Process μ ω → List Printed × Process μ ω
  | [], p => ([], p)
  | e :: es, p => ((p.execute n c u e).1 :: (session es (p.execute n c u e).2).1, (session es (p.execute n c u e).2).2)

end Process

def Round.command? : Round → Option Executed
  | .executed e => some e
  | _ => none

/-- The commands that the user types in. -/
def typed (low : Lowercase) (input : List UInt8) : List Executed := (runRepl low input).filterMap Round.command?

/-! ## What the commands mean -/

/-- What a command means for the tables: its result, or `none` if it has an error, and the tables it leaves. -/
def Executed.outcome (t : Tables String (List UInt8)) : Executed → Option Result × Tables String (List UInt8)
  | .sent _ r =>
    match r.validate with
    | .ok () => r.meaning t
    | .error _ => (none, t)
  | _ => (none, t)

/-- What is assumed of the codecs of the responses. -/
structure ResponsesRoundTrip (c : Codecs) : Prop where
  get : c.getResponse.RoundTrips
  put : c.putResponse.RoundTrips
  update : c.updateResponse.RoundTrips
  delete : c.deleteResponse.RoundTrips
  contains : c.containsResponse.RoundTrips
  addTable : c.addTableResponse.RoundTrips
  removeTable : c.removeTableResponse.RoundTrips

section Meaning

variable {c : Codecs} {u : Utf8Lossy} {r : Request} {result : Result} {t : Tables String (List UInt8)}

theorem rendered_response (hcodecs : ResponsesRoundTrip c) (h : (r.meaning t).1 = some result)
    (hlt : (r.response c result).length < 2 ^ 64) : rendered c u r (r.response c result) = .ok (shown u result) := by
  have htrip : ∀ {α : Type} {codec : Codec α} {value : α} {f : α → String}, codec.RoundTrips →
      (codec.byteSerialize value).length < 2 ^ 64 →
      (codec.byteDeserialize (codec.byteSerialize value)).map f = .ok (f value) := fun hround hlt => by
    rw [hround _ hlt]
    rfl
  unfold Request.meaning at h
  cases r with
  | get q =>
    cases htable : t (Request.get q).table with
    | none => rw [htable] at h; cases h
    | some values =>
      rw [htable] at h
      obtain rfl := Option.some.inj h
      exact htrip hcodecs.get hlt
  | put q =>
    obtain rfl := Option.some.inj h
    exact htrip hcodecs.put hlt
  | update q =>
    cases htable : t (Request.update q).table with
    | none => rw [htable] at h; cases h
    | some values =>
      rw [htable] at h
      obtain rfl := Option.some.inj h
      exact htrip hcodecs.update hlt
  | delete q =>
    cases htable : t (Request.delete q).table with
    | none => rw [htable] at h; cases h
    | some values =>
      rw [htable] at h
      obtain rfl := Option.some.inj h
      exact htrip hcodecs.delete hlt
  | contains q =>
    obtain rfl := Option.some.inj h
    exact htrip hcodecs.contains hlt
  | addTable q =>
    cases htable : t (Request.addTable q).table with
    | none =>
      rw [htable] at h
      obtain rfl := Option.some.inj h
      exact htrip hcodecs.addTable hlt
    | some values => rw [htable] at h; cases h
  | removeTable q =>
    obtain rfl := Option.some.inj h
    exact htrip hcodecs.removeTable hlt

theorem parse_sent {name action : String} {args : List String} (hcodecs : RequestsRoundTrip c)
    (h : dispatch name args = .sent action r) (hlt : (encoded c r).length < 2 ^ 64) :
    Request.parse c { action, payload := encoded c r } = r.validate.map fun _ => r := by
  have hdecoded := dispatch_decoded hcodecs h hlt
  cases hv : r.validate with
  | ok valid => exact Request.parse_of_decoded hdecoded hv
  | error e =>
    simp only [Request.parse, hdecoded, bind, Except.bind, hv]
    rfl

theorem outcome_valid {action : String} (h : r.validate = .ok ()) :
    (Executed.sent action r).outcome t = r.meaning t := by
  rw [Executed.outcome, h]

theorem outcome_invalid {action : String} {e : TransportError} (h : r.validate = .error e) :
    (Executed.sent action r).outcome t = (none, t) := by
  rw [Executed.outcome, h]

theorem rendered_outcome {action : String} (hcodecs : ResponsesRoundTrip c)
    (h : ((Executed.sent action r).outcome t).1 = some result) (hlt : (r.response c result).length < 2 ^ 64) :
    rendered c u r (r.response c result) = .ok (shown u result) := by
  cases hv : r.validate with
  | error e =>
    rw [outcome_invalid hv] at h
    cases h
  | ok valid =>
    rw [outcome_valid hv] at h
    exact rendered_response hcodecs h hlt

theorem handle_sent {name action : String} {args : List String} (hcodecs : RequestsRoundTrip c)
    (h : dispatch name args = .sent action r) (hlt : (encoded c r).length < 2 ^ 64)
    (t : Tables String (List UInt8)) :
    (Tables.handle c { action, payload := encoded c r } t).2 = ((Executed.sent action r).outcome t).2 ∧
    ∀ response, (Tables.handle c { action, payload := encoded c r } t).1 = .ok response ↔
      ∃ result, ((Executed.sent action r).outcome t).1 = some result ∧ response.payload = r.response c result := by
  rw [Tables.handle, parse_sent hcodecs h hlt]
  cases hv : r.validate with
  | error e =>
    rw [outcome_invalid hv]
    refine ⟨rfl, fun response => ?_⟩
    constructor
    · intro heq
      cases heq
    · rintro ⟨result, hresult, -⟩
      cases hresult
  | ok valid =>
    rw [outcome_valid hv]
    refine ⟨rfl, fun response => ?_⟩
    show (r.answer c (r.meaning t).1).map ResponseEnvelope.mk = .ok response ↔ _
    cases (r.meaning t).1 with
    | none =>
      constructor
      · intro heq
        cases heq
      · rintro ⟨result, hresult, -⟩
        cases hresult
    | some result =>
      constructor
      · intro heq
        exact ⟨result, rfl, (congrArg ResponseEnvelope.payload (Except.ok.inj heq)).symm⟩
      · rintro ⟨_, hresult, hpayload⟩
        cases hresult
        exact congrArg Except.ok (congrArg ResponseEnvelope.mk hpayload.symm)

theorem outcome_again (e : Executed) (t : Tables String (List UInt8)) :
    (e.outcome (e.outcome t).2).2 = (e.outcome t).2 := by
  cases e with
  | failed | unknown => rfl
  | sent action r =>
    cases hv : r.validate with
    | error e => rw [outcome_invalid hv, outcome_invalid hv]
    | ok valid =>
      rw [outcome_valid hv, outcome_valid hv]
      exact r.meaning_again t

theorem outcome_repeats {e : Executed} {result : Result} (h : (e.outcome (e.outcome t).2).1 = some result) :
    (e.outcome t).1 = some result ∨ ∃ action q, e = .sent action (.removeTable q) ∧
      (e.outcome t).1 = some (.done true) ∧ result = .done false := by
  cases e with
  | failed | unknown => cases h
  | sent action r =>
    cases hv : r.validate with
    | error e =>
      rw [outcome_invalid hv, outcome_invalid hv] at h
      cases h
    | ok valid =>
      rw [outcome_valid hv, outcome_valid hv] at h
      rw [outcome_valid hv]
      refine (r.meaning_repeats t h).imp_right ?_
      rintro ⟨q, rfl, hexists, hresult⟩
      refine ⟨action, q, rfl, ?_, hresult⟩
      rw [Request.meaning, Request.effect, hexists]

end Meaning

/-! ## What a session may show -/

/-- The window has room for the request of the command. -/
def Carried (b : Wire) (c : Codecs) (e : Executed) : Prop :=
  ∃ action r, e = .sent action r ∧ b.Sends { action, payload := encoded c r }

/-- The window has room for a response with this result. -/
def Returned (b : Wire) (c : Codecs) (e : Executed) (result : Result) : Prop :=
  ∃ action r, e = .sent action r ∧ b.Answers { payload := r.response c result }

/-- The tables before and after one command, and the line that it prints, over any network. -/
inductive Shows (b : Wire) (c : Codecs) (u : Utf8Lossy) (t : Tables String (List UInt8)) (e : Executed) :
    Printed → Tables String (List UInt8) → Prop
  /-- It has its effect once, and prints its result. -/
  | told {result : Result} : (e.outcome t).1 = some result → Carried b c e → Returned b c e result →
      Shows b c u t e (.out (shown u result)) (e.outcome t).2
  /-- A table was removed, and a second request did not find it. -/
  | removed {action : String} {q : RemoveTableRequest} : e = .sent action (.removeTable q) →
      (e.outcome t).1 = some (.done true) → Carried b c e → Returned b c e (.done false) →
      Shows b c u t e (.out (shown u (.done false))) (e.outcome t).2
  /-- It has an error, and its effect once or not at all. -/
  | failed {text : String} {t' : Tables String (List UInt8)} : t' = t ∨ Carried b c e ∧ t' = (e.outcome t).2 →
      Shows b c u t e (.err text) t'

/-- The same over a network that loses nothing. -/
inductive Answers (b : Wire) (c : Codecs) (u : Utf8Lossy) (t : Tables String (List UInt8)) (e : Executed) :
    Printed → Tables String (List UInt8) → Prop
  | told {result : Result} : (e.outcome t).1 = some result → Carried b c e → Returned b c e result →
      Answers b c u t e (.out (shown u result)) (e.outcome t).2
  | refused {text : String} : (e.outcome t).1 = none → Answers b c u t e (.err text) t
  /-- The request has no room. -/
  | unsent {text : String} : ¬ Carried b c e → Answers b c u t e (.err text) t
  /-- The response has no room: the effect is there, and an error is printed. -/
  | unheard {text : String} {result : Result} : (e.outcome t).1 = some result → Carried b c e →
      ¬ Returned b c e result → Answers b c u t e (.err text) (e.outcome t).2
  /-- A table was removed. Only the response that tells of none has room, and is asked for next. -/
  | removed {action : String} {q : RemoveTableRequest} : e = .sent action (.removeTable q) →
      (e.outcome t).1 = some (.done true) → Carried b c e → ¬ Returned b c e (.done true) →
      Returned b c e (.done false) → Answers b c u t e (.out (shown u (.done false))) (e.outcome t).2

/-- The tables before and after the commands, and the lines that they print, with `R` for each of them. -/
inductive Transcript (R : Tables String (List UInt8) → Executed → Printed → Tables String (List UInt8) → Prop) :
    Tables String (List UInt8) → List Executed → List Printed → Tables String (List UInt8) → Prop
  | nil {t : Tables String (List UInt8)} : Transcript R t [] [] t
  | cons {t t' t'' : Tables String (List UInt8)} {e : Executed} {line : Printed} {es : List Executed}
      {lines : List Printed} : R t e line t' → Transcript R t' es lines t'' →
      Transcript R t (e :: es) (line :: lines) t''

section Session

variable {b : Wire} {c : Codecs} {u : Utf8Lossy} {p : Process Unit World}

/-- What the store holds. -/
def tables (p : Process Unit World) : Tables String (List UInt8) := p.world.shared.store.tables

theorem serve_replicate {request : RequestEnvelope} {s : Shared}
    (hagain : ∀ t, (Tables.handle c request (Tables.handle c request t).2).2 = (Tables.handle c request t).2)
    (n : Nat) :
    (serve c (List.replicate (n + 1) request) s).store.tables = (Tables.handle c request s.store.tables).2 := by
  induction n with
  | zero => exact (handle_refines request s).2
  | succ n ih =>
    rw [List.replicate_succ', serve_snoc, (handle_refines request _).2, ih, hagain]

theorem serve_sent {action name : String} {args : List String} {r : Request} (hrequests : RequestsRoundTrip c)
    (he : dispatch name args = .sent action r) (hsends : b.Sends { action, payload := encoded c r }) (s : Shared)
    (done : Nat) :
    (serve c (List.replicate (done + 1) { action, payload := encoded c r }) s).store.tables =
      ((Executed.sent action r).outcome s.store.tables).2 := by
  have hhandle := handle_sent hrequests he hsends.lt
  rw [serve_replicate (fun t => ?_), (hhandle _).1]
  rw [(hhandle _).1, (hhandle _).1, outcome_again]

theorem answered_shows {action name : String} {args : List String} {r : Request} (hrequests : RequestsRoundTrip c)
    (hresponses : ResponsesRoundTrip c) (he : dispatch name args = .sent action r) {w : World} {text : String}
    {earlier : Nat} {response : ResponseEnvelope}
    (h : Process.Answered b c { action, payload := encoded c r } w (rendered c u r) text earlier response) :
    Shows b c u w.shared.store.tables (.sent action r) (.out text)
      ((Executed.sent action r).outcome w.shared.store.tables).2 := by
  obtain ⟨hsends, hanswers, hhandled, hdecoded⟩ := h
  rw [(handle_refines _ _).1] at hhandled
  obtain ⟨result, hresult, hpayload⟩ := ((handle_sent hrequests he hsends.lt _).2 response).mp hhandled
  have hcarried : Carried b c (.sent action r) := ⟨action, r, rfl, hsends⟩
  have hreturned : Returned b c (.sent action r) result := ⟨action, r, rfl, by
    rw [← hpayload]
    exact hanswers⟩
  rw [hpayload, rendered_outcome hresponses hresult (hpayload ▸ hanswers.lt)] at hdecoded
  obtain rfl := Except.ok.inj hdecoded
  cases earlier with
  | zero => exact .told hresult hcarried hreturned
  | succ earlier =>
    rw [serve_sent hrequests he hsends] at hresult
    rcases outcome_repeats hresult with htold | ⟨action', q, hq, hexists, rfl⟩
    · exact .told htold hcarried hreturned
    · exact .removed hq hexists hcarried hreturned

theorem execute_shows (hrequests : RequestsRoundTrip c) (hresponses : ResponsesRoundTrip c) {e : Executed}
    {name : String} {args : List String} (he : dispatch name args = e) (hidle : p.world.flying = []) :
    Shows b c u (tables p) e (p.execute (World.network b c) c u e).1
      (tables (p.execute (World.network b c) c u e).2) := by
  cases e with
  | failed | unknown => exact .failed (.inl rfl)
  | sent action r =>
    obtain ⟨done, hrepeated, hanswer⟩ :=
      Process.send_repeats (b := b) (c := c) (rendered c u r) action (encoded c r) hidle
    have hrefused := Process.send_refused (b := b) (c := c) (rendered c u r) action (encoded c r) hidle
    simp only [Process.execute]
    generalize p.send (World.network b c) action (encoded c r) (rendered c u r) = o at hrepeated hanswer hrefused ⊢
    obtain ⟨err | text, p'⟩ := o
    · refine .failed ?_
      by_cases hsends : b.Sends { action, payload := encoded c r }
      · have htables := congrArg (fun s => s.store.tables) hrepeated.shared
        cases done with
        | zero => exact .inl htables
        | succ done =>
          exact .inr ⟨⟨action, r, rfl, hsends⟩, htables.trans (serve_sent hrequests he hsends _ done)⟩
      · exact .inl (congrArg (fun s => s.store.tables) (hrefused hsends))
    · obtain ⟨earlier, response, hlt, hanswered⟩ := hanswer text rfl
      have hlast : tables p' = ((Executed.sent action r).outcome (tables p)).2 := by
        obtain ⟨done, rfl⟩ := Nat.exists_eq_succ_of_ne_zero (Nat.ne_zero_of_lt hlt)
        exact (congrArg (fun s => s.store.tables) hrepeated.shared).trans
          (serve_sent hrequests he hanswered.sends _ done)
      show Shows b c u (tables p) _ (.out text) (tables p')
      rw [hlast]
      exact answered_shows hrequests hresponses he hanswered

theorem typed_dispatch {low : Lowercase} {input : List UInt8} {e : Executed} (h : e ∈ typed low input) :
    ∃ name args, dispatch name args = e := by
  have hround : ∀ {line : String}, round low line = .executed e → ∃ name args, dispatch name args = e := by
    intro line hline
    unfold round at hline
    split_ifs at hline
    split at hline
    · cases hline
    · dsimp only at hline
      split_ifs at hline
      exact ⟨_, _, Round.executed.inj hline⟩
  obtain ⟨r, hmem, hr⟩ := List.mem_filterMap.mp h
  cases r with
  | executed e' =>
    obtain rfl := Option.some.inj hr
    clear h hr
    fun_induction runRepl low input with
    | case1 => cases hmem
    | case2 b input hread ih => exact ih ((List.mem_cons.mp hmem).resolve_left (by simp))
    | case3 b input line hread hquit => simp at hmem
    | case4 b input line hread hnot ih =>
      rcases List.mem_cons.mp hmem with heq | hrest
      · exact hround heq.symm
      · exact ih hrest
  | _ => cases hr

theorem transcript_of {R : Tables String (List UInt8) → Executed → Printed → Tables String (List UInt8) → Prop}
    {I : List Executed → Process Unit World → Prop}
    (hstep : ∀ e es p, I (e :: es) p → R (tables p) e (p.execute (World.network b c) c u e).1
      (tables (p.execute (World.network b c) c u e).2) ∧ I es (p.execute (World.network b c) c u e).2)
    {es : List Executed} (h : I es p) : Transcript R (tables p) es (p.session (World.network b c) c u es).1
      (tables (p.session (World.network b c) c u es).2) := by
  induction es generalizing p with
  | nil => exact .nil
  | cons e es ih =>
    obtain ⟨hline, hrest⟩ := hstep e es p h
    exact .cons hline (ih hrest)

/-- Whenever a command ends, none of its requests is still on its way. -/
def Prompt (b : Wire) (c : Codecs) (u : Utf8Lossy) (p : Process Unit World) (es : List Executed) : Prop :=
  ∀ before, before <+: es → (p.session (World.network b c) c u before).2.world.flying = []

theorem Prompt.next {e : Executed} {es : List Executed} (h : Prompt b c u p (e :: es)) :
    p.world.flying = [] ∧ Prompt b c u (p.execute (World.network b c) c u e).2 es :=
  ⟨h [] List.nil_prefix, fun before hbefore => h (e :: before) (List.cons_prefix_cons.mpr ⟨rfl, hbefore⟩)⟩

theorem execute_kept {I : World → Prop} (hkeeps : ∀ request, (World.network b c).KeepsSending request I)
    {e : Executed} (h : I p.world) : I (p.execute (World.network b c) c u e).2.world := by
  cases e with
  | failed | unknown => exact h
  | sent action r =>
    rw [(Process.execute_sent _ _ _ _ _ _).1]
    exact Process.send_world (hkeeps _) h

theorem prefixedCodecs_requests : RequestsRoundTrip prefixedCodecs where
  get := formatCodec_roundTrips _
  put := formatCodec_roundTrips _
  update := formatCodec_roundTrips _
  delete := formatCodec_roundTrips _
  contains := formatCodec_roundTrips _
  addTable := formatCodec_roundTrips _
  removeTable := formatCodec_roundTrips _

theorem prefixedCodecs_responses : ResponsesRoundTrip prefixedCodecs where
  get := formatCodec_roundTrips _
  put := formatCodec_roundTrips _
  update := formatCodec_roundTrips _
  delete := formatCodec_roundTrips _
  contains := formatCodec_roundTrips _
  addTable := formatCodec_roundTrips _
  removeTable := formatCodec_roundTrips _

def prefixedWire : Wire where
  envelopes := prefixed
  roundTrip := prefixed_roundTrip
  covers := prefixed_covers
  request_ne := prefixed_request_ne
  response_ne := prefixed_response_ne

/-- Text that is not UTF-8 is not shown. -/
def utf8Only : Utf8Lossy where
  fromUtf8Lossy value := (fromUtf8 value).getD ""
  valid s := by rw [fromUtf8_eq_some.mpr rfl, Option.getD_some]

/-- A world in which the first `n` things that happen bring no answer. -/
def losing (n : Nat) : Process Unit World where
  client := .new
  world :=
    { shared := .new, flying := [], executed := [], now := 0, said := []
      tape := fun i =>
        { late := [], refused := none
          fate := if i < n then .acted .ConnectionClosed else .served .ConnectionClosed } }

def putAndGet : List UInt8 := asBytes "put users alice hi\nget users alice\n"

theorem outcome_none {e : Executed} {t : Tables String (List UInt8)} (h : (e.outcome t).1 = none) :
    (e.outcome t).2 = t := by
  cases e with
  | failed | unknown => rfl
  | sent action r =>
    cases hv : r.validate with
    | error e => rw [outcome_invalid hv]
    | ok valid =>
      rw [outcome_valid hv] at h ⊢
      exact Request.meaning_refused h

theorem execute_acts (hrequests : RequestsRoundTrip c) {e : Executed} {name : String} {args : List String}
    (he : dispatch name args = e) (hreliable : p.world.Reliable) (hcarried : Carried b c e) :
    tables (p.execute (World.network b c) c u e).2 = (e.outcome (tables p)).2 := by
  obtain ⟨action, r, rfl, hsends⟩ := hcarried
  obtain ⟨done, hrepeated⟩ := Process.reliable_acts (rendered c u r) hreliable hsends
  rw [(Process.execute_sent (World.network b c) c u p action r).1, tables, hrepeated.shared]
  exact serve_sent hrequests he hsends _ done

theorem execute_returns (hrequests : RequestsRoundTrip c) (hresponses : ResponsesRoundTrip c) {e : Executed}
    {name : String} {args : List String} (he : dispatch name args = e) (hreliable : p.world.Reliable) {result : Result}
    (hresult : (e.outcome (tables p)).1 = some result) (hcarried : Carried b c e) (hreturned : Returned b c e result) :
    (p.execute (World.network b c) c u e).1 = .out (shown u result) := by
  obtain ⟨action, r, rfl, hsends⟩ := hcarried
  obtain ⟨action', r', heq, hanswers⟩ := hreturned
  obtain ⟨rfl, rfl⟩ := Executed.sent.inj heq
  refine (Process.execute_sent (World.network b c) c u p action r).2 _ ?_
  have hhandled : ((buildActions c).handleRequest { action, payload := encoded c r } p.world.shared).1 =
      .ok { payload := r.response c result } := by
    rw [(handle_refines _ _).1]
    exact ((handle_sent hrequests he hsends.lt _).2 _).mpr ⟨result, hresult, rfl⟩
  rw [Process.send_reliable (rendered c u r) hreliable hsends hanswers hhandled,
    rendered_outcome hresponses hresult hanswers.lt]
  rfl

theorem execute_answers (hrequests : RequestsRoundTrip c) (hresponses : ResponsesRoundTrip c) {e : Executed}
    {name : String} {args : List String} (he : dispatch name args = e) (hreliable : p.world.Reliable) :
    Answers b c u (tables p) e (p.execute (World.network b c) c u e).1
      (tables (p.execute (World.network b c) c u e).2) := by
  have hshows := execute_shows (b := b) (u := u) hrequests hresponses he hreliable.flying
  have hacts := execute_acts (b := b) (u := u) hrequests he hreliable
  have hreturns : ∀ result, (e.outcome (tables p)).1 = some result → Carried b c e → Returned b c e result →
      (p.execute (World.network b c) c u e).1 = .out (shown u result) :=
    fun _ => execute_returns hrequests hresponses he hreliable
  generalize (p.execute (World.network b c) c u e).1 = line at hshows hreturns ⊢
  generalize tables (p.execute (World.network b c) c u e).2 = t' at hshows hacts ⊢
  cases hshows with
  | told hresult hcarried hreturned => exact .told hresult hcarried hreturned
  | removed hq hresult hcarried hreturned =>
    by_cases htrue : Returned b c e (.done true)
    · rw [hreturns _ hresult hcarried htrue]
      exact .told hresult hcarried htrue
    · exact .removed hq hresult hcarried htrue hreturned
  | failed heffect =>
    by_cases hcarried : Carried b c e
    · obtain rfl := hacts hcarried
      cases hresult : (e.outcome (tables p)).1 with
      | none =>
        rw [outcome_none hresult]
        exact .refused hresult
      | some result =>
        refine .unheard hresult hcarried fun hreturned => ?_
        cases hreturns result hresult hcarried hreturned
    · obtain rfl := heffect.resolve_right fun h => hcarried h.1
      exact .unsent hcarried

/-- Over a network that loses nothing, the session prints the results of maps of maps, and the store holds in the
end what they hold. An error is printed where they refuse a request, where the window has no room for it, so that it
has no effect, and where the window has no room for the response, although the effect is there. -/
theorem session_answers (hrequests : RequestsRoundTrip c) (hresponses : ResponsesRoundTrip c) (low : Lowercase)
    (input : List UInt8) (hreliable : p.world.Reliable) :
    Transcript (Answers b c u) (tables p) (typed low input) (p.session (World.network b c) c u (typed low input)).1
      (tables (p.session (World.network b c) c u (typed low input)).2) := by
  refine transcript_of (I := fun es p => (∀ e ∈ es, ∃ name args, dispatch name args = e) ∧ p.world.Reliable)
    (fun e es p h => ?_) ⟨fun _ => typed_dispatch, hreliable⟩
  obtain ⟨⟨name, args, he⟩, hrest⟩ := List.forall_mem_cons.mp h.1
  exact ⟨execute_answers hrequests hresponses he h.2, hrest,
    execute_kept (fun _ => Process.reliable_keeps) h.2⟩

theorem session_answers_putAndGet :
    Transcript (Answers prefixedWire prefixedCodecs utf8Only) (tables (losing 0)) (typed asciiLowercase putAndGet)
      ((losing 0).session (World.network prefixedWire prefixedCodecs) prefixedCodecs utf8Only
        (typed asciiLowercase putAndGet)).1
      (tables ((losing 0).session (World.network prefixedWire prefixedCodecs) prefixedCodecs utf8Only
        (typed asciiLowercase putAndGet)).2) :=
  session_answers prefixedCodecs_requests prefixedCodecs_responses asciiLowercase putAndGet
    ⟨rfl, fun _ => rfl, fun i => ⟨.ConnectionClosed, by simp [losing]⟩⟩

end Session

end TrenchDb.Cli
