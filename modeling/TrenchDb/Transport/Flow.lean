import TrenchDb.Transport.Talk

/-!
# Credit and order in one direction of a stream

`Half` relates the end that sends with the end that receives: the credit that is split
between them, the order of `Data` and `Close`, and the payloads that are on their way. One
lemma for each thing that either end can do.
-/

namespace TrenchDb.Transport

/-! ## Counting -/

def Item.payload? : Item → Option (List UInt8)
  | .data payload => some payload
  | _ => none

/-- The payloads on the way. -/
def payloads (items : List Item) : List (List UInt8) := items.filterMap Item.payload?

/-- No `Data` follows these. -/
def Item.ends : Item → Bool
  | .close | .reset => true
  | _ => false

def Item.increment : Item → Nat
  | .window increment => increment.toNat
  | _ => 0

/-- The credit on the way. -/
def granted (items : List Item) : Nat := (items.map Item.increment).sum

/-- How many bytes the payloads have. -/
def bytes (payloads : List (List UInt8)) : Nat := payloads.flatten.length

@[simp] theorem payloads_append (is js : List Item) : payloads (is ++ js) = payloads is ++ payloads js :=
  List.filterMap_append
@[simp] theorem payloads_data (payload : List UInt8) (is : List Item) :
    payloads (.data payload :: is) = payload :: payloads is := rfl
theorem payloads_cons {i : Item} (h : i.payload? = none) (is : List Item) : payloads (i :: is) = payloads is :=
  List.filterMap_cons_none h

@[simp] theorem granted_nil : granted [] = 0 := rfl
@[simp] theorem granted_cons (i : Item) (is : List Item) : granted (i :: is) = i.increment + granted is := by
  simp [granted]
@[simp] theorem granted_append (is js : List Item) : granted (is ++ js) = granted is + granted js := by
  simp [granted]

@[simp] theorem bytes_nil : bytes [] = 0 := rfl
@[simp] theorem bytes_cons (p : List UInt8) (ps : List (List UInt8)) : bytes (p :: ps) = p.length + bytes ps := by
  simp [bytes]
@[simp] theorem bytes_append (ps qs : List (List UInt8)) : bytes (ps ++ qs) = bytes ps + bytes qs := by
  simp [bytes]

/-- Nothing but control follows a `Close` or a `Reset`. -/
def Ordered : List Item → Prop
  | [] => True
  | i :: is => (i.ends → payloads is = []) ∧ Ordered is

theorem Ordered.append {is js : List Item} (h : Ordered is) (hjs : Ordered js)
    (hends : (∀ i ∈ is, i.ends = false) ∨ payloads js = []) : Ordered (is ++ js) := by
  induction is with
  | nil => exact hjs
  | cons i is ih =>
    refine ⟨fun hi => ?_, ih h.2 (hends.imp_left fun hall j hj => hall j (List.mem_cons_of_mem _ hj))⟩
    rcases hends with hall | hnone
    · rw [hall i List.mem_cons_self] at hi
      cases hi
    · show payloads (is ++ js) = []
      rw [payloads_append, h.1 hi, hnone]
      rfl

/-! ## One direction -/

/-- The direction from the end that holds `a` to the end that holds `b`: `down` is on its way
to `b` and `up` on its way to `a`; of the payloads sent, those in `got` were taken. -/
structure Half (a b : Option Stream) (down up : List Item) (sent got : List (List UInt8)) : Prop where
  ordered : Ordered down
  writable : ∀ sa, a = some sa → sa.state.canSend →
    (∀ i ∈ down, i.ends = false) ∧ ∀ sb, b = some sb → sb.state.canReceive
  shut : ∀ sb, b = some sb → ¬ sb.state.canReceive → payloads down = []
  credit : ∀ sa sb, a = some sa → b = some sb → sb.state.canReceive →
    sa.sendWindow + bytes (payloads down) + bytes sb.recvQueue + granted up = DEFAULT_WINDOW
  nonneg : ∀ sa, a = some sa → 0 ≤ sa.sendWindow
  bound : ∀ sb, b = some sb → sb.recvWindow = DEFAULT_WINDOW - bytes sb.recvQueue ∧
    (bytes sb.recvQueue + bytes (payloads down) : Int) ≤ DEFAULT_WINDOW
  content : ∃ rest, sent = got ++ rest ∧ ∀ sb, b = some sb → rest = sb.recvQueue ++ payloads down

namespace Half

variable {a b : Option Stream} {down up : List Item} {sent got : List (List UInt8)} {sa sb : Stream}

theorem init (s : UInt32) : Half (some (Stream.new s)) (some (Stream.new s)) [] [] [] [] := by
  refine ⟨trivial, ?_, ?_, ?_, ?_, ?_, ⟨[], rfl, ?_⟩⟩
  · rintro sa ⟨rfl⟩ -
    exact ⟨by simp, by rintro sb ⟨rfl⟩; rfl⟩
  · rintro sb ⟨rfl⟩ -
    rfl
  · rintro sa sb ⟨rfl⟩ ⟨rfl⟩ -
    rfl
  · rintro sa ⟨rfl⟩
    exact show (0 : Int) ≤ DEFAULT_WINDOW by decide
  · rintro sb ⟨rfl⟩
    exact ⟨rfl, show (0 : Int) ≤ DEFAULT_WINDOW by decide⟩
  · rintro sb ⟨rfl⟩
    rfl

theorem blank : Half none none [] [] [] [] := by
  refine ⟨trivial, ?_, ?_, ?_, ?_, ?_, ⟨[], rfl, ?_⟩⟩ <;> simp

/-! ### What the sending end does -/

theorem sender (h : Half a b down up sent got) {a' : Option Stream}
    (ha : ∀ sa', a' = some sa' → ∃ sa, a = some sa ∧ sa'.sendWindow = sa.sendWindow ∧
      (sa'.state.canSend → sa.state.canSend)) : Half a' b down up sent got := by
  refine ⟨h.ordered, ?_, h.shut, ?_, ?_, h.bound, h.content⟩
  · intro sa' hsa' hsend
    obtain ⟨sa, hsa, -, hcan⟩ := ha sa' hsa'
    exact h.writable sa hsa (hcan hsend)
  · intro sa' sb hsa' hsb hrecv
    obtain ⟨sa, hsa, hwin, -⟩ := ha sa' hsa'
    rw [hwin]
    exact h.credit sa sb hsa hsb hrecv
  · intro sa' hsa'
    obtain ⟨sa, hsa, hwin, -⟩ := ha sa' hsa'
    rw [hwin]
    exact h.nonneg sa hsa

theorem tells (h : Half a b down up sent got) {i : Item} (hi : i.payload? = none)
    (hends : i.ends → ∀ sa, a = some sa → ¬ sa.state.canSend) : Half a b (down ++ [i]) up sent got := by
  have hp : payloads (down ++ [i]) = payloads down := by rw [payloads_append, payloads_cons hi]; simp [payloads]
  refine ⟨h.ordered.append ⟨fun _ => rfl, trivial⟩ (.inr (payloads_cons hi [])), ?_, ?_, ?_, h.nonneg, ?_, ?_⟩
  · intro sa hsa hsend
    refine ⟨fun j hj => ?_, (h.writable sa hsa hsend).2⟩
    rcases List.mem_append.mp hj with hj | hj
    · exact (h.writable sa hsa hsend).1 j hj
    · rw [List.mem_singleton.mp hj]
      by_contra hne
      exact hends (by simpa using hne) sa hsa hsend
  · rw [hp]; exact h.shut
  · rw [hp]; exact h.credit
  · rw [hp]; exact h.bound
  · rw [hp]; exact h.content

theorem sends (h : Half (some sa) b down up sent got) (hsend : sa.state.canSend) {payload : List UInt8}
    (hwin : (payload.length : Int) ≤ sa.sendWindow) :
    Half (some (sa.consumeSendWindow payload.length)) b (down ++ [.data payload]) up (sent ++ [payload]) got := by
  obtain ⟨hnone, hrecv⟩ := h.writable sa rfl hsend
  have hleft := Stream.sendWindow_consume hwin
  have hdown : payloads (down ++ [.data payload]) = payloads down ++ [payload] := by simp [payloads, Item.payload?]
  refine ⟨h.ordered.append ⟨by simp [Item.ends], trivial⟩ (.inl hnone), ?_, ?_, ?_, ?_, ?_, ?_⟩
  · rintro sa' ⟨rfl⟩ -
    refine ⟨fun j hj => ?_, hrecv⟩
    rcases List.mem_append.mp hj with hj | hj
    · exact hnone j hj
    · rw [List.mem_singleton.mp hj]
      rfl
  · intro sb hsb hno
    exact absurd (hrecv sb hsb) hno
  · rintro sa' sb ⟨rfl⟩ hsb hr
    have := h.credit sa sb rfl hsb hr
    rw [hleft, hdown, bytes_append, bytes_cons, bytes_nil]
    omega
  · rintro sa' ⟨rfl⟩
    rw [hleft]
    omega
  · intro sb hsb
    have := h.credit sa sb rfl hsb (hrecv sb hsb)
    refine ⟨(h.bound sb hsb).1, ?_⟩
    rw [hdown, bytes_append, bytes_cons, bytes_nil]
    omega
  · obtain ⟨rest, hsent, hrest⟩ := h.content
    refine ⟨rest ++ [payload], by rw [hsent, List.append_assoc], fun sb hsb => ?_⟩
    rw [hrest sb hsb, hdown, List.append_assoc]

/-- A payload that the write buffer cannot take costs credit. Against a receiving end that can
receive, there is never that much credit. -/
theorem overflows (h : Half (some sa) b down up sent got) (hsend : sa.state.canSend) {payload : List UInt8}
    (hwin : (payload.length : Int) ≤ sa.sendWindow) (hbig : DEFAULT_WINDOW < payload.length) :
    Half (some (sa.consumeSendWindow payload.length)) b down up sent got := by
  obtain ⟨hnone, hrecv⟩ := h.writable sa rfl hsend
  have hleft := Stream.sendWindow_consume hwin
  refine ⟨h.ordered, ?_, h.shut, ?_, ?_, h.bound, h.content⟩
  · rintro sa' ⟨rfl⟩ -
    exact ⟨hnone, hrecv⟩
  · rintro sa' sb ⟨rfl⟩ hsb hr
    have := h.credit sa sb rfl hsb hr
    omega
  · rintro sa' ⟨rfl⟩
    rw [hleft]
    omega

theorem regains (h : Half a b down (.window increment :: up) sent got) :
    Half (a.map fun sa => sa.applyWindowIncrement increment) b down up sent got := by
  have hnn := h.nonneg
  refine ⟨h.ordered, ?_, h.shut, ?_, ?_, h.bound, h.content⟩
  · intro sa' hsa' hsend
    obtain ⟨sa, hsa, rfl⟩ := Option.map_eq_some_iff.mp hsa'
    exact h.writable sa hsa hsend
  · intro sa' sb hsa' hsb hr
    obtain ⟨sa, hsa, rfl⟩ := Option.map_eq_some_iff.mp hsa'
    have := h.credit sa sb hsa hsb hr
    simp only [granted_cons, Item.increment, DEFAULT_WINDOW, Nat.cast_add] at this
    simp only [Stream.applyWindowIncrement, I64_MAX, DEFAULT_WINDOW]
    omega
  · intro sa' hsa'
    obtain ⟨sa, hsa, rfl⟩ := Option.map_eq_some_iff.mp hsa'
    have := h.nonneg sa hsa
    simp only [Stream.applyWindowIncrement, I64_MAX]
    omega

theorem upward (h : Half a b down up sent got) (up' : List Item) (hup : granted up' = granted up) :
    Half a b down up' sent got := by
  refine ⟨h.ordered, h.writable, h.shut, ?_, h.nonneg, h.bound, h.content⟩
  rw [hup]
  exact h.credit

/-! ### What the receiving end does -/

theorem receiver (h : Half a b down up sent got) {b' : Option Stream}
    (hb : ∀ sb', b' = some sb' → ∃ sb, b = some sb ∧ sb'.recvWindow = sb.recvWindow ∧
      sb'.recvQueue = sb.recvQueue ∧ sb'.state.canReceive = sb.state.canReceive) :
    Half a b' down up sent got := by
  refine ⟨h.ordered, ?_, ?_, ?_, h.nonneg, ?_, ?_⟩
  · intro sa hsa hsend
    refine ⟨(h.writable sa hsa hsend).1, fun sb' hsb' => ?_⟩
    obtain ⟨sb, hsb, -, -, hcan⟩ := hb sb' hsb'
    rw [hcan]
    exact (h.writable sa hsa hsend).2 sb hsb
  · intro sb' hsb' hno
    obtain ⟨sb, hsb, -, -, hcan⟩ := hb sb' hsb'
    exact h.shut sb hsb (hcan ▸ hno)
  · intro sa sb' hsa hsb' hr
    obtain ⟨sb, hsb, -, hq, hcan⟩ := hb sb' hsb'
    rw [hq]
    exact h.credit sa sb hsa hsb (hcan ▸ hr)
  · intro sb' hsb'
    obtain ⟨sb, hsb, hw, hq, -⟩ := hb sb' hsb'
    rw [hw, hq]
    exact h.bound sb hsb
  · obtain ⟨rest, hsent, hrest⟩ := h.content
    refine ⟨rest, hsent, fun sb' hsb' => ?_⟩
    obtain ⟨sb, hsb, -, hq, -⟩ := hb sb' hsb'
    rw [hq]
    exact hrest sb hsb

theorem gone (h : Half a b down up sent got) : Half a none down up sent got := h.receiver (by simp)

theorem hears {i : Item} (h : Half a b (i :: down) up sent got) (hi : i.payload? = none) :
    Half a b down up sent got := by
  have hp := payloads_cons hi down
  refine ⟨h.ordered.2, ?_, ?_, ?_, h.nonneg, ?_, ?_⟩
  · intro sa hsa hsend
    exact ⟨fun j hj => (h.writable sa hsa hsend).1 j (List.mem_cons_of_mem _ hj), (h.writable sa hsa hsend).2⟩
  · rw [← hp]; exact h.shut
  · rw [← hp]; exact h.credit
  · rw [← hp]; exact h.bound
  · rw [← hp]; exact h.content

theorem hearsClose (h : Half a (some sb) (.close :: down) up sent got) :
    Half a sb.afterRemoteClose down up sent got := by
  have hnone : payloads down = [] := h.ordered.1 rfl
  have hsilent : ∀ sa, a = some sa → ¬ sa.state.canSend := by
    intro sa hsa hsend
    have := (h.writable sa hsa hsend).1 .close List.mem_cons_self
    cases this
  have hafter : ∀ sb', sb.afterRemoteClose = some sb' →
      sb'.recvWindow = sb.recvWindow ∧ sb'.recvQueue = sb.recvQueue ∧ ¬ sb'.state.canReceive := by
    intro sb' hsb'
    obtain ⟨-, hw, hq, hshut, -⟩ := Stream.afterRemoteClose_some hsb'
    exact ⟨hw, hq, hshut⟩
  have htail := h.hears rfl
  refine ⟨htail.ordered, ?_, fun _ _ _ => hnone, ?_, h.nonneg, ?_, ?_⟩
  · exact fun sa hsa hsend => absurd hsend (hsilent sa hsa)
  · exact fun sa sb' _ hsb' hr => absurd hr (hafter sb' hsb').2.2
  · intro sb' hsb'
    obtain ⟨hw, hq, -⟩ := hafter sb' hsb'
    rw [hw, hq]
    exact htail.bound sb rfl
  · obtain ⟨rest, hsent, hrest⟩ := htail.content
    refine ⟨rest, hsent, fun sb' hsb' => ?_⟩
    rw [(hafter sb' hsb').2.1]
    exact hrest sb rfl

theorem hearsData {payload : List UInt8} (h : Half a (some sb) (.data payload :: down) up sent got) :
    sb.state.canReceive ∧ (payload.length : Int) ≤ sb.recvWindow ∧
      Half a (some (sb.pushRecv payload)) down up sent got := by
  have hcan : sb.state.canReceive := by
    by_contra hno
    have := h.shut sb rfl hno
    rw [payloads_data] at this
    cases this
  obtain ⟨hw, hle⟩ := h.bound sb rfl
  rw [payloads_data, bytes_cons] at hle
  have hfits : (payload.length : Int) ≤ sb.recvWindow := by omega
  have hleft : (sb.pushRecv payload).recvWindow = sb.recvWindow - payload.length := by
    unfold Stream.pushRecv
    rw [if_neg (by omega)]
  have hqueue : (sb.pushRecv payload).recvQueue = sb.recvQueue ++ [payload] := rfl
  refine ⟨hcan, hfits, h.ordered.2, ?_, ?_, ?_, h.nonneg, ?_, ?_⟩
  · intro sa hsa hsend
    refine ⟨fun j hj => (h.writable sa hsa hsend).1 j (List.mem_cons_of_mem _ hj), ?_⟩
    rintro sb' ⟨rfl⟩
    exact hcan
  · rintro sb' ⟨rfl⟩ hno
    exact absurd hcan hno
  · rintro sa sb' hsa ⟨rfl⟩ -
    have := h.credit sa sb hsa rfl hcan
    rw [payloads_data, bytes_cons] at this
    rw [hqueue, bytes_append, bytes_cons, bytes_nil]
    omega
  · rintro sb' ⟨rfl⟩
    rw [hleft, hqueue, bytes_append, bytes_cons, bytes_nil]
    omega
  · obtain ⟨rest, hsent, hrest⟩ := h.content
    refine ⟨rest, hsent, ?_⟩
    rintro sb' ⟨rfl⟩
    rw [hrest sb rfl, hqueue, payloads_data, List.append_assoc]
    rfl

theorem losesData {payload : List UInt8} (h : Half a none (.data payload :: down) up sent got) :
    Half a none down up sent got := by
  refine ⟨h.ordered.2, ?_, by simp, by simp, h.nonneg, by simp, ?_⟩
  · intro sa hsa hsend
    exact ⟨fun j hj => (h.writable sa hsa hsend).1 j (List.mem_cons_of_mem _ hj), by simp⟩
  · obtain ⟨rest, hsent, -⟩ := h.content
    exact ⟨rest, hsent, by simp⟩

theorem takes {rest : Stream} {payload : List UInt8} (h : Half a (some sb) down up sent got)
    (hpop : sb.popRecv = (some payload, rest)) :
    Half a (some rest) down
      (up ++ if sb.state.canReceive ∧ payload ≠ [] then [.window (UInt32.ofNat payload.length)] else [])
      sent (got ++ [payload]) := by
  obtain ⟨hq, hrest⟩ := Stream.popRecv_some hpop
  have hw : rest.recvWindow = sb.recvWindow + payload.length := by rw [hrest]
  have hstate : rest.state = sb.state := by rw [hrest]
  obtain ⟨hwin, hle⟩ := h.bound sb rfl
  rw [hq, bytes_cons] at hwin hle
  have hsmall : payload.length < 2 ^ 32 := by unfold DEFAULT_WINDOW at hle; omega
  refine ⟨h.ordered, ?_, ?_, ?_, h.nonneg, ?_, ?_⟩
  · intro sa hsa hsend
    refine ⟨(h.writable sa hsa hsend).1, ?_⟩
    rintro sb' ⟨rfl⟩
    rw [hstate]
    exact (h.writable sa hsa hsend).2 sb rfl
  · rintro sb' ⟨rfl⟩ hno
    exact h.shut sb rfl (hstate ▸ hno)
  · rintro sa sb' hsa ⟨rfl⟩ hr
    have hcredit := h.credit sa sb hsa rfl (hstate ▸ hr)
    rw [hq, bytes_cons] at hcredit
    rw [granted_append]
    split_ifs with hc
    · simp only [granted_cons, Item.increment, UInt32.toNat_ofNat_of_lt' hsmall, granted_nil]
      omega
    · have hempty : payload = [] := by
        by_contra hne
        exact hc ⟨hstate ▸ hr, hne⟩
      subst hempty
      simpa using hcredit
  · rintro sb' ⟨rfl⟩
    omega
  · obtain ⟨rest', hsent, hrest'⟩ := h.content
    have hr := hrest' sb rfl
    rw [hq] at hr
    refine ⟨rest'.tail, ?_, ?_⟩
    · rw [hsent, hr]
      simp
    · rintro sb' ⟨rfl⟩
      rw [hr]
      rfl

end Half

end TrenchDb.Transport
