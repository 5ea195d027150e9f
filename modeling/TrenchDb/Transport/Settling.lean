import TrenchDb.Transport.Mirrored
import TrenchDb.Transport.Session

/-!
# A link comes to rest

From every reachable state of a link `flush` and `recv_frame` calls alone lead to a state in
which nothing is on its way, and each end holds what was to arrive.
-/

open TrenchDb.Lib.BigEndian TrenchDb.Lib.Incremental TrenchDb.Lib.Lts

namespace TrenchDb.Transport

/-! ## Frames that call for an answer -/

/-- How many `recv_frame` calls the frame causes, its answer included. -/
def Frame.load (f : Frame) : Nat :=
  if f.header.frameType = .Hello ∨ f.header.frameType = .Ping then 2 else 1

namespace FrameLink

variable {p p' : FrameLink} {x y : Role} {s : UInt32}

/-- How many `recv_frame` calls the frames on their way cause. -/
def load (p : FrameLink) : Nat :=
  ((p.queue .Initiator).map Frame.load).sum + ((p.queue .Acceptor).map Frame.load).sum

theorem load_eq (p : FrameLink) (x : Role) :
    p.load = ((p.queue x).map Frame.load).sum + ((p.queue x.peer).map Frame.load).sum := by
  cases x
  · rfl
  · exact Nat.add_comm _ _

/-- What `x` will hold of the stream `s` once the frames on their way to it have arrived. -/
def arriving (p : FrameLink) (x : Role) (s : UInt32) : Option Stream :=
  arrived s ((p.talk s).line x) ((p.talk s).held x)

theorem Conforming.recv_load (h : Conforming p) {f : Frame} {rest outs : List Frame} {r : Except TransportError Unit}
    {e : Endpoint} (hq : p.queue x = f :: rest) (hrec : (p.ends x).Receives f r outs e) :
    (p.post x e outs rest).load < p.load := by
  rw [load_eq _ x, load_eq p x, post_queue, post_queue_peer, hq, List.map_append, List.sum_append, List.map_cons,
    List.sum_cons]
  have hlt : (outs.map Frame.load).sum < f.load := by
    cases h.arrives hq hrec with
    | stream => unfold Frame.load; split_ifs <;> simp
    | helloed hf => subst hf; decide
    | welcomed hf => subst hf; decide
    | pinged ht => simp [Frame.load, ht]
    | pongless ht => simp [Frame.load, ht]
    | ponged ht => simp [Frame.load, ht]
  omega

theorem Conforming.recv_arriving (h : Conforming p) {f : Frame} {rest outs : List Frame}
    {r : Except TransportError Unit} {e : Endpoint} (hq : p.queue x = f :: rest)
    (hrec : (p.ends x).Receives f r outs e) (y : Role) (s : UInt32) :
    (p.post x e outs rest).arriving y s = p.arriving y s := by
  have hemits := h.emits x f (by rw [hq]; exact List.mem_cons_self)
  have harr := h.arrives hq hrec
  have houts : outs.filterMap (Frame.item s) = [] := by cases harr <;> simp
  rcases x.eq_or_peer y with rfl | rfl
  · simp only [arriving, talk, post_queue, post_ends, hq]
    cases hi : f.item s with
    | none =>
      rw [List.filterMap_cons_none hi]
      congr 1
      cases harr with
      | stream _ ht => rw [onStream_lookup hemits (h.role_eq y) ht s, hi]
      | helloed | welcomed | pinged | pongless | ponged => rfl
    | some i =>
      have ht : f.header.frameType.isStream := by
        by_contra ht
        rw [item_of_not_stream ht] at hi
        cases hi
      rw [List.filterMap_cons_some hi, arrived, arrived, List.foldl_cons]
      congr 1
      cases harr with
      | stream => rw [onStream_lookup hemits (h.role_eq y) ht s, hi]
      | helloed hf => rw [hf] at ht; cases ht
      | welcomed hf => rw [hf] at ht; cases ht
      | pinged hf | pongless hf | ponged hf => rw [hf] at ht; cases ht
  · simp only [arriving, talk, post_queue_peer, post_ends_peer, List.filterMap_append, houts, List.append_nil]

end FrameLink

/-! ## One more frame -/

namespace Link

variable {l l' : Link} {p : FrameLink} {x : Role} {ls : List (Role × Event)}

theorem recv_step (h : Rep l p) (hempty : (l.mgr x.peer).conn.writeBuffer = []) {f : Frame} {rest : List Frame}
    (hq : p.queue x = f :: rest) : ∃ g l', Step l (x, .received (some g)) l' := by
  have hpend := h.pending_eq x
  rw [pending, hempty, List.append_nil] at hpend
  rcases trnc.verdict_encodings verdict_nil (fun g hg => trnc_encodes (h.valid x g hg)) hpend with
    hmore | ⟨g, -, -, hitem, -⟩
  · -- The bytes on their way complete the frame.
    have hall : trnc.verdict ((l.mgr x).conn.readBuffer ++ l.flight x) = .item f f.wire.length := by
      rw [hpend, hq, List.flatMap_cons]
      exact trnc_encodes (h.valid x f (by rw [hq]; exact List.mem_cons_self)) _
    have hflight : l.flight x ≠ [] := by
      intro hnil
      rw [hnil, List.append_nil, hmore] at hall
      cases hall
    have hread := (@recvFrame_bytes _ [] _ (verdict_more.mp hmore) hflight).trans
      (@recvFrame_ok _ [] _ _ (verdict_item.mp hall))
    exact ⟨_, _, @Step.recv l x [l.flight x] [] _ _ (by simpa using hflight) (by simp)
      (StreamManager.recvFrame_some hread)⟩
  · exact ⟨_, _, @Step.recv l x [] (l.flight x) _ _ (by simp) (by simp)
      (StreamManager.recvFrame_some (@recvFrame_ok _ [] _ _ (verdict_item.mp hitem)))⟩

theorem flush_same {reply : Reply} {p' : FrameLink} (h : FrameLink.Step p (x, .called .flush reply) p') : p' = p := by
  cases h with
  | call x hacts =>
    cases hacts with
    | failed => exact FrameLink.post_self
    | flushed => exact FrameLink.post_self

/-- A `flush` call, or a `recv_frame` call. -/
def delivers : Role × Event → Bool
  | (_, .called .flush _) => true
  | (_, .received _) => true
  | _ => false

theorem deliver_one (h : Rep l p) (hconf : FrameLink.Conforming p) {f : Frame} {rest : List Frame}
    (hq : p.queue x = f :: rest) : ∃ ks l' p', Run Step l ks l' ∧ (∀ k ∈ ks, delivers k) ∧ Rep l' p' ∧
      p'.Conforming ∧ p'.load < p.load ∧ ∀ y s, p'.arriving y s = p.arriving y s := by
  have hflush := Step.call (l := l) x.peer .flush
  obtain ⟨p₁, hp₁, hrep₁⟩ := h.step hflush
  obtain rfl := flush_same hp₁
  have hempty : ((l.set x.peer ((l.mgr x.peer).perform .flush).2 0).mgr x.peer).conn.writeBuffer = [] := by
    simp only [set, Function.update_self]
    exact StreamManager.flush_empties (h.settled x.peer)
  obtain ⟨g, l', hrecv⟩ := recv_step hrep₁ hempty hq
  obtain ⟨p', hp', hrep'⟩ := hrep₁.step hrecv
  refine ⟨_, l', p', .cons hflush (.single hrecv), by simp [delivers], hrep', hconf.step hp', ?_⟩
  generalize hev : (x, Event.received (some g)) = ev at hp'
  cases hp' with
  | call => cases hev
  | wait => cases hev
  | @recv y f' rest' r outs e hq' hrec =>
    obtain rfl := (Prod.mk.inj hev).1
    exact ⟨hconf.recv_load hq' hrec, hconf.recv_arriving hq' hrec⟩

theorem deliver_all (h : Rep l p) (hconf : FrameLink.Conforming p) : ∃ ks l' p', Run Step l ks l' ∧
    (∀ k ∈ ks, delivers k) ∧ Rep l' p' ∧ (∀ x, p'.queue x = []) ∧ ∀ y s, p'.arriving y s = p.arriving y s := by
  induction hn : p.load using Nat.strong_induction_on generalizing l p with
  | _ n ih =>
    by_cases hall : ∀ x, p.queue x = []
    · exact ⟨[], l, p, .nil, by simp, h, hall, fun _ _ => rfl⟩
    · push Not at hall
      obtain ⟨x, hx⟩ := hall
      obtain ⟨f, rest, hq⟩ := List.exists_cons_of_ne_nil hx
      obtain ⟨ks, l₁, p₁, hrun, hks, hrep, hconf₁, hlt, harr⟩ := deliver_one h hconf hq
      obtain ⟨ks', l₂, p₂, hrun', hks', hrep', hempty, harr'⟩ := ih p₁.load (hn ▸ hlt) hrep hconf₁ rfl
      exact ⟨ks ++ ks', l₂, p₂, hrun.append hrun', List.forall_mem_append.mpr ⟨hks, hks'⟩, hrep', hempty,
        fun y s => (harr' y s).trans (harr y s)⟩

/-- From every reachable state some `flush` and `recv_frame` calls lead to a state in which no byte is on its
way in either direction, and each end holds of every stream what was to arrive. -/
theorem comes_to_rest (h : Run Step init ls l) : ∃ ks l', Run Step l ks l' ∧ (∀ k ∈ ks, delivers k) ∧
    (∀ x, l'.pending x = []) ∧ ∀ x s, (l'.mgr x).streams.lookup s = l.arriving x s := by
  obtain ⟨p, hprun, hrep⟩ := Rep.run h
  obtain ⟨ks, l', p', hrun, hks, hrep', hempty, harr⟩ := deliver_all hrep (FrameLink.conforming_of_run hprun)
  refine ⟨ks, l', hrun, hks, fun x => by rw [hrep'.pending_eq, hempty]; rfl, fun x s => ?_⟩
  have hx := harr x s
  simp only [FrameLink.arriving, FrameLink.talk, hempty, hrep'.ends_eq, hrep.ends_eq, ← hrep.queue_eq] at hx
  exact hx

theorem comes_to_rest_exchange : ∃ ks l', Run Step (init.play exchange).2 ks l' ∧ (∀ k ∈ ks, delivers k) ∧
    (∀ x, l'.pending x = []) ∧ ((l'.mgr .Initiator).streams.lookup 1).map Stream.sendWindow = some 65536 := by
  obtain ⟨ks, l', hrun, hks, hrest, hheld⟩ := comes_to_rest exchange_run
  refine ⟨ks, l', hrun, hks, hrest, ?_⟩
  rw [hheld]
  decide +kernel

end Link

end TrenchDb.Transport
