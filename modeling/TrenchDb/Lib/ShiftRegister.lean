import Mathlib.Dynamics.PeriodicPts.Lemmas

/-!
# Shift registers

A register of bits that moves down, with a polynomial that is added where the bit that leaves it is set. Fed with the
bits of a message it tells messages apart that differ in a window no longer than itself, and, as long as its period is
longer than the message, messages that differ in two places.
-/

open Function

namespace TrenchDb.Lib.ShiftRegister

variable {w : Nat} {p r s u v : BitVec w} {b : Bool} {bs cs : List Bool}

/-! ## Rounds -/

def round (p r : BitVec w) : BitVec w := if r.getLsbD 0 then p ^^^ (r >>> 1) else r >>> 1

theorem round_xor (p r s : BitVec w) : round p (r ^^^ s) = round p r ^^^ round p s := by
  unfold round
  rw [BitVec.getLsbD_xor, BitVec.ushiftRight_xor_distrib]
  cases r.getLsbD 0 <;> cases s.getLsbD 0
  · simp
  · simp only [Bool.false_bne, if_true, Bool.false_eq_true, if_false]
    rw [← BitVec.xor_assoc, BitVec.xor_comm p, BitVec.xor_assoc]
  · simp [BitVec.xor_assoc]
  · simp only [bne_self_eq_false, Bool.false_eq_true, if_false, if_true]
    rw [BitVec.xor_assoc, ← BitVec.xor_assoc (r >>> 1), BitVec.xor_comm (r >>> 1) p, BitVec.xor_assoc p,
      ← BitVec.xor_assoc p p, BitVec.xor_self, BitVec.zero_xor]

@[simp] theorem round_zero : round p 0 = 0 := by simp [round]

theorem iterate_round_xor (n : Nat) (r s : BitVec w) :
    (round p)^[n] (r ^^^ s) = (round p)^[n] r ^^^ (round p)^[n] s := by
  induction n generalizing r s with
  | zero => rfl
  | succ n ih => simp only [iterate_succ_apply, round_xor, ih]

theorem iterate_round_zero (n : Nat) : (round p)^[n] 0 = 0 := iterate_fixed round_zero n

/-! ## Messages -/

/-- A bit of weight `v` comes in. -/
def weigh (p v r : BitVec w) (b : Bool) : BitVec w := round p r ^^^ if b then v else 0

/-- A bit of data comes in: it counts as a bit that leaves the register. -/
def feed (p : BitVec w) : BitVec w → Bool → BitVec w := weigh p p

theorem foldl_weigh (bs : List Bool) (r : BitVec w) :
    bs.foldl (weigh p v) r = (round p)^[bs.length] r ^^^ bs.foldl (weigh p v) 0 := by
  induction bs generalizing r with
  | nil => simp
  | cons b bs ih =>
    rw [List.foldl_cons, List.foldl_cons, ih, ih (weigh p v 0 b), List.length_cons, iterate_succ_apply]
    simp only [weigh, round_zero, iterate_round_xor, iterate_round_zero, BitVec.xor_assoc]
    simp

theorem foldl_weigh_xor (h : bs.length = cs.length) (r s : BitVec w) :
    (List.zipWith xor bs cs).foldl (weigh p v) (r ^^^ s) = bs.foldl (weigh p v) r ^^^ cs.foldl (weigh p v) s := by
  induction bs generalizing cs r s with
  | nil =>
    obtain rfl := List.length_eq_zero_iff.mp h.symm
    rfl
  | cons b bs ih =>
    obtain ⟨c, cs, rfl⟩ := List.exists_cons_of_length_eq_add_one h.symm
    have hstep : weigh p v (r ^^^ s) (xor b c) = weigh p v r b ^^^ weigh p v s c := by
      have hbits : (if xor b c then v else 0) = (if b then v else 0) ^^^ if c then v else 0 := by
        cases b <;> cases c <;> simp
      unfold weigh
      rw [hbits, round_xor]
      ac_rfl
    rw [List.zipWith_cons_cons, List.foldl_cons, List.foldl_cons, List.foldl_cons, hstep]
    exact ih (Nat.succ.inj h) _ _

/-! ## Windows no longer than the register -/

/-- The number that the bits make, the lowest first. -/
def ofBits : List Bool → Nat
  | [] => 0
  | b :: bs => b.toNat + 2 * ofBits bs

theorem ofBits_lt (bs : List Bool) : ofBits bs < 2 ^ bs.length := by
  induction bs with
  | nil => exact Nat.one_pos
  | cons b bs ih =>
    have hbit := Bool.toNat_lt b
    rw [ofBits, List.length_cons, Nat.pow_succ]
    omega

theorem ofBits_eq_zero (h : ofBits bs = 0) : ∀ b ∈ bs, b = false := by
  induction bs with
  | nil => exact nofun
  | cons b bs ih =>
    rw [ofBits] at h
    refine List.forall_mem_cons.mpr ⟨?_, ih (by omega)⟩
    cases b
    · rfl
    · simp at h

theorem feed_eq (p r : BitVec w) (b : Bool) :
    feed p r b = if xor (r.getLsbD 0) b then p ^^^ (r >>> 1) else r >>> 1 := by
  unfold feed weigh round
  cases r.getLsbD 0 <;> cases b
  · simp
  · simp [BitVec.xor_comm]
  · simp
  · show p ^^^ (r >>> 1) ^^^ p = r >>> 1
    rw [BitVec.xor_comm p, BitVec.xor_assoc, BitVec.xor_self, BitVec.xor_zero]

theorem toNat_of_feed (hp : p.msb = true) (h : (feed p r b).toNat < 2 ^ (w - 1)) :
    r.toNat = 2 * (feed p r b).toNat + b.toNat := by
  have hlow : (r.getLsbD 0).toNat = r.toNat % 2 := by
    rw [BitVec.getLsbD, Nat.toNat_testBit, Nat.pow_zero, Nat.div_one]
  have hshift : (r >>> 1).toNat = r.toNat / 2 := by
    rw [BitVec.toNat_ushiftRight, Nat.shiftRight_eq_div_pow]
  rw [feed_eq] at h ⊢
  cases hb : xor (r.getLsbD 0) b with
  | true =>
    have hmsb : (p ^^^ (r >>> 1)).msb = true := by
      rw [BitVec.msb_xor, hp, BitVec.msb_ushiftRight]
      rfl
    rw [hb, if_pos rfl] at h
    rw [BitVec.msb_eq_decide, decide_eq_true_iff] at hmsb
    omega
  | false =>
    rw [show r.getLsbD 0 = b by simpa using hb] at hlow
    simp only [Bool.false_eq_true, if_false]
    omega

theorem toNat_of_foldl (hp : p.msb = true) (bs : List Bool) (r : BitVec w)
    (h : ((bs.foldl (feed p) r).toNat + 1) * 2 ^ bs.length ≤ 2 ^ w) :
    r.toNat = (bs.foldl (feed p) r).toNat * 2 ^ bs.length + ofBits bs := by
  induction bs generalizing r with
  | nil => simp [ofBits]
  | cons b bs ih =>
    rw [List.foldl_cons] at h ⊢
    rw [List.length_cons, Nat.pow_succ, ← Nat.mul_assoc] at h ⊢
    have hlow := ofBits_lt bs
    have hnext := ih (feed p r b) (by omega)
    have hpow : 2 ^ w ≤ 2 ^ (w - 1) * 2 := by
      rw [← Nat.pow_succ]
      exact Nat.pow_le_pow_right Nat.two_pos (by omega)
    rw [Nat.succ_mul] at h
    have hr := @toNat_of_feed _ p r b hp (by omega)
    rw [hr, ofBits]
    omega

/-- Messages of one length that differ only in a window no longer than the register leave different registers. -/
theorem foldl_feed_injective (hp : p.msb = true) (hlen : bs.length = cs.length) (hle : bs.length ≤ w)
    (h : bs.foldl (feed p) r = cs.foldl (feed p) r) : bs = cs := by
  have hzero : (List.zipWith xor bs cs).foldl (feed p) 0 = 0 := by
    have hsum := foldl_weigh_xor (p := p) (v := p) hlen r r
    rw [show bs.foldl (weigh p p) r = cs.foldl (weigh p p) r from h, BitVec.xor_self, BitVec.xor_self] at hsum
    exact hsum
  have hbits := toNat_of_foldl hp (List.zipWith xor bs cs) 0 (by
    rw [hzero, List.length_zipWith, ← hlen, Nat.min_self]
    simpa using Nat.pow_le_pow_right Nat.two_pos hle)
  rw [hzero] at hbits
  have hsame := ofBits_eq_zero (by simpa using hbits.symm)
  apply List.ext_getElem hlen
  intro i hi hi'
  have hbit := hsame _ (List.getElem_mem (n := i) (by simpa [← hlen] using hi))
  simpa using hbit

/-! ## Two places -/

/-- The register with only its highest bit set. -/
def unit (w : Nat) : BitVec w := BitVec.twoPow w (w - 1)

theorem round_injective (hp : p.msb = true) : Injective (round p) := by
  intro r s h
  have hzero : feed p (r ^^^ s) false = 0 := by
    rw [feed, weigh, round_xor, h, BitVec.xor_self]
    simp
  have hrs := @toNat_of_feed _ p (r ^^^ s) false hp (by rw [hzero]; simp)
  rw [hzero] at hrs
  exact BitVec.xor_eq_zero_iff.mp (BitVec.eq_of_toNat_eq (by simpa using hrs))

theorem round_twoPow {i : Nat} (h : i + 1 < w) : round p (BitVec.twoPow w (i + 1)) = BitVec.twoPow w i := by
  have hlow : (BitVec.twoPow w (i + 1)).getLsbD 0 = false := by simp [BitVec.getLsbD_twoPow]
  rw [round, hlow, if_neg (by simp)]
  apply BitVec.eq_of_getLsbD_eq
  intro j hj
  simp only [BitVec.getLsbD_ushiftRight, BitVec.getLsbD_twoPow]
  have hsame : (i + 1 = 1 + j) = (i = j) := by
    apply propext
    omega
  simp [hsame, h, Nat.lt_of_succ_lt h]

theorem iterate_round_unit {i : Nat} (h : i < w) : (round p)^[w - 1 - i] (unit w) = BitVec.twoPow w i := by
  obtain ⟨d, hd⟩ := Nat.exists_eq_add_of_le (Nat.le_sub_one_of_lt h)
  have hstep : ∀ d i, i + d < w → (round p)^[d] (BitVec.twoPow w (i + d)) = BitVec.twoPow w i := by
    intro d
    induction d with
    | zero => exact fun i _ => rfl
    | succ d ih =>
      intro i hi
      rw [iterate_succ_apply, ← Nat.add_assoc, @round_twoPow _ p (i + d) hi]
      exact ih i (by omega)
  rw [unit, hd, Nat.add_sub_cancel_left]
  exact hstep d i (by omega)

theorem iterate_round_width (hw : 0 < w) : (round p)^[w] (unit w) = p := by
  obtain ⟨n, rfl⟩ := Nat.exists_eq_add_of_le' hw
  have hlast := @iterate_round_unit _ p 0 hw
  have hlow : (BitVec.twoPow (n + 1) 0).getLsbD 0 = true := by simp
  have hgone : BitVec.twoPow (n + 1) 0 >>> 1 = 0 := by
    apply BitVec.eq_of_getLsbD_eq
    intro j hj
    simp
    omega
  rw [iterate_succ_apply']
  rw [show n + 1 - 1 - 0 = n from rfl] at hlast
  rw [hlast, round, hlow, if_pos rfl, hgone]
  simp

theorem foldl_feed_modify (hw : 0 < w) {i : Nat} (hi : i < bs.length) (r : BitVec w) :
    (bs.modify i not).foldl (feed p) r = bs.foldl (feed p) r ^^^ (round p)^[bs.length - 1 - i + w] (unit w) := by
  induction bs generalizing i r with
  | nil => exact absurd hi (Nat.not_lt_zero i)
  | cons b bs ih =>
    cases i with
    | zero =>
      have hnot : feed p r (!b) = feed p r b ^^^ p := by
        unfold feed weigh
        cases b with
        | false => simp
        | true =>
          show round p r ^^^ 0#w = round p r ^^^ p ^^^ p
          rw [BitVec.xor_assoc, BitVec.xor_self]
      rw [List.modify_zero_cons, List.foldl_cons, hnot, List.foldl_cons]
      have hfirst := foldl_weigh (p := p) (v := p) bs (feed p r b ^^^ p)
      have hsecond := foldl_weigh (p := p) (v := p) bs (feed p r b)
      rw [show bs.foldl (feed p) _ = _ from hfirst, show bs.foldl (feed p) (feed p r b) = _ from hsecond,
        iterate_round_xor, List.length_cons, Nat.add_sub_cancel, Nat.sub_zero, iterate_add_apply,
        iterate_round_width hw]
      ac_rfl
    | succ i =>
      rw [List.length_cons] at hi ⊢
      rw [List.modify_succ_cons, List.foldl_cons, List.foldl_cons, ih (Nat.lt_of_succ_lt_succ hi)]
      congr 2
      omega

theorem iterate_round_ne {i j : Nat} (hi : i < minimalPeriod (round p) (unit w))
    (hj : j < minimalPeriod (round p) (unit w)) (hne : i ≠ j) :
    (round p)^[i] (unit w) ≠ (round p)^[j] (unit w) := fun h => hne (iterate_injOn_Iio_minimalPeriod hi hj h)

/-! ## The period -/

theorem minimalPeriod_eq {α : Type} {f : α → α} {x : α} {n : Nat} (hperiod : f^[n] x = x)
    (hprime : ∀ q, q.Prime → q ∣ n → f^[n / q] x ≠ x) : minimalPeriod f x = n := by
  have hdvd : minimalPeriod f x ∣ n := IsPeriodicPt.minimalPeriod_dvd hperiod
  obtain ⟨k, hk⟩ := hdvd
  by_contra hne
  have hk1 : k ≠ 1 := by
    rintro rfl
    exact hne (by omega)
  obtain ⟨q, hq, m, rfl⟩ := Nat.exists_prime_and_dvd hk1
  have hdiv : n / q = minimalPeriod f x * m := by
    rw [hk, Nat.mul_left_comm, Nat.mul_div_cancel_left _ hq.pos]
  apply hprime q hq ⟨minimalPeriod f x * m, by rw [hk, Nat.mul_left_comm]⟩
  rw [hdiv]
  exact (isPeriodicPt_minimalPeriod f x).mul_const m

/-- The bits of `u` as the weights of `v`, the lowest first. -/
def mul (p u v : BitVec w) : BitVec w := ((List.range w).map u.getLsbD).foldl (weigh p v) 0

/-- A value that is computed before it is used. -/
def force {α : Type} (r : BitVec w) (f : BitVec w → α) : α :=
  Nat.rec (f 0) (fun n _ => f (BitVec.ofNat w (n + 1))) r.toNat

/-- The register after `n` rounds from the unit, for `n` below `2 ^ fuel`. -/
def power (p : BitVec w) : Nat → Nat → BitVec w
  | 0, _ => unit w
  | fuel + 1, n =>
    force (power p fuel (n / 2)) fun half =>
      force (mul p half half) fun square => if n % 2 = 1 then round p square else square

theorem force_eq {α : Type} (r : BitVec w) (f : BitVec w → α) : force r f = f r := by
  have hr : r = BitVec.ofNat w r.toNat := by simp
  unfold force
  cases hn : r.toNat with
  | zero =>
    rw [hr, hn]
    rfl
  | succ n =>
    conv_rhs => rw [hr, hn]

theorem map_foldl_weigh {f : BitVec w → BitVec w} (hadd : ∀ r s, f (r ^^^ s) = f r ^^^ f s)
    (hround : ∀ r, f (round p r) = round p (f r)) (bs : List Bool) (r : BitVec w) :
    f (bs.foldl (weigh p v) r) = bs.foldl (weigh p (f v)) (f r) := by
  have hzero : f 0 = 0 := by
    have h := hadd 0 0
    rwa [BitVec.xor_self, BitVec.xor_self] at h
  induction bs generalizing r with
  | nil => rfl
  | cons b bs ih =>
    rw [List.foldl_cons, List.foldl_cons, ih]
    congr 1
    unfold weigh
    rw [hadd, hround]
    cases b
    · simp only [Bool.false_eq_true, if_false, hzero]
    · rfl

theorem mul_xor (u v v' : BitVec w) : mul p u (v ^^^ v') = mul p u v ^^^ mul p u v' := by
  have hsum : ∀ (bs : List Bool) (r s : BitVec w),
      bs.foldl (weigh p (v ^^^ v')) (r ^^^ s) = bs.foldl (weigh p v) r ^^^ bs.foldl (weigh p v') s := by
    intro bs
    induction bs with
    | nil => exact fun r s => rfl
    | cons b bs ih =>
      intro r s
      rw [List.foldl_cons, List.foldl_cons, List.foldl_cons, ← ih]
      congr 1
      unfold weigh
      rw [round_xor]
      cases b
      · simp
      · simp only [if_true]
        ac_rfl
  have h := hsum ((List.range w).map u.getLsbD) 0 0
  rwa [BitVec.xor_self] at h

theorem mul_round (u v : BitVec w) : mul p u (round p v) = round p (mul p u v) := by
  have h := @map_foldl_weigh _ p v (round p) (round_xor p) (fun _ => rfl) ((List.range w).map u.getLsbD) 0
  rw [round_zero] at h
  exact h.symm

theorem mul_unit (u : BitVec w) : mul p u (unit w) = u := by
  have hlow : ∀ n ≤ w, ∀ j < w, (((List.range n).map u.getLsbD).foldl (weigh p (unit w)) 0).getLsbD j =
      (decide (w - n ≤ j) && u.getLsbD (j - (w - n))) := by
    intro n
    induction n with
    | zero =>
      intro _ j hj
      simp [show ¬ w ≤ j by omega]
    | succ n ih =>
      intro hn j hj
      have hbit := ih (by omega)
      rw [List.range_succ, List.map_append, List.foldl_append]
      generalize ((List.range n).map u.getLsbD).foldl (weigh p (unit w)) 0 = acc at hbit
      have hzero : acc.getLsbD 0 = false := by
        rw [hbit 0 (by omega)]
        simp [show ¬ w - n ≤ 0 by omega]
      simp only [List.map_cons, List.map_nil, List.foldl_cons, List.foldl_nil, weigh, round, hzero, Bool.false_eq_true,
        if_false, BitVec.getLsbD_xor, BitVec.getLsbD_ushiftRight]
      by_cases hlast : j = w - 1
      · subst hlast
        have hout : acc.getLsbD (1 + (w - 1)) = false := BitVec.getLsbD_of_ge _ _ (by omega)
        rw [hout, show w - 1 - (w - (n + 1)) = n by omega]
        cases u.getLsbD n <;> simp [unit, show 0 < w by omega]
        omega
      · have hunit : (unit w).getLsbD j = false := by simp [unit, BitVec.getLsbD_twoPow, Ne.symm hlast]
        have hnone : (if u.getLsbD n then unit w else 0).getLsbD j = false := by
          split
          · exact hunit
          · simp
        rw [hbit (1 + j) (by omega), hnone, Bool.xor_false, show 1 + j - (w - n) = j - (w - (n + 1)) by omega]
        congr 1
        exact decide_eq_decide.mpr (by omega)
  apply BitVec.eq_of_getLsbD_eq
  intro j hj
  rw [mul, hlow w le_rfl j hj]
  simp

theorem mul_iterate_unit (n : Nat) (v : BitVec w) : mul p ((round p)^[n] (unit w)) v = (round p)^[n] v := by
  have hmul := @map_foldl_weigh _ p (unit w) (mul p ((round p)^[n] (unit w))) (mul_xor _) (mul_round _)
    ((List.range w).map v.getLsbD) 0
  have hiter := @map_foldl_weigh _ p (unit w) (round p)^[n] (iterate_round_xor n)
    (fun r => (Function.Commute.iterate_self (round p) n).eq r) ((List.range w).map v.getLsbD) 0
  have hzero : mul p ((round p)^[n] (unit w)) 0 = 0 := by
    have h := @mul_xor _ p ((round p)^[n] (unit w)) 0 0
    rwa [BitVec.xor_self, BitVec.xor_self] at h
  rw [hzero, mul_unit] at hmul
  rw [iterate_round_zero] at hiter
  rw [← mul_unit (p := p) v]
  exact hmul.trans hiter.symm

theorem power_eq {fuel n : Nat} (h : n < 2 ^ fuel) : power p fuel n = (round p)^[n] (unit w) := by
  induction fuel generalizing n with
  | zero =>
    obtain rfl : n = 0 := by omega
    rfl
  | succ fuel ih =>
    rw [power, force_eq, force_eq, ih (by omega), mul_iterate_unit, ← iterate_add_apply]
    split
    · rw [← iterate_succ_apply' (round p)]
      congr 1
      omega
    · congr 1
      omega

end TrenchDb.Lib.ShiftRegister
