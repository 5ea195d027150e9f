import Mathlib.Tactic.NormNum.Prime
import TrenchDb.Lib.ShiftRegister
import TrenchDb.Wal.Bitwise
import TrenchDb.Wal.Broken

/-!
# Damage that the checksum finds

The register of the CRC is a shift register. Its period is longer than any record, and its highest bit is added at each
carry: two bits of a record cannot be damaged unseen, nor can any of up to 32 bits in a row of a payload.
-/

open Function TrenchDb.Lib TrenchDb.Lib.BigEndian TrenchDb.Lib.ShiftRegister

namespace TrenchDb.Wal

/-! ## The register -/

def POLYNOMIAL : BitVec 32 := 0xEDB88320

variable {crc : UInt32} {data data' : List UInt8} {bytes bytes' : List UInt8} {i n t : Nat}

theorem toBitVec_crc32Bit (crc : UInt32) (bit : Bool) :
    (crc32Bit crc bit).toBitVec = feed POLYNOMIAL crc.toBitVec bit := by
  have hlow : (crc &&& 1 != 0) = crc.toBitVec.getLsbD 0 := by
    have hbit : crc.toBitVec.getLsbD 0 = decide (crc.toNat % 2 = 1) := by
      rw [BitVec.getLsbD, Nat.testBit_zero]
      rfl
    have hnat : (crc &&& 1).toNat = crc.toNat % 2 := by
      rw [UInt32.toNat_and]
      exact Nat.and_one_is_mod _
    rw [hbit]
    rcases low_bit crc with h | h <;> rw [h] at hnat ⊢ <;> rw [← hnat] <;> rfl
  rw [crc32Bit, hlow, feed_eq]
  split
  · rfl
  · rfl

/-- The register after the data. -/
def register (data : List UInt8) : BitVec 32 := (data.flatMap bits).foldl (feed POLYNOMIAL) 0xFFFFFFFF

theorem toBitVec_crc32 (data : List UInt8) : (crc32 data).toBitVec = register data ^^^ 0xFFFFFFFF := by
  have hfold : ∀ (bs : List Bool) (crc : UInt32),
      (bs.foldl crc32Bit crc).toBitVec = bs.foldl (feed POLYNOMIAL) crc.toBitVec := by
    intro bs
    induction bs with
    | nil => exact fun _ => rfl
    | cons b bs ih =>
      intro crc
      rw [List.foldl_cons, ih, toBitVec_crc32Bit, List.foldl_cons]
  rw [crc32, foldl_crc32Step, UInt32.toBitVec_xor, hfold]
  rfl

theorem polynomial_msb : POLYNOMIAL.msb = true := by decide

/-- The polynomial is primitive. -/
theorem minimalPeriod_round : minimalPeriod (round POLYNOMIAL) (unit 32) = 2 ^ 32 - 1 := by
  apply minimalPeriod_eq
  · rw [← @power_eq _ _ 32 _ (by decide)]
    decide +kernel
  · intro q hq hdvd
    have hfactors : q ∣ 3 * (5 * (17 * (257 * 65537))) := hdvd
    have hcases : q = 3 ∨ q = 5 ∨ q = 17 ∨ q = 257 ∨ q = 65537 := by
      simpa only [hq.dvd_mul, Nat.prime_dvd_prime_iff_eq hq (show Nat.Prime 3 by norm_num),
        Nat.prime_dvd_prime_iff_eq hq (show Nat.Prime 5 by norm_num),
        Nat.prime_dvd_prime_iff_eq hq (show Nat.Prime 17 by norm_num),
        Nat.prime_dvd_prime_iff_eq hq (show Nat.Prime 257 by norm_num),
        Nat.prime_dvd_prime_iff_eq hq (show Nat.Prime 65537 by norm_num)] using hfactors
    rcases hcases with rfl | rfl | rfl | rfl | rfl
    all_goals
      rw [← @power_eq _ _ 32 _ (by decide)]
      decide +kernel

theorem round_ne {i j : Nat} (hi : i < 2 ^ 32 - 1) (hj : j < 2 ^ 32 - 1) (hne : i ≠ j) :
    (round POLYNOMIAL)^[i] (unit 32) ≠ (round POLYNOMIAL)^[j] (unit 32) :=
  iterate_round_ne (by rwa [minimalPeriod_round]) (by rwa [minimalPeriod_round]) hne

/-! ## Bits of bytes -/

theorem flatMap_bits_length (bytes : List UInt8) : (bytes.flatMap bits).length = 8 * bytes.length := by
  induction bytes with
  | nil => rfl
  | cons b bytes ih =>
    rw [List.flatMap_cons, List.length_append, ih, bits_length, List.length_cons]
    omega

theorem bits_injective : Injective bits := by
  intro b b' h
  apply UInt8.toBitVec_inj.mp
  apply BitVec.eq_of_getLsbD_eq
  intro j hj
  have hbit := congrArg (fun l => l[j]?) h
  simpa [bits, List.getElem?_map, List.getElem?_range hj] using hbit

theorem flatMap_bits_injective : Injective fun bytes : List UInt8 => bytes.flatMap bits := by
  intro bytes
  induction bytes with
  | nil =>
    intro bytes' (h : [] = _)
    have hlen := congrArg List.length h
    rw [flatMap_bits_length, List.length_nil] at hlen
    exact (List.length_eq_zero_iff.mp (by omega)).symm
  | cons b bytes ih =>
    intro bytes' (h : (b :: bytes).flatMap bits = bytes'.flatMap bits)
    cases bytes' with
    | nil =>
      have hlen := congrArg List.length h
      rw [flatMap_bits_length, flatMap_bits_length] at hlen
      simp at hlen
    | cons b' bytes' =>
      obtain ⟨hb, hrest⟩ := List.append_inj h (by rw [bits_length, bits_length])
      rw [bits_injective hb, ih hrest]

theorem take_flatMap_bits (bytes : List UInt8) (n : Nat) :
    (bytes.flatMap bits).take (8 * n) = (bytes.take n).flatMap bits := by
  induction bytes generalizing n with
  | nil => simp
  | cons b bytes ih =>
    cases n with
    | zero => simp
    | succ n =>
      rw [List.flatMap_cons, List.take_append, bits_length, List.take_of_length_le (by rw [bits_length]; omega),
        show 8 * (n + 1) - 8 = 8 * n by omega, ih]
      rfl

theorem drop_flatMap_bits (bytes : List UInt8) (n : Nat) :
    (bytes.flatMap bits).drop (8 * n) = (bytes.drop n).flatMap bits := by
  induction bytes generalizing n with
  | nil => simp
  | cons b bytes ih =>
    cases n with
    | zero => simp
    | succ n =>
      rw [List.flatMap_cons, List.drop_append, bits_length, List.drop_of_length_le (by rw [bits_length]; omega),
        show 8 * (n + 1) - 8 = 8 * n by omega, ih]
      rfl

/-- One bit is another one: bit `t % 8` of byte `t / 8`, the lowest bit of a byte first. -/
def flipBit (bytes : List UInt8) (t : Nat) : List UInt8 :=
  bytes.modify (t / 8) fun b => b ^^^ UInt8.ofBitVec (BitVec.twoPow 8 (t % 8))

@[simp] theorem flipBit_length : (flipBit bytes t).length = bytes.length := List.length_modify _ _ _

theorem bits_flip (b : UInt8) (ht : t < 8) :
    bits (b ^^^ UInt8.ofBitVec (BitVec.twoPow 8 t)) = (bits b).modify t not := by
  apply List.ext_getElem?
  intro j
  rw [List.getElem?_modify]
  by_cases hj : j < 8
  · simp [bits, List.getElem?_range hj, BitVec.getLsbD_twoPow, ht]
    by_cases h : t = j <;> simp [h]
  · simp [bits, List.getElem?_eq_none (show (List.range 8).length ≤ j by simpa using hj)]

theorem modify_append_left {α : Type} {f : α → α} {xs ys : List α} (h : t < xs.length) :
    (xs ++ ys).modify t f = xs.modify t f ++ ys := by
  induction xs generalizing t with
  | nil => exact absurd h (Nat.not_lt_zero t)
  | cons x xs ih =>
    cases t with
    | zero => rfl
    | succ t => exact congrArg (x :: ·) (ih (Nat.lt_of_succ_lt_succ h))

theorem modify_append_right {α : Type} {f : α → α} {xs ys : List α} (t : Nat) :
    (xs ++ ys).modify (xs.length + t) f = xs ++ ys.modify t f := by
  induction xs with
  | nil => rw [List.length_nil, Nat.zero_add, List.nil_append, List.nil_append]
  | cons x xs ih =>
    rw [List.length_cons, Nat.succ_add]
    exact congrArg (x :: ·) ih

theorem flatMap_bits_flip (bytes : List UInt8) (t : Nat) :
    (flipBit bytes t).flatMap bits = (bytes.flatMap bits).modify t not := by
  unfold flipBit
  induction bytes generalizing t with
  | nil => simp
  | cons b bytes ih =>
    rw [List.flatMap_cons]
    by_cases ht : t < 8
    · rw [Nat.div_eq_of_lt ht, Nat.mod_eq_of_lt ht, List.modify_zero_cons, List.flatMap_cons, bits_flip b ht,
        modify_append_left (by rwa [bits_length])]
    · obtain ⟨t, rfl⟩ := Nat.exists_eq_add_of_le (Nat.not_lt.mp ht)
      rw [Nat.add_mod_left, Nat.add_div_left _ (by decide), List.modify_succ_cons, List.flatMap_cons, ih]
      have h := @modify_append_right _ not (bits b) (bytes.flatMap bits) t
      rw [bits_length] at h
      exact h.symm

theorem flatMap_bits_cut {front back : List Bool} (h : bytes.flatMap bits = front ++ back)
    (hlen : front.length = 8 * n) : front = (bytes.take n).flatMap bits ∧ back = (bytes.drop n).flatMap bits := by
  rw [← take_flatMap_bits, ← drop_flatMap_bits, h]
  exact ⟨(List.take_left' hlen).symm, (List.drop_left' hlen).symm⟩

theorem flipBit_append_left (h : t < 8 * bytes.length) : flipBit (bytes ++ bytes') t = flipBit bytes t ++ bytes' :=
  modify_append_left (by omega)

theorem flipBit_append_right (t : Nat) :
    flipBit (bytes ++ bytes') (8 * bytes.length + t) = bytes ++ flipBit bytes' t := by
  unfold flipBit
  rw [Nat.mul_add_mod, Nat.mul_add_div (by decide), modify_append_right]

/-! ## What is damaged -/

theorem register_flip (ht : t < 8 * data.length) :
    register (flipBit data t) = register data ^^^ (round POLYNOMIAL)^[8 * data.length - 1 - t + 32] (unit 32) := by
  unfold register
  rw [flatMap_bits_flip, foldl_feed_modify (by decide) (by rwa [flatMap_bits_length]), flatMap_bits_length]

theorem register_injective_iff : crc32 data = crc32 data' ↔ register data = register data' := by
  rw [← UInt32.toBitVec_inj, toBitVec_crc32, toBitVec_crc32]
  constructor
  · intro h
    have hback := congrArg (· ^^^ (0xFFFFFFFF : BitVec 32)) h
    simpa [BitVec.xor_assoc] using hback
  · intro h
    rw [h]

theorem toBitVec_ofBE (b₀ b₁ b₂ b₃ : UInt8) : (UInt32.ofNat (ofBE [b₀, b₁, b₂, b₃])).toBitVec =
    b₀.toBitVec ++ b₁.toBitVec ++ b₂.toBitVec ++ b₃.toBitVec := by
  apply BitVec.eq_of_toNat_eq
  have hbound := ofBE_lt [b₀, b₁, b₂, b₃]
  have hor : ∀ (a : Nat) (b : UInt8), a <<< 8 ||| b.toNat = a * 256 + b.toNat := by
    intro a b
    rw [← Nat.shiftLeft_add_eq_or_of_lt (show b.toNat < 2 ^ 8 from b.toNat_lt), Nat.shiftLeft_eq]
  simp only [BitVec.toNat_append, UInt8.toNat_toBitVec, hor]
  rw [UInt32.toBitVec_ofNat', BitVec.toNat_ofNat, Nat.mod_eq_of_lt (by simpa using hbound)]
  simp only [ofBE, List.length_cons, List.length_nil]
  omega

theorem ofBE_flip (hlen : bytes.length = 4) (ht : t < 32) :
    (UInt32.ofNat (ofBE (flipBit bytes t))).toBitVec = (UInt32.ofNat (ofBE bytes)).toBitVec ^^^
      (round POLYNOMIAL)^[32 - 1 - (8 * (3 - t / 8) + t % 8)] (unit 32) := by
  obtain ⟨b₀, b₁, b₂, b₃, rfl⟩ : ∃ b₀ b₁ b₂ b₃, bytes = [b₀, b₁, b₂, b₃] := by
    match bytes, hlen with
    | [b₀, b₁, b₂, b₃], _ => exact ⟨b₀, b₁, b₂, b₃, rfl⟩
  have hr : t % 8 < 8 := Nat.mod_lt _ (by decide)
  have hplace : ∀ r < 8, BitVec.twoPow 8 r ++ 0#8 ++ 0#8 ++ 0#8 = BitVec.twoPow 32 (24 + r) ∧
      0#8 ++ BitVec.twoPow 8 r ++ 0#8 ++ 0#8 = BitVec.twoPow 32 (16 + r) ∧
      0#8 ++ 0#8 ++ BitVec.twoPow 8 r ++ 0#8 = BitVec.twoPow 32 (8 + r) ∧
      0#8 ++ 0#8 ++ 0#8 ++ BitVec.twoPow 8 r = BitVec.twoPow 32 r := by
    decide
  have hsum : ∀ x₀ x₁ x₂ x₃ y₀ y₁ y₂ y₃ : BitVec 8, (x₀ ++ x₁ ++ x₂ ++ x₃) ^^^ (y₀ ++ y₁ ++ y₂ ++ y₃) =
      (x₀ ^^^ y₀) ++ (x₁ ^^^ y₁) ++ (x₂ ^^^ y₂) ++ (x₃ ^^^ y₃) := by
    intros
    simp only [BitVec.xor_append]
  obtain ⟨h₀, h₁, h₂, h₃⟩ := hplace _ hr
  rw [iterate_round_unit (by omega)]
  have hbyte : t / 8 = 0 ∨ t / 8 = 1 ∨ t / 8 = 2 ∨ t / 8 = 3 := by omega
  unfold flipBit
  rcases hbyte with h | h | h | h <;> rw [h]
  · show (UInt32.ofNat (ofBE [b₀ ^^^ _, b₁, b₂, b₃])).toBitVec = _ ^^^ BitVec.twoPow 32 (24 + t % 8)
    rw [toBitVec_ofBE, toBitVec_ofBE, ← h₀]
    refine Eq.trans ?_ (hsum _ _ _ _ _ _ _ _).symm
    simp
  · show (UInt32.ofNat (ofBE [b₀, b₁ ^^^ _, b₂, b₃])).toBitVec = _ ^^^ BitVec.twoPow 32 (16 + t % 8)
    rw [toBitVec_ofBE, toBitVec_ofBE, ← h₁]
    refine Eq.trans ?_ (hsum _ _ _ _ _ _ _ _).symm
    simp
  · show (UInt32.ofNat (ofBE [b₀, b₁, b₂ ^^^ _, b₃])).toBitVec = _ ^^^ BitVec.twoPow 32 (8 + t % 8)
    rw [toBitVec_ofBE, toBitVec_ofBE, ← h₂]
    refine Eq.trans ?_ (hsum _ _ _ _ _ _ _ _).symm
    simp
  · show (UInt32.ofNat (ofBE [b₀, b₁, b₂, b₃ ^^^ _])).toBitVec = _ ^^^ BitVec.twoPow 32 (8 * (3 - 3) + t % 8)
    rw [toBitVec_ofBE, toBitVec_ofBE, Nat.sub_self, Nat.mul_zero, Nat.zero_add, ← h₃]
    refine Eq.trans ?_ (hsum _ _ _ _ _ _ _ _).symm
    simp

/-! ## The checksum and the payload of a record -/

/-- What follows the length of a record, as the reader reads it: the stored checksum and the payload. -/
def stored (body : List UInt8) : UInt32 := UInt32.ofNat (ofBE (body.take ENTRY_CKSUM_SIZE))

def covered (body : List UInt8) : List UInt8 := body.drop ENTRY_CKSUM_SIZE

/-- Zero where the checksum is that of the payload. -/
def syndrome (body : List UInt8) : BitVec 32 :=
  (stored body).toBitVec ^^^ (register (covered body) ^^^ 0xFFFFFFFF)

theorem crc32_eq_stored_iff {body : List UInt8} : crc32 (covered body) = stored body ↔ syndrome body = 0 := by
  rw [syndrome, ← toBitVec_crc32]
  exact ⟨fun h => by rw [h, BitVec.xor_self]; rfl,
    fun h => UInt32.toBitVec_inj.mp (BitVec.xor_eq_zero_iff.mp h).symm⟩

/-- How many rounds follow after a bit of the body has come in. -/
def rounds (len t : Nat) : Nat :=
  if t < 32 then 32 - 1 - (8 * (3 - t / 8) + t % 8) else 8 * (len - 4) - 1 - (t - 32) + 32

theorem rounds_injective {len t t' : Nat} (ht : t < 8 * len) (ht' : t' < 8 * len) (h : rounds len t = rounds len t') :
    t = t' := by
  unfold rounds at h
  split_ifs at h <;> omega

theorem rounds_lt {len t : Nat} (ht : t < 8 * len) : rounds len t < 8 * len := by
  unfold rounds
  split_ifs <;> omega

theorem syndrome_flip {body : List UInt8} (hlen : 4 ≤ body.length) (ht : t < 8 * body.length) :
    syndrome (flipBit body t) = syndrome body ^^^ (round POLYNOMIAL)^[rounds body.length t] (unit 32) := by
  have hsplit : body = body.take 4 ++ body.drop 4 := (List.take_append_drop 4 body).symm
  have hfour : (body.take 4).length = 4 := List.length_take_of_le hlen
  have hrest : (body.drop 4).length = body.length - 4 := List.length_drop
  unfold syndrome rounds
  by_cases hhead : t < 32
  · have hflip : flipBit body t = flipBit (body.take 4) t ++ body.drop 4 := by
      conv_lhs => rw [hsplit]
      exact flipBit_append_left (by omega)
    have hstored : (stored (flipBit body t)).toBitVec =
        (stored body).toBitVec ^^^ (round POLYNOMIAL)^[32 - 1 - (8 * (3 - t / 8) + t % 8)] (unit 32) := by
      rw [stored, hflip, show ENTRY_CKSUM_SIZE = 4 from rfl, List.take_left' (by rw [flipBit_length, hfour])]
      exact ofBE_flip hfour hhead
    have hcovered : covered (flipBit body t) = covered body := by
      rw [covered, hflip, show ENTRY_CKSUM_SIZE = 4 from rfl, List.drop_left' (by rw [flipBit_length, hfour])]
      rfl
    rw [if_pos hhead, hstored, hcovered]
    ac_rfl
  · obtain ⟨d, rfl⟩ := Nat.exists_eq_add_of_le (Nat.not_lt.mp hhead)
    have hflip : flipBit body (32 + d) = body.take 4 ++ flipBit (body.drop 4) d := by
      conv_lhs => rw [hsplit]
      have h := @flipBit_append_right (body.take 4) (body.drop 4) d
      rwa [hfour] at h
    have hstored : stored (flipBit body (32 + d)) = stored body := by
      rw [stored, hflip, show ENTRY_CKSUM_SIZE = 4 from rfl, List.take_left' hfour]
      rfl
    have hcovered : register (covered (flipBit body (32 + d))) = register (covered body) ^^^
        (round POLYNOMIAL)^[8 * (body.length - 4) - 1 - d + 32] (unit 32) := by
      rw [covered, hflip, show ENTRY_CKSUM_SIZE = 4 from rfl, List.drop_left' hfour, register_flip (by omega), hrest]
      rfl
    rw [if_neg hhead, hstored, hcovered, Nat.add_sub_cancel_left]
    ac_rfl

/-- The checksum and the payload of a record, as they stand in a file. -/
def body (payload : List UInt8) : List UInt8 := toBE ENTRY_CKSUM_SIZE (crc32 payload).toNat ++ payload

theorem frame_body {payload damaged : List UInt8} (hlen : damaged.length = (body payload).length) :
    toBE ENTRY_LEN_SIZE payload.length ++ damaged = frame (stored damaged) (covered damaged) ∧
      (covered damaged).length = payload.length := by
  have hsize : damaged.length = 4 + payload.length := by
    rw [hlen, body, List.length_append, toBE_length]
    rfl
  have htake : (damaged.take ENTRY_CKSUM_SIZE).length = 4 := by
    rw [List.length_take]
    unfold ENTRY_CKSUM_SIZE
    omega
  have hcovered : (covered damaged).length = payload.length := by
    rw [covered, List.length_drop]
    unfold ENTRY_CKSUM_SIZE
    omega
  have hbound := ofBE_lt (damaged.take ENTRY_CKSUM_SIZE)
  have hback := toBE_ofBE (damaged.take ENTRY_CKSUM_SIZE)
  rw [htake] at hbound hback
  have hnat : (stored damaged).toNat = ofBE (damaged.take ENTRY_CKSUM_SIZE) := by
    rw [stored, UInt32.toNat_ofNat', Nat.mod_eq_of_lt (by simpa using hbound)]
  refine ⟨?_, hcovered⟩
  rw [frame, hcovered, hnat, show toBE ENTRY_CKSUM_SIZE _ = _ from hback, List.append_assoc, covered,
    List.take_append_drop]

theorem replay_damaged {σ : Type} (T : Table σ) (store : σ) {entries : List WalEntry}
    (hfits : ∀ e ∈ entries, Fits e) (hi : i < entries.length) {damaged : List UInt8}
    (hlen : damaged.length = (body entries[i].toBytes).length) (hne : crc32 (covered damaged) ≠ stored damaged) :
    let file := logFile (entries.take i) ++ (toBE ENTRY_LEN_SIZE entries[i].toBytes.length ++ damaged ++
      (entries.drop (i + 1)).flatMap record)
    let start := recordStart entries i
    let store' := (entries.take i).foldl (applyEntry T) store
    (∃ reason, replayWithMode T store (some file) .Strict = (.error (.CorruptEntry start reason), store')) ∧
      replayWithMode T store (some file) .Lenient =
        (.ok { entriesApplied := i, finalPosition := start, truncatedAt := none, corruptionDetectedAt := some start },
          store') := by
  intro file start store'
  have hbefore : (logFile (entries.take i)).length = start := (recordStart_eq entries i).symm
  have hcount : (entries.take i).length = i := by
    rw [List.length_take]
    omega
  have htake : ∀ e ∈ entries.take i, Fits e := fun e he => hfits e (List.mem_of_mem_take he)
  have hentry : Fits entries[i] := hfits _ (List.getElem_mem hi)
  obtain ⟨hframe, hsame⟩ := frame_body hlen
  have hfile : file = logFile (entries.take i) ++ (frame (stored damaged) (covered damaged) ++
      (entries.drop (i + 1)).flatMap record) := by
    show logFile (entries.take i) ++ (_ ++ damaged ++ _) = _
    rw [hframe]
  have hreplay := fun mode => @replay_mismatch σ T mode store _ ((entries.drop (i + 1)).flatMap record)
    (covered damaged) (stored damaged) htake (by rw [hsame]; exact hentry) hne
  rw [← hfile, hbefore, hcount] at hreplay
  exact ⟨⟨_, hreplay .Strict⟩, hreplay .Lenient⟩

theorem logFile_body {entries : List WalEntry} (hi : i < entries.length) :
    logFile entries = logFile (entries.take i) ++ toBE ENTRY_LEN_SIZE entries[i].toBytes.length ++
      body entries[i].toBytes ++ (entries.drop (i + 1)).flatMap record := by
  have hsplit : logFile entries =
      logFile (entries.take i) ++ (record entries[i] ++ (entries.drop (i + 1)).flatMap record) := by
    rw [← List.flatMap_cons, ← List.drop_eq_getElem_cons hi, ← logFile_append, List.take_append_drop]
  rw [hsplit, record, frame, body]
  simp only [List.append_assoc]

theorem syndrome_body {payload : List UInt8} : syndrome (body payload) = 0 := by
  have hlen : (toBE ENTRY_CKSUM_SIZE (crc32 payload).toNat).length = ENTRY_CKSUM_SIZE := toBE_length _ _
  rw [← crc32_eq_stored_iff, covered, stored, body, List.drop_left' hlen, List.take_left' hlen,
    ofBE_toBE_of_lt (by simpa [ENTRY_CKSUM_SIZE] using (crc32 payload).toNat_lt), UInt32.ofNat_toNat]

theorem body_length {payload : List UInt8} : (body payload).length = 4 + payload.length := by
  rw [body, List.length_append, toBE_length]
  rfl

/-! ## Two bits -/

theorem two_bits_found {payload : List UInt8} {t t' : Nat} (hlen : payload.length ≤ defaultEntrySizeLimit)
    (ht : t < 8 * (body payload).length) (ht' : t' < 8 * (body payload).length) (hne : t ≠ t') :
    crc32 (covered (flipBit (flipBit (body payload) t) t')) ≠ stored (flipBit (flipBit (body payload) t) t') := by
  have hfour : 4 ≤ (body payload).length := by
    rw [body_length]
    exact Nat.le_add_right _ _
  have hshort : 8 * (body payload).length < 2 ^ 32 - 1 := by
    rw [body_length]
    unfold defaultEntrySizeLimit at hlen
    omega
  rw [Ne, crc32_eq_stored_iff, syndrome_flip (by rwa [flipBit_length]) (by rwa [flipBit_length]), flipBit_length,
    syndrome_flip hfour ht, syndrome_body]
  intro hzero
  have hsame := BitVec.xor_eq_zero_iff.mp hzero
  simp only [BitVec.ofNat_eq_ofNat, BitVec.zero_xor] at hsame
  exact round_ne ((rounds_lt ht).trans hshort) ((rounds_lt ht').trans hshort)
    (fun h => hne (rounds_injective ht ht' h)) hsame

/-! ## Bits in a row -/

section Window

variable {front window window' back : List Bool}

theorem feed_injective (b : Bool) : Injective fun r => feed POLYNOMIAL r b := by
  intro r s (h : round POLYNOMIAL r ^^^ _ = round POLYNOMIAL s ^^^ _)
  refine round_injective polynomial_msb ?_
  have hback := congrArg (· ^^^ if b then POLYNOMIAL else 0) h
  simpa [BitVec.xor_assoc] using hback

theorem burst_found (h : data.flatMap bits = front ++ window ++ back)
    (h' : data'.flatMap bits = front ++ window' ++ back) (hlen : window.length = window'.length)
    (hshort : window.length ≤ 32) (hne : window ≠ window') : crc32 data' ≠ crc32 data := by
  rw [Ne, register_injective_iff, register, register, h, h']
  simp only [List.foldl_append]
  intro heq
  exact hne (foldl_feed_injective polynomial_msb hlen hshort (Checksum.foldl_injective feed_injective back heq.symm))

theorem window_inside {head mid tail file : List UInt8}
    (h : (head ++ mid ++ tail).flatMap bits = front ++ window ++ back)
    (h' : file.flatMap bits = front ++ window' ++ back) (hlen : window.length = window'.length)
    (hstart : 8 * head.length ≤ front.length) (hend : front.length + window.length ≤ 8 * (head.length + mid.length)) :
    ∃ mid' f b, file = head ++ mid' ++ tail ∧ mid.flatMap bits = f ++ window ++ b ∧
      mid'.flatMap bits = f ++ window' ++ b := by
  have hhead := flatMap_bits_length head
  have hmid := flatMap_bits_length mid
  rw [List.flatMap_append, List.flatMap_append, List.append_assoc, List.append_assoc] at h
  obtain ⟨f, rfl, hrest⟩ : ∃ f, front = head.flatMap bits ++ f ∧
      mid.flatMap bits ++ tail.flatMap bits = f ++ (window ++ back) := by
    rcases List.append_eq_append_iff.mp h with ⟨f, hfront, hrest⟩ | ⟨f, hbits, hrest⟩
    · exact ⟨f, hfront, hrest⟩
    · have hnil := congrArg List.length hbits
      rw [List.length_append] at hnil
      obtain rfl := List.length_eq_zero_iff.mp (show f.length = 0 by omega)
      exact ⟨[], by simpa using hbits.symm, by simpa using hrest.symm⟩
  rw [List.length_append] at hend
  obtain ⟨b, hbits, rfl⟩ : ∃ b, mid.flatMap bits = f ++ window ++ b ∧ back = b ++ tail.flatMap bits := by
    rw [← List.append_assoc] at hrest
    rcases List.append_eq_append_iff.mp hrest with ⟨b, hwindow, hback⟩ | ⟨b, hbits, hback⟩
    · have hnil := congrArg List.length hwindow
      rw [List.length_append, List.length_append] at hnil
      obtain rfl := List.length_eq_zero_iff.mp (show b.length = 0 by omega)
      exact ⟨[], by simpa using hwindow.symm, by simpa using hback.symm⟩
    · exact ⟨b, hbits, hback⟩
  have hsize := congrArg List.length hbits
  simp only [List.length_append] at hsize
  rw [List.append_assoc, List.append_assoc] at h'
  obtain ⟨htake, hdrop⟩ := flatMap_bits_cut h' hhead
  rw [← List.append_assoc, ← List.append_assoc] at hdrop
  obtain ⟨hmid', htail⟩ := flatMap_bits_cut (n := mid.length) hdrop.symm
    (by simp only [List.length_append]; omega)
  refine ⟨(file.drop head.length).take mid.length, f, b, ?_, hbits, hmid'.symm⟩
  conv_lhs => rw [← List.take_append_drop head.length file,
    ← List.take_append_drop mid.length (file.drop head.length)]
  rw [← flatMap_bits_injective htake, ← flatMap_bits_injective htail, List.append_assoc]

end Window

theorem recordStart_next {entries : List WalEntry} (hi : i < entries.length) :
    recordStart entries (i + 1) = recordStart entries i + ENTRY_LEN_SIZE + (body entries[i].toBytes).length := by
  have hrecord := record_length entries[i]
  unfold ENTRY_OVERHEAD ENTRY_CKSUM_SIZE at hrecord
  rw [body_length, recordStart, Records.stop_succ hi, recordStart]
  omega

section Damage

variable {σ : Type} {entries : List WalEntry} {file : List UInt8} {t' : Nat}

/-- Two bits of the checksum or the payload of record `i` are others. -/
theorem two_bits_damaged (T : Table σ) (store : σ) (hfits : ∀ e ∈ entries, Fits e) (hi : i < entries.length)
    (hstart : 8 * (recordStart entries i + ENTRY_LEN_SIZE) ≤ t) (hend : t < 8 * recordStart entries (i + 1))
    (hstart' : 8 * (recordStart entries i + ENTRY_LEN_SIZE) ≤ t') (hend' : t' < 8 * recordStart entries (i + 1))
    (hne : t ≠ t') :
    let file := flipBit (flipBit (logFile entries) t) t'
    let start := recordStart entries i
    let store' := (entries.take i).foldl (applyEntry T) store
    (∃ reason, replayWithMode T store (some file) .Strict = (.error (.CorruptEntry start reason), store')) ∧
      replayWithMode T store (some file) .Lenient =
        (.ok { entriesApplied := i, finalPosition := start, truncatedAt := none, corruptionDetectedAt := some start },
          store') := by
  intro file start store'
  have hfront : (logFile (entries.take i) ++ toBE ENTRY_LEN_SIZE entries[i].toBytes.length).length =
      start + ENTRY_LEN_SIZE := by
    rw [List.length_append, toBE_length, ← recordStart_eq]
  have hnext := recordStart_next hi
  obtain ⟨d, rfl⟩ := Nat.exists_eq_add_of_le hstart
  obtain ⟨d', rfl⟩ := Nat.exists_eq_add_of_le hstart'
  have hfile : file = logFile (entries.take i) ++ (toBE ENTRY_LEN_SIZE entries[i].toBytes.length ++
      flipBit (flipBit (body entries[i].toBytes) d) d' ++ (entries.drop (i + 1)).flatMap record) := by
    have hflip : ∀ (b : List UInt8) (d : Nat), d < 8 * b.length →
        flipBit (logFile (entries.take i) ++ toBE ENTRY_LEN_SIZE entries[i].toBytes.length ++ b ++
          (entries.drop (i + 1)).flatMap record) (8 * (start + ENTRY_LEN_SIZE) + d) =
        logFile (entries.take i) ++ toBE ENTRY_LEN_SIZE entries[i].toBytes.length ++ flipBit b d ++
          (entries.drop (i + 1)).flatMap record := by
      intro b d hd
      rw [flipBit_append_left (by rw [List.length_append, hfront]; omega), ← hfront, flipBit_append_right]
    show flipBit (flipBit (logFile entries) _) _ = _
    rw [logFile_body hi, hflip _ _ (by omega), hflip _ _ (by rw [flipBit_length]; omega)]
    simp only [List.append_assoc]
  rw [hfile]
  refine replay_damaged T store hfits hi (by rw [flipBit_length, flipBit_length]) ?_
  exact two_bits_found (hfits _ (List.getElem_mem hi)) (by omega) (by omega) fun h => hne (by rw [h])

/-- Up to 32 bits in a row of the payload of record `i` are others. -/
theorem burst_damaged (T : Table σ) (store : σ) (hfits : ∀ e ∈ entries, Fits e) (hi : i < entries.length)
    (front window window' back : List Bool) (hlog : (logFile entries).flatMap bits = front ++ window ++ back)
    (hfile : file.flatMap bits = front ++ window' ++ back) (hlen : window.length = window'.length)
    (hshort : window.length ≤ 32) (hne : window ≠ window')
    (hstart : 8 * (recordStart entries i + ENTRY_OVERHEAD) ≤ front.length)
    (hend : front.length + window.length ≤ 8 * recordStart entries (i + 1)) :
    let start := recordStart entries i
    let store' := (entries.take i).foldl (applyEntry T) store
    (∃ reason, replayWithMode T store (some file) .Strict = (.error (.CorruptEntry start reason), store')) ∧
      replayWithMode T store (some file) .Lenient =
        (.ok { entriesApplied := i, finalPosition := start, truncatedAt := none, corruptionDetectedAt := some start },
          store') := by
  intro start store'
  let head := logFile (entries.take i) ++ toBE ENTRY_LEN_SIZE entries[i].toBytes.length ++
    toBE ENTRY_CKSUM_SIZE (crc32 entries[i].toBytes).toNat
  have hhead : head.length = start + ENTRY_OVERHEAD := by
    simp only [head, List.length_append, toBE_length]
    rw [← recordStart_eq]
    rfl
  have hnext := recordStart_next hi
  rw [body_length] at hnext
  have hwhole : logFile entries = head ++ entries[i].toBytes ++ (entries.drop (i + 1)).flatMap record := by
    rw [logFile_body hi, body]
    simp only [head, List.append_assoc]
  have hoverhead : ENTRY_OVERHEAD = ENTRY_LEN_SIZE + 4 := rfl
  rw [hwhole] at hlog
  obtain ⟨payload', f, b, rfl, hbits, hbits'⟩ := window_inside hlog hfile hlen (by omega) (by omega)
  have hsame : payload'.length = entries[i].toBytes.length := by
    have hlen' := congrArg List.length hbits
    have hlen'' := congrArg List.length hbits'
    rw [flatMap_bits_length] at hlen' hlen''
    simp only [List.length_append] at hlen' hlen''
    omega
  have hcksum : (toBE ENTRY_CKSUM_SIZE (crc32 entries[i].toBytes).toNat).length = ENTRY_CKSUM_SIZE := toBE_length _ _
  have hreplay := @replay_damaged _ _ T store _ hfits hi
    (toBE ENTRY_CKSUM_SIZE (crc32 entries[i].toBytes).toNat ++ payload')
    (by rw [body, List.length_append, List.length_append, hsame]) (by
      rw [covered, List.drop_left' hcksum, stored, List.take_left' hcksum,
        ofBE_toBE_of_lt (by simpa [ENTRY_CKSUM_SIZE] using (crc32 entries[i].toBytes).toNat_lt), UInt32.ofNat_toNat]
      exact burst_found hbits hbits' hlen hshort hne)
  simp only [head, List.append_assoc] at hreplay ⊢
  exact hreplay

end Damage

theorem two_bits_damaged_twoTables :
    (replayWithMode memoryTable .new (some (flipBit (flipBit (logFile twoTables) 210) 287)) .Lenient).1 =
      .ok { entriesApplied := 1, finalPosition := 22, truncatedAt := none, corruptionDetectedAt := some 22 } := by
  rw [(@two_bits_damaged 1 210 _ twoTables 287 memoryTable .new (by decide) (by decide) (by decide +kernel)
    (by decide +kernel) (by decide +kernel) (by decide +kernel) (by decide)).2]
  decide +kernel

theorem burst_damaged_twoTables :
    (replayWithMode memoryTable .new (some ((logFile twoTables).take 32 ++ [1, 2, 3, 4])) .Lenient).1 =
      .ok { entriesApplied := 1, finalPosition := 22, truncatedAt := none, corruptionDetectedAt := some 22 } := by
  rw [(@burst_damaged 1 _ twoTables _ memoryTable .new (by decide) (by decide)
    (((logFile twoTables).take 32).flatMap bits) (((logFile twoTables).drop 32).flatMap bits)
    ([1, 2, 3, 4].flatMap bits) [] (by decide +kernel) (by decide +kernel) (by decide +kernel) (by decide +kernel)
    (by decide +kernel) (by decide +kernel) (by decide +kernel)).2]
  decide +kernel

end TrenchDb.Wal
