import TrenchDb.Wal.Reader
import Mathlib.Data.List.TakeWhile

/-!
# Reads in pieces

`read_all` of `engine/src/wal/reader.rs` over any `Read`: the bytes come in pieces, and a read may be interrupted.
-/

namespace TrenchDb.Wal

/-! ## What a reader delivers -/

/-- What comes next: some bytes, or an error of the kind `Interrupted`. -/
inductive Delivery
  | piece (first : UInt8) (rest : List UInt8)
  | interrupted (error : String)
  deriving DecidableEq, Repr

namespace Delivery

def bytes : Delivery → List UInt8
  | .piece first rest => first :: rest
  | .interrupted _ => []

def isPiece : Delivery → Bool
  | .piece _ _ => true
  | .interrupted _ => false

end Delivery

/-- All that is still to come, up to the end of the input. -/
abbrev Source : Type := List Delivery

namespace Source

/-- The bytes that remain. -/
def bytes (source : Source) : List UInt8 := source.flatMap Delivery.bytes

/-- `Read::read` into a buffer of `n` bytes. What a piece has more stays for the next call. -/
def read : Source → Nat → Except String (List UInt8) × Source
  | [], _ => (.ok [], [])
  | .interrupted error :: source, _ => (.error error, source)
  | .piece first rest :: source, n =>
    match (first :: rest).drop n with
    | [] => (.ok (first :: rest), source)
    | first' :: rest' => (.ok ((first :: rest).take n), .piece first' rest' :: source)

/-- The loop of `read_all` for a buffer of `n` bytes, of which `buf` are there: the result, the bytes in the buffer, and
what is still to come. -/
def fill (source : Source) (buf : List UInt8) (n : Nat) : Except WalError ReadStatus × List UInt8 × Source :=
  if _ : buf.length < n then
    match source.read (n - buf.length) with
    | (.ok [], source) => (.ok (if buf = [] then .Eof else .Partial), buf, source)
    | (.ok (b :: bs), source) => fill source (buf ++ b :: bs) n
    | (.error error, source) => (.error (.Io error), buf, source)
  else (.ok .Complete, buf, source)
termination_by n - buf.length
decreasing_by
  rw [List.length_append, List.length_cons]
  omega

/-- `read_all`. -/
def readAll (source : Source) (n : Nat) : Except WalError ReadStatus × List UInt8 × Source := source.fill [] n

/-! ## One read -/

/-- What comes before the first interruption. -/
def uninterrupted (source : Source) : Source := source.takeWhile Delivery.isPiece

variable {source source' : Source} {buf : List UInt8} {n m : Nat}

theorem read_cases (hn : 0 < n) (source : Source) :
    (source = [] ∧ source.read n = (.ok [], [])) ∨
    (∃ error rest, source = .interrupted error :: rest ∧ source.read n = (.error error, rest)) ∨
    ∃ b bs source', source.read n = (.ok (b :: bs), source') ∧ bs.length < n ∧
      source.bytes = b :: bs ++ source'.bytes ∧
      source.uninterrupted.bytes = b :: bs ++ source'.uninterrupted.bytes ∧
      source.all Delivery.isPiece = source'.all Delivery.isPiece := by
  cases source with
  | nil => exact .inl ⟨rfl, rfl⟩
  | cons delivery source =>
    cases delivery with
    | interrupted error => exact .inr (.inl ⟨error, source, rfl, rfl⟩)
    | piece first rest =>
      refine .inr (.inr ?_)
      obtain ⟨m, rfl⟩ := Nat.exists_eq_succ_of_ne_zero hn.ne'
      cases hdrop : (first :: rest).drop (m + 1) with
      | nil =>
        have hle := List.drop_eq_nil_iff.mp hdrop
        refine ⟨first, rest, source, ?_, hle, rfl, rfl, rfl⟩
        simp only [read, hdrop]
      | cons first' rest' =>
        have hsplit : first :: rest = first :: rest.take m ++ first' :: rest' := by
          rw [← hdrop, List.drop_succ_cons, List.cons_append, List.take_append_drop]
        refine ⟨first, rest.take m, .piece first' rest' :: source, ?_, ?_, ?_, ?_, rfl⟩
        · simp only [read, hdrop]
          rfl
        · rw [List.length_take]
          omega
        · simp only [bytes, List.flatMap_cons, Delivery.bytes, hsplit, List.append_assoc]
        · simp only [uninterrupted, List.takeWhile_cons, Delivery.isPiece, if_true, bytes, List.flatMap_cons,
            Delivery.bytes, hsplit, List.append_assoc]

/-! ## The loop -/

theorem fill_full (h : n ≤ buf.length) : source.fill buf n = (.ok .Complete, buf, source) := by
  rw [fill, dif_neg (Nat.not_lt.mpr h)]

theorem fill_piece {b : UInt8} {bs : List UInt8} (h : buf.length < n)
    (hread : source.read (n - buf.length) = (.ok (b :: bs), source')) :
    source.fill buf n = source'.fill (buf ++ b :: bs) n := by
  rw [fill, dif_pos h]
  split
  · rename_i heq
    rw [hread] at heq
    cases heq
  · rename_i heq
    rw [hread] at heq
    cases heq
    rfl
  · rename_i heq
    rw [hread] at heq
    cases heq

theorem fill_complete (hle : buf.length ≤ n) (h : n ≤ buf.length + source.uninterrupted.bytes.length) :
    ∃ source', source.fill buf n = (.ok .Complete, buf ++ source.bytes.take (n - buf.length), source') ∧
      source'.bytes = source.bytes.drop (n - buf.length) := by
  induction hk : n - buf.length using Nat.strong_induction_on generalizing source buf with
  | _ k ih =>
    rcases Nat.eq_or_lt_of_le hle with heq | hlt
    · subst hk
      rw [fill_full heq.ge, heq, Nat.sub_self]
      exact ⟨source, by simp⟩
    · have hpos : 0 < n - buf.length := by omega
      rcases read_cases hpos source with ⟨rfl, -⟩ | ⟨error, rest, rfl, -⟩ |
        ⟨b, bs, source', hread, hshort, hbytes, hunint, -⟩
      · simp [uninterrupted, bytes] at h
        omega
      · simp [uninterrupted, Delivery.isPiece, bytes] at h
        omega
      · rw [hunint, List.length_append, List.length_cons] at h
        rw [fill_piece hlt hread]
        have hlength : (buf ++ b :: bs).length = buf.length + (bs.length + 1) := by simp
        have hle' : (buf ++ b :: bs).length ≤ n := by omega
        have h' : n ≤ (buf ++ b :: bs).length + source'.uninterrupted.bytes.length := by omega
        obtain ⟨source'', hfill, hdrop⟩ := ih (n - (buf ++ b :: bs).length) (by omega) hle' h' rfl
        have htaken : k = (b :: bs).length + (n - (buf ++ b :: bs).length) := by
          rw [hlength, List.length_cons]
          omega
        refine ⟨source'', ?_, ?_⟩
        · rw [hfill, hbytes, htaken, List.take_length_add_append, List.append_assoc]
        · rw [hdrop, hbytes, htaken, List.drop_length_add_append]

theorem fill_end (hall : source.all Delivery.isPiece = true) (h : buf.length + source.bytes.length < n) :
    source.fill buf n =
      (.ok (if buf ++ source.bytes = [] then .Eof else .Partial), buf ++ source.bytes, []) := by
  induction hk : n - buf.length using Nat.strong_induction_on generalizing source buf with
  | _ k ih =>
    have hlt : buf.length < n := by omega
    rcases read_cases (Nat.sub_pos_of_lt hlt) source with ⟨rfl, hread⟩ | ⟨error, rest, rfl, -⟩ |
      ⟨b, bs, source', hread, hshort, hbytes, -, hall'⟩
    · rw [fill, dif_pos hlt]
      simp [read, bytes]
    · simp [Delivery.isPiece] at hall
    · rw [hbytes, List.length_append, List.length_cons] at h
      have hlength : (buf ++ b :: bs).length = buf.length + (bs.length + 1) := by simp
      rw [fill_piece hlt hread, ih (n - (buf ++ b :: bs).length) (by omega) (hall'.symm.trans hall) (by omega) rfl,
        hbytes, List.append_assoc]

theorem fill_interrupted (hall : source.all Delivery.isPiece = false)
    (h : buf.length + source.uninterrupted.bytes.length < n) : ∃ error, (source.fill buf n).1 = .error (.Io error) := by
  induction hk : n - buf.length using Nat.strong_induction_on generalizing source buf with
  | _ k ih =>
    have hlt : buf.length < n := by omega
    rcases read_cases (Nat.sub_pos_of_lt hlt) source with ⟨rfl, -⟩ | ⟨error, rest, rfl, -⟩ |
      ⟨b, bs, source', hread, hshort, -, hunint, hall'⟩
    · simp at hall
    · rw [fill, dif_pos hlt]
      exact ⟨error, rfl⟩
    · rw [hunint, List.length_append, List.length_cons] at h
      have hlength : (buf ++ b :: bs).length = buf.length + (bs.length + 1) := by simp
      rw [fill_piece hlt hread]
      exact ih (n - (buf ++ b :: bs).length) (by omega) (hall'.symm.trans hall) (by omega) rfl

/-! ## The whole of it -/

theorem uninterrupted_eq (hall : source.all Delivery.isPiece = true) : source.uninterrupted = source :=
  List.takeWhile_eq_self_iff.mpr (List.all_eq_true.mp hall)

theorem uninterrupted_length_le (source : Source) : source.uninterrupted.bytes.length ≤ source.bytes.length := by
  obtain ⟨rest, hrest⟩ := List.takeWhile_prefix (l := source) Delivery.isPiece
  have hlength := congrArg (fun s => (bytes s).length) hrest
  simp only [bytes, List.flatMap_append, List.length_append] at hlength
  unfold uninterrupted bytes
  omega

theorem readAll_eq (h : source.all Delivery.isPiece = true ∨ n ≤ source.uninterrupted.bytes.length) :
    ∃ source', source.readAll n = (.ok (Wal.readAll source.bytes n).1, (Wal.readAll source.bytes n).2.1, source') ∧
      source'.bytes = (Wal.readAll source.bytes n).2.2 := by
  by_cases hle : n ≤ source.bytes.length
  · have hbefore : n ≤ source.uninterrupted.bytes.length := by
      rcases h with hall | hbefore
      · rwa [uninterrupted_eq hall]
      · exact hbefore
    obtain ⟨source', hfill, hdrop⟩ := @fill_complete source [] n (Nat.zero_le n) (by simpa using hbefore)
    exact ⟨source', by rw [readAll, hfill, Wal.readAll, if_pos hle]; rfl, by rw [hdrop, Wal.readAll, if_pos hle]; rfl⟩
  · have hall : source.all Delivery.isPiece = true := by
      refine h.resolve_right fun hbefore => hle (hbefore.trans source.uninterrupted_length_le)
    have hfill := @fill_end source [] n hall (by simpa using Nat.not_le.mp hle)
    refine ⟨[], ?_, ?_⟩
    · rw [readAll, hfill, Wal.readAll, if_neg hle, List.nil_append]
      split <;> simp_all
    · rw [Wal.readAll, if_neg hle]
      split <;> rfl

/-- What `read_all` is to do with the bytes that remain. -/
structure ReadsBytes (source : Source) (n : Nat) : Prop where
  complete : n ≤ source.bytes.length →
    (source.readAll n).1 = .ok .Complete ∧ (source.readAll n).2.1 = source.bytes.take n
  eof : source.bytes = [] → (source.readAll n).1 = .ok .Eof
  short : source.bytes ≠ [] → source.bytes.length < n → (source.readAll n).1 = .ok .Partial
  noError : ∀ error, (source.readAll n).1 ≠ .error error

/-- `read_all` depends on the bytes only, unless it meets an interruption before its buffer is full. -/
theorem readAll_bytes_iff (hn : 0 < n) :
    ReadsBytes source n ↔ source.all Delivery.isPiece = true ∨ n ≤ source.uninterrupted.bytes.length := by
  constructor
  · intro hreads
    by_contra hnot
    obtain ⟨hsome, hshort⟩ := not_or.mp hnot
    obtain ⟨error, hfail⟩ := @fill_interrupted source [] n (Bool.eq_false_iff.mpr hsome) (by simpa using hshort)
    exact hreads.noError _ hfail
  · intro h
    obtain ⟨source', hread, -⟩ := readAll_eq h
    rw [Wal.readAll] at hread
    constructor
    · intro hle
      rw [if_pos hle] at hread
      rw [hread]
      exact ⟨rfl, rfl⟩
    · intro hnil
      rw [if_neg (by rw [hnil]; exact Nat.not_le.mpr hn), if_pos hnil] at hread
      rw [hread]
    · intro hne hlt
      rw [if_neg (Nat.not_le.mpr hlt), if_neg hne] at hread
      rw [hread]
    · intro error herror
      rw [hread] at herror
      cases herror

theorem readAll_bytes_iff_pieces :
    let source : Source := [.piece 1 [2], .piece 3 [4, 5], .piece 6 []]
    source.all Delivery.isPiece = true ∧ ReadsBytes source 4 := by
  have hall : Source.ReadsBytes [.piece 1 [2], .piece 3 [4, 5], .piece 6 []] 4 :=
    (readAll_bytes_iff (by decide)).mpr (.inl rfl)
  exact ⟨rfl, hall⟩

theorem interruption_not_retried :
    let source : Source := [.interrupted "operation interrupted", .piece 7 []]
    source.bytes = [7] ∧ (source.readAll 1).1 = .error (.Io "operation interrupted") ∧ ¬ ReadsBytes source 1 := by
  have hread : (readAll [.interrupted "operation interrupted", .piece 7 []] 1).1 =
      .error (.Io "operation interrupted") := by
    rw [readAll, fill]
    rfl
  exact ⟨rfl, hread, fun hreads => hreads.noError _ hread⟩

end Source

end TrenchDb.Wal
