import TrenchDb.Transport.Errors

/-!
# Log entries

`engine/src/wal/error.rs`, `codec.rs` and `entry.rs`: the payload of a record and its decoder. A payload
that is decoded is the encoding of what it decodes to.
-/

open TrenchDb.Lib.BigEndian TrenchDb.Transport

namespace TrenchDb.Wal

/-! ## Errors -/

inductive WalError
  | Io (error : String)
  | InvalidPayload (message : String)
  | UnexpectedEof
  | CorruptEntry (position : Nat) (reason : String)
  | InvalidHeader (reason : String)
  | UnsupportedVersion (found expected : UInt8)
  | PathMissing
  deriving DecidableEq, Repr

/-! ## The text of a UTF-8 error -/

/-- What the bytes after the first of a sequence must lie between, or `none` where no sequence starts so. -/
def utf8Ranges (first : UInt8) : Option (List (UInt8 × UInt8)) :=
  if first < 0x80 then some []
  else if first < 0xC2 then none
  else if first < 0xE0 then some [(0x80, 0xBF)]
  else if first = 0xE0 then some [(0xA0, 0xBF), (0x80, 0xBF)]
  else if first = 0xED then some [(0x80, 0x9F), (0x80, 0xBF)]
  else if first < 0xF0 then some [(0x80, 0xBF), (0x80, 0xBF)]
  else if first = 0xF0 then some [(0x90, 0xBF), (0x80, 0xBF), (0x80, 0xBF)]
  else if first < 0xF4 then some [(0x80, 0xBF), (0x80, 0xBF), (0x80, 0xBF)]
  else if first = 0xF4 then some [(0x80, 0x8F), (0x80, 0xBF), (0x80, 0xBF)]
  else none

/-- `error_len` of a sequence with `seen` good bytes so far, where the next ones are not as they must be. -/
def utf8ErrorLen (seen : Nat) : List (UInt8 × UInt8) → List UInt8 → Option (Option Nat)
  | [], _ => none
  | _ :: _, [] => some none
  | (low, high) :: ranges, b :: bytes =>
    if low ≤ b ∧ b ≤ high then utf8ErrorLen (seen + 1) ranges bytes else some (some seen)

/-- `Utf8Error` as it is shown. `index` is `valid_up_to`. -/
def utf8ErrorText (index : Nat) (errorLen : Option Nat) : String :=
  match errorLen with
  | some len => "invalid utf-8 sequence of " ++ toString len ++ " bytes from index " ++ toString index
  | none => "incomplete utf-8 byte sequence from index " ++ toString index

/-- The error of `String::from_utf8` for the bytes, as it is shown: that of the first bad sequence. `skip`
counts the bytes that belong to a sequence already checked. -/
def utf8Error (index skip : Nat) : List UInt8 → String
  | [] => ""
  | first :: bytes =>
    match skip with
    | skip + 1 => utf8Error (index + 1) skip bytes
    | 0 =>
      match utf8Ranges first with
      | none => utf8ErrorText index (some 1)
      | some ranges =>
        match utf8ErrorLen 1 ranges bytes with
        | some errorLen => utf8ErrorText index errorLen
        | none => utf8Error (index + 1) ranges.length bytes

/-! ## Fields -/

/-- `checked_add` of a 64-bit `usize`. -/
def checkedAdd (a b : Nat) : Option Nat := if a + b < 2 ^ 64 then some (a + b) else none

/-- `payload.get(start..stop)`. -/
def slice (payload : List UInt8) (start stop : Nat) : Option (List UInt8) :=
  if start ≤ stop ∧ stop ≤ payload.length then some ((payload.drop start).take (stop - start)) else none

/-- `ok_or_else`. -/
def okOr {α : Type} (o : Option α) (message : String) : Except WalError α :=
  match o with
  | some a => .ok a
  | none => .error (.InvalidPayload message)

/-- What `encode_bytes` appends. The length wraps at 32 bits. -/
def encodeBytes (value : List UInt8) : List UInt8 := toBE 4 value.length ++ value

/-- What `encode_string` appends. -/
def encodeString (value : String) : List UInt8 := toBE 4 (asBytes value).length ++ asBytes value

def readU32 (payload : List UInt8) (offset : Nat) : Except WalError UInt32 := do
  let stop ← okOr (checkedAdd offset 4) "u32 offset overflow"
  let bytes ← okOr (slice payload offset stop) "length header missing"
  return UInt32.ofNat (ofBE bytes)

def decodeString (payload : List UInt8) (offset : Nat) : Except WalError (String × Nat) := do
  let len := (← readU32 payload offset).toNat
  let start ← okOr (checkedAdd offset 4) "string offset overflow"
  let stop ← okOr (checkedAdd start len) "string length overflow"
  let bytes ← okOr (slice payload start stop) "string bytes missing"
  let string ← okOr (fromUtf8 bytes) ("invalid utf8: " ++ utf8Error 0 0 bytes)
  return (string, 4 + len)

def decodeBytes (payload : List UInt8) (offset : Nat) : Except WalError (List UInt8 × Nat) := do
  let len := (← readU32 payload offset).toNat
  let start ← okOr (checkedAdd offset 4) "bytes offset overflow"
  let stop ← okOr (checkedAdd start len) "bytes length overflow"
  let bytes ← okOr (slice payload start stop) "bytes missing"
  return (bytes, 4 + len)

/-! ## Entries -/

inductive WalEntry
  | CreateTable (table : String)
  | RemoveTable (table : String)
  | Insert (table key : String) (value : List UInt8)
  | Update (table key : String) (value : List UInt8)
  | Delete (table key : String)
  deriving DecidableEq, Repr

namespace WalEntry

def toBytes : WalEntry → List UInt8
  | .CreateTable table => 0 :: encodeString table
  | .RemoveTable table => 1 :: encodeString table
  | .Insert table key value => 2 :: (encodeString table ++ encodeString key ++ encodeBytes value)
  | .Update table key value => 3 :: (encodeString table ++ encodeString key ++ encodeBytes value)
  | .Delete table key => 4 :: (encodeString table ++ encodeString key)

/-- The match on the tag: the entry, and the cursor after it. -/
def fromTag (payload : List UInt8) (tag : UInt8) (table : String) (cursor : Nat) :
    Except WalError (WalEntry × Nat) :=
  match tag.toNat with
  | 0 => return (.CreateTable table, cursor)
  | 1 => return (.RemoveTable table, cursor)
  | 2 => do
    let (key, keySize) ← decodeString payload cursor
    let (value, valueSize) ← decodeBytes payload (cursor + keySize)
    return (.Insert table key value, cursor + keySize + valueSize)
  | 3 => do
    let (key, keySize) ← decodeString payload cursor
    let (value, valueSize) ← decodeBytes payload (cursor + keySize)
    return (.Update table key value, cursor + keySize + valueSize)
  | 4 => do
    let (key, keySize) ← decodeString payload cursor
    return (.Delete table key, cursor + keySize)
  | _ => throw (.InvalidPayload ("unknown tag " ++ toString tag))

def fromBytes (payload : List UInt8) : Except WalError WalEntry := do
  let tag ← okOr payload.head? "missing tag"
  let (table, size) ← decodeString payload 1
  let (entry, cursor) ← fromTag payload tag table (1 + size)
  if cursor ≠ payload.length then
    throw (.InvalidPayload ("trailing bytes after entry: decoded " ++ toString cursor ++ " bytes, payload is " ++
      toString payload.length ++ " bytes"))
  return entry

end WalEntry

/-! ## What the fields read -/

section Fields

variable {payload value rest : List UInt8} {offset n : Nat} {s : String}

theorem okOr_eq_ok {α : Type} {o : Option α} {message : String} {a : α} : okOr o message = .ok a ↔ o = some a := by
  cases o <;> simp [okOr]

theorem bind_eq_ok {α β : Type} {x : Except WalError α} {f : α → Except WalError β} {b : β} :
    (x >>= f) = .ok b ↔ ∃ a, x = .ok a ∧ f a = .ok b := by
  cases x with
  | error e => exact ⟨nofun, fun ⟨_, h, _⟩ => nomatch h⟩
  | ok a => exact ⟨fun h => ⟨a, rfl, h⟩, fun ⟨_, ha, h⟩ => Except.ok.inj ha ▸ h⟩

theorem checkedAdd_eq_some {a b c : Nat} : checkedAdd a b = some c ↔ a + b < 2 ^ 64 ∧ a + b = c := by
  unfold checkedAdd
  split
  · rename_i h
    exact ⟨fun hc => ⟨h, Option.some.inj hc⟩, fun hc => congrArg some hc.2⟩
  · rename_i h
    exact ⟨nofun, fun hc => absurd hc.1 h⟩

theorem slice_eq_some : slice payload offset (offset + n) = some value ↔
    offset + n ≤ payload.length ∧ value.length = n ∧ value <+: payload.drop offset := by
  unfold slice
  rw [Nat.add_sub_cancel_left]
  constructor
  · intro h
    split at h
    · rename_i hle
      obtain rfl := Option.some.inj h
      refine ⟨hle.2, ?_, List.take_prefix _ _⟩
      rw [List.length_take, List.length_drop]
      omega
    · exact nomatch h
  · rintro ⟨hle, rfl, hrest⟩
    rw [if_pos ⟨by omega, hle⟩, ← List.prefix_iff_eq_take.mp hrest]

theorem readU32_eq_ok {len : UInt32} : readU32 payload offset = .ok len ↔
    offset + 4 < 2 ^ 64 ∧ toBE 4 len.toNat <+: payload.drop offset := by
  unfold readU32
  simp only [bind_eq_ok, okOr_eq_ok, checkedAdd_eq_some, pure, Except.pure, Except.ok.injEq]
  constructor
  · rintro ⟨_, ⟨hlt, rfl⟩, bytes, hslice, rfl⟩
    obtain ⟨-, hlen, hrest⟩ := slice_eq_some.mp hslice
    have hbound : ofBE bytes < 2 ^ 32 := by simpa [hlen] using ofBE_lt bytes
    refine ⟨hlt, ?_⟩
    rw [UInt32.toNat_ofNat', Nat.mod_eq_of_lt hbound, ← hlen, toBE_ofBE]
    exact hrest
  · rintro ⟨hlt, hrest⟩
    have hlen := hrest.length_le
    rw [toBE_length, List.length_drop] at hlen
    refine ⟨_, ⟨hlt, rfl⟩, toBE 4 len.toNat, slice_eq_some.mpr ⟨by omega, toBE_length _ _, hrest⟩, ?_⟩
    rw [ofBE_toBE_of_lt (by simpa using len.toNat_lt), UInt32.ofNat_toNat]

theorem append_prefix_drop {front back : List UInt8} : front ++ back <+: payload.drop offset ↔
    front <+: payload.drop offset ∧ back <+: payload.drop (offset + front.length) := by
  constructor
  · rintro ⟨rest, hrest⟩
    rw [List.append_assoc] at hrest
    refine ⟨⟨_, hrest⟩, rest, ?_⟩
    rw [← List.drop_drop, ← hrest, List.drop_left]
  · rintro ⟨⟨rest, hrest⟩, hback⟩
    rw [← List.drop_drop, ← hrest, List.drop_left] at hback
    rw [← hrest]
    exact (List.prefix_append_right_inj front).mpr hback

theorem lengthPrefixed_iff : (∃ len : UInt32, readU32 payload offset = .ok len ∧ offset + 4 + len.toNat < 2 ^ 64 ∧
      slice payload (offset + 4) (offset + 4 + len.toNat) = some value) ↔
    offset + 4 + value.length < 2 ^ 64 ∧ value.length < 2 ^ 32 ∧ encodeBytes value <+: payload.drop offset := by
  simp only [readU32_eq_ok, slice_eq_some]
  unfold encodeBytes
  rw [append_prefix_drop, toBE_length]
  constructor
  · rintro ⟨len, ⟨-, hlen⟩, hlt, -, hvalue, hrest⟩
    have hbound := len.toNat_lt
    rw [hvalue]
    exact ⟨hlt, hbound, hlen, hrest⟩
  · rintro ⟨hlt, hbound, hlen, hrest⟩
    have hmod : (UInt32.ofNat value.length).toNat = value.length := by
      rw [UInt32.toNat_ofNat', Nat.mod_eq_of_lt hbound]
    have hfront := hlen.length_le
    have hback := hrest.length_le
    rw [toBE_length, List.length_drop] at hfront
    rw [List.length_drop] at hback
    refine ⟨UInt32.ofNat value.length, ?_⟩
    rw [hmod]
    exact ⟨⟨by omega, hlen⟩, hlt, by omega, rfl, hrest⟩

theorem decodeBytes_eq_ok : decodeBytes payload offset = .ok (value, n) ↔
    n = 4 + value.length ∧ offset + n < 2 ^ 64 ∧ value.length < 2 ^ 32 ∧
      encodeBytes value <+: payload.drop offset := by
  unfold decodeBytes
  simp only [bind_eq_ok, okOr_eq_ok, checkedAdd_eq_some, pure, Except.pure, Except.ok.injEq, Prod.mk.injEq]
  constructor
  · rintro ⟨len, hlen, _, ⟨-, rfl⟩, _, ⟨hlt, rfl⟩, bytes, hslice, rfl, rfl⟩
    obtain ⟨hvalue, hbound, hrest⟩ := lengthPrefixed_iff.mp ⟨len, hlen, hlt, hslice⟩
    have hsize := (slice_eq_some.mp hslice).2.1
    exact ⟨by omega, by omega, hbound, hrest⟩
  · rintro ⟨rfl, hlt, hbound, hrest⟩
    obtain ⟨len, hlen, hlt, hslice⟩ := lengthPrefixed_iff.mpr ⟨by omega, hbound, hrest⟩
    have hsize := (slice_eq_some.mp hslice).2.1
    exact ⟨len, hlen, _, ⟨by omega, rfl⟩, _, ⟨hlt, rfl⟩, value, hslice, rfl, by omega⟩

theorem decodeString_eq_ok : decodeString payload offset = .ok (s, n) ↔
    n = 4 + (asBytes s).length ∧ offset + n < 2 ^ 64 ∧ (asBytes s).length < 2 ^ 32 ∧
      encodeString s <+: payload.drop offset := by
  have hbytes : decodeString payload offset = .ok (s, n) ↔ decodeBytes payload offset = .ok (asBytes s, n) := by
    unfold decodeString decodeBytes
    simp only [bind_eq_ok, okOr_eq_ok, checkedAdd_eq_some, fromUtf8_eq_some, pure, Except.pure, Except.ok.injEq,
      Prod.mk.injEq]
    constructor
    · rintro ⟨len, hlen, start, hstart, stop, hstop, _, hslice, _, rfl, rfl, hn⟩
      exact ⟨len, hlen, start, hstart, stop, hstop, _, hslice, rfl, hn⟩
    · rintro ⟨len, hlen, start, hstart, stop, hstop, _, hslice, rfl, hn⟩
      exact ⟨len, hlen, start, hstart, stop, hstop, _, hslice, s, rfl, rfl, hn⟩
  rw [hbytes, decodeBytes_eq_ok]
  rfl

end Fields

/-! ## What is accepted -/

namespace WalEntry

def tag : WalEntry → UInt8
  | .CreateTable _ => 0
  | .RemoveTable _ => 1
  | .Insert _ _ _ => 2
  | .Update _ _ _ => 3
  | .Delete _ _ => 4

def table : WalEntry → String
  | .CreateTable table | .RemoveTable table | .Insert table _ _ | .Update table _ _ | .Delete table _ => table

/-- The strings and the value, as bytes. -/
def fields : WalEntry → List (List UInt8)
  | .CreateTable table | .RemoveTable table => [asBytes table]
  | .Insert table key value | .Update table key value => [asBytes table, asBytes key, value]
  | .Delete table key => [asBytes table, asBytes key]

/-- Each length fits its prefix. -/
def Short (e : WalEntry) : Prop := ∀ field ∈ e.fields, field.length < 2 ^ 32

instance (e : WalEntry) : Decidable e.Short := inferInstanceAs (Decidable (∀ field ∈ e.fields, field.length < 2 ^ 32))

/-- What follows the table. -/
def body : WalEntry → List UInt8
  | .CreateTable _ | .RemoveTable _ => []
  | .Insert _ key value | .Update _ key value => encodeString key ++ encodeBytes value
  | .Delete _ key => encodeString key

variable {payload : List UInt8} {e : WalEntry} {tag : UInt8} {table : String} {cursor stop : Nat}

theorem encodeBytes_length (value : List UInt8) : (encodeBytes value).length = 4 + value.length := by
  simp [encodeBytes]

theorem encodeString_length (s : String) : (encodeString s).length = 4 + (asBytes s).length :=
  encodeBytes_length (asBytes s)

theorem toBytes_eq (e : WalEntry) : e.toBytes = e.tag :: (encodeString e.table ++ e.body) := by
  cases e <;> simp [toBytes, WalEntry.tag, WalEntry.table, body]

theorem body_length_lt (h : e.Short) : e.body.length < 2 ^ 40 := by
  unfold Short at h
  cases e <;> simp [fields, body, encodeBytes_length, encodeString_length] at h ⊢ <;> omega

theorem keyValue_prefix {key : String} {value : List UInt8} {keySize valueSize : Nat}
    (hkey : decodeString payload cursor = .ok (key, keySize))
    (hvalue : decodeBytes payload (cursor + keySize) = .ok (value, valueSize)) :
    cursor + keySize + valueSize = cursor + (encodeString key ++ encodeBytes value).length ∧
      encodeString key ++ encodeBytes value <+: payload.drop cursor ∧
      (asBytes key).length < 2 ^ 32 ∧ value.length < 2 ^ 32 := by
  obtain ⟨rfl, -, hkey, hrest⟩ := decodeString_eq_ok.mp hkey
  obtain ⟨rfl, -, hvalue, hrest'⟩ := decodeBytes_eq_ok.mp hvalue
  rw [List.length_append, encodeString_length, encodeBytes_length, append_prefix_drop, encodeString_length]
  exact ⟨by omega, ⟨hrest, hrest'⟩, hkey, hvalue⟩

theorem fromTag_ok (h : fromTag payload tag table cursor = .ok (e, stop)) :
    tag = e.tag ∧ table = e.table ∧ stop = cursor + e.body.length ∧ e.body <+: payload.drop cursor ∧
      ((asBytes table).length < 2 ^ 32 → e.Short) := by
  unfold fromTag at h
  split at h
  case h_1 htag =>
    obtain ⟨rfl, rfl⟩ := Prod.mk.inj (Except.ok.inj h)
    exact ⟨UInt8.toNat_inj.mp htag, rfl, rfl, List.nil_prefix, fun htable => by simpa [Short, fields] using htable⟩
  case h_2 htag =>
    obtain ⟨rfl, rfl⟩ := Prod.mk.inj (Except.ok.inj h)
    exact ⟨UInt8.toNat_inj.mp htag, rfl, rfl, List.nil_prefix, fun htable => by simpa [Short, fields] using htable⟩
  case h_3 htag =>
    obtain ⟨⟨key, keySize⟩, hkey, h⟩ := bind_eq_ok.mp h
    obtain ⟨⟨value, valueSize⟩, hvalue, h⟩ := bind_eq_ok.mp h
    obtain ⟨rfl, rfl⟩ := Prod.mk.inj (Except.ok.inj h)
    obtain ⟨hstop, hrest, hkey, hvalue⟩ := keyValue_prefix hkey hvalue
    exact ⟨UInt8.toNat_inj.mp htag, rfl, hstop, hrest, fun htable => by
      simpa [Short, fields] using ⟨htable, hkey, hvalue⟩⟩
  case h_4 htag =>
    obtain ⟨⟨key, keySize⟩, hkey, h⟩ := bind_eq_ok.mp h
    obtain ⟨⟨value, valueSize⟩, hvalue, h⟩ := bind_eq_ok.mp h
    obtain ⟨rfl, rfl⟩ := Prod.mk.inj (Except.ok.inj h)
    obtain ⟨hstop, hrest, hkey, hvalue⟩ := keyValue_prefix hkey hvalue
    exact ⟨UInt8.toNat_inj.mp htag, rfl, hstop, hrest, fun htable => by
      simpa [Short, fields] using ⟨htable, hkey, hvalue⟩⟩
  case h_5 htag =>
    obtain ⟨⟨key, keySize⟩, hkey, h⟩ := bind_eq_ok.mp h
    obtain ⟨rfl, rfl⟩ := Prod.mk.inj (Except.ok.inj h)
    obtain ⟨rfl, -, hkey, hrest⟩ := decodeString_eq_ok.mp hkey
    refine ⟨UInt8.toNat_inj.mp htag, rfl, ?_, hrest, fun htable => by
      simpa [Short, fields] using ⟨htable, hkey⟩⟩
    rw [body, encodeString_length]
  case h_6 => exact nomatch h

theorem keyValue_decode {key : String} {value : List UInt8} (hcursor : cursor < 2 ^ 40)
    (hkey : (asBytes key).length < 2 ^ 32) (hvalue : value.length < 2 ^ 32)
    (hrest : encodeString key ++ encodeBytes value <+: payload.drop cursor) :
    ∃ keySize valueSize, decodeString payload cursor = .ok (key, keySize) ∧
      decodeBytes payload (cursor + keySize) = .ok (value, valueSize) ∧
      cursor + keySize + valueSize = cursor + (encodeString key ++ encodeBytes value).length := by
  obtain ⟨hfront, hback⟩ := append_prefix_drop.mp hrest
  rw [encodeString_length] at hback
  refine ⟨_, _, decodeString_eq_ok.mpr ⟨rfl, by omega, hkey, hfront⟩,
    decodeBytes_eq_ok.mpr ⟨rfl, by omega, hvalue, hback⟩, ?_⟩
  rw [List.length_append, encodeString_length, encodeBytes_length]
  omega

theorem fromTag_body (hshort : e.Short) (hcursor : cursor < 2 ^ 40) (hbody : e.body <+: payload.drop cursor) :
    fromTag payload e.tag e.table cursor = .ok (e, cursor + e.body.length) := by
  cases e with
  | CreateTable | RemoveTable => rfl
  | Delete table key =>
    have hkey : (asBytes key).length < 2 ^ 32 := hshort _ (by simp [fields])
    have hdecode := decodeString_eq_ok.mpr ⟨rfl, by omega, hkey, hbody⟩
    rw [body, encodeString_length]
    exact bind_eq_ok.mpr ⟨_, hdecode, rfl⟩
  | Insert table key value | Update table key value =>
    have hkey : (asBytes key).length < 2 ^ 32 := hshort _ (by simp [fields])
    have hvalue : value.length < 2 ^ 32 := hshort _ (by simp [fields])
    obtain ⟨keySize, valueSize, hkey, hvalue, hstop⟩ := keyValue_decode hcursor hkey hvalue hbody
    rw [body, ← hstop]
    exact bind_eq_ok.mpr ⟨_, hkey, bind_eq_ok.mpr ⟨_, hvalue, rfl⟩⟩

theorem fromBytes_eq_ok : fromBytes payload = .ok e ↔ e.toBytes = payload ∧ e.Short := by
  unfold fromBytes
  constructor
  · intro h
    obtain ⟨tag, htag, h⟩ := bind_eq_ok.mp h
    obtain ⟨⟨table, size⟩, htable, h⟩ := bind_eq_ok.mp h
    obtain ⟨⟨e', cursor⟩, hentry, h⟩ := bind_eq_ok.mp h
    obtain ⟨rest, rfl⟩ := List.head?_eq_some_iff.mp (okOr_eq_ok.mp htag)
    obtain ⟨rfl, -, hbound, hfront⟩ := decodeString_eq_ok.mp htable
    obtain ⟨rfl, rfl, rfl, hback, hshort⟩ := fromTag_ok hentry
    simp only [ne_eq, ite_not] at h
    split at h
    · rename_i hall
      obtain rfl := Except.ok.inj h
      -- The fields cover the payload to its last byte.
      have hrest : encodeString e'.table ++ e'.body <+: (e'.tag :: rest).drop 1 :=
        append_prefix_drop.mpr ⟨hfront, by rwa [encodeString_length]⟩
      rw [List.drop_one, List.tail_cons] at hrest
      refine ⟨?_, hshort hbound⟩
      rw [toBytes_eq, hrest.eq_of_length]
      rw [List.length_append, encodeString_length]
      simp only [List.length_cons] at hall
      omega
    · exact nomatch h
  · rintro ⟨rfl, hshort⟩
    have hlen := body_length_lt hshort
    have hbound : (asBytes e.table).length < 2 ^ 32 := by
      apply hshort
      cases e <;> simp [fields, WalEntry.table]
    have hrest : encodeString e.table ++ e.body <+: e.toBytes.drop 1 := by
      rw [toBytes_eq]
      exact List.prefix_refl _
    obtain ⟨hfront, hback⟩ := append_prefix_drop.mp hrest
    rw [encodeString_length] at hback
    refine bind_eq_ok.mpr ⟨e.tag, by rw [toBytes_eq]; rfl, ?_⟩
    refine bind_eq_ok.mpr ⟨_, decodeString_eq_ok.mpr ⟨rfl, by omega, hbound, hfront⟩, ?_⟩
    refine bind_eq_ok.mpr ⟨_, fromTag_body hshort (by omega) hback, ?_⟩
    have hall : 1 + (4 + (asBytes e.table).length) + e.body.length = e.toBytes.length := by
      rw [toBytes_eq, List.length_cons, List.length_append, encodeString_length]
      omega
    simp [hall, pure, Except.pure]

theorem entry_codec : (∀ e : WalEntry, e.Short → fromBytes e.toBytes = .ok e) ∧
    (∀ (payload : List UInt8) (e : WalEntry), fromBytes payload = .ok e → e.toBytes = payload) ∧
    ∀ e e' : WalEntry, e.Short → e'.Short → e.toBytes = e'.toBytes → e = e' := by
  have hround : ∀ e : WalEntry, e.Short → fromBytes e.toBytes = .ok e := fun e hshort =>
    fromBytes_eq_ok.mpr ⟨rfl, hshort⟩
  refine ⟨hround, fun payload e h => (fromBytes_eq_ok.mp h).1, fun e e' hshort hshort' heq => ?_⟩
  have hback := hround e hshort
  rw [heq, hround e' hshort'] at hback
  exact (Except.ok.inj hback).symm

theorem entry_codec_insert : fromBytes (WalEntry.Insert "t" "k" [0, 0, 0, 1, 0]).toBytes =
    .ok (.Insert "t" "k" [0, 0, 0, 1, 0]) :=
  entry_codec.1 _ (by decide)

end WalEntry

end TrenchDb.Wal
