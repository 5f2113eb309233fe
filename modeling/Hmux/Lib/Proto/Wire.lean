import Hmux.Lib.Text
import Hmux.Lib.Proto.Varint

namespace Hmux.Lib.Proto

/-!
# Protobuf messages as trees of fields

A message on the wire is a list of tagged values, nested messages included; which kind of
value a tag carries is given by a table over message names.  `parse` is the reader of a
generated decoder (unknown tags are skipped, texts must be UTF-8, nesting is bounded),
`encodeWire` the writer.

* `length_parse` — the writer never needs more bytes than were read;
* `parse_encodeWire` — reading back a tree that is of its types.

The tree is what a decoder has seen before it knows what the fields mean.  What the preflight of
the repository accepts is stated about such trees, and so is what the generated decoder makes of
them; the two are compared here and not on bytes.
-/

/-! ### Trees and tables

The table says of each tag what kind of value it carries and how often it may occur. -/

/-- The value of a field. -/
inductive Val
  | varint (n : ℕ)
  | fixed64 (n : ℕ)
  | bytes (b : List UInt8)
  | msg (fields : List (ℕ × Val))

/-- A message: its fields in wire order. -/
abbrev Wire := List (ℕ × Val)

/-- What a field holds; `σ` names the messages. -/
inductive Kind (σ : Type)
  | uint32 | uint64 | int64 | enum | bool | double | text | blob
  | message (name : σ)

/-- How often a field may occur, and whether its default is written. -/
inductive Label
  | implicit | optional | repeated | oneof
  deriving DecidableEq

/-- A row of a message descriptor. -/
structure FieldDesc (σ : Type) where
  kind : Kind σ
  label : Label

namespace FieldDesc

variable {σ : Type}

/-- A field without presence. -/
def implicit (kind : Kind σ) : FieldDesc σ := ⟨kind, .implicit⟩

/-- A field that may be absent. -/
def optional (kind : Kind σ) : FieldDesc σ := ⟨kind, .optional⟩

/-- A list. -/
def repeated (kind : Kind σ) : FieldDesc σ := ⟨kind, .repeated⟩

/-- A variant. -/
def oneof (kind : Kind σ) : FieldDesc σ := ⟨kind, .oneof⟩

end FieldDesc

/-- The descriptors of all messages. -/
abbrev Table (σ : Type) := σ → ℕ → Option (FieldDesc σ)

/-! ### Writing

The writer puts the fields in the order in which they stand in the tree. -/

/-- The lowest `k` bytes of a number, little-endian. -/
def fixedBytes : ℕ → ℕ → List UInt8
  | 0, _ => []
  | k + 1, n => UInt8.ofNat n :: fixedBytes k (n / 256)

/-- The number little-endian bytes stand for. -/
def fixedValue : List UInt8 → ℕ
  | [] => 0
  | b :: rest => b.toNat + 256 * fixedValue rest

/-- The wire type a value is written with. -/
def Val.wireType : Val → WireType
  | .varint _ => .varint
  | .fixed64 _ => .sixtyFourBit
  | .bytes _ => .lengthDelimited
  | .msg _ => .lengthDelimited

mutual

/-- A value without its key. -/
def Val.encode : Val → List UInt8
  | .varint n => encodeVarint n
  | .fixed64 n => fixedBytes 8 n
  | .bytes b => encodeVarint b.length ++ b
  | .msg fields => encodeVarint (encodeWire fields).length ++ encodeWire fields

/-- A message. -/
def encodeWire : List (ℕ × Val) → List UInt8
  | [] => []
  | e :: fields => encodeEntry e ++ encodeWire fields

/-- A field. -/
def encodeEntry : ℕ × Val → List UInt8
  | (tag, v) => encodeKey tag v.wireType ++ v.encode

end

/-! ### Reading

The reader goes from field to field, each of which takes at least one byte. -/

/-- A length and as many bytes. -/
def readBytes (raw : List UInt8) : Option (List UInt8 × List UInt8) :=
  match decodeVarint raw with
  | none => none
  | some (length, rest) =>
    if rest.length < length then none else some (rest.take length, rest.drop length)

section

variable {σ : Type} (table : Table σ)

/-- Read the value of a known field; `nested` reads a nested message. -/
def readVal (nested : σ → List UInt8 → Option Wire) (kind : Kind σ) (wire : WireType)
    (raw : List UInt8) : Option (Val × List UInt8) :=
  match kind, wire with
  | .uint32, .varint => (decodeVarint raw).map fun r => (.varint r.1, r.2)
  | .uint64, .varint => (decodeVarint raw).map fun r => (.varint r.1, r.2)
  | .int64, .varint => (decodeVarint raw).map fun r => (.varint r.1, r.2)
  | .enum, .varint => (decodeVarint raw).map fun r => (.varint r.1, r.2)
  | .bool, .varint => (decodeVarint raw).map fun r => (.varint r.1, r.2)
  | .double, .sixtyFourBit =>
    if raw.length < 8 then none else some (.fixed64 (fixedValue (raw.take 8)), raw.drop 8)
  | .text, .lengthDelimited =>
    (readBytes raw).bind fun r => (utf8 r.1).map fun _ => (.bytes r.1, r.2)
  | .blob, .lengthDelimited => (readBytes raw).map fun r => (.bytes r.1, r.2)
  | .message name, .lengthDelimited =>
    (readBytes raw).bind fun r => (nested name r.1).map fun w => (.msg w, r.2)
  | _, _ => none

/-- Skip the value of an unknown field.  Groups are not modelled. -/
def skip (wire : WireType) (raw : List UInt8) : Option (List UInt8) :=
  match wire with
  | .varint => (decodeVarint raw).map Prod.snd
  | .sixtyFourBit => if raw.length < 8 then none else some (raw.drop 8)
  | .thirtyTwoBit => if raw.length < 4 then none else some (raw.drop 4)
  | .lengthDelimited => (readBytes raw).map Prod.snd
  | .startGroup => none
  | .endGroup => none

/-- The fields of one message; each takes at least a byte, so `fuel` need not exceed the
    length of the input. -/
def readFields (nested : σ → List UInt8 → Option Wire) (name : σ) :
    ℕ → List UInt8 → Option Wire
  | _, [] => some []
  | 0, _ :: _ => none
  | fuel + 1, b :: raw =>
    match decodeKey (b :: raw) with
    | none => none
    | some (tag, wire, rest) =>
      match table name tag with
      | none => (skip wire rest).bind fun rest => readFields nested name fuel rest
      | some desc =>
        match readVal nested desc.kind wire rest with
        | none => none
        | some (v, rest) => (readFields nested name fuel rest).map fun w => (tag, v) :: w

/-- Read a message that may nest `limit` levels deep. -/
def parse : ℕ → σ → List UInt8 → Option Wire
  | 0, name, raw => readFields table (fun _ _ => none) name raw.length raw
  | limit + 1, name, raw => readFields table (parse limit) name raw.length raw

end

/-! ### Lengths

A varint may be padded, so that the reader may take more bytes than the writer would write, but
never fewer. -/

/-- A number of fixed width is read back. -/
theorem fixedValue_fixedBytes {k n : ℕ} (h : n < 256 ^ k) : fixedValue (fixedBytes k n) = n := by
  induction k generalizing n with
  | zero =>
    rw [Nat.pow_zero] at h
    rw [fixedBytes, fixedValue]
    omega
  | succ k ih =>
    rw [Nat.pow_succ] at h
    rw [fixedBytes, fixedValue, ih (by omega), UInt8.toNat_ofNat']
    omega

/-- A number of fixed width has its width. -/
theorem length_fixedBytes (k n : ℕ) : (fixedBytes k n).length = k := by
  induction k generalizing n with
  | zero => rfl
  | succ k ih => rw [fixedBytes, List.length_cons, ih]

/-- What is read of a fixed width fits it. -/
theorem fixedValue_lt (b : List UInt8) : fixedValue b < 256 ^ b.length := by
  induction b with
  | nil => exact Nat.one_pos
  | cons x b ih =>
    have hx := x.toNat_lt
    rw [fixedValue, List.length_cons, Nat.pow_succ]
    omega

/-- Fields are written one after the other. -/
theorem encodeWire_append (u w : Wire) : encodeWire (u ++ w) = encodeWire u ++ encodeWire w := by
  induction u with
  | nil => rfl
  | cons e u ih => rw [List.cons_append, encodeWire, encodeWire, ih, List.append_assoc]

/-- Bytes that are read could have been written as short. -/
theorem readBytes_some {raw part rest : List UInt8} (h : readBytes raw = some (part, rest)) :
    part.length < 2 ^ 64 ∧
      (encodeVarint part.length).length + part.length + rest.length ≤ raw.length := by
  unfold readBytes at h
  split at h
  · cases h
  rename_i length tail hread
  obtain ⟨hlt, hle⟩ := decodeVarint_some hread
  split at h
  · cases h
  rename_i hshort
  injection h with h
  injection h with hpart hrest
  subst hpart hrest
  have hpart : (tail.take length).length = length := by rw [List.length_take]; omega
  have hsum : length + (tail.drop length).length = tail.length := by
    rw [List.length_drop]
    omega
  rw [hpart]
  exact ⟨hlt, by omega⟩

/-- Bytes that are written with their length are read back. -/
theorem readBytes_encode {b : List UInt8} (h : b.length < 2 ^ 64) (rest : List UInt8) :
    readBytes (encodeVarint b.length ++ b ++ rest) = some (b, rest) := by
  unfold readBytes
  rw [List.append_assoc, decodeVarint_encodeVarint h]
  have hlong : ¬(b ++ rest).length < b.length := by rw [List.length_append]; omega
  simp only [if_neg hlong, List.take_left, List.drop_left]

section

variable {σ : Type} {table : Table σ} {nested : σ → List UInt8 → Option Wire}

/-- A value read is written in no more bytes, if that is so of nested messages. -/
theorem length_readVal
    (hnested : ∀ name raw w, nested name raw = some w → (encodeWire w).length ≤ raw.length)
    {kind : Kind σ} {wire : WireType} {raw rest : List UInt8} {v : Val}
    (h : readVal nested kind wire raw = some (v, rest)) :
    v.wireType = wire ∧ v.encode.length + rest.length ≤ raw.length := by
  -- every kind of number is read as a varint
  have hvarint : ∀ {raw : List UInt8}, (decodeVarint raw).map (fun r => (Val.varint r.1, r.2))
      = some (v, rest) →
      v.wireType = .varint ∧ v.encode.length + rest.length ≤ raw.length := by
    intro raw h
    rw [Option.map_eq_some_iff] at h
    obtain ⟨⟨n, tail⟩, hread, heq⟩ := h
    injection heq with hv hrest
    subst hv hrest
    exact ⟨rfl, (decodeVarint_some hread).2⟩
  unfold readVal at h
  split at h
  · exact hvarint h
  · exact hvarint h
  · exact hvarint h
  · exact hvarint h
  · exact hvarint h
  · split at h
    · cases h
    · injection h with h
      injection h with hv hrest
      subst hv hrest
      refine ⟨rfl, ?_⟩
      rw [Val.encode, length_fixedBytes, List.length_drop]
      omega
  -- text, bytes and messages are read with their length
  · rw [Option.bind_eq_some_iff] at h
    obtain ⟨⟨part, tail⟩, hread, h⟩ := h
    rw [Option.map_eq_some_iff] at h
    obtain ⟨s, -, heq⟩ := h
    injection heq with hv hrest
    subst hv hrest
    refine ⟨rfl, ?_⟩
    rw [Val.encode, List.length_append]
    exact (readBytes_some hread).2
  · rw [Option.map_eq_some_iff] at h
    obtain ⟨⟨part, tail⟩, hread, heq⟩ := h
    injection heq with hv hrest
    subst hv hrest
    refine ⟨rfl, ?_⟩
    rw [Val.encode, List.length_append]
    exact (readBytes_some hread).2
  · rw [Option.bind_eq_some_iff] at h
    obtain ⟨⟨part, tail⟩, hread, h⟩ := h
    rw [Option.map_eq_some_iff] at h
    obtain ⟨w, hw, heq⟩ := h
    injection heq with hv hrest
    subst hv hrest
    refine ⟨rfl, ?_⟩
    have hinner := hnested _ _ _ hw
    -- a message that is written again is not longer than what was read
    have hpre : (encodeVarint (encodeWire w).length).length ≤ (encodeVarint part.length).length :=
      length_varintBytes_mono 9 hinner
    have hread := (readBytes_some hread).2
    rw [Val.encode, List.length_append]
    dsimp only at *
    omega
  · cases h

/-- What is skipped is not read again. -/
theorem length_skip {wire : WireType} {raw rest : List UInt8} (h : skip wire raw = some rest) :
    rest.length ≤ raw.length := by
  unfold skip at h
  split at h
  · rw [Option.map_eq_some_iff] at h
    obtain ⟨⟨n, tail⟩, hread, rfl⟩ := h
    exact le_trans (Nat.le_add_left _ _) (decodeVarint_some hread).2
  · split at h
    · cases h
    · injection h with h
      rw [← h, List.length_drop]
      exact Nat.sub_le _ _
  · split at h
    · cases h
    · injection h with h
      rw [← h, List.length_drop]
      exact Nat.sub_le _ _
  · rw [Option.map_eq_some_iff] at h
    obtain ⟨⟨part, tail⟩, hread, rfl⟩ := h
    exact le_trans (Nat.le_add_left _ _) (readBytes_some hread).2
  · cases h
  · cases h

/-- A message that is read could have been written as short. -/
theorem length_readFields
    (hnested : ∀ name raw w, nested name raw = some w → (encodeWire w).length ≤ raw.length)
    {name : σ} {fuel : ℕ} {raw : List UInt8} {w : Wire}
    (h : readFields table nested name fuel raw = some w) :
    (encodeWire w).length ≤ raw.length := by
  induction fuel generalizing raw w with
  | zero =>
    cases raw with
    | nil => rw [readFields] at h; injection h with h; subst h; exact le_refl _
    | cons b raw => rw [readFields] at h; cases h
  | succ fuel ih =>
    cases raw with
    | nil => rw [readFields] at h; injection h with h; subst h; exact le_refl _
    | cons b raw =>
      rw [readFields] at h
      split at h
      · cases h
      rename_i tag wire rest hkey
      obtain ⟨-, -, hlen⟩ := decodeKey_some hkey
      split at h
      · rw [Option.bind_eq_some_iff] at h
        obtain ⟨rest', hskip, h⟩ := h
        have hrest := length_skip hskip
        have hw := ih h
        omega
      · rename_i desc hdesc
        split at h
        · cases h
        rename_i v rest' hread
        obtain ⟨hwire, hval⟩ := length_readVal hnested hread
        rw [Option.map_eq_some_iff] at h
        obtain ⟨w', hw', rfl⟩ := h
        have hw := ih hw'
        rw [encodeWire, encodeEntry, List.length_append, List.length_append, hwire]
        omega

end

section

variable {σ : Type} {table : Table σ}

/-- **Padding only.** The writer needs no more bytes than the reader took. -/
theorem length_parse {limit : ℕ} {name : σ} {raw : List UInt8} {w : Wire}
    (h : parse table limit name raw = some w) : (encodeWire w).length ≤ raw.length := by
  induction limit generalizing name raw w with
  | zero => exact length_readFields (fun _ _ _ h => absurd h (by simp)) h
  | succ limit ih => exact length_readFields (fun _ _ _ h => ih h) h

/-! ### Trees of their types

A tree whose values are in range and whose tags are known is read back from the bytes that the
writer makes of it. -/

/-- A value of its kind, in the range of the field it is read into. -/
def Val.InRange (nested : σ → Wire → Prop) : Kind σ → Val → Prop
  | .uint32, .varint n => n < 2 ^ 32
  | .uint64, .varint n => n < 2 ^ 64
  | .int64, .varint n => n < 2 ^ 64
  | .enum, .varint n => n < 2 ^ 31
  | .bool, .varint n => n < 2
  | .double, .fixed64 n => n < 2 ^ 64
  | .text, .bytes b => b.length < 2 ^ 64 ∧ ∃ s, Hmux.bytes s = b
  | .blob, .bytes b => b.length < 2 ^ 64
  | .message name, .msg w => (encodeWire w).length < 2 ^ 64 ∧ nested name w
  | _, _ => False

/-- How often a tag occurs. -/
def countTag (tag : ℕ) (w : Wire) : ℕ := w.countP fun e => e.1 = tag

variable (table) in
/-- The tag belongs to a `oneof` of the message. -/
def isOneof (name : σ) (tag : ℕ) : Bool :=
  (table name tag).any fun d => d.label = .oneof

variable (table) in
/-- **Unambiguous.** Every field is known and in range, no field that is not repeated occurs
    twice, and no `oneof` is given twice, at each of at most `n` levels. -/
def Clean : ℕ → σ → Wire → Prop
  | 0, _, _ => False
  | n + 1, name, w =>
    (∀ e ∈ w, 0 < e.1 ∧ e.1 < 2 ^ 29 ∧ ∃ d, table name e.1 = some d ∧
      e.2.InRange (Clean n) d.kind ∧ (d.label ≠ .repeated → countTag e.1 w ≤ 1)) ∧
    w.countP (fun e => isOneof table name e.1) ≤ 1

/-- A value is in range of more messages. -/
theorem InRange.mono {P Q : σ → Wire → Prop} (hPQ : ∀ name w, P name w → Q name w)
    {kind : Kind σ} {v : Val} (h : v.InRange P kind) : v.InRange Q kind := by
  cases kind <;> cases v <;> first | exact h | exact ⟨h.1, hPQ _ _ h.2⟩

/-- **A value is read back** -/
theorem readVal_encode {nested : σ → List UInt8 → Option Wire} {P : σ → Wire → Prop}
    (hnested : ∀ name w, P name w → nested name (encodeWire w) = some w)
    {kind : Kind σ} {v : Val} (h : v.InRange P kind) (rest : List UInt8) :
    readVal nested kind v.wireType (v.encode ++ rest) = some (v, rest) := by
  have hvarint : ∀ {n : ℕ}, n < 2 ^ 64 →
      (decodeVarint (encodeVarint n ++ rest)).map (fun r => (Val.varint r.1, r.2))
        = some (.varint n, rest) := by
    intro n hn
    rw [decodeVarint_encodeVarint hn]
    rfl
  match kind, v, h with
  | .uint32, .varint n, h => exact hvarint (lt_trans h (by norm_num))
  | .uint64, .varint n, h => exact hvarint h
  | .int64, .varint n, h => exact hvarint h
  | .enum, .varint n, h => exact hvarint (lt_trans h (by norm_num))
  | .bool, .varint n, h => exact hvarint (lt_trans h (by norm_num))
  | .double, .fixed64 n, h =>
    have hlen := length_fixedBytes 8 n
    have htake : (fixedBytes 8 n ++ rest).take 8 = fixedBytes 8 n := List.take_left' hlen
    have hdrop : (fixedBytes 8 n ++ rest).drop 8 = rest := List.drop_left' hlen
    simp only [Val.wireType, Val.encode, readVal, htake, hdrop]
    have hval : fixedValue (fixedBytes 8 n) = n := by
      apply fixedValue_fixedBytes
      norm_num
      exact h
    rw [if_neg (by rw [List.length_append]; omega), hval]
  | .text, .bytes b, ⟨hlen, s, hs⟩ =>
    subst hs
    simp only [Val.wireType, Val.encode, readVal, readBytes_encode hlen, Option.bind_some,
      utf8_bytes, Option.map_some]
  | .blob, .bytes b, h =>
    simp only [Val.wireType, Val.encode, readVal, readBytes_encode h, Option.map_some]
  | .message name, .msg w, ⟨hlen, hw⟩ =>
    simp only [Val.wireType, Val.encode, readVal, readBytes_encode hlen, Option.bind_some,
      hnested _ _ hw, Option.map_some]

/-- All fields of a message are read back. -/
theorem readFields_encode {nested : σ → List UInt8 → Option Wire} {P : σ → Wire → Prop}
    (hnested : ∀ name w, P name w → nested name (encodeWire w) = some w) {name : σ} {w : Wire}
    (hw : ∀ e ∈ w, 0 < e.1 ∧ e.1 < 2 ^ 29 ∧
      ∃ d, table name e.1 = some d ∧ e.2.InRange P d.kind)
    {fuel : ℕ} (hfuel : (encodeWire w).length ≤ fuel) :
    readFields table nested name fuel (encodeWire w) = some w := by
  induction w generalizing fuel with
  | nil => cases fuel <;> rfl
  | cons e w ih =>
    obtain ⟨tag, v⟩ := e
    obtain ⟨hpos, hlt, d, hd, hrange⟩ := hw (tag, v) List.mem_cons_self
    have hkey := decodeKey_encodeKey hpos hlt v.wireType (v.encode ++ encodeWire w)
    have hkeylen := length_encodeKey_pos tag v.wireType
    have hcons : encodeWire ((tag, v) :: w)
        = encodeKey tag v.wireType ++ (v.encode ++ encodeWire w) := by
      rw [encodeWire, encodeEntry, List.append_assoc]
    rw [hcons] at hfuel ⊢
    rw [List.length_append, List.length_append] at hfuel
    obtain ⟨fuel, rfl⟩ : ∃ k, fuel = k + 1 := ⟨fuel - 1, by omega⟩
    have hrest := ih (fun e he => hw e (List.mem_cons_of_mem _ he))
      (show (encodeWire w).length ≤ fuel by omega)
    cases hraw : encodeKey tag v.wireType ++ (v.encode ++ encodeWire w) with
    | nil =>
      rw [List.append_eq_nil_iff] at hraw
      rw [hraw.1] at hkeylen
      exact absurd hkeylen (by simp)
    | cons b raw =>
      rw [hraw] at hkey
      rw [readFields, hkey]
      dsimp only
      rw [hd]
      dsimp only
      rw [readVal_encode hnested hrange]
      dsimp only
      rw [hrest]
      rfl

/-- **Round trip on the wire.** -/
theorem parse_encodeWire {n limit : ℕ} (hn : n ≤ limit) {name : σ} {w : Wire}
    (h : Clean table (n + 1) name w) : parse table limit name (encodeWire w) = some w := by
  induction n generalizing limit name w with
  | zero =>
    have hw : ∀ e ∈ w, 0 < e.1 ∧ e.1 < 2 ^ 29 ∧ ∃ d, table name e.1 = some d ∧
        e.2.InRange (fun _ _ => False) d.kind := by
      intro e he
      obtain ⟨hpos, hlt, d, hd, hr, -⟩ := h.1 e he
      exact ⟨hpos, hlt, d, hd, InRange.mono (fun _ _ h => h) hr⟩
    cases limit with
    | zero => exact readFields_encode (fun _ _ h => h.elim) hw (le_refl _)
    | succ limit => exact readFields_encode (fun _ _ h => h.elim) hw (le_refl _)
  | succ n ih =>
    obtain ⟨limit, rfl⟩ : ∃ k, limit = k + 1 := ⟨limit - 1, by omega⟩
    refine readFields_encode (P := Clean table (n + 1)) (fun _ _ h => ih (by omega) h) ?_
      (le_refl _)
    intro e he
    obtain ⟨hpos, hlt, d, hd, hr, -⟩ := h.1 e he
    exact ⟨hpos, hlt, d, hd, hr⟩

end

end Hmux.Lib.Proto
