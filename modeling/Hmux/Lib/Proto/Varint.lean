import Mathlib.Algebra.Order.Ring.Nat
import Mathlib.Data.List.Basic
import Mathlib.Tactic.Common
import Mathlib.Tactic.NormNum
import Mathlib.Tactic.Positivity
import Mathlib.Tactic.Ring

namespace Hmux.Lib.Proto

/-!
# Protobuf varints and field keys

A varint carries seven bits in a byte, lowest first, with the high bit set on every byte but
the last.  A 64-bit value takes at most ten bytes, and the tenth may only be zero or one.
The reader accepts padded forms; the writer never pads.

* `readVarint_bytes` — reading back what was written;
* `readVarint_some` — what was read fits 64 bits, and no shorter form than the writer's exists;
* `length_varintBytes_mono` — a smaller number is never written longer.
-/

/-! ### Varints

A padded form has zero bits where the writer has none, so it is read as the same number and is
never shorter. -/

/-- Read a varint of which at most `k + 1` bytes are left; the last possible one may only be
    zero or one.  The rest of the input comes with it. -/
def readVarint : ℕ → List UInt8 → Option (ℕ × List UInt8)
  | _, [] => none
  | 0, b :: rest => if b.toNat < 2 then some (b.toNat, rest) else none
  | k + 1, b :: rest =>
    if b.toNat < 128 then some (b.toNat, rest)
    else (readVarint k rest).map fun r => (b.toNat - 128 + 128 * r.1, r.2)

/-- `decode_varint`. -/
def decodeVarint (raw : List UInt8) : Option (ℕ × List UInt8) := readVarint 9 raw

/-- Write a varint in at most `k + 1` bytes. -/
def varintBytes : ℕ → ℕ → List UInt8
  | 0, n => [UInt8.ofNat n]
  | k + 1, n =>
    if n < 128 then [UInt8.ofNat n] else UInt8.ofNat (n % 128 + 128) :: varintBytes k (n / 128)

/-- `encode_varint`. -/
def encodeVarint (n : ℕ) : List UInt8 := varintBytes 9 n

/-- The number of values of `k + 1` bytes. -/
def varintBound (k : ℕ) : ℕ := 2 * 128 ^ k

/-- One more byte holds seven more bits. -/
theorem varintBound_succ (k : ℕ) : varintBound (k + 1) = 128 * varintBound k := by
  rw [varintBound, varintBound, Nat.pow_succ]
  ring

/-- Ten bytes hold 64 bits. -/
theorem varintBound_nine : varintBound 9 = 2 ^ 64 := by norm_num [varintBound]

/-- A byte keeps a small number. -/
theorem toNat_ofNat_of_lt {n : ℕ} (h : n < 256) : (UInt8.ofNat n).toNat = n := by
  rw [UInt8.toNat_ofNat']
  exact Nat.mod_eq_of_lt h

/-- A number is read back from its bytes. -/
theorem readVarint_bytes {k n : ℕ} (h : n < varintBound k) (rest : List UInt8) :
    readVarint k (varintBytes k n ++ rest) = some (n, rest) := by
  induction k generalizing n with
  | zero =>
    have hn : n < 2 := by simpa [varintBound] using h
    have hbyte := toNat_ofNat_of_lt (show n < 256 by omega)
    rw [varintBytes, List.singleton_append, readVarint, hbyte, if_pos hn]
  | succ k ih =>
    rw [varintBytes]
    split
    · rename_i hsmall
      have hbyte := toNat_ofNat_of_lt (show n < 256 by omega)
      rw [List.singleton_append, readVarint, hbyte, if_pos hsmall]
    · rename_i hlarge
      have hbyte := toNat_ofNat_of_lt (show n % 128 + 128 < 256 by omega)
      have hdiv : n / 128 < varintBound k := by
        rw [varintBound_succ] at h
        omega
      rw [List.cons_append, readVarint, hbyte, if_neg (by omega), ih hdiv]
      have hsum : n % 128 + 128 - 128 + 128 * (n / 128) = n := by omega
      simp only [Option.map_some, hsum]

/-- Every number takes a byte at least. -/
theorem length_varintBytes_pos (k n : ℕ) : 0 < (varintBytes k n).length := by
  cases k with
  | zero => exact Nat.one_pos
  | succ k =>
    rw [varintBytes]
    split
    · exact Nat.one_pos
    · exact Nat.succ_pos _

/-- A larger number takes no fewer bytes. -/
theorem length_varintBytes_mono (k : ℕ) {m n : ℕ} (h : m ≤ n) :
    (varintBytes k m).length ≤ (varintBytes k n).length := by
  induction k generalizing m n with
  | zero => exact le_refl _
  | succ k ih =>
    rw [varintBytes, varintBytes]
    by_cases hm : m < 128
    · rw [if_pos hm]
      split
      · exact le_refl _
      · exact Nat.succ_le_succ (Nat.zero_le _)
    · rw [if_neg hm, if_neg (show ¬n < 128 by omega)]
      exact Nat.succ_le_succ (ih (Nat.div_le_div_right h))

/-- What was read is within bounds, and the reader took at least as many bytes as the writer
    needs. -/
theorem readVarint_some {k n : ℕ} {raw rest : List UInt8}
    (h : readVarint k raw = some (n, rest)) :
    n < varintBound k ∧ (varintBytes k n).length + rest.length ≤ raw.length := by
  induction k generalizing raw n with
  | zero =>
    cases raw with
    | nil => cases h
    | cons b tail =>
      rw [readVarint] at h
      split at h
      · rename_i hb
        injection h with h
        injection h with hn hrest
        subst hn hrest
        refine ⟨by simpa [varintBound] using hb, ?_⟩
        rw [varintBytes, List.length_singleton, List.length_cons]
        omega
      · cases h
  | succ k ih =>
    cases raw with
    | nil => cases h
    | cons b tail =>
      rw [readVarint] at h
      rw [varintBound_succ]
      split at h
      · rename_i hb
        injection h with h
        injection h with hn hrest
        subst hn hrest
        have hone : 0 < varintBound k := by unfold varintBound; positivity
        refine ⟨by omega, ?_⟩
        rw [varintBytes, if_pos hb, List.length_singleton, List.length_cons]
        omega
      · rename_i hb
        rw [Option.map_eq_some_iff] at h
        obtain ⟨⟨m, r⟩, hread, heq⟩ := h
        injection heq with hn hrest
        subst hrest
        obtain ⟨hbound, hlength⟩ := ih hread
        have hbyte := b.toNat_lt
        dsimp only at hn hlength ⊢
        refine ⟨by omega, ?_⟩
        rw [varintBytes, List.length_cons]
        -- a padded zero is written in one byte
        split
        · rw [List.length_singleton]
          have := length_varintBytes_pos k m
          omega
        · have hdiv : n / 128 = m := by omega
          rw [List.length_cons, hdiv]
          omega

/-- **A varint is read back.** -/
theorem decodeVarint_encodeVarint {n : ℕ} (h : n < 2 ^ 64) (rest : List UInt8) :
    decodeVarint (encodeVarint n ++ rest) = some (n, rest) :=
  readVarint_bytes (varintBound_nine ▸ h) rest

/-- What is read could have been written as short. -/
theorem decodeVarint_some {n : ℕ} {raw rest : List UInt8}
    (h : decodeVarint raw = some (n, rest)) :
    n < 2 ^ 64 ∧ (encodeVarint n).length + rest.length ≤ raw.length := by
  obtain ⟨hbound, hlength⟩ := readVarint_some h
  exact ⟨varintBound_nine ▸ hbound, hlength⟩

/-! ### Field keys

A key is the tag of the field and three bits that say how to go on reading when the tag is unknown.
-/

/-- How the value after a key is written. -/
inductive WireType
  | varint | sixtyFourBit | lengthDelimited | startGroup | endGroup | thirtyTwoBit
  deriving DecidableEq

/-- `WireType::try_from`. -/
def WireType.tryFrom : ℕ → Option WireType
  | 0 => some .varint
  | 1 => some .sixtyFourBit
  | 2 => some .lengthDelimited
  | 3 => some .startGroup
  | 4 => some .endGroup
  | 5 => some .thirtyTwoBit
  | _ => none

/-- The number of a wire type in a key. -/
def WireType.toNat : WireType → ℕ
  | .varint => 0
  | .sixtyFourBit => 1
  | .lengthDelimited => 2
  | .startGroup => 3
  | .endGroup => 4
  | .thirtyTwoBit => 5

/-- Every wire type is read back from its number. -/
theorem WireType.tryFrom_toNat (w : WireType) : tryFrom w.toNat = some w := by cases w <;> rfl

/-- The number of a wire type has three bits. -/
theorem WireType.toNat_lt (w : WireType) : w.toNat < 8 := by cases w <;> decide

/-- A wire type is read from no other number. -/
theorem WireType.toNat_of_tryFrom {n : ℕ} {w : WireType} (h : tryFrom n = some w) :
    w.toNat = n := by
  unfold tryFrom at h
  split at h <;> cases h <;> rfl

/-- `decode_key`: the key fits 32 bits and the tag is not zero. -/
def decodeKey (raw : List UInt8) : Option (ℕ × WireType × List UInt8) :=
  match decodeVarint raw with
  | none => none
  | some (key, rest) =>
    if 2 ^ 32 ≤ key then none
    else
      match WireType.tryFrom (key % 8) with
      | none => none
      | some wire => if key / 8 = 0 then none else some (key / 8, wire, rest)

/-- `encode_key`. -/
def encodeKey (tag : ℕ) (wire : WireType) : List UInt8 := encodeVarint (8 * tag + wire.toNat)

/-- **A key is read back.** -/
theorem decodeKey_encodeKey {tag : ℕ} (hpos : 0 < tag) (htag : tag < 2 ^ 29) (wire : WireType)
    (rest : List UInt8) :
    decodeKey (encodeKey tag wire ++ rest) = some (tag, wire, rest) := by
  have hwire := wire.toNat_lt
  have hmod : (8 * tag + wire.toNat) % 8 = wire.toNat := by omega
  have hdiv : (8 * tag + wire.toNat) / 8 = tag := by omega
  unfold decodeKey encodeKey
  rw [decodeVarint_encodeVarint (by omega)]
  simp only [hmod, hdiv, wire.tryFrom_toNat]
  rw [if_neg (by omega), if_neg (by omega)]

/-- What is read could have been written as short. -/
theorem decodeKey_some {tag : ℕ} {wire : WireType} {raw rest : List UInt8}
    (h : decodeKey raw = some (tag, wire, rest)) :
    0 < tag ∧ tag < 2 ^ 29 ∧ (encodeKey tag wire).length + rest.length ≤ raw.length := by
  unfold decodeKey at h
  split at h
  · cases h
  rename_i key rest' hread
  obtain ⟨-, hlength⟩ := decodeVarint_some hread
  split at h
  · cases h
  rename_i hkey
  split at h
  · cases h
  rename_i wire' hwire
  split at h
  · cases h
  rename_i hzero
  injection h with h
  simp only [Prod.mk.injEq] at h
  obtain ⟨rfl, rfl, rfl⟩ := h
  have hsum : 8 * (key / 8) + wire'.toNat = key := by
    rw [WireType.toNat_of_tryFrom hwire]
    omega
  refine ⟨by omega, by omega, ?_⟩
  rw [encodeKey, hsum]
  exact hlength

/-- Every key takes a byte at least. -/
theorem length_encodeKey_pos (tag : ℕ) (wire : WireType) : 0 < (encodeKey tag wire).length :=
  length_varintBytes_pos 9 _

end Hmux.Lib.Proto
