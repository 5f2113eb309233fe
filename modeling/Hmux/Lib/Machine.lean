import Mathlib.Algebra.Order.Ring.Nat
import Mathlib.Data.List.Basic
import Mathlib.Tactic.Common

namespace Hmux.Lib

/-!
# Machine integers as text and with overflow checks

`checkedSucc` is `checked_add(1)`, `saturatingSucc` is `saturating_add(1)`, `hexText 16` is the
text `{:016x}` writes for a 64-bit number, and `hexOf` the text `{:02x}` writes for each byte.  They
are injective where the proofs need it: a counter that never wraps gives every caller its own value,
and a fixed width gives every value its own text.
-/

/-- `u64::checked_add(1)`. -/
def checkedSucc (n : UInt64) : Option UInt64 :=
  if n.toNat + 1 < 2 ^ 64 then some (n + 1) else none

theorem checkedSucc_some {n m : UInt64} (h : checkedSucc n = some m) :
    m.toNat = n.toNat + 1 := by
  rw [checkedSucc] at h
  split at h
  · rename_i hlt
    injection h with h
    subst h
    rw [UInt64.toNat_add, Nat.mod_eq_of_lt (by simpa using hlt)]
    rfl
  · cases h

/-- `i64::saturating_add(1)`. -/
def saturatingSucc (n : Int64) : Int64 := if n = Int64.maxValue then n else n + 1

theorem toInt_saturatingSucc (n : Int64) :
    (saturatingSucc n).toInt = min (n.toInt + 1) (2 ^ 63 - 1) := by
  have hle := n.toInt_le
  have hge := n.le_toInt
  rw [Int64.toInt_maxValue] at hle
  unfold saturatingSucc
  split
  · rename_i heq
    rw [heq, Int64.toInt_maxValue]
    omega
  · rename_i hne
    have hlt : n.toInt ≠ 2 ^ 63 - 1 := by
      rw [← Int64.toInt_maxValue]
      exact fun h => hne (Int64.toInt_inj.mp h)
    have hone : (1 : Int64).toInt = 1 := rfl
    rw [Int64.toInt_add, hone, Int.bmod_eq_of_le (by omega) (by omega)]
    omega

/-- The last `k` lower-case hexadecimal digits of `n`, leading zeros kept. -/
def hexText : ℕ → ℕ → List Char
  | 0, _ => []
  | k + 1, n => hexText k (n / 16) ++ [Nat.digitChar (n % 16)]

theorem hexText_length (k n : ℕ) : (hexText k n).length = k := by
  induction k generalizing n with
  | zero => rfl
  | succ k ih => rw [hexText, List.length_append, ih]; rfl

/-- Every digit is one of sixteen. -/
theorem mem_hexText {k n : ℕ} {c : Char} (h : c ∈ hexText k n) : ∃ d < 16, c = Nat.digitChar d := by
  induction k generalizing n with
  | zero => cases h
  | succ k ih =>
    rw [hexText, List.mem_append] at h
    rcases h with h | h
    · exact ih h
    · exact ⟨n % 16, Nat.mod_lt _ (by omega), List.mem_singleton.mp h⟩

theorem digitChar_inj {m n : ℕ} (hm : m < 16) (hn : n < 16)
    (h : Nat.digitChar m = Nat.digitChar n) : m = n := by
  have key : ∀ m : Fin 16, ∀ n : Fin 16, Nat.digitChar m = Nat.digitChar n → m = n := by decide
  simpa using key ⟨m, hm⟩ ⟨n, hn⟩ h

/-- Numbers that fit the width have different texts. -/
theorem hexText_inj {k m n : ℕ} (hm : m < 16 ^ k) (hn : n < 16 ^ k)
    (h : hexText k m = hexText k n) : m = n := by
  induction k generalizing m n with
  | zero => rw [Nat.pow_zero] at hm hn; omega
  | succ k ih =>
    rw [Nat.pow_succ] at hm hn
    obtain ⟨hinit, hlast⟩ := List.append_inj' h rfl
    have hdiv : m / 16 = n / 16 :=
      ih (Nat.div_lt_of_lt_mul (by omega)) (Nat.div_lt_of_lt_mul (by omega)) hinit
    have hmod : m % 16 = n % 16 :=
      digitChar_inj (Nat.mod_lt _ (by omega)) (Nat.mod_lt _ (by omega)) (List.cons.inj hlast).1
    omega

/-- Bytes in hexadecimal, two digits for each. -/
def hexOf (l : List UInt8) : List Char := l.flatMap fun b => hexText 2 b.toNat

theorem length_hexOf (l : List UInt8) : (hexOf l).length = 2 * l.length := by
  unfold hexOf
  induction l with
  | nil => rfl
  | cons b l ih =>
    rw [List.flatMap_cons, List.length_append, hexText_length, ih, List.length_cons]
    omega

/-- Every digit is one of sixteen. -/
theorem mem_hexOf {l : List UInt8} {c : Char} (h : c ∈ hexOf l) :
    ∃ d < 16, c = Nat.digitChar d := by
  obtain ⟨b, -, hc⟩ := List.mem_flatMap.mp h
  exact mem_hexText hc

/-- Different bytes have different texts. -/
theorem hexOf_inj {l l' : List UInt8} (h : hexOf l = hexOf l') : l = l' := by
  induction l generalizing l' with
  | nil =>
    have hlen := congrArg List.length h
    rw [length_hexOf, length_hexOf, List.length_nil] at hlen
    exact (List.length_eq_zero_iff.mp (by omega)).symm
  | cons b l ih =>
    cases l' with
    | nil =>
      have hlen := congrArg List.length h
      rw [length_hexOf, length_hexOf, List.length_cons, List.length_nil] at hlen
      omega
    | cons b' l' =>
      unfold hexOf at h
      rw [List.flatMap_cons, List.flatMap_cons] at h
      obtain ⟨hhead, htail⟩ :=
        List.append_inj h ((hexText_length _ _).trans (hexText_length _ _).symm)
      have hb : b.toNat = b'.toNat := hexText_inj b.toNat_lt b'.toNat_lt hhead
      rw [UInt8.toNat_inj.mp hb, ih htail]

end Hmux.Lib
