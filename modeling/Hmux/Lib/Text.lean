import Mathlib.Algebra.BigOperators.Group.List.Basic
import Mathlib.Algebra.Order.Ring.Int
import Mathlib.Data.List.Basic
import Mathlib.Tactic.Common

namespace Hmux

/-!
# Text as bytes

A `String` is a valid UTF-8 byte array, here as in Rust: `bytes` is `str::as_bytes` and
`utf8` is `str::from_utf8`.
-/

/-- What is evaluated for each element of a list, as a statement. -/
theorem forall_of_all {α : Type} {p : α → Prop} [DecidablePred p] {l : List α}
    (h : (l.all fun a => decide (p a)) = true) : ∀ a ∈ l, p a := by
  intro a ha
  exact of_decide_eq_true (List.all_eq_true.mp h a ha)

/-- The UTF-8 bytes of a string (`str::as_bytes`). -/
def bytes (s : String) : List UInt8 := s.toByteArray.data.toList

/-- Two strings with the same bytes are the same. -/
theorem bytes_inj {s t : String} : bytes s = bytes t ↔ s = t := by
  constructor
  · intro h
    exact String.toByteArray_inj.mp (ByteArray.ext (Array.ext' h))
  · rintro rfl
    rfl

/-- `str::from_utf8`: the text these bytes are, if they are valid UTF-8. -/
def utf8 (b : List UInt8) : Option String := String.fromUTF8? ⟨b.toArray⟩

theorem utf8_eq_some {b : List UInt8} {s : String} : utf8 b = some s ↔ bytes s = b := by
  unfold utf8 String.fromUTF8? bytes
  constructor
  · intro h
    split at h
    · injection h with h
      subst h
      rfl
    · cases h
  · rintro rfl
    have hvalid : (⟨s.toByteArray.data.toList.toArray⟩ : ByteArray).IsValidUTF8 := s.isValidUTF8
    rw [dif_pos hvalid]
    rfl

@[simp] theorem utf8_bytes (s : String) : utf8 (bytes s) = some s := utf8_eq_some.mpr rfl

/-- `str::len`. -/
def len (s : String) : ℕ := (bytes s).length

@[simp] theorem bytes_empty : bytes "" = [] := rfl

theorem bytes_eq_nil {s : String} : bytes s = [] ↔ s = "" := by
  rw [← bytes_empty, bytes_inj]

/-- The bytes are those of the characters. -/
theorem bytes_eq_flatMap (s : String) : bytes s = s.toList.flatMap String.utf8EncodeChar := by
  unfold bytes
  rw [← String.utf8Encode_toList, List.utf8Encode, List.data_toByteArray]

/-- A character takes four bytes at most. -/
theorem length_bytes_le (s : String) : (bytes s).length ≤ 4 * s.toList.length := by
  rw [bytes_eq_flatMap]
  induction s.toList with
  | nil => exact Nat.le_refl _
  | cons c cs ih =>
    have hc := c.utf8Size_le_four
    rw [List.flatMap_cons, List.length_append, String.length_utf8EncodeChar, List.length_cons]
    omega

@[simp] theorem bytes_append (s t : String) : bytes (s ++ t) = bytes s ++ bytes t := by
  rw [bytes_eq_flatMap, bytes_eq_flatMap, bytes_eq_flatMap, String.toList_append,
    List.flatMap_append]

/-- The bytes of a text of ASCII characters are the characters. -/
theorem bytes_ofList {l : List Char} (h : ∀ c ∈ l, c.utf8Size = 1) :
    bytes (String.ofList l) = l.map fun c => c.val.toUInt8 := by
  rw [bytes_eq_flatMap, String.toList_ofList]
  induction l with
  | nil => rfl
  | cons c l ih =>
    rw [List.flatMap_cons, String.utf8EncodeChar_eq_singleton (h c List.mem_cons_self),
      ih fun d hd => h d (List.mem_cons_of_mem _ hd)]
    rfl

/-- A text of ASCII characters has a byte for each. -/
theorem length_bytes_of_ascii {s : String} (h : ∀ c ∈ s.toList, c.utf8Size = 1) :
    (bytes s).length = s.toList.length := by
  rw [bytes_eq_flatMap]
  generalize s.toList = l at h
  induction l with
  | nil => rfl
  | cons c l ih =>
    rw [List.flatMap_cons, List.length_append, String.length_utf8EncodeChar,
      h c List.mem_cons_self, ih fun d hd => h d (List.mem_cons_of_mem _ hd), List.length_cons]
    omega

/-- Two parts that are separated by a character the first has not. -/
theorem append_cons_inj {c : Char} {a a' b b' : List Char} (ha : c ∉ a) (ha' : c ∉ a')
    (h : a ++ c :: b = a' ++ c :: b') : a = a' ∧ b = b' := by
  induction a generalizing a' with
  | nil =>
    cases a' with
    | nil => exact ⟨rfl, (List.cons.inj h).2⟩
    | cons x a' => exact absurd ((List.cons.inj h).1 ▸ List.mem_cons_self) ha'
  | cons x a ih =>
    cases a' with
    | nil => exact absurd ((List.cons.inj h).1 ▸ List.mem_cons_self) ha
    | cons x' a' =>
      obtain ⟨rfl, htail⟩ := List.cons.inj h
      obtain ⟨rfl, rfl⟩ := ih (fun hc => ha (List.mem_cons_of_mem _ hc))
        (fun hc => ha' (List.mem_cons_of_mem _ hc)) htail
      exact ⟨rfl, rfl⟩

/-! ### Bytes of ASCII characters

The classes of bytes that the parsers of the source ask for, each under the name of the library
function. -/

/-- `u8::is_ascii_whitespace`. -/
def isAsciiWhitespace (b : UInt8) : Bool := b == 32 || b == 9 || b == 10 || b == 12 || b == 13

/-- `u8::is_ascii_digit`. -/
def isAsciiDigit (b : UInt8) : Bool := 48 ≤ b && b ≤ 57

/-- `u8::is_ascii_lowercase`. -/
def isAsciiLowercase (b : UInt8) : Bool := 97 ≤ b && b ≤ 122

/-- `u8::is_ascii_uppercase`. -/
def isAsciiUppercase (b : UInt8) : Bool := 65 ≤ b && b ≤ 90

/-- `u8::is_ascii_alphanumeric`. -/
def isAsciiAlphanumeric (b : UInt8) : Bool :=
  isAsciiDigit b || isAsciiLowercase b || isAsciiUppercase b

/-- A hexadecimal digit in lower case. -/
def isLowerHex (b : UInt8) : Bool := isAsciiDigit b || (97 ≤ b && b ≤ 102)

/-- `u8::is_ascii_hexdigit`. -/
def isAsciiHexdigit (b : UInt8) : Bool :=
  isAsciiDigit b || (97 ≤ b && b ≤ 102) || (65 ≤ b && b ≤ 70)

end Hmux
