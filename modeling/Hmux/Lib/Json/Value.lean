import Mathlib.Data.Int.Notation
import Mathlib.Data.List.Basic
import Mathlib.Tactic.Common
import Hmux.Lib.Text

namespace Hmux.Lib

/-!
# JSON values and their compact text

`Json` is a parsed value: numbers are integers or doubles (by their bits), and the fields of an
object stand in the order of the text, duplicates included.  `Json.text` is the compact
writer: no white space, the two-character escapes where there are any and `\u00xx` for the
other control characters.  How a double is written, and how text is read, is a parameter
(`Serde`).

* `length_escape_le` — a text grows by a factor of six at most;
* `head_text_obj` — an object starts with its brace;
* `length_text_replicate` — the length of a list of equal items.
-/

/-- A JSON value. -/
inductive Json
  | null
  | bool (b : Bool)
  | int (n : ℤ)
  | float (bits : UInt64)
  | str (s : String)
  | arr (items : List Json)
  | obj (fields : List (String × Json))

namespace Json

/-! ### Writer

Only the bytes that have to be escaped are escaped; text above ASCII is written as it is. -/

/-- The hexadecimal digit of a number below sixteen. -/
def hexDigit (n : UInt8) : UInt8 := if n < 10 then 48 + n else 87 + n

/-- One byte of a string. -/
def escape (b : UInt8) : List UInt8 :=
  if b = 34 then [92, 34]
  else if b = 92 then [92, 92]
  else if b = 8 then [92, 98]
  else if b = 9 then [92, 116]
  else if b = 10 then [92, 110]
  else if b = 12 then [92, 102]
  else if b = 13 then [92, 114]
  else if b < 32 then [92, 117, 48, 48, hexDigit (b / 16), hexDigit (b % 16)]
  else [b]

/-- A string with its quotes. -/
def quote (s : String) : List UInt8 := 34 :: ((bytes s).flatMap escape ++ [34])

/-- An integer in decimal. -/
def decimal (n : ℤ) : List UInt8 := bytes (toString n)

section

variable (format : UInt64 → List UInt8)

mutual

/-- The compact text of a value. -/
def text : Json → List UInt8
  | .null => bytes "null"
  | .bool b => bytes (if b then "true" else "false")
  | .int n => decimal n
  | .float bits => format bits
  | .str s => quote s
  | .arr items => 91 :: (textItems items ++ [93])
  | .obj fields => 123 :: (textFields fields ++ [125])

/-- The items of a list, with commas between them. -/
def textItems : List Json → List UInt8
  | [] => []
  | j :: items => text j ++ textMore items

/-- The items after the first. -/
def textMore : List Json → List UInt8
  | [] => []
  | j :: items => 44 :: (text j ++ textMore items)

/-- The fields of an object, with commas between them. -/
def textFields : List (String × Json) → List UInt8
  | [] => []
  | (key, j) :: fields => quote key ++ 58 :: (text j ++ textMoreFields fields)

/-- The fields after the first. -/
def textMoreFields : List (String × Json) → List UInt8
  | [] => []
  | (key, j) :: fields => 44 :: (quote key ++ 58 :: (text j ++ textMoreFields fields))

end

/-- An object starts with its brace. -/
theorem head_text_obj (fields : List (String × Json)) :
    (text format (.obj fields)).head? = some 123 := by
  rw [text]
  rfl

/-- No value is written as nothing but a double might be. -/
theorem text_obj_ne_nil (fields : List (String × Json)) : text format (.obj fields) ≠ [] := by
  rw [text]
  exact List.cons_ne_nil _ _

theorem text_arr_ne_nil (items : List Json) : text format (.arr items) ≠ [] := by
  rw [text]
  exact List.cons_ne_nil _ _

theorem length_textMore_replicate (n : ℕ) (j : Json) :
    (textMore format (List.replicate n j)).length = n * ((text format j).length + 1) := by
  induction n with
  | zero => simp [textMore]
  | succ n ih =>
    rw [List.replicate_succ, textMore, List.length_cons, List.length_append, ih, Nat.succ_mul]
    omega

/-- A list of equal items is as long as its items, the commas and the brackets. -/
theorem length_text_replicate (n : ℕ) (j : Json) :
    (text format (.arr (List.replicate n j))).length ≤ n * ((text format j).length + 1) + 2 := by
  have hmore := length_textMore_replicate format n j
  rw [text, List.length_cons, List.length_append, List.length_singleton]
  cases n with
  | zero => simp [textItems]
  | succ n =>
    rw [List.replicate_succ, textMore, List.length_cons] at hmore
    rw [List.replicate_succ, textItems]
    omega

end

/-! ### Length

Bounds for callers that write into a buffer with a limit, and the exact length where nothing is
escaped. -/

theorem length_escape_le (b : UInt8) : (escape b).length ≤ 6 := by
  unfold escape
  repeat' split
  all_goals simp

/-- A text grows by a factor of six at most. -/
theorem length_quote_le (s : String) : (quote s).length ≤ 6 * (bytes s).length + 2 := by
  have hflat : ∀ l : List UInt8, (l.flatMap escape).length ≤ 6 * l.length := by
    intro l
    induction l with
    | nil => simp
    | cons b l ih =>
      have hb := length_escape_le b
      rw [List.flatMap_cons, List.length_append, List.length_cons]
      omega
  have := hflat (bytes s)
  rw [quote, List.length_cons, List.length_append, List.length_singleton]
  omega

/-- No byte of the text has to be escaped. -/
def unescaped (s : String) : Bool := (bytes s).all fun b => 32 ≤ b && b ≠ 34 && b ≠ 92

/-- A text without escapes grows by its quotes only. -/
theorem length_quote_of_unescaped {s : String} (h : unescaped s = true) :
    (quote s).length = (bytes s).length + 2 := by
  have hflat : ∀ l : List UInt8, (l.all fun b => 32 ≤ b && b ≠ 34 && b ≠ 92) = true →
      (l.flatMap escape).length = l.length := by
    intro l hl
    induction l with
    | nil => rfl
    | cons b l ih =>
      rw [List.all_cons, Bool.and_eq_true] at hl
      have hb : escape b = [b] := by
        have hbyte := hl.1
        simp only [Bool.and_eq_true, decide_eq_true_eq] at hbyte
        obtain ⟨⟨hlow, hquote⟩, hslash⟩ := hbyte
        have hnot : ∀ c : UInt8, c < 32 → b ≠ c := by
          rintro c hc rfl
          exact absurd hlow (UInt8.not_le.mpr hc)
        unfold escape
        rw [if_neg hquote, if_neg hslash, if_neg (hnot 8 (by decide)), if_neg (hnot 9 (by decide)),
          if_neg (hnot 10 (by decide)), if_neg (hnot 12 (by decide)), if_neg (hnot 13 (by decide)),
          if_neg (UInt8.not_lt.mpr hlow)]
      rw [List.flatMap_cons, hb, List.length_append, ih hl.2, List.length_singleton,
        List.length_cons]
      omega
  rw [quote, List.length_cons, List.length_append, List.length_singleton, hflat _ h]

/-- A number is no longer than its digits and a sign. -/
theorem length_decimal_le {n : ℤ} {k : ℕ} (hk : 0 < k) (h : n.natAbs < 10 ^ k) :
    (decimal n).length ≤ k + 1 := by
  have hdigits : ∀ m : ℕ, m < 10 ^ k → (bytes m.repr).length ≤ k := by
    intro m hm
    have hascii : ∀ c ∈ m.repr.toList, c.utf8Size = 1 := by
      intro c hc
      rw [Nat.toList_repr] at hc
      have hdigit := Nat.isDigit_of_mem_toDigits (by decide) (by decide) hc
      simp only [Char.isDigit, Bool.and_eq_true, decide_eq_true_eq] at hdigit
      have hle : c.val ≤ 57 := hdigit.2
      unfold Char.utf8Size
      rw [if_pos (UInt32.le_trans hle (by decide))]
    rw [length_bytes_of_ascii hascii, Nat.toList_repr]
    exact (Nat.length_toDigits_le_iff (by decide) hk).mpr hm
  unfold decimal
  cases n with
  | ofNat m =>
    have hm := hdigits m h
    show (bytes m.repr).length ≤ k + 1
    omega
  | negSucc m =>
    have hm := hdigits (m + 1) h
    show (bytes ("-" ++ (m + 1).repr)).length ≤ k + 1
    rw [bytes_append, List.length_append, show (bytes "-").length = 1 from rfl]
    omega

/-- An object is as long as its first field, the fields after it and the braces. -/
theorem length_text_obj_cons (format : UInt64 → List UInt8) (key : String) (j : Json)
    (fields : List (String × Json)) :
    (text format (.obj ((key, j) :: fields))).length
      = (quote key).length + (text format j).length +
      (textMoreFields format fields).length + 3 := by
  rw [text, textFields]
  simp only [List.length_cons, List.length_append, List.length_nil]
  omega

theorem length_textMoreFields_cons (format : UInt64 → List UInt8) (key : String) (j : Json)
    (fields : List (String × Json)) :
    (textMoreFields format ((key, j) :: fields)).length
      = (quote key).length + (text format j).length +
      (textMoreFields format fields).length + 2 := by
  rw [textMoreFields]
  simp only [List.length_cons, List.length_append]
  omega

@[simp] theorem length_textMoreFields_nil (format : UInt64 → List UInt8) :
    (textMoreFields format []).length = 0 := by
  rw [textMoreFields]
  rfl

/-- A list of items of this length at most. -/
theorem length_text_arr_le (format : UInt64 → List UInt8) {items : List Json} {k : ℕ}
    (h : ∀ j ∈ items, (text format j).length ≤ k) :
    (text format (.arr items)).length ≤ items.length * (k + 1) + 2 := by
  have hmore : ∀ l : List Json, (∀ j ∈ l, (text format j).length ≤ k) →
      (textMore format l).length ≤ l.length * (k + 1) := by
    intro l hl
    induction l with
    | nil => simp [textMore]
    | cons j l ih =>
      have hj := hl j List.mem_cons_self
      have hrest := ih fun i hi => hl i (List.mem_cons_of_mem _ hi)
      rw [textMore, List.length_cons, List.length_append, List.length_cons, Nat.succ_mul]
      omega
  rw [text, List.length_cons, List.length_append, List.length_singleton]
  cases items with
  | nil => simp [textItems]
  | cons j items =>
    have hj := h j List.mem_cons_self
    have hrest := hmore items fun i hi => h i (List.mem_cons_of_mem _ hi)
    rw [textItems, List.length_append, List.length_cons, Nat.succ_mul]
    omega

end Json

/-! ### Reader

The assumption on a JSON library, as a structure: what the proofs use of it is a field, and nothing
else is known. -/

/-- The parts of the JSON library that are not spelled out: how a double is written, which
    double an integer is, and the reader, which takes one value off a text. -/
structure Serde where
  format : UInt64 → List UInt8
  ofInt : ℤ → UInt64
  read : List UInt8 → Option (Json × List UInt8)

namespace Serde

variable (S : Serde)

/-- `to_vec`. -/
def text (j : Json) : List UInt8 := j.text S.format

/-- White space between tokens. -/
def isBlank (b : UInt8) : Bool := b = 32 || b = 9 || b = 10 || b = 13

/-- `from_slice`: one value and nothing but white space after it. -/
def fromSlice (raw : List UInt8) : Option Json :=
  match S.read raw with
  | some (j, rest) => if rest.all isBlank then some j else none
  | none => none

/-- The value is read back from its text. -/
def Reads (j : Json) : Prop := S.read (S.text j) = some (j, [])

variable {S}

theorem Reads.fromSlice {j : Json} (h : S.Reads j) : S.fromSlice (S.text j) = some j := by
  rw [Serde.fromSlice, show S.read (S.text j) = some (j, []) from h]
  rfl

end Serde

end Hmux.Lib
