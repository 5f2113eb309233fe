import Hmux.Lib.Text
import Mathlib.Data.List.Basic
import Mathlib.Tactic.Common

namespace Hmux.Lib.Base64

/-!
# Base64

The two alphabets of RFC 4648, with and without padding.  The reader is strict, as that of the
`base64` crate: it accepts what the writer wrote and nothing else, so the bits that are left over at
the end must be zero.

* `decode_encode` — what was written is read back.

The digits are read four at a time, by recursion on the text; a group of two or three digits stands
for one or two bytes and can only be the last.  Tokens, salts and keys of fixed length are compared
in their encoded form, so the encoder is shown to be injective and the length of its text to depend
on the number of bytes alone.
-/

/-- The last two digits of an alphabet. -/
structure Alphabet where
  plus : Char
  slash : Char

/-- `STANDARD`. -/
def standard : Alphabet := ⟨'+', '/'⟩

/-- `URL_SAFE`. -/
def urlSafe : Alphabet := ⟨'-', '_'⟩

/-- The digit for six bits. -/
def digit (alphabet : Alphabet) (n : ℕ) : Char :=
  if n < 26 then Char.ofNat (65 + n)
  else if n < 52 then Char.ofNat (71 + n)
  else if n < 62 then Char.ofNat (n - 4)
  else if n = 62 then alphabet.plus else alphabet.slash

/-- The six bits of a digit. -/
def value (alphabet : Alphabet) (c : Char) : Option ℕ :=
  (List.range 64).find? fun n => digit alphabet n = c

/-- Three bytes are four digits, and what is left is two or three. -/
def encode (alphabet : Alphabet) (pad : Bool) : List UInt8 → List Char
  | a :: b :: c :: rest =>
    [a.toNat / 4, a.toNat % 4 * 16 + b.toNat / 16, b.toNat % 16 * 4 + c.toNat / 64,
      c.toNat % 64].map (digit alphabet) ++ encode alphabet pad rest
  | [a, b] =>
    [a.toNat / 4, a.toNat % 4 * 16 + b.toNat / 16, b.toNat % 16 * 4].map (digit alphabet) ++
      if pad then ['='] else []
  | [a] =>
    [a.toNat / 4, a.toNat % 4 * 16].map (digit alphabet) ++ if pad then ['=', '='] else []
  | [] => []

/-- `NO_PAD.decode`. -/
def decode (alphabet : Alphabet) : List Char → Option (List UInt8)
  | w :: x :: y :: z :: rest =>
    match value alphabet w, value alphabet x, value alphabet y, value alphabet z,
      decode alphabet rest with
    | some w, some x, some y, some z, some more =>
      some (UInt8.ofNat (w * 4 + x / 16) :: UInt8.ofNat (x % 16 * 16 + y / 4) ::
        UInt8.ofNat (y % 4 * 64 + z) :: more)
    | _, _, _, _, _ => none
  | [w, x, y] =>
    match value alphabet w, value alphabet x, value alphabet y with
    | some w, some x, some y =>
      if y % 4 = 0 then some [UInt8.ofNat (w * 4 + x / 16), UInt8.ofNat (x % 16 * 16 + y / 4)]
      else none
    | _, _, _ => none
  | [w, x] =>
    match value alphabet w, value alphabet x with
    | some w, some x => if x % 16 = 0 then some [UInt8.ofNat (w * 4 + x / 16)] else none
    | _, _ => none
  | [_] => none
  | [] => some []

theorem value_digit {n : ℕ} (h : n < 64) : value urlSafe (digit urlSafe n) = some n := by
  have hall : ∀ n : Fin 64, value urlSafe (digit urlSafe n) = some n.val := by decide +kernel
  exact hall ⟨n, h⟩

/-- **What was written is read back.** -/
theorem decode_encode (l : List UInt8) : decode urlSafe (encode urlSafe false l) = some l := by
  fun_induction encode urlSafe false l with
  | case1 a b c rest ih =>
    have ha := a.toNat_lt
    have hb := b.toNat_lt
    have hc := c.toNat_lt
    have h1 : a.toNat / 4 * 4 + (a.toNat % 4 * 16 + b.toNat / 16) / 16 = a.toNat := by omega
    have h2 : (a.toNat % 4 * 16 + b.toNat / 16) % 16 * 16
        + (b.toNat % 16 * 4 + c.toNat / 64) / 4 = b.toNat := by omega
    have h3 : (b.toNat % 16 * 4 + c.toNat / 64) % 4 * 64 + c.toNat % 64 = c.toNat := by omega
    show decode urlSafe (_ :: _ :: _ :: _ :: encode urlSafe false rest) = _
    rw [decode, value_digit (by omega), value_digit (by omega), value_digit (by omega),
      value_digit (by omega), ih]
    dsimp only
    rw [h1, h2, h3, UInt8.ofNat_toNat, UInt8.ofNat_toNat, UInt8.ofNat_toNat]
  | case2 a b =>
    have ha := a.toNat_lt
    have hb := b.toNat_lt
    have h1 : a.toNat / 4 * 4 + (a.toNat % 4 * 16 + b.toNat / 16) / 16 = a.toNat := by omega
    have h2 : (a.toNat % 4 * 16 + b.toNat / 16) % 16 * 16 + b.toNat % 16 * 4 / 4 = b.toNat := by
      omega
    show decode urlSafe [_, _, _] = _
    rw [decode, value_digit (by omega), value_digit (by omega), value_digit (by omega)]
    dsimp only
    rw [if_pos (by omega), h1, h2, UInt8.ofNat_toNat, UInt8.ofNat_toNat]
  | case3 a =>
    have ha := a.toNat_lt
    have h1 : a.toNat / 4 * 4 + a.toNat % 4 * 16 / 16 = a.toNat := by omega
    show decode urlSafe [_, _] = _
    rw [decode, value_digit (by omega), value_digit (by omega)]
    dsimp only
    rw [if_pos (by omega), h1, UInt8.ofNat_toNat]
  | case4 => rfl

/-- What is written is digits, and the padding after them. -/
theorem mem_encode {alphabet : Alphabet} {pad : Bool} {l : List UInt8} {c : Char}
    (h : c ∈ encode alphabet pad l) : c = '=' ∨ ∃ n, c = digit alphabet n := by
  have hmap :
    ∀ {ns : List ℕ}, c ∈ ns.map (digit alphabet) → c = '=' ∨ ∃ n, c = digit alphabet n := by
    intro ns hc
    obtain ⟨n, -, rfl⟩ := List.mem_map.mp hc
    exact .inr ⟨n, rfl⟩
  fun_induction encode alphabet pad l with
  | case1 a b d rest ih =>
    rcases List.mem_append.mp h with h | h
    · exact hmap h
    · exact ih h
  | case2 a b =>
    rcases List.mem_append.mp h with h | h
    · exact hmap h
    · cases pad with
      | true => exact .inl (List.mem_singleton.mp h)
      | false => exact absurd h List.not_mem_nil
  | case3 a =>
    rcases List.mem_append.mp h with h | h
    · exact hmap h
    · cases pad with
      | true => exact .inl (by simpa using h)
      | false => exact absurd h List.not_mem_nil
  | case4 => exact absurd h List.not_mem_nil

/-- Without padding there are four digits for three bytes, rounded up. -/
theorem length_encode (alphabet : Alphabet) (l : List UInt8) :
    (encode alphabet false l).length = (4 * l.length + 2) / 3 := by
  fun_induction encode alphabet false l with
  | case1 a b c rest ih =>
    simp only [List.length_append, List.length_map, List.length_cons, List.length_nil, ih]
    omega
  | case2 a b => simp
  | case3 a => simp
  | case4 => rfl

/-- `URL_SAFE_NO_PAD.encode`. -/
def urlSafeNoPad (l : List UInt8) : String := String.ofList (encode urlSafe false l)

/-- `URL_SAFE_NO_PAD.decode`. -/
def urlSafeBytes (text : String) : Option (List UInt8) := decode urlSafe text.toList

theorem urlSafeBytes_encode (l : List UInt8) : urlSafeBytes (urlSafeNoPad l) = some l := by
  unfold urlSafeBytes urlSafeNoPad
  rw [String.toList_ofList, decode_encode]

theorem length_urlSafeNoPad (l : List UInt8) :
    (urlSafeNoPad l).toList.length = (4 * l.length + 2) / 3 := by
  unfold urlSafeNoPad
  rw [String.toList_ofList, length_encode]

theorem utf8Size_digit (n : ℕ) : (digit urlSafe n).utf8Size = 1 := by
  have hall : ∀ n : Fin 64, (digit urlSafe n).utf8Size = 1 := by decide +kernel
  by_cases h : n < 64
  · exact hall ⟨n, h⟩
  · unfold digit
    rw [if_neg (by omega), if_neg (by omega), if_neg (by omega), if_neg (by omega)]
    rfl

theorem utf8Size_encode (l : List UInt8) : ∀ c ∈ encode urlSafe false l, c.utf8Size = 1 := by
  have hmap : ∀ (ns : List ℕ), ∀ c ∈ ns.map (digit urlSafe), c.utf8Size = 1 := by
    intro ns c hc
    obtain ⟨n, -, rfl⟩ := List.mem_map.mp hc
    exact utf8Size_digit n
  fun_induction encode urlSafe false l with
  | case1 a b c rest ih =>
    intro d hd
    rcases List.mem_append.mp hd with hd | hd
    · exact hmap _ d hd
    · exact ih d hd
  | case2 a b =>
    rw [if_neg Bool.false_ne_true, List.append_nil]
    exact hmap _
  | case3 a =>
    rw [if_neg Bool.false_ne_true, List.append_nil]
    exact hmap _
  | case4 => exact fun c hc => nomatch hc

theorem length_bytes_urlSafeNoPad (l : List UInt8) :
    (bytes (urlSafeNoPad l)).length = (4 * l.length + 2) / 3 := by
  rw [length_bytes_of_ascii, length_urlSafeNoPad]
  unfold urlSafeNoPad
  rw [String.toList_ofList]
  exact utf8Size_encode l

/-- Different bytes have different texts. -/
theorem urlSafeNoPad_inj {l m : List UInt8} (h : urlSafeNoPad l = urlSafeNoPad m) : l = m := by
  have h' := congrArg urlSafeBytes h
  rw [urlSafeBytes_encode, urlSafeBytes_encode] at h'
  exact Option.some.inj h'

end Hmux.Lib.Base64
