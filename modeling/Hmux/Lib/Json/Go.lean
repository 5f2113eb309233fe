import Mathlib.Data.Fintype.Basic
import Mathlib.Data.List.Basic
import Mathlib.Tactic.Common
import Mathlib.Tactic.FinCases

namespace Hmux.Lib.Json

/-!
# Strings as Go writes them

The compact JSON string with `<`, `>`, `&` and the two separators U+2028 and U+2029 escaped as
well.  Every character has its own text and none starts with a quote, so the text of a string ends
where it says it does.

* `goString_append_inj` — a string and what follows it are known from their text.

The rows of a file are compared by their texts in the source, and what is compared has to tell two
rows apart.  That is why the escape of a character is inverted here: the text of a string followed
by something else is the text of one string and of one rest.
-/

/-- The two last hexadecimal digits of a number. -/
def hexPair (n : ℕ) : List Char := [Nat.digitChar (n / 16 % 16), Nat.digitChar (n % 16)]

/-- One character of a string. -/
def escapeChar (c : Char) : List Char :=
  if c = '"' then ['\\', '"']
  else if c = '\\' then ['\\', '\\']
  else if c = '\x08' then ['\\', 'b']
  else if c = '\t' then ['\\', 't']
  else if c = '\n' then ['\\', 'n']
  else if c = '\x0c' then ['\\', 'f']
  else if c = '\r' then ['\\', 'r']
  else if c.toNat < 32 then ['\\', 'u', '0', '0'] ++ hexPair c.toNat
  else [c]

/-- `to_string` of a string. -/
def jsonString (s : String) : List Char := '"' :: (s.toList.flatMap escapeChar ++ ['"'])

/-- `replace` of a character. -/
def replaceChar (c : Char) (text : String) (l : List Char) : List Char :=
  l.flatMap fun d => if d = c then text.toList else [d]

/-- The characters that are special in HTML or in JavaScript. -/
def htmlSafe (l : List Char) : List Char :=
  replaceChar '\u2029' "\\u2029" (replaceChar '\u2028' "\\u2028" (replaceChar '&' "\\u0026"
    (replaceChar '>' "\\u003e" (replaceChar '<' "\\u003c" l))))

/-- `go_string`. -/
def goString (s : String) : List Char := htmlSafe (jsonString s)

/-- One character of it. -/
def goChar (c : Char) : List Char := htmlSafe (escapeChar c)

/-- The number of a hexadecimal digit. -/
def hexValue (c : Char) : ℕ := if c.toNat < 58 then c.toNat - 48 else c.toNat - 87

/-- Takes what follows a backslash off a text. -/
def unescapeMore : List Char → Option (Char × List Char)
  | 'u' :: a :: b :: c :: d :: rest =>
    some (Char.ofNat (((hexValue a * 16 + hexValue b) * 16 + hexValue c) * 16 + hexValue d), rest)
  | 'b' :: rest => some ('\x08', rest)
  | 't' :: rest => some ('\t', rest)
  | 'n' :: rest => some ('\n', rest)
  | 'f' :: rest => some ('\x0c', rest)
  | 'r' :: rest => some ('\r', rest)
  | c :: rest => some (c, rest)
  | [] => none

/-- Takes one character of a string off a text. -/
def unescape : List Char → Option (Char × List Char)
  | [] => none
  | c :: rest =>
    if c = '"' then none else if c = '\\' then unescapeMore rest else some (c, rest)

theorem htmlSafe_append (l m : List Char) : htmlSafe (l ++ m) = htmlSafe l ++ htmlSafe m := by
  unfold htmlSafe replaceChar
  simp only [List.flatMap_append]

theorem htmlSafe_flatMap (l : List Char) :
    htmlSafe (l.flatMap escapeChar) = l.flatMap goChar := by
  induction l with
  | nil => rfl
  | cons c l ih => rw [List.flatMap_cons, htmlSafe_append, ih, List.flatMap_cons, goChar]

theorem goString_eq (s : String) : goString s = '"' :: (s.toList.flatMap goChar ++ ['"']) := by
  have hquote : htmlSafe ['"'] = ['"'] := by decide
  unfold goString jsonString
  rw [← List.singleton_append, htmlSafe_append, htmlSafe_append, htmlSafe_flatMap, hquote]
  rfl

theorem replaceChar_plain {c d : Char} (h : d ≠ c) (text : String) :
    replaceChar c text [d] = [d] := by
  unfold replaceChar
  rw [List.flatMap_singleton, if_neg h]

/-- A character with nothing special is written as it is. -/
theorem goChar_plain {c : Char} (hescape : escapeChar c = [c]) (h : c ∉ ['<', '>', '&', '\u2028',
    '\u2029']) : goChar c = [c] := by
  simp only [List.mem_cons, List.not_mem_nil, or_false, not_or] at h
  obtain ⟨h1, h2, h3, h4, h5⟩ := h
  unfold goChar htmlSafe
  rw [hescape, replaceChar_plain h1, replaceChar_plain h2, replaceChar_plain h3,
    replaceChar_plain h4, replaceChar_plain h5]

/-- **A character is known from its text.** -/
theorem unescape_goChar (c : Char) (rest : List Char) :
    unescape (goChar c ++ rest) = some (c, rest) := by
  by_cases hcontrol : c.toNat < 32
  · have hc : c = Char.ofNat c.toNat := (Char.ofNat_toNat c).symm
    generalize c.toNat = n at hcontrol hc
    subst hc
    have hall : ∀ n : Fin 32, unescape (goChar (Char.ofNat n) ++ rest)
        = some (Char.ofNat n, rest) := by
      intro n
      fin_cases n <;> rfl
    exact hall ⟨n, hcontrol⟩
  · by_cases hspecial : c ∈ ['"', '\\', '<', '>', '&', '\u2028', '\u2029']
    · simp only [List.mem_cons, List.not_mem_nil, or_false] at hspecial
      rcases hspecial with rfl | rfl | rfl | rfl | rfl | rfl | rfl <;> rfl
    · simp only [List.mem_cons, List.not_mem_nil, or_false, not_or] at hspecial
      obtain ⟨hquote, hslash, hrest⟩ := hspecial
      have hnot : ∀ d : Char, d.toNat < 32 → c ≠ d := by
        rintro d hd rfl
        exact hcontrol hd
      have hescape : escapeChar c = [c] := by
        unfold escapeChar
        rw [if_neg hquote, if_neg hslash, if_neg (hnot _ (by decide)), if_neg (hnot _ (by decide)),
          if_neg (hnot _ (by decide)), if_neg (hnot _ (by decide)), if_neg (hnot _ (by decide)),
          if_neg hcontrol]
      have hplain : c ∉ ['<', '>', '&', '\u2028', '\u2029'] := by
        simp only [List.mem_cons, List.not_mem_nil, or_false, not_or]
        exact hrest
      rw [goChar_plain hescape hplain, List.singleton_append, unescape, if_neg hquote,
        if_neg hslash]

/-- A character does not start with a quote. -/
theorem goChar_ne_quote (c : Char) (rest more : List Char) : goChar c ++ rest ≠ '"' :: more := by
  intro h
  have hread := unescape_goChar c rest
  rw [h, unescape, if_pos rfl] at hread
  cases hread

theorem flatMap_goChar_inj {l m rest more : List Char}
    (h : l.flatMap goChar ++ '"' :: rest = m.flatMap goChar ++ '"' :: more) :
    l = m ∧ rest = more := by
  induction l generalizing m with
  | nil =>
    cases m with
    | nil => exact ⟨rfl, (List.cons.inj h).2⟩
    | cons d m =>
      rw [List.flatMap_cons, List.append_assoc] at h
      exact absurd h.symm (goChar_ne_quote d _ _)
  | cons c l ih =>
    rw [List.flatMap_cons, List.append_assoc] at h
    cases m with
    | nil => exact absurd h (goChar_ne_quote c _ _)
    | cons d m =>
      rw [List.flatMap_cons, List.append_assoc] at h
      have hread := unescape_goChar c (l.flatMap goChar ++ '"' :: rest)
      rw [h, unescape_goChar] at hread
      obtain ⟨hchar, htail⟩ := Prod.mk.inj (Option.some.inj hread)
      obtain ⟨hl, hrest⟩ := ih htail.symm
      exact ⟨by rw [hchar, hl], hrest⟩

/-- **A string and what follows it** are known from their text. -/
theorem goString_append_inj {s t : String} {rest more : List Char}
    (h : goString s ++ rest = goString t ++ more) : s = t ∧ rest = more := by
  rw [goString_eq, goString_eq, List.cons_append, List.cons_append, List.append_assoc,
    List.append_assoc] at h
  obtain ⟨hl, hrest⟩ := flatMap_goChar_inj (List.cons.inj h).2
  exact ⟨String.toList_inj.mp hl, hrest⟩

end Hmux.Lib.Json
