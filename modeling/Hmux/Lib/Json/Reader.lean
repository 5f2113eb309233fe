import Hmux.Lib.Json.Codec

namespace Hmux.Lib.Json.Compact

/-!
# A reader of compact texts

A reader for what `Json.text` writes: no white space between tokens, integers but no doubles.  It
shows that the assumption that a text is read back (`Serde.Reads`) can be met.

* `serde_reads` — every value without doubles is read back.

Everything the proofs of this development assume about the JSON library is that a value which was
written is read back.  An assumption of that kind could be empty; the reader here makes sure that
it is not, for the values that the examples use.
-/

/-! ### Strings

A string is read character by character, each with its escape, up to the quote that no escape
stands before. -/

/-- The number of a hexadecimal digit. -/
def hexValue (b : UInt8) : Option ℕ :=
  if 48 ≤ b && b ≤ 57 then some (b.toNat - 48)
  else if 97 ≤ b && b ≤ 102 then some (b.toNat - 87)
  else none

/-- The byte of a two-character escape. -/
def unescape (e : UInt8) : Option UInt8 :=
  if e = 34 then some 34
  else if e = 92 then some 92
  else if e = 47 then some 47
  else if e = 98 then some 8
  else if e = 116 then some 9
  else if e = 110 then some 10
  else if e = 102 then some 12
  else if e = 114 then some 13
  else none

/-- The bytes of the character that four digits name. -/
def unicode (w x y z : UInt8) : Option (List UInt8) :=
  match hexValue w, hexValue x, hexValue y, hexValue z with
  | some w, some x, some y, some z =>
    let code := ((w * 16 + x) * 16 + y) * 16 + z
    if 0xD800 ≤ code && code ≤ 0xDFFF then none else some (String.utf8EncodeChar (Char.ofNat code))
  | _, _, _, _ => none

/-- The rest of a string, up to its closing quote. -/
def readString : List UInt8 → Option (List UInt8 × List UInt8)
  | [] => none
  | b :: rest =>
    if b = 34 then some ([], rest)
    else if b = 92 then
      match rest with
      | [] => none
      | e :: rest =>
        if e = 117 then
          match rest with
          | w :: x :: y :: z :: rest =>
            match unicode w x y z, readString rest with
            | some c, some (s, rest) => some (c ++ s, rest)
            | _, _ => none
          | _ => none
        else
          match unescape e, readString rest with
          | some c, some (s, rest) => some (c :: s, rest)
          | _, _ => none
    else if b < 32 then none
    else
      match readString rest with
      | some (s, rest) => some (b :: s, rest)
      | none => none

/-- The escape of a control character is read back as its byte. -/
theorem unicode_control {b : UInt8} (h : b < 32) :
    unicode 48 48 (hexDigit (b / 16)) (hexDigit (b % 16)) = some [b] := by
  have hall : ∀ n : Fin 32, unicode 48 48 (hexDigit (UInt8.ofNat n / 16))
      (hexDigit (UInt8.ofNat n % 16)) = some [UInt8.ofNat n] := by
    decide
  have hlt : b.toNat < 32 := h
  have hone := hall ⟨b.toNat, hlt⟩
  dsimp only at hone
  rwa [UInt8.ofNat_toNat] at hone

/-- One byte of a string is read back. -/
theorem readString_escape (b : UInt8) (s rest raw : List UInt8)
    (h : readString raw = some (s, rest)) :
    readString (escape b ++ raw) = some (b :: s, rest) := by
  -- a backslash and one more character, for those that have a short form
  have htwo : ∀ e c, unescape e = some c → e ≠ 117 →
      readString (92 :: e :: raw) = some (c :: s, rest) := by
    intro e c he hne
    rw [readString.eq_def]
    dsimp only
    rw [if_neg (by decide), if_pos rfl, if_neg hne, he, h]
  unfold escape
  split
  · rename_i hb
    rw [hb]
    exact htwo 34 34 rfl (by decide)
  · rename_i hquote
    split
    · rename_i hb
      rw [hb]
      exact htwo 92 92 rfl (by decide)
    · rename_i hslash
      split
      · rename_i hb
        rw [hb]
        exact htwo 98 8 rfl (by decide)
      · split
        · rename_i hb
          rw [hb]
          exact htwo 116 9 rfl (by decide)
        · split
          · rename_i hb
            rw [hb]
            exact htwo 110 10 rfl (by decide)
          · split
            · rename_i hb
              rw [hb]
              exact htwo 102 12 rfl (by decide)
            · split
              · rename_i hb
                rw [hb]
                exact htwo 114 13 rfl (by decide)
              · split
                -- a control character in hexadecimal, or the character itself
                · rename_i hcontrol
                  show readString (92 :: 117 :: 48 :: 48 :: hexDigit (b / 16) ::
                    hexDigit (b % 16) ::
                    raw) = _
                  rw [readString.eq_def]
                  dsimp only
                  rw [if_neg (by decide), if_pos rfl, if_pos rfl, unicode_control hcontrol, h]
                  rfl
                · rename_i hplain
                  show readString (b :: raw) = _
                  rw [readString.eq_def]
                  dsimp only
                  rw [if_neg hquote, if_neg hslash, if_neg hplain, h]

/-- A text with its escapes is read back, up to the quote. -/
theorem readString_flatMap (s rest : List UInt8) :
    readString (s.flatMap escape ++ 34 :: rest) = some (s, rest) := by
  induction s with
  | nil =>
    show readString (34 :: rest) = _
    rw [readString.eq_def]
    dsimp only
    rw [if_pos rfl]
  | cons b s ih =>
    rw [List.flatMap_cons, List.append_assoc]
    exact readString_escape b s rest _ ih

/-- A string and what stands after it. -/
def readText (raw : List UInt8) : Option (String × List UInt8) :=
  match readString raw with
  | some (s, rest) => (utf8 s).map (·, rest)
  | none => none

/-- **A string is read back.** -/
theorem readText_quote (s : String) (rest : List UInt8) :
    quote s ++ rest = 34 :: ((bytes s).flatMap escape ++ 34 :: rest) ∧
      readText ((bytes s).flatMap escape ++ 34 :: rest) = some (s, rest) := by
  constructor
  · unfold quote
    simp
  · unfold readText
    rw [readString_flatMap]
    dsimp only
    rw [utf8_bytes]
    rfl

/-! ### Numbers

An integer is as many digits as there are, so what follows it must not go on with it. -/

/-- A byte of an integer. -/
def isNumeral (b : UInt8) : Bool := (48 ≤ b && b ≤ 57) || b = 45

/-- What stands after a value does not go on with it. -/
def Stops (rest : List UInt8) : Prop := ∀ b ∈ rest.head?, isNumeral b = false

/-- A decimal digit is part of a numeral. -/
theorem isNumeral_digit {c : Char} (h : c.isDigit = true) :
    ∀ b ∈ String.utf8EncodeChar c, isNumeral b = true := by
  have hc : 48 ≤ c.val.toNat ∧ c.val.toNat ≤ 57 := by
    simp only [Char.isDigit, Bool.and_eq_true, decide_eq_true_eq] at h
    exact ⟨h.1, h.2⟩
  have hone : String.utf8EncodeChar c = [c.val.toUInt8] := by
    unfold String.utf8EncodeChar
    dsimp only
    rw [if_pos (by omega)]
    rfl
  intro b hb
  rw [hone, List.mem_singleton] at hb
  rw [hb]
  have hval : c.val.toUInt8.toNat = c.val.toNat := by
    rw [UInt32.toNat_toUInt8]
    omega
  unfold isNumeral
  rw [Bool.or_eq_true, Bool.and_eq_true, decide_eq_true_eq, decide_eq_true_eq]
  left
  rw [UInt8.le_iff_toNat_le, UInt8.le_iff_toNat_le, hval]
  exact hc

/-- All of the text of a natural number is part of a numeral. -/
theorem isNumeral_repr (n : ℕ) : ∀ b ∈ bytes n.repr, isNumeral b = true := by
  intro b hb
  rw [bytes_eq_flatMap, List.mem_flatMap] at hb
  obtain ⟨c, hc, hb⟩ := hb
  rw [Nat.toList_repr] at hc
  exact isNumeral_digit (Nat.isDigit_of_mem_toDigits (by decide) (by decide) hc) b hb

/-- All of the text of an integer is part of a numeral, also its sign. -/
theorem isNumeral_decimal (n : ℤ) : ∀ b ∈ decimal n, isNumeral b = true := by
  intro b hb
  have hrepr : decimal n = bytes n.repr := rfl
  rw [hrepr] at hb
  cases n with
  | ofNat m => exact isNumeral_repr m b hb
  | negSucc m =>
    have hminus : bytes (Int.negSucc m).repr = bytes "-" ++ bytes (m + 1).repr := by
      unfold bytes
      rw [show (Int.negSucc m).repr = "-" ++ (m + 1).repr from rfl]
      simp
    rw [hminus] at hb
    rcases List.mem_append.mp hb with hb | hb
    · have hone : bytes "-" = [45] := by decide
      rw [hone, List.mem_singleton] at hb
      rw [hb]
      decide
    · exact isNumeral_repr (m + 1) b hb

/-- The number of decimal digits, with a sign. -/
def signed : List Char → Option ℤ
  | [] => none
  | c :: digits =>
    if c = '-' then (if digits = [] then none else some (-(Nat.ofDigitChars 10 digits 0 : ℕ)))
    else some (Nat.ofDigitChars 10 (c :: digits) 0 : ℕ)

/-- The text of a natural number is read back as this number. -/
theorem signed_repr (n : ℤ) : signed n.repr.toList = some n := by
  have hdigit : ∀ (m : ℕ) c, c ∈ Nat.toDigits 10 m → c.isDigit = true := fun m c hc =>
    Nat.isDigit_of_mem_toDigits (by decide) (by decide) hc
  cases n with
  | ofNat m =>
    show signed m.repr.toList = _
    rw [Nat.toList_repr]
    have hvalue : Nat.ofDigitChars 10 (Nat.toDigits 10 m) 0 = m := Nat.ofDigitChars_ten_toDigits
    cases hdigits : Nat.toDigits 10 m with
    | nil => exact absurd hdigits Nat.toDigits_ne_nil
    | cons c digits =>
      have hc := hdigit m c (hdigits ▸ List.mem_cons_self)
      have hne : c ≠ '-' := by
        rintro rfl
        cases hc
      rw [signed, if_neg hne, ← hdigits, hvalue]
      rfl
  | negSucc m =>
    have hminus : (Int.negSucc m).repr.toList = '-' :: Nat.toDigits 10 (m + 1) := by
      show ("-" ++ (m + 1).repr).toList = _
      rw [String.toList_append, Nat.toList_repr]
      rfl
    rw [hminus, signed, if_pos rfl, if_neg Nat.toDigits_ne_nil, Nat.ofDigitChars_ten_toDigits]
    rfl

/-- An integer and what stands after it. -/
def readInt (raw : List UInt8) : Option (ℤ × List UInt8) :=
  match (utf8 (raw.takeWhile isNumeral)).bind (signed ·.toList) with
  | some n => some (n, raw.dropWhile isNumeral)
  | none => none

/-- **An integer is read back.** -/
theorem readInt_decimal (n : ℤ) {rest : List UInt8} (h : Stops rest) :
    readInt (decimal n ++ rest) = some (n, rest) := by
  have hrest : rest.takeWhile isNumeral = [] ∧ rest.dropWhile isNumeral = rest := by
    cases rest with
    | nil => exact ⟨rfl, rfl⟩
    | cons b rest =>
      have hb : isNumeral b = false := h b rfl
      simp [hb]
  have hall := isNumeral_decimal n
  unfold readInt
  rw [List.takeWhile_append_of_pos hall, List.dropWhile_append_of_pos hall, hrest.1, hrest.2,
    List.append_nil]
  show (match (utf8 (bytes n.repr)).bind (signed ·.toList) with
    | some n => some (n, rest)
    | none => none) = some (n, rest)
  rw [utf8_bytes, Option.bind_some, signed_repr]

/-! ### Values

By recursion on the value, with the depth of the recursion bounded by the length of the text. -/

/-- A word that stands for a value. -/
def readWord (word : String) (j : Json) (raw : List UInt8) : Option (Json × List UInt8) :=
  ((bytes word).isPrefixOf? raw).map (j, ·)

/-- A word is read where it stands. -/
theorem readWord_append (word : String) (j : Json) (rest : List UInt8) :
    readWord word j (bytes word ++ rest) = some (j, rest) := by
  have hpre : (bytes word).isPrefixOf? (bytes word ++ rest) = some rest := by
    generalize bytes word = l
    induction l with
    | nil => rfl
    | cons b l ih =>
      rw [List.cons_append, List.isPrefixOf?, if_pos (beq_self_eq_true b)]
      exact ih
  unfold readWord
  rw [hpre]
  rfl

mutual

/-- One value off a text; the number bounds the depth of the recursion. -/
def readValue : ℕ → List UInt8 → Option (Json × List UInt8)
  | 0, _ => none
  | _, [] => none
  | fuel + 1, b :: rest =>
    if b = 34 then (readText rest).map fun (s, rest) => (.str s, rest)
    else if b = 91 then
      match rest with
      | [] => none
      | c :: more =>
        if c = 93 then some (.arr [], more)
        else
          match readValue fuel (c :: more) with
          | some (j, rest) => (readMore fuel rest).map fun (items, rest) =>
              (.arr (j :: items), rest)
          | none => none
    else if b = 123 then
      match rest with
      | [] => none
      | c :: more =>
        if c = 125 then some (.obj [], more)
        else
          match readField fuel (c :: more) with
          | some (e, rest) =>
            (readMoreFields fuel rest).map fun (fields, rest) => (.obj (e :: fields), rest)
          | none => none
    else if b = 110 then readWord "null" .null (b :: rest)
    else if b = 116 then readWord "true" (.bool true) (b :: rest)
    else if b = 102 then readWord "false" (.bool false) (b :: rest)
    else (readInt (b :: rest)).map fun (n, rest) => (.int n, rest)

/-- The items after the first, up to the closing bracket. -/
def readMore : ℕ → List UInt8 → Option (List Json × List UInt8)
  | 0, _ => none
  | _, [] => none
  | fuel + 1, b :: rest =>
    if b = 93 then some ([], rest)
    else if b = 44 then
      match readValue fuel rest with
      | some (j, rest) => (readMore fuel rest).map fun (items, rest) => (j :: items, rest)
      | none => none
    else none

/-- A key and its value. -/
def readField : ℕ → List UInt8 → Option ((String × Json) × List UInt8)
  | 0, _ => none
  | _, [] => none
  | fuel + 1, b :: rest =>
    if b = 34 then
      match readText rest with
      | some (key, colon :: rest) =>
        if colon = 58 then (readValue fuel rest).map fun (j, rest) => ((key, j), rest) else none
      | _ => none
    else none

/-- The fields after the first, up to the closing brace. -/
def readMoreFields : ℕ → List UInt8 → Option (List (String × Json) × List UInt8)
  | 0, _ => none
  | _, [] => none
  | fuel + 1, b :: rest =>
    if b = 125 then some ([], rest)
    else if b = 44 then
      match readField fuel rest with
      | some (e, rest) => (readMoreFields fuel rest).map fun (fields, rest) => (e :: fields, rest)
      | none => none
    else none

end

mutual

/-- There are no doubles in the value. -/
def plain : Json → Bool
  | .float _ => false
  | .arr items => plainItems items
  | .obj fields => plainFields fields
  | _ => true

/-- There are no doubles in the items. -/
def plainItems : List Json → Bool
  | [] => true
  | j :: items => plain j && plainItems items

/-- There are no doubles in the fields. -/
def plainFields : List (String × Json) → Bool
  | [] => true
  | (_, j) :: fields => plain j && plainFields fields

end

section

variable {format : UInt64 → List UInt8}

/-- The text of an integer is not empty. -/
theorem decimal_cons (n : ℤ) : ∃ b rest, decimal n = b :: rest ∧ isNumeral b = true := by
  have hread : readInt (decimal n ++ []) = some (n, []) :=
    readInt_decimal n fun b hb => nomatch hb
  cases h : decimal n with
  | nil =>
    rw [h] at hread
    cases hread
  | cons b rest => exact ⟨b, rest, rfl, isNumeral_decimal n b (h ▸ List.mem_cons_self)⟩

/-- No value starts with a closing bracket. -/
theorem text_cons {j : Json} (format : UInt64 → List UInt8) (h : plain j = true) :
    ∃ b rest, text format j = b :: rest ∧ b ≠ 93 := by
  cases j with
  | null => exact ⟨110, bytes "ull", by rw [text]; decide, by decide⟩
  | bool b =>
    cases b with
    | true => exact ⟨116, bytes "rue", by rw [text]; decide, by decide⟩
    | false => exact ⟨102, bytes "alse", by rw [text]; decide, by decide⟩
  | int n =>
    obtain ⟨b, rest, heq, hb⟩ := decimal_cons n
    refine ⟨b, rest, by rw [text, heq], ?_⟩
    rintro rfl
    cases hb
  | float bits => cases h
  | str s => exact ⟨34, _, by rw [text, quote], by decide⟩
  | arr items => exact ⟨91, _, by rw [text], by decide⟩
  | obj fields => exact ⟨123, _, by rw [text], by decide⟩

/-- An integer is read back when what follows is no part of a numeral. -/
theorem readValue_int (fuel : ℕ) (n : ℤ) {rest : List UInt8} (hrest : Stops rest) :
    readValue (fuel + 1) (decimal n ++ rest) = some (.int n, rest) := by
  obtain ⟨b, more, heq, hb⟩ := decimal_cons n
  have hread := readInt_decimal n hrest
  rw [heq, List.cons_append] at hread ⊢
  have hne : ∀ c, isNumeral c = false → b ≠ c := by
    rintro c hc rfl
    rw [hb] at hc
    cases hc
  rw [readValue.eq_def]
  dsimp only
  rw [if_neg (hne 34 (by decide)), if_neg (hne 91 (by decide)),
    if_neg (hne 123 (by decide)), if_neg (hne 110 (by decide)), if_neg (hne 116 (by decide)),
    if_neg (hne 102 (by decide)), hread]
  rfl

/-- A byte that is no part of a numeral ends one. -/
theorem stops_cons {b : UInt8} {rest : List UInt8} (h : isNumeral b = false) :
    Stops (b :: rest) := by
  intro c hc
  rw [← Option.some.inj hc]
  exact h

/-- What follows an item of an array does. -/
theorem stops_textMore (format : UInt64 → List UInt8) (items : List Json) (rest : List UInt8) :
    Stops (textMore format items ++ 93 :: rest) := by
  cases items with
  | nil =>
    rw [textMore]
    exact stops_cons (by decide)
  | cons j items =>
    rw [textMore]
    exact stops_cons (by decide)

/-- What follows a value of an object does. -/
theorem stops_textMoreFields (format : UInt64 → List UInt8) (fields : List (String × Json))
    (rest : List UInt8) :
    Stops (textMoreFields format fields ++ 125 :: rest) := by
  cases fields with
  | nil =>
    rw [textMoreFields]
    exact stops_cons (by decide)
  | cons e fields =>
    rw [textMoreFields]
    exact stops_cons (by decide)

mutual

/-- **A value is read back**, and what stands after it is left. -/
theorem readValue_text (j : Json) (h : plain j = true) (fuel : ℕ)
    (hfuel : (text format j).length ≤ fuel) {rest : List UInt8} (hrest : Stops rest) :
    readValue fuel (text format j ++ rest) = some (j, rest) := by
  -- the text has a byte at least
  cases fuel with
  | zero =>
    obtain ⟨b, more, heq, -⟩ := text_cons format h
    rw [heq] at hfuel
    cases hfuel
  | succ fuel =>
    cases j with
    -- a word is read as a whole
    | null =>
      rw [text]
      exact readWord_append "null" .null rest
    | bool b =>
      cases b with
      | true =>
        rw [text]
        exact readWord_append "true" (.bool true) rest
      | false =>
        rw [text]
        exact readWord_append "false" (.bool false) rest
    | int n =>
      rw [text]
      exact readValue_int fuel n hrest
    | float bits => cases h
    -- a text is read up to its closing quote
    | str s =>
      obtain ⟨hquote, hread⟩ := readText_quote s rest
      rw [text, hquote, readValue.eq_def]
      dsimp only
      rw [if_pos rfl, hread]
      rfl
    | arr items =>
      rw [text, List.length_cons, List.length_append, List.length_singleton] at hfuel
      rw [text, List.cons_append, List.append_assoc, List.singleton_append]
      cases items with
      | nil =>
        rw [textItems, List.nil_append, readValue, if_neg (by decide), if_pos rfl]
        rfl
      -- the first item, then the others with their commas
      | cons j items =>
        rw [plain, plainItems, Bool.and_eq_true] at h
        rw [textItems, List.length_append] at hfuel
        have hvalue := readValue_text j h.1 fuel (by omega) (stops_textMore format items rest)
        obtain ⟨b, more, hcons, hb⟩ := text_cons format h.1
        have hlen := congrArg List.length hcons
        rw [List.length_cons] at hlen
        have hmore := readMore_text items h.2 fuel (by omega) rest
        rw [textItems, List.append_assoc]
        rw [hcons, List.cons_append] at hvalue ⊢
        rw [readValue, if_neg (by decide), if_pos rfl]
        dsimp only
        rw [if_neg hb, hvalue]
        dsimp only
        rw [hmore]
        rfl
    | obj fields =>
      rw [text, List.length_cons, List.length_append, List.length_singleton] at hfuel
      rw [text, List.cons_append, List.append_assoc, List.singleton_append]
      cases fields with
      | nil =>
        rw [textFields, List.nil_append, readValue, if_neg (by decide), if_neg (by decide),
          if_pos rfl]
        rfl
      -- the first field, then the others with their commas
      | cons e fields =>
        obtain ⟨key, j⟩ := e
        rw [plain, plainFields, Bool.and_eq_true] at h
        rw [textFields, List.length_append, List.length_cons, List.length_append] at hfuel
        have hfield := readField_text key j h.1 fuel (by omega)
          (stops_textMoreFields format fields rest)
        have hmore := readMoreFields_text fields h.2 fuel (by omega) rest
        rw [textFields, List.append_assoc, List.cons_append, List.append_assoc]
        rw [quote, List.cons_append] at hfield ⊢
        rw [readValue, if_neg (by decide), if_neg (by decide), if_pos rfl]
        dsimp only
        rw [if_neg (by decide), hfield]
        dsimp only
        rw [hmore]
        rfl
termination_by fuel

/-- The items after the first are read back. -/
theorem readMore_text (items : List Json) (h : plainItems items = true) (fuel : ℕ)
    (hfuel : (textMore format items).length + 1 ≤ fuel) (rest : List UInt8) :
    readMore fuel (textMore format items ++ 93 :: rest) = some (items, rest) := by
  cases fuel with
  | zero => omega
  | succ fuel =>
    cases items with
    | nil =>
      rw [textMore, List.nil_append, readMore, if_pos rfl]
    | cons j items =>
      rw [plainItems, Bool.and_eq_true] at h
      rw [textMore, List.length_cons, List.length_append] at hfuel
      have hvalue := readValue_text j h.1 fuel (by omega) (stops_textMore format items rest)
      have hmore := readMore_text items h.2 fuel (by omega) rest
      rw [textMore, List.cons_append, List.append_assoc, readMore, if_neg (by decide), if_pos rfl,
        hvalue]
      dsimp only
      rw [hmore]
      rfl
termination_by fuel

/-- A field is read back. -/
theorem readField_text (key : String) (j : Json) (h : plain j = true) (fuel : ℕ)
    (hfuel : (quote key).length + (text format j).length ≤ fuel) {rest : List UInt8}
    (hrest : Stops rest) :
    readField fuel (quote key ++ 58 :: (text format j ++ rest)) = some ((key, j), rest) := by
  have hquoted : 2 ≤ (quote key).length := by
    unfold quote
    rw [List.length_cons, List.length_append, List.length_singleton]
    omega
  cases fuel with
  | zero => omega
  | succ fuel =>
    have hvalue := readValue_text j h fuel (by omega) hrest
    obtain ⟨hquote, hread⟩ := readText_quote key (58 :: (text format j ++ rest))
    rw [hquote, readField, if_pos rfl, hread]
    dsimp only
    rw [if_pos rfl, hvalue]
    rfl
termination_by fuel

/-- The fields after the first are read back. -/
theorem readMoreFields_text (fields : List (String × Json)) (h : plainFields fields = true)
    (fuel : ℕ) (hfuel : (textMoreFields format fields).length + 1 ≤ fuel) (rest : List UInt8) :
    readMoreFields fuel (textMoreFields format fields ++ 125 :: rest) = some (fields, rest) := by
  cases fuel with
  | zero => omega
  | succ fuel =>
    cases fields with
    | nil =>
      rw [textMoreFields, List.nil_append, readMoreFields, if_pos rfl]
    | cons e fields =>
      obtain ⟨key, j⟩ := e
      rw [plainFields, Bool.and_eq_true] at h
      rw [textMoreFields, List.length_cons, List.length_append, List.length_cons,
        List.length_append] at hfuel
      have hfield := readField_text key j h.1 fuel (by omega)
        (stops_textMoreFields format fields rest)
      have hmore := readMoreFields_text fields h.2 fuel (by omega) rest
      rw [textMoreFields, List.cons_append, List.append_assoc, List.cons_append, List.append_assoc,
        readMoreFields, if_neg (by decide), if_pos rfl, hfield]
      dsimp only
      rw [hmore]
      rfl
termination_by fuel

end

end

/-- The reader, with a writer that has no doubles. -/
def serde : Serde := ⟨fun _ => [], fun _ => 0, fun raw => readValue raw.length raw⟩

/-- **Every value without doubles is read back.** -/
theorem serde_reads {j : Json} (h : plain j = true) : serde.Reads j := by
  have hread : readValue (text serde.format j).length (text serde.format j ++ []) =
      some (j, []) :=
    readValue_text j h _ (Nat.le_refl _) fun b hb => nomatch hb
  rw [List.append_nil] at hread
  exact hread

/-- Every value without doubles is read back from a line. -/
theorem serde_fromSlice_line {j : Json} (h : plain j = true) :
    serde.fromSlice (serde.text j ++ [10]) = some j := by
  have hstops : Stops [10] := by
    intro b hb
    obtain rfl := Option.some.inj hb
    rfl
  have hread : serde.read (serde.text j ++ [10]) = some (j, [10]) :=
    readValue_text j h _ (by rw [List.length_append]; exact Nat.le_add_right _ _) hstops
  rw [Serde.fromSlice, hread]
  rfl

/-- A structure has no doubles when its fields have none. -/
theorem plainFields_pairs {keys : List String} {l : List (Option Json)}
    (h : ∀ j, some j ∈ l → plain j = true) : plainFields (Fields.pairs keys l) = true := by
  induction keys generalizing l with
  | nil =>
    rw [show Fields.pairs [] l = [] by cases l <;> rfl]
    rfl
  | cons key keys ih =>
    cases l with
    | nil => rfl
    | cons o l =>
      have hrest := ih fun j hj => h j (List.mem_cons_of_mem _ hj)
      cases o with
      | none => exact hrest
      | some j =>
        rw [Fields.pairs, plainFields, h j List.mem_cons_self, hrest]
        rfl

/-- An object is plain when all its values are. -/
theorem plainFields_map {α : Type} {l : List (String × α)} {f : α → Json}
    (h : ∀ e ∈ l, plain (f e.2) = true) : plainFields (l.map fun e => (e.1, f e.2)) = true := by
  induction l with
  | nil => rfl
  | cons e l ih =>
    rw [List.map_cons, plainFields, h e List.mem_cons_self,
      ih fun x hx => h x (List.mem_cons_of_mem _ hx)]
    rfl

section

variable {α β : Type} {key : String} {c : Codec α} {a : α}

/-- There are no doubles in these fields. -/
def PlainPut (f : Fields α) (a : α) : Prop := ∀ j, some j ∈ f.put a → plain j = true

/-- An object that a codec writes is plain when what it puts is. -/
theorem plain_object {f : Fields α} (h : PlainPut f a) : plain ((Codec.object f).write a) = true :=
  plainFields_pairs h

/-- Both groups of fields have to be plain. -/
@[simp] theorem plainPut_and {p : Fields α} {q : Fields β} {x : α × β} :
    PlainPut (p.and q) x ↔ PlainPut p x.1 ∧ PlainPut q x.2 := by
  have hput : (p.and q).put x = p.put x.1 ++ q.put x.2 := rfl
  unfold PlainPut
  rw [hput]
  simp only [List.mem_append, or_imp, forall_and]

/-- Only what is written matters. -/
@[simp] theorem plainPut_map {p : Fields α} {f : α → β} {g : β → α} {b : β} :
    PlainPut (p.map f g) b ↔ PlainPut p (g b) := Iff.rfl

/-- A field is plain when its value is written so. -/
theorem plainPut_slot {skip : α → Bool} {missing ended : Option α} (h : plain (c.write a) = true) :
    PlainPut (Fields.slot key c skip missing ended) a := by
  intro j hj
  have hslot : some j = if skip a then none else some (c.write a) := List.mem_singleton.mp hj
  split at hslot
  · cases hslot
  · rw [Option.some.inj hslot]
    exact h

theorem plainPut_defaulted {d : α} (h : plain (c.write a) = true) :
    PlainPut (Fields.defaulted key c d) a := plainPut_slot h

@[simp] theorem plainPut_text {s : String} : PlainPut (Fields.text key) s := plainPut_slot rfl

@[simp] theorem plainPut_omitEmpty {s : String} : PlainPut (Fields.omitEmpty key) s :=
  plainPut_slot rfl

@[simp] theorem plainPut_number {n : Int64} : PlainPut (Fields.number key) n := plainPut_slot rfl

@[simp] theorem plainPut_omitZero {n : Int64} : PlainPut (Fields.omitZero key) n :=
  plainPut_slot rfl

end

/-- Different numbers have different decimals. -/
theorem int64_toString_inj {m n : Int64} (h : toString m = toString n) : m = n := by
  have hrepr : ∀ k : Int64, toString k = k.toInt.repr := fun _ => rfl
  rw [hrepr, hrepr] at h
  have hm := signed_repr m.toInt
  rw [h, signed_repr] at hm
  exact Int64.toInt_inj.mp (Option.some.inj hm).symm

end Hmux.Lib.Json.Compact
