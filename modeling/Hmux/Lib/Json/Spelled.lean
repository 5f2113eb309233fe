import Hmux.Lib.Json.Free
import Hmux.Lib.Json.Reader

namespace Hmux.Lib.Json

/-!
# The characters of a written value

The compact text of a value has no white space outside its strings, and it has a special character
exactly when the value has one.  So a writer that drops white space and escapes special characters
changes the length of the text of a value unless the value is free.

* `Spelled raw b` — `raw` is a text without white space outside its strings, and free when `b`;
* `Spelled.append` — such texts one after the other;
* `spelled_text` — **the text of a value is one**, free when the value is;
* `Spelled.length` — escaping makes a text longer unless it is free.

The two properties are kept together in one notion, since the text of a value is put together from
those of its parts and both are shown along the same recursion.
-/

/-- The bytes of a text. -/
def spell (l : List Char) : List UInt8 := l.flatMap String.utf8EncodeChar

/-- The text has no special character. -/
def charsFree (l : List Char) : Bool := l.all fun c => !htmlChars.contains c

/-- Characters are free when none of them is one of the five. -/
theorem charsFree_iff {l : List Char} : charsFree l = true ↔ ∀ c ∈ l, c ∉ htmlChars := by
  unfold charsFree
  rw [List.all_eq_true]
  simp

/-- Two texts are spelled one after the other. -/
theorem spell_append (l m : List Char) : spell (l ++ m) = spell l ++ spell m := List.flatMap_append

/-- Both have to be free. -/
theorem charsFree_append (l m : List Char) : charsFree (l ++ m) = (charsFree l && charsFree m) :=
  List.all_append

/-- No character is dropped from the text wherever it stands outside a string. -/
def Tight (l : List Char) : Prop :=
  ∀ rest, unspaced false false (l ++ rest) = l ++ unspaced false false rest

/-- Two tight texts are one. -/
theorem Tight.append {l m : List Char} (hl : Tight l) (hm : Tight m) : Tight (l ++ m) := by
  intro rest
  rw [List.append_assoc, hl, hm, List.append_assoc]

/-- `raw` is a tight text; it is free when `b`. -/
def Spelled (raw : List UInt8) (b : Bool) : Prop :=
  ∃ l, spell l = raw ∧ Tight l ∧ charsFree l = b

namespace Spelled

variable {raw more : List UInt8} {b b' : Bool}

/-- An empty text is spelled as it is. -/
theorem nil : Spelled [] true := ⟨[], rfl, fun _ => rfl, rfl⟩

/-- **One text after the other.** -/
theorem append (h : Spelled raw b) (h' : Spelled more b') : Spelled (raw ++ more) (b && b') := by
  obtain ⟨l, hraw, htight, hfree⟩ := h
  obtain ⟨m, hmore, htight', hfree'⟩ := h'
  refine ⟨l ++ m, ?_, htight.append htight', ?_⟩
  · rw [spell_append, hraw, hmore]
  · rw [charsFree_append, hfree, hfree']

/-- The verdict may be given in another form. -/
theorem of_eq (h : Spelled raw b) (hb : b = b') : Spelled raw b' := hb ▸ h

end Spelled

/-! ### Words

Numbers and literals have neither white space nor special characters. -/

/-- A word without special characters. -/
theorem spelled_word {w : List Char} (h : ∀ c ∈ w, isWord c = true ∧ c ∉ htmlChars) :
    Spelled (spell w) true :=
  ⟨w, rfl, unspaced_word fun c hc => (h c hc).1, charsFree_iff.mpr fun c hc => (h c hc).2⟩

/-- The bytes of numbers and of the words of the language. -/
def wordBytes : List UInt8 := bytes "+-.0123456789Eaeflnrstu"

/-- A word made of these bytes. -/
theorem spelled_bytes {raw : List UInt8} (h : ∀ b ∈ raw, b ∈ wordBytes) : Spelled raw true := by
  have hall : ∀ b ∈ wordBytes, String.utf8EncodeChar (Char.ofNat b.toNat) = [b] ∧
      isWord (Char.ofNat b.toNat) = true ∧ Char.ofNat b.toNat ∉ htmlChars := by
    apply forall_of_all
    decide
  have hraw : spell (raw.map fun b => Char.ofNat b.toNat) = raw := by
    unfold spell
    rw [List.flatMap_map]
    induction raw with
    | nil => rfl
    | cons b raw ih =>
      rw [List.flatMap_cons, ih fun c hc => h c (List.mem_cons_of_mem _ hc),
        (hall b (h b List.mem_cons_self)).1]
      rfl
  rw [← hraw]
  apply spelled_word
  intro c hc
  obtain ⟨b, hb, rfl⟩ := List.mem_map.mp hc
  exact (hall b (h b hb)).2

/-- The bytes of numerals are bytes of words. -/
theorem mem_wordBytes_of_isNumeral {b : UInt8} (h : Compact.isNumeral b = true) :
    b ∈ wordBytes := by
  have hall : ∀ n ∈ List.range 10, UInt8.ofNat (48 + n) ∈ wordBytes := by
    apply forall_of_all
    decide
  unfold Compact.isNumeral at h
  simp only [Bool.or_eq_true, Bool.and_eq_true, decide_eq_true_eq, UInt8.le_iff_toNat_le] at h
  rcases h with hdigit | rfl
  · have h48 : (48 : UInt8).toNat = 48 := rfl
    have h57 : (57 : UInt8).toNat = 57 := rfl
    have hb := hall (b.toNat - 48) (List.mem_range.mpr (by omega))
    rwa [show 48 + (b.toNat - 48) = b.toNat by omega, UInt8.ofNat_toNat] at hb
  · decide

/-- A number is spelled as it is. -/
theorem spelled_decimal (n : ℤ) : Spelled (decimal n) true :=
  spelled_bytes fun b hb => mem_wordBytes_of_isNumeral (Compact.isNumeral_decimal n b hb)

/-- A character between tokens. -/
theorem spelled_punct {c : Char} (h : isPunct c = true) : Spelled (spell [c]) true := by
  have hall : ∀ c ∈ ['\x7b', '\x7d', '[', ']', ',', ':'], isSpace c = false ∧ c ≠ '"' ∧
      charsFree [c] = true := by
    apply forall_of_all
    decide
  have hmem : c ∈ ['\x7b', '\x7d', '[', ']', ',', ':'] := by
    unfold isPunct at h
    simpa [or_assoc] using h
  obtain ⟨hspace, hquote, hfree⟩ := hall c hmem
  exact ⟨[c], rfl, fun rest => unspaced_plain rest hspace hquote, hfree⟩

/-- A comma is spelled as it is. -/
theorem spelled_comma : Spelled [44] true := spelled_punct (c := ',') rfl

/-- A colon is spelled as it is. -/
theorem spelled_colon : Spelled [58] true := spelled_punct (c := ':') rfl

/-- What stands between brackets. -/
theorem Spelled.bracketed {raw : List UInt8} {b : Bool} (h : Spelled raw b) :
    Spelled (91 :: (raw ++ [93])) b := by
  have hopen : Spelled [91] true := spelled_punct (c := '[') rfl
  have hclose : Spelled [93] true := spelled_punct (c := ']') rfl
  exact (hopen.append (h.append hclose)).of_eq (by simp)

/-- What stands between braces. -/
theorem Spelled.braced {raw : List UInt8} {b : Bool} (h : Spelled raw b) :
    Spelled (123 :: (raw ++ [125])) b := by
  have hopen : Spelled [123] true := spelled_punct (c := '\x7b') rfl
  have hclose : Spelled [125] true := spelled_punct (c := '\x7d') rfl
  exact (hopen.append (h.append hclose)).of_eq (by simp)

/-! ### Strings

Inside its quotes a string may have any white space, which stays; a special character is there as
it is, since the compact writer escapes quotes, backslashes and control characters only. -/

/-- The bytes of a long character. -/
theorem high_utf8 {c : Char} (h : 128 ≤ c.toNat) : ∀ b ∈ String.utf8EncodeChar c, 128 ≤ b := by
  have hhigh : ∀ n : ℕ, 128 ≤ n → n < 256 → (128 : UInt8) ≤ UInt8.ofNat n := by
    intro n hn hlt
    rw [UInt8.le_iff_toNat_le, UInt8.toNat_ofNat', Nat.mod_eq_of_lt hlt]
    exact hn
  have hval : c.val.toNat = c.toNat := rfl
  have hmax : c.toNat < 0x110000 := by
    rcases c.valid with hv | hv
    · exact Nat.lt_trans hv (by decide)
    · exact hv.2
  unfold String.utf8EncodeChar
  simp only [hval]
  generalize c.toNat = v at h hmax
  rw [if_neg (by omega)]
  intro b hb
  split_ifs at hb with htwo hthree
  · simp only [List.mem_cons, List.not_mem_nil, or_false] at hb
    rcases hb with rfl | rfl
    · exact hhigh _ (by omega) (by omega)
    · exact hhigh _ (by omega) (by omega)
  · simp only [List.mem_cons, List.not_mem_nil, or_false] at hb
    rcases hb with rfl | rfl | rfl
    · exact hhigh _ (by omega) (by omega)
    · exact hhigh _ (by omega) (by omega)
    · exact hhigh _ (by omega) (by omega)
  · simp only [List.mem_cons, List.not_mem_nil, or_false] at hb
    rcases hb with rfl | rfl | rfl | rfl
    · exact hhigh _ (by omega) (by omega)
    · exact hhigh _ (by omega) (by omega)
    · exact hhigh _ (by omega) (by omega)
    · exact hhigh _ (by omega) (by omega)

/-- A long character is written as it is. -/
theorem escapeChar_high {c : Char} (h : 128 ≤ c.toNat) : escapeChar c = [c] := by
  have hne : ∀ d : Char, d.toNat < 128 → c ≠ d := by
    rintro d hd rfl
    omega
  unfold escapeChar
  rw [if_neg (hne '"' (by decide)), if_neg (hne '\\' (by decide)), if_neg (hne '\x08' (by decide)),
    if_neg (hne '\t' (by decide)), if_neg (hne '\n' (by decide)), if_neg (hne '\x0c' (by decide)),
    if_neg (hne '\r' (by decide)), if_neg (by omega)]

/-- A byte above 127 is not escaped. -/
theorem escape_high {b : UInt8} (h : 128 ≤ b) : escape b = [b] := by
  have hne : ∀ d : UInt8, d < 128 → b ≠ d := by
    rintro d hd rfl
    exact absurd h (UInt8.not_le.mpr hd)
  have hcontrol : ¬ b < 32 := UInt8.not_lt.mpr (UInt8.le_trans (by decide) h)
  unfold escape
  simp [hne 34 (by decide), hne 92 (by decide), hcontrol, hne 8 (by decide), hne 9 (by decide),
    hne 10 (by decide), hne 12 (by decide), hne 13 (by decide)]

/-- What is written of a character, as bytes. -/
theorem spell_escapeChar (c : Char) :
    spell (escapeChar c) = (String.utf8EncodeChar c).flatMap escape := by
  by_cases hascii : c.toNat < 128
  · have hall : ∀ n ∈ List.range 128, spell (escapeChar (Char.ofNat n)) =
        (String.utf8EncodeChar (Char.ofNat n)).flatMap escape := by
      apply forall_of_all
      decide
    have hc := hall c.toNat (List.mem_range.mpr hascii)
    rwa [Char.ofNat_toNat] at hc
  · have hhigh := high_utf8 (Nat.not_lt.mp hascii)
    rw [escapeChar_high (Nat.not_lt.mp hascii)]
    unfold spell
    rw [List.flatMap_singleton]
    generalize String.utf8EncodeChar c = raw at hhigh
    induction raw with
    | nil => rfl
    | cons b raw ih =>
      have hb : escape b = [b] := escape_high (hhigh b List.mem_cons_self)
      rw [List.flatMap_cons, hb, ← ih fun d hd => hhigh d (List.mem_cons_of_mem _ hd)]
      rfl

/-- A string, as bytes. -/
theorem quote_eq (s : String) : quote s = spell (jsonString s) := by
  have hbody : (bytes s).flatMap escape = spell (s.toList.flatMap escapeChar) := by
    rw [bytes_eq_flatMap]
    unfold spell
    rw [List.flatMap_assoc, List.flatMap_assoc]
    congr 1
    funext c
    exact (spell_escapeChar c).symm
  unfold quote jsonString
  rw [hbody]
  show _ = spell (['"'] ++ (_ ++ ['"']))
  rw [spell_append, spell_append]
  rfl

/-- An escape does not end its string. -/
theorem unspaced_escapeChar (c : Char) (rest : List Char) :
    unspaced true false (escapeChar c ++ rest) = escapeChar c ++ unspaced true false rest := by
  have hdigit : ∀ n ∈ List.range 16, Nat.digitChar n ≠ '"' ∧ Nat.digitChar n ≠ '\\' := by
    apply forall_of_all
    decide
  unfold escapeChar
  split_ifs with hquote hslash
  · exact unspaced_escape '"' rest
  · exact unspaced_escape '\\' rest
  · exact unspaced_escape 'b' rest
  · exact unspaced_escape 't' rest
  · exact unspaced_escape 'n' rest
  · exact unspaced_escape 'f' rest
  · exact unspaced_escape 'r' rest
  · have hhigh := hdigit (c.toNat / 16 % 16) (List.mem_range.mpr (Nat.mod_lt _ (by decide)))
    have hlow := hdigit (c.toNat % 16) (List.mem_range.mpr (Nat.mod_lt _ (by decide)))
    unfold hexPair
    simp only [List.cons_append, List.nil_append]
    rw [unspaced_escape, unspaced_quoted _ (by decide) (by decide),
      unspaced_quoted _ (by decide) (by decide), unspaced_quoted _ hhigh.1 hhigh.2,
      unspaced_quoted _ hlow.1 hlow.2]
  · exact unspaced_quoted rest hquote hslash

/-- A text in quotes is tight. -/
theorem tight_jsonString (s : String) : Tight (jsonString s) := by
  have hbody : ∀ l rest : List Char, unspaced true false (l.flatMap escapeChar ++ '"' :: rest) =
      l.flatMap escapeChar ++ '"' :: unspaced false false rest := by
    intro l rest
    induction l with
    | nil => rfl
    | cons c l ih => rw [List.flatMap_cons, List.append_assoc, unspaced_escapeChar, ih,
        List.append_assoc]
  intro rest
  unfold jsonString
  rw [List.cons_append, List.cons_append, List.append_assoc, List.append_assoc]
  show '"' :: unspaced true false (_ ++ '"' :: rest) = _
  rw [hbody]
  rfl

/-- An escape stands for no special character. -/
theorem charsFree_escapeChar (c : Char) : charsFree (escapeChar c) = charsFree [c] := by
  by_cases hascii : c.toNat < 128
  · have hall : ∀ n ∈ List.range 128,
        charsFree (escapeChar (Char.ofNat n)) = charsFree [Char.ofNat n] := by
      apply forall_of_all
      decide
    have hc := hall c.toNat (List.mem_range.mpr hascii)
    rwa [Char.ofNat_toNat] at hc
  · rw [escapeChar_high (Nat.not_lt.mp hascii)]

/-- A text in quotes is free when the text is. -/
theorem charsFree_jsonString (s : String) : charsFree (jsonString s) = htmlFree s := by
  have hbody : ∀ l : List Char, charsFree (l.flatMap escapeChar) = charsFree l := by
    intro l
    induction l with
    | nil => rfl
    | cons c l ih =>
      rw [List.flatMap_cons, charsFree_append, ih, charsFree_escapeChar, ← charsFree_append]
      rfl
  have hquote : charsFree ['"'] = true := by decide
  have hsplit : jsonString s = ['"'] ++ (s.toList.flatMap escapeChar ++ ['"']) := rfl
  rw [hsplit, charsFree_append, charsFree_append, hbody, hquote, Bool.true_and, Bool.and_true]
  rfl

/-- **A string** is free when its text is. -/
theorem spelled_quote (s : String) : Spelled (quote s) (htmlFree s) :=
  ⟨jsonString s, (quote_eq s).symm, tight_jsonString s, charsFree_jsonString s⟩

/-! ### Values

By recursion on the value. -/

/-- Doubles are written as words. -/
def WordFormat (format : UInt64 → List UInt8) : Prop := ∀ bits, ∀ b ∈ format bits, b ∈ wordBytes

section

variable {format : UInt64 → List UInt8}

/-- A key and what stands before its value. -/
theorem spelled_key (key : String) : Spelled (quote key ++ [58]) (htmlFree key) :=
  ((spelled_quote key).append spelled_colon).of_eq (Bool.and_true _)

mutual

/-- **The text of a value** is tight, and free when the value is. -/
theorem spelled_text (hformat : WordFormat format) (j : Json) :
    Spelled (text format j) (free j) := by
  cases j with
  | null =>
    rw [text, free]
    · apply spelled_bytes
      apply forall_of_all
      decide
    all_goals exact nofun
  | bool b =>
    rw [text, free]
    · apply spelled_bytes
      apply forall_of_all
      cases b
      · decide
      · decide
    all_goals exact nofun
  | int n =>
    rw [text, free]
    · exact spelled_decimal n
    all_goals exact nofun
  | float bits =>
    rw [text, free]
    · exact spelled_bytes (hformat bits)
    all_goals exact nofun
  | str s =>
    rw [text, free]
    exact spelled_quote s
  | arr items =>
    rw [text, free]
    exact (spelled_textItems hformat items).bracketed
  | obj fields =>
    rw [text, free]
    exact (spelled_textFields hformat fields).braced

/-- The items of an array are spelled one after the other. -/
theorem spelled_textItems (hformat : WordFormat format) (items : List Json) :
    Spelled (textItems format items) (freeItems items) := by
  cases items with
  | nil =>
    rw [textItems, freeItems]
    exact .nil
  | cons j items =>
    rw [textItems, freeItems]
    exact (spelled_text hformat j).append (spelled_textMore hformat items)

/-- More items are spelled with commas before them. -/
theorem spelled_textMore (hformat : WordFormat format) (items : List Json) :
    Spelled (textMore format items) (freeItems items) := by
  cases items with
  | nil =>
    rw [textMore, freeItems]
    exact .nil
  | cons j items =>
    rw [textMore, freeItems]
    have hj := (spelled_text hformat j).append (spelled_textMore hformat items)
    exact (spelled_comma.append hj).of_eq (Bool.true_and _)

/-- The fields of an object are spelled one after the other. -/
theorem spelled_textFields (hformat : WordFormat format) (fields : List (String × Json)) :
    Spelled (textFields format fields) (freeFields fields) := by
  match fields with
  | [] =>
    rw [textFields, freeFields]
    exact .nil
  | (key, j) :: fields =>
    rw [textFields, freeFields, Bool.and_assoc]
    have hj := (spelled_text hformat j).append (spelled_textMoreFields hformat fields)
    have hkey := (spelled_key key).append hj
    rwa [List.append_assoc] at hkey

/-- More fields are spelled with commas before them. -/
theorem spelled_textMoreFields (hformat : WordFormat format) (fields : List (String × Json)) :
    Spelled (textMoreFields format fields) (freeFields fields) := by
  match fields with
  | [] =>
    rw [textMoreFields, freeFields]
    exact .nil
  | (key, j) :: fields =>
    rw [textMoreFields, freeFields, Bool.and_assoc]
    have hj := (spelled_text hformat j).append (spelled_textMoreFields hformat fields)
    have hkey := spelled_comma.append ((spelled_key key).append hj)
    rw [List.append_assoc, Bool.true_and] at hkey
    exact hkey

end

end

/-! ### Escaping

Each special character becomes six, so a text that has one gets longer, and one without stays as it
is. -/

/-- The safe form is never shorter, and of the same length only for free texts. -/
theorem length_htmlSafe_le (l : List Char) : (spell l).length ≤ (spell (htmlSafe l)).length ∧
    ((spell (htmlSafe l)).length = (spell l).length ↔ charsFree l = true) := by
  have hspecial : ∀ c ∈ htmlChars, (spell [c]).length < (spell (htmlSafe [c])).length := by
    apply forall_of_all
    decide
  induction l with
  | nil => exact ⟨Nat.le_refl _, iff_of_true rfl rfl⟩
  | cons c l ih =>
    have hcons : spell (c :: l) = spell [c] ++ spell l := spell_append [c] l
    have hfree : charsFree (c :: l) = (charsFree [c] && charsFree l) := charsFree_append [c] l
    rw [htmlSafe_cons, spell_append, hcons, hfree, List.length_append, List.length_append,
      Bool.and_eq_true, ← ih.2]
    by_cases hc : c ∈ htmlChars
    · have hlonger := hspecial c hc
      have hnot : charsFree [c] ≠ true := fun h => charsFree_iff.mp h c List.mem_cons_self hc
      have hle := ih.1
      refine ⟨by omega, ?_⟩
      constructor
      · omega
      · exact fun h => absurd h.1 hnot
    · have hplain : charsFree [c] = true := charsFree_iff.mpr fun d hd =>
        (List.mem_singleton.mp hd) ▸ hc
      have hle := ih.1
      rw [htmlSafe_plain hc]
      refine ⟨by omega, ?_⟩
      constructor
      · exact fun h => ⟨hplain, by omega⟩
      · intro h
        have := h.2
        omega

/-- An escape is at most six bytes. -/
theorem length_htmlSafe_max (l : List Char) :
    (spell (htmlSafe l)).length ≤ 6 * (spell l).length := by
  have hspecial : ∀ c ∈ htmlChars, (spell (htmlSafe [c])).length ≤ 6 * (spell [c]).length := by
    apply forall_of_all
    decide
  induction l with
  | nil => exact Nat.le_refl _
  | cons c l ih =>
    have hcons : spell (c :: l) = spell [c] ++ spell l := spell_append [c] l
    have hone : (spell (htmlSafe [c])).length ≤ 6 * (spell [c]).length := by
      by_cases hc : c ∈ htmlChars
      · exact hspecial c hc
      · rw [htmlSafe_plain hc]
        omega
    rw [htmlSafe_cons, spell_append, hcons, List.length_append, List.length_append]
    omega

/-- **Escaping makes a text longer** unless it has no special character. -/
theorem Spelled.length {raw : List UInt8} {b : Bool} (h : Spelled raw b) :
    ∃ l, spell l = raw ∧ unspaced false false l = l ∧ raw.length ≤ (spell (htmlSafe l)).length ∧
      ((spell (htmlSafe l)).length = raw.length ↔ b = true) := by
  obtain ⟨l, rfl, htight, rfl⟩ := h
  have hall := htight []
  rw [List.append_nil] at hall
  refine ⟨l, rfl, hall.trans (List.append_nil l), ?_⟩
  exact length_htmlSafe_le l

end Hmux.Lib.Json
