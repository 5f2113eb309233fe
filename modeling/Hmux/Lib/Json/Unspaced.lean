import Hmux.Lib.Json.Grammar
import Hmux.Lib.Text
import Mathlib.Data.List.TakeWhile

namespace Hmux.Lib.Json

/-!
# A text with no white space in it

A parser need not look at the white space between the tokens of a text, nor at the way in which
a character of a string is written.

* `unspaced` — a text with the white space outside its strings left out;
* `htmlSafe` — its five special characters are escaped (`htmlSafe_free`);
* `Denotes.htmlSafe_unspaced` — what is left is the text of the same value.
-/

/-! ### The special characters

They are written as escapes, which are the same code units to a parser; outside of strings there
are none. -/

/-- The characters that are special in HTML or in JavaScript. -/
def htmlChars : List Char := ['<', '>', '&', '\u2028', '\u2029']

/-- Characters are made safe one by one. -/
theorem htmlSafe_cons (c : Char) (l : List Char) :
    htmlSafe (c :: l) = htmlSafe [c] ++ htmlSafe l := by
  rw [← htmlSafe_append, List.singleton_append]

/-- A character that is none of the five is safe. -/
theorem htmlSafe_plain {c : Char} (h : c ∉ htmlChars) : htmlSafe [c] = [c] := by
  simp only [htmlChars, List.mem_cons, List.not_mem_nil, or_false, not_or] at h
  obtain ⟨h1, h2, h3, h4, h5⟩ := h
  unfold htmlSafe
  rw [replaceChar_plain h1, replaceChar_plain h2, replaceChar_plain h3, replaceChar_plain h4,
    replaceChar_plain h5]

/-- A text without the five characters is left alone. -/
theorem htmlSafe_of_free {l : List Char} (h : ∀ c ∈ l, c ∉ htmlChars) : htmlSafe l = l := by
  induction l with
  | nil => rfl
  | cons c l ih =>
    rw [htmlSafe_cons, htmlSafe_plain (h c List.mem_cons_self),
      ih fun d hd => h d (List.mem_cons_of_mem _ hd)]
    rfl

/-- **No special character is left.** -/
theorem htmlSafe_free (l : List Char) : ∀ c ∈ htmlSafe l, c ∉ htmlChars := by
  induction l with
  | nil => exact nofun
  | cons d l ih =>
    intro c hc
    rw [htmlSafe_cons] at hc
    rcases List.mem_append.mp hc with hc | hc
    · by_cases hd : d ∈ htmlChars
      · have hall :
          ∀ d ∈ htmlChars, ((htmlSafe [d]).all fun c => !htmlChars.contains c) = true := by
          apply forall_of_all
          decide
        have hfree := List.all_eq_true.mp (hall d hd) c hc
        rw [Bool.not_eq_true', List.contains_eq_mem, decide_eq_false_iff_not] at hfree
        exact hfree
      · rw [htmlSafe_plain hd, List.mem_singleton] at hc
        exact hc ▸ hd
    · exact ih c hc

/-- **The escapes of a string name what they stand for.** -/
theorem Body.htmlSafe {body : List Char} {u : List ℕ} (h : Body body u) :
    Body (htmlSafe body) u := by
  -- no hex digit is among the symbols that are escaped
  have hdigit : ∀ {c : Char} {n : ℕ}, hexDigit? c = some n → c ∉ htmlChars := by
    intro c n hn hc
    have hnone : ∀ c ∈ htmlChars, hexDigit? c = none := by
      apply forall_of_all
      decide
    rw [hnone c hc] at hn
    cases hn
  induction h with
  | nil => exact .nil
  | @unit w x y z u l v hunit _ ih =>
    obtain ⟨a, ha, hunit'⟩ := Option.bind_eq_some_iff.mp hunit
    obtain ⟨b, hb, hunit'⟩ := Option.bind_eq_some_iff.mp hunit'
    obtain ⟨c, hc, hunit'⟩ := Option.bind_eq_some_iff.mp hunit'
    obtain ⟨d, hd, -⟩ := Option.bind_eq_some_iff.mp hunit'
    rw [htmlSafe_cons, htmlSafe_cons 'u', htmlSafe_cons w, htmlSafe_cons x, htmlSafe_cons y,
      htmlSafe_cons z, htmlSafe_plain (hdigit ha), htmlSafe_plain (hdigit hb),
      htmlSafe_plain (hdigit hc), htmlSafe_plain (hdigit hd)]
    exact .unit hunit ih
  | @escape e u l v he hescaped _ ih =>
    -- nor is the symbol after a backslash
    have hplain : e ∉ htmlChars := by
      intro hc
      have hnone : ∀ c ∈ htmlChars, escaped? c = none := by
        apply forall_of_all
        decide
      rw [hnone e hc] at hescaped
      cases hescaped
    rw [htmlSafe_cons, htmlSafe_cons e, htmlSafe_plain hplain]
    exact .escape he hescaped ih
  | @plain c l v hquote hslash hcontrol _ ih =>
    rw [htmlSafe_cons]
    -- a symbol that is escaped is spelled as its unit, and any other stays
    by_cases hc : c ∈ htmlChars
    · simp only [htmlChars, List.mem_cons, List.not_mem_nil, or_false] at hc
      rcases hc with rfl | rfl | rfl | rfl | rfl
      · exact .unit (w := '0') (x := '0') (y := '3') (z := 'c') rfl ih
      · exact .unit (w := '0') (x := '0') (y := '3') (z := 'e') rfl ih
      · exact .unit (w := '0') (x := '0') (y := '2') (z := '6') rfl ih
      · exact .unit (w := '2') (x := '0') (y := '2') (z := '8') rfl ih
      · exact .unit (w := '2') (x := '0') (y := '2') (z := '9') rfl ih
    · rw [htmlSafe_plain hc]
      exact .plain hquote hslash hcontrol ih

/-! ### White space

White space is dropped as long as no quote is open, and an escape within a string is passed as two
characters. -/

/-- Whether a string is open after a character, and whether its last character was a backslash. -/
def afterChar (quoted escaped : Bool) (c : Char) : Bool × Bool :=
  if quoted then
    if escaped then (true, false)
    else (c ≠ '"', c = '\\')
  else (c = '"', escaped)

/-- A text with the white space outside its strings left out; where the text begins, a string may
be open, and the last character may be a backslash. -/
def unspaced (quoted escaped : Bool) : List Char → List Char
  | [] => []
  | c :: l =>
    let next := afterChar quoted escaped c
    let rest := unspaced next.1 next.2 l
    if !quoted && isSpace c then rest else c :: rest

/-- In a text nothing is left out. -/
theorem unspaced_quoted {c : Char} (l : List Char) (hquote : c ≠ '"') (hslash : c ≠ '\\') :
    unspaced true false (c :: l) = c :: unspaced true false l := by
  have hnext : afterChar true false c = (true, false) := by
    unfold afterChar
    simp [hquote, hslash]
  rw [unspaced, hnext]
  rfl

/-- After a backslash the string goes on. -/
theorem unspaced_escape (e : Char) (l : List Char) :
    unspaced true false ('\\' :: e :: l) = '\\' :: e :: unspaced true false l := rfl

/-- **A string is left as it is.** -/
theorem Body.unspaced {body : List Char} {u : List ℕ} (h : Body body u) (rest : List Char) :
    unspaced true false (body ++ '"' :: rest) = body ++ '"' :: unspaced false false rest := by
  have hdigit : ∀ {c : Char} {n : ℕ}, hexDigit? c = some n → c ≠ '"' ∧ c ≠ '\\' := by
    intro c n hn
    constructor
    · rintro rfl
      cases hn
    · rintro rfl
      cases hn
  induction h with
  | nil => rfl
  | @unit w x y z u l v hunit _ ih =>
    obtain ⟨a, ha, hunit'⟩ := Option.bind_eq_some_iff.mp hunit
    obtain ⟨b, hb, hunit'⟩ := Option.bind_eq_some_iff.mp hunit'
    obtain ⟨c, hc, hunit'⟩ := Option.bind_eq_some_iff.mp hunit'
    obtain ⟨d, hd, -⟩ := Option.bind_eq_some_iff.mp hunit'
    simp only [List.cons_append]
    rw [unspaced_escape, unspaced_quoted _ (hdigit ha).1 (hdigit ha).2,
      unspaced_quoted _ (hdigit hb).1 (hdigit hb).2, unspaced_quoted _ (hdigit hc).1 (hdigit hc).2,
      unspaced_quoted _ (hdigit hd).1 (hdigit hd).2, ih]
  | escape _ _ _ ih =>
    simp only [List.cons_append]
    rw [unspaced_escape, ih]
  | plain hquote hslash _ _ ih =>
    rw [List.cons_append, unspaced_quoted _ hquote hslash, ih]
    rfl

/-- White space between tokens is. -/
theorem unspaced_space {c : Char} (l : List Char) (h : isSpace c = true) :
    unspaced false false (c :: l) = unspaced false false l := by
  have hquote : c ≠ '"' := by
    rintro rfl
    cases h
  have hnext : afterChar false false c = (false, false) := by
    unfold afterChar
    simp [hquote]
  rw [unspaced, hnext]
  simp [h]

/-- Characters other than white space stay. -/
theorem unspaced_plain {c : Char} (l : List Char) (hspace : isSpace c = false) (hquote : c ≠ '"') :
    unspaced false false (c :: l) = c :: unspaced false false l := by
  have hnext : afterChar false false c = (false, false) := by
    unfold afterChar
    simp [hquote]
  rw [unspaced, hnext]
  simp [hspace]

/-- The characters of a word are neither white space nor a quote. -/
theorem isWord_iff {c : Char} :
    isWord c = true ↔ isSpace c = false ∧ isPunct c = false ∧ c ≠ '"' := by
  unfold isWord
  simp [and_assoc]

/-- A whole word stays. -/
theorem unspaced_word {w : List Char} (h : ∀ c ∈ w, isWord c = true) (l : List Char) :
    unspaced false false (w ++ l) = w ++ unspaced false false l := by
  induction w with
  | nil => rfl
  | cons c w ih =>
    obtain ⟨hspace, -, hquote⟩ := isWord_iff.mp (h c List.mem_cons_self)
    rw [List.cons_append, unspaced_plain _ hspace hquote,
      ih fun d hd => h d (List.mem_cons_of_mem _ hd)]
    rfl

/-! ### The tokens of what is left

A text whose words and literals stay apart without the white space between them has the same tokens
after it is gone. -/

/-- White space is no token. -/
theorem lex_space {c : Char} (l : List Char) (h : isSpace c = true) : lex (c :: l) = lex l := by
  rw [lex, if_pos h]

/-- A punctuation mark is one by itself. -/
theorem lex_punct {c : Char} (l : List Char) (hspace : isSpace c = false) (h : isPunct c = true) :
    lex (c :: l) = (lex l).map (.punct c :: ·) := by
  rw [lex, if_neg (by rw [hspace]; exact Bool.false_ne_true), if_pos h]

/-- A quote begins a text. -/
theorem lex_quote (l : List Char) :
    lex ('"' :: l) = (lexString l).bind fun (u, rest) => (lex rest).map (.str u :: ·) := by
  rw [lex, if_neg (by decide), if_neg (by decide), if_pos rfl]
  split
  · next hnone =>
    rw [hnone]
    rfl
  · next u rest hsome => simp only [hsome, Option.bind_some]

/-- A word goes on as long as it can. -/
theorem lex_word {c : Char} (l : List Char) (h : isWord c = true) :
    lex (c :: l) = (lex (l.dropWhile isWord)).map (.word (c :: l.takeWhile isWord) :: ·) := by
  obtain ⟨hspace, hpunct, hquote⟩ := isWord_iff.mp h
  rw [lex, if_neg (by rw [hspace]; exact Bool.false_ne_true),
    if_neg (by rw [hpunct]; exact Bool.false_ne_true), if_neg hquote]

/-- A word is next. -/
def StartsWord (ts : List Token) : Prop := ∃ w ts', ts = .word w :: ts'

/-- **No two words stand side by side**, and none has a special character. -/
def Apart : List Token → Prop
  | [] => True
  | t :: ts => (∀ w, t = .word w → (∀ c ∈ w, c ∉ htmlChars) ∧ ¬ StartsWord ts) ∧ Apart ts

/-- A text that goes on with something other than a word is told from the word before it. -/
theorem takeWhile_word {w l : List Char} {ts : List Token} (hw : ∀ c ∈ w, isWord c = true)
    (h : lex l = some ts) (hts : ¬ StartsWord ts) :
    (w ++ l).takeWhile isWord = w ∧ (w ++ l).dropWhile isWord = l := by
  rw [List.takeWhile_append_of_pos hw, List.dropWhile_append_of_pos hw]
  cases l with
  | nil => exact ⟨List.append_nil w, rfl⟩
  | cons c l =>
    have hc : isWord c = false := by
      by_contra hc
      rw [Bool.not_eq_false] at hc
      rw [lex_word l hc] at h
      obtain ⟨ts', -, rfl⟩ := Option.map_eq_some_iff.mp h
      exact hts ⟨_, _, rfl⟩
    rw [List.takeWhile_cons_of_neg (by rw [hc]; nofun),
      List.dropWhile_cons_of_neg (by rw [hc]; nofun), List.append_nil]
    exact ⟨rfl, rfl⟩

/-- **The tokens of a text are those of what is left of it.** -/
theorem lex_htmlSafe_unspaced {l : List Char} {ts : List Token} (h : lex l = some ts)
    (hts : Apart ts) : lex (htmlSafe (unspaced false false l)) = some ts := by
  induction l using lex.induct generalizing ts with
  -- the induction is that of the lexer
  | case1 => exact h
  | case2 c l hspace ih =>
    rw [lex_space l hspace] at h
    rw [unspaced_space l hspace]
    exact ih h hts
  -- punctuation is none of the five characters
  | case3 c l hspace hpunct ih =>
    rw [Bool.not_eq_true] at hspace
    rw [lex_punct l hspace hpunct] at h
    obtain ⟨ts', hrest, rfl⟩ := Option.map_eq_some_iff.mp h
    have hplain : c ∉ htmlChars := by
      intro hc
      have hnone : ∀ c ∈ htmlChars, isPunct c = false := by
        apply forall_of_all
        decide
      rw [hnone c hc] at hpunct
      cases hpunct
    have hquote : c ≠ '"' := by
      rintro rfl
      cases hpunct
    rw [unspaced_plain l hspace hquote, htmlSafe_cons, htmlSafe_plain hplain, List.singleton_append,
      lex_punct _ hspace hpunct, ih hrest hts.2]
    rfl
  -- a text that does not end has no tokens
  | case4 l hnone _ _ =>
    rw [lex_quote, hnone] at h
    cases h
  -- a text is left as it is, but for the five characters
  | case5 l u rest hsome _ _ _ ih =>
    rw [lex_quote, hsome, Option.bind_some] at h
    obtain ⟨ts', hrest, rfl⟩ := Option.map_eq_some_iff.mp h
    obtain ⟨body, hbody, rfl⟩ := lexString_body hsome
    have hopen : unspaced false false ('"' :: (body ++ '"' :: rest)) =
        '"' :: (body ++ '"' :: unspaced false false rest) :=
      congrArg ('"' :: ·) (hbody.unspaced rest)
    have hsafe : htmlSafe ('"' :: (body ++ '"' :: unspaced false false rest)) =
        '"' :: (htmlSafe body ++ '"' :: htmlSafe (unspaced false false rest)) := by
      rw [htmlSafe_cons, htmlSafe_append, htmlSafe_cons '"']
      rfl
    rw [hopen, hsafe, lex_quote, hbody.htmlSafe.lexString, Option.bind_some]
    dsimp only
    rw [ih hrest hts.2]
    rfl
  -- words stay words, for their neighbours are kept apart
  | case6 c l hspace hpunct hquote ih =>
    rw [Bool.not_eq_true] at hspace hpunct
    have hc : isWord c = true := isWord_iff.mpr ⟨hspace, hpunct, hquote⟩
    rw [lex_word l hc] at h
    obtain ⟨ts', hrest, rfl⟩ := Option.map_eq_some_iff.mp h
    obtain ⟨hfree, hapart⟩ := hts.1 _ rfl
    have hword : ∀ d ∈ l.takeWhile isWord, isWord d = true := fun d hd => List.mem_takeWhile_imp hd
    have hleft : unspaced false false (c :: l) =
        (c :: l.takeWhile isWord) ++ unspaced false false (l.dropWhile isWord) := by
      rw [← unspaced_word (w := c :: l.takeWhile isWord)]
      · rw [List.cons_append, List.takeWhile_append_dropWhile]
      · intro d hd
        rcases List.mem_cons.mp hd with rfl | hd
        · exact hc
        · exact hword d hd
    rw [hleft, htmlSafe_append, htmlSafe_of_free hfree, List.cons_append, lex_word _ hc]
    have hagain := ih hrest hts.2
    obtain ⟨htake, hdrop⟩ := takeWhile_word hword hagain hapart
    rw [htake, hdrop, hagain]
    rfl

/-! ### The tokens of a value

In the text of a value there is always a bracket, a comma or a colon between two words. -/

/-- Punctuation keeps words apart. -/
@[simp] theorem apart_punct {c : Char} {ts : List Token} : Apart (.punct c :: ts) ↔ Apart ts := by
  constructor
  · exact fun hts => hts.2
  · exact fun hts => ⟨fun _ hw => Token.noConfusion hw, hts⟩

/-- A text keeps words apart. -/
@[simp] theorem apart_str {u : List ℕ} {ts : List Token} : Apart (.str u :: ts) ↔ Apart ts := by
  constructor
  · exact fun hts => hts.2
  · exact fun hts => ⟨fun _ hw => Token.noConfusion hw, hts⟩

/-- A value may stand before anything but a word. -/
def Tree.Parted (v : Tree) : Prop :=
  ∀ ts, Apart ts → ¬ StartsWord ts → Apart (v.spell ++ ts)

/-- A punctuation mark starts no word. -/
theorem not_startsWord_punct (c : Char) (ts : List Token) : ¬ StartsWord (.punct c :: ts) := by
  rintro ⟨w, ts', heq⟩
  cases heq

/-- The tokens of more items keep their words apart. -/
theorem spellMore_parted {items : List Tree} (h : ∀ v ∈ items, v.Parted) {c : Char}
    {ts : List Token} (hts : Apart ts) :
    Apart (spellMore items ++ .punct c :: ts) ∧ ¬ StartsWord
    (spellMore items ++ .punct c :: ts) := by
  induction items with
  | nil => exact ⟨apart_punct.mpr hts, not_startsWord_punct c ts⟩
  | cons v items ih =>
    obtain ⟨hapart, hstart⟩ := ih fun v hv => h v (List.mem_cons_of_mem _ hv)
    rw [spellMore, List.cons_append, List.append_assoc]
    exact ⟨apart_punct.mpr (h v List.mem_cons_self _ hapart hstart), not_startsWord_punct _ _⟩

/-- The tokens of more fields keep their words apart. -/
theorem spellMoreFields_parted {fields : List (List ℕ × Tree)} (h : ∀ f ∈ fields, f.2.Parted)
    {c : Char} {ts : List Token} (hts : Apart ts) :
    Apart (spellMoreFields fields ++ .punct c :: ts) ∧
      ¬ StartsWord (spellMoreFields fields ++ .punct c :: ts) := by
  induction fields with
  | nil => exact ⟨apart_punct.mpr hts, not_startsWord_punct c ts⟩
  | cons f fields ih =>
    obtain ⟨key, v⟩ := f
    obtain ⟨hapart, hstart⟩ := ih fun f hf => h f (List.mem_cons_of_mem _ hf)
    rw [spellMoreFields, List.cons_append, List.cons_append, List.cons_append, List.append_assoc]
    refine ⟨?_, not_startsWord_punct _ _⟩
    rw [apart_punct, apart_str, apart_punct]
    exact h (key, v) List.mem_cons_self _ hapart hstart

/-- A number has no special character. -/
theorem Numeral.free {l : List Char} (h : Numeral l) : ∀ c ∈ l, c ∉ htmlChars := by
  -- a numeral has digits, signs, a dot and the letter of the exponent, none of which is escaped
  have hdigits : ∀ {d : List Char}, Digits d → ∀ c ∈ d, c ∉ htmlChars := by
    intro d hd c hc hmem
    have hnone : ∀ c ∈ htmlChars, c.isDigit = false := by
      apply forall_of_all
      decide
    have := hd.2 c hc
    rw [hnone c hmem] at this
    cases this
  have happend : ∀ {a b : List Char}, (∀ c ∈ a, c ∉ htmlChars) → (∀ c ∈ b, c ∉ htmlChars) →
      ∀ c ∈ a ++ b, c ∉ htmlChars := by
    intro a b ha hb c hc
    exact (List.mem_append.mp hc).elim (ha c) (hb c)
  have hsmall : ∀ {a : List Char}, (a = [] ∨ a = ['+'] ∨ a = ['-']) → ∀ c ∈ a, c ∉ htmlChars := by
    rintro a (rfl | rfl | rfl)
    · exact nofun
    · apply forall_of_all
      decide
    · apply forall_of_all
      decide
  have hone : ∀ {x : Char} {a : List Char}, (x = '.' ∨ x = 'e' ∨ x = 'E') →
      (∀ c ∈ a, c ∉ htmlChars) → ∀ c ∈ x :: a, c ∉ htmlChars := by
    intro x a hx ha c hc
    rcases List.mem_cons.mp hc with rfl | hc
    · rcases hx with rfl | rfl | rfl
      · decide
      · decide
      · decide
    · exact ha c hc
  obtain ⟨sign, int, fraction, exponent, rfl, hsign, hint, -, hfraction, hexponent⟩ := h
  refine happend (happend (happend ?_ (hdigits hint)) ?_) ?_
  · exact hsmall (hsign.imp_right .inr)
  · rcases hfraction with rfl | ⟨d, hd, rfl⟩
    · exact nofun
    · exact hone (.inl rfl) (hdigits hd)
  · rcases hexponent with rfl | ⟨e, s, d, he, hs, hd, rfl⟩
    · exact nofun
    · exact hone (.inr he) (happend (hsmall hs) (hdigits hd))

/-- The tokens of every valid tree keep their words apart. -/
theorem Tree.Valid.parted {v : Tree} (h : v.Valid) : v.Parted := by
  induction h with
  | null =>
    intro ts hts hstart
    refine ⟨fun w hw => ⟨?_, hstart⟩, hts⟩
    cases hw
    apply forall_of_all
    decide
  | bool b =>
    intro ts hts hstart
    refine ⟨fun w hw => ⟨?_, hstart⟩, hts⟩
    cases hw
    apply forall_of_all
    cases b
    · decide
    · decide
  | num hnum =>
    intro ts hts hstart
    refine ⟨fun w hw => ⟨?_, hstart⟩, hts⟩
    cases hw
    exact hnum.free
  | str units =>
    intro ts hts _
    exact apart_str.mpr hts
  -- after an opening bracket an empty list closes at once, else the first item has its own tokens
  | @arr items _ ih =>
    intro ts hts _
    rw [Tree.spell, List.cons_append, apart_punct, List.append_assoc]
    cases items with
    | nil => exact apart_punct.mpr hts
    | cons v items =>
      obtain ⟨hapart, hstart⟩ := spellMore_parted (c := ']')
        (fun v hv => ih v (List.mem_cons_of_mem _ hv)) hts
      rw [spellItems, List.append_assoc]
      exact ih v List.mem_cons_self _ hapart hstart
  | @obj fields _ ih =>
    intro ts hts _
    rw [Tree.spell, List.cons_append, apart_punct, List.append_assoc]
    cases fields with
    | nil => exact apart_punct.mpr hts
    | cons f fields =>
      obtain ⟨key, v⟩ := f
      obtain ⟨hapart, hstart⟩ := spellMoreFields_parted (c := '\x7d')
        (fun f hf => ih f (List.mem_cons_of_mem _ hf)) hts
      rw [spellFields, List.cons_append, List.cons_append, apart_str, apart_punct,
        List.append_assoc]
      exact ih (key, v) List.mem_cons_self _ hapart hstart

/-- **What is left of a text is the text of the same value.** -/
theorem Denotes.htmlSafe_unspaced {text : List Char} {v : Tree} (h : Denotes text v) :
    Denotes (htmlSafe (unspaced false false text)) v := by
  refine ⟨h.1, lex_htmlSafe_unspaced h.2 ?_⟩
  rw [← List.append_nil v.spell]
  exact h.1.parted [] trivial nofun

end Hmux.Lib.Json
