import Hmux.Lib.Json.Go

namespace Hmux.Lib.Json

/-!
# Texts and the values they stand for

A JSON text with white space between its tokens.  A `Tree` keeps what a parser may keep: the order
of the keys, the spelling of the numbers, and strings as the code units that they stand for.

* `lex` — the tokens of a text;
* `Tree.spell` — the tokens of a value;
* `Denotes` — a text is that of a value if its tokens are those of the value;
* `Denotes.unique` — a text is that of one value.

This is the yardstick for programs that change a text without parsing it: whatever they do to white
space and escapes, the tokens have to stay those of the same value.
-/

/-! ### Tokens

A string is a token with the code units that it names, so that two spellings of one character are
the same token; a number is a word with its own spelling. -/

/-- A token: a bracket, a comma or a colon, a string, or a word (a literal or a number). -/
inductive Token
  | punct (c : Char)
  | str (units : List ℕ)
  | word (chars : List Char)
  deriving DecidableEq

/-- White space. -/
def isSpace (c : Char) : Bool := c = ' ' || c = '\n' || c = '\r' || c = '\t'

/-- The characters that are tokens. -/
def isPunct (c : Char) : Bool :=
  c = '\x7b' || c = '\x7d' || c = '[' || c = ']' || c = ',' || c = ':'

/-- The characters of words. -/
def isWord (c : Char) : Bool := !isSpace c && !isPunct c && c ≠ '"'

/-- The number of a hexadecimal digit. -/
def hexDigit? (c : Char) : Option ℕ :=
  if '0' ≤ c && c ≤ '9' then some (c.toNat - 48)
  else if 'a' ≤ c && c ≤ 'f' then some (c.toNat - 87)
  else if 'A' ≤ c && c ≤ 'F' then some (c.toNat - 55)
  else none

/-- The code unit that four digits name. -/
def unit? (a b c d : Char) : Option ℕ := do
  let a ← hexDigit? a
  let b ← hexDigit? b
  let c ← hexDigit? c
  let d ← hexDigit? d
  return ((a * 16 + b) * 16 + c) * 16 + d

/-- The code unit of an escape with one character. -/
def escaped? (c : Char) : Option ℕ :=
  if c = '"' || c = '\\' || c = '/' then some c.toNat
  else if c = 'b' then some 8
  else if c = 'f' then some 12
  else if c = 'n' then some 10
  else if c = 'r' then some 13
  else if c = 't' then some 9
  else none

/-- The code units of a character. -/
def units (c : Char) : List ℕ :=
  if c.toNat < 0x10000 then [c.toNat]
  else [0xD800 + (c.toNat - 0x10000) / 0x400, 0xDC00 + (c.toNat - 0x10000) % 0x400]

/-- What is read in front of the rest of a string. -/
def prepend (u : List ℕ) (r : Option (List ℕ × List Char)) : Option (List ℕ × List Char) :=
  r.map fun (v, rest) => (u ++ v, rest)

/-- A string after its first quote: its code units, and the text after its last quote. -/
def lexString : List Char → Option (List ℕ × List Char)
  | [] => none
  | c :: l =>
    if c = '"' then some ([], l)
    else if c = '\\' then
      match l with
      | [] => none
      | e :: l =>
        if e = 'u' then
          match l with
          | w :: x :: y :: z :: l =>
            match unit? w x y z with
            | some u => prepend [u] (lexString l)
            | none => none
          | _ => none
        else
          match escaped? e with
          | some u => prepend [u] (lexString l)
          | none => none
    else if c.toNat < 32 then none
    else prepend (units c) (lexString l)

/-- What stands between the quotes of a string, and the code units that it names. -/
inductive Body : List Char → List ℕ → Prop
  | nil : Body [] []
  | unit {w x y z : Char} {u : ℕ} {l : List Char} {v : List ℕ} (h : unit? w x y z = some u)
    (hrest : Body l v) : Body ('\\' :: 'u' :: w :: x :: y :: z :: l) (u :: v)
  | escape {e : Char} {u : ℕ} {l : List Char} {v : List ℕ} (he : e ≠ 'u') (h : escaped? e = some u)
    (hrest : Body l v) : Body ('\\' :: e :: l) (u :: v)
  | plain {c : Char} {l : List Char} {v : List ℕ} (hquote : c ≠ '"') (hslash : c ≠ '\\')
    (hcontrol : 32 ≤ c.toNat) (hrest : Body l v) : Body (c :: l) (units c ++ v)

/-- **A string is read up to its last quote.** -/
theorem Body.lexString {body : List Char} {u : List ℕ} (h : Body body u) (rest : List Char) :
    lexString (body ++ '"' :: rest) = some (u, rest) := by
  induction h with
  | nil =>
    rw [List.nil_append, Json.lexString.eq_def]
    dsimp only
    rw [if_pos rfl]
  | unit hunit _ ih =>
    simp only [List.cons_append]
    rw [Json.lexString, if_neg (by decide), if_pos rfl, if_pos rfl, hunit]
    dsimp only
    rw [ih]
    rfl
  | escape he hescaped _ ih =>
    simp only [List.cons_append]
    rw [Json.lexString.eq_def]
    dsimp only
    rw [if_neg (by decide), if_pos rfl, if_neg he, hescaped]
    dsimp only
    rw [ih]
    rfl
  | plain hquote hslash hcontrol _ ih =>
    simp only [List.cons_append]
    rw [Json.lexString.eq_def]
    dsimp only
    rw [if_neg hquote, if_neg hslash, if_neg (Nat.not_lt.mpr hcontrol), ih]
    rfl

/-- What is read as a string is one. -/
theorem lexString_body {l rest : List Char} {u : List ℕ} (h : lexString l = some (u, rest)) :
    ∃ body, Body body u ∧ l = body ++ '"' :: rest := by
  have hprepend : ∀ {l rest : List Char} {v u : List ℕ}, prepend v (lexString l) = some (u, rest) →
      ∃ w, lexString l = some (w, rest) ∧ u = v ++ w := by
    intro l rest v u hr
    obtain ⟨⟨w, rest'⟩, hr, heq⟩ := Option.map_eq_some_iff.mp hr
    cases heq
    exact ⟨w, hr, rfl⟩
  -- one case for each branch of the lexer; the accepting ones come first
  induction l using lexString.induct generalizing u with
  | case1 => cases h
  | case2 l =>
    rw [lexString.eq_def] at h
    dsimp only at h
    rw [if_pos rfl] at h
    obtain ⟨rfl, rfl⟩ := Prod.mk.inj (Option.some.inj h)
    exact ⟨[], .nil, rfl⟩
  | case4 w x y z l unit hunit _ ih =>
    rw [lexString, if_neg (by decide), if_pos rfl, if_pos rfl, hunit] at h
    obtain ⟨v, hv, rfl⟩ := hprepend h
    obtain ⟨body, hbody, rfl⟩ := ih hv
    exact ⟨_, .unit hunit hbody, rfl⟩
  | case7 e l he unit hescaped _ ih =>
    rw [lexString.eq_def] at h
    dsimp only at h
    rw [if_neg (by decide), if_pos rfl, if_neg he, hescaped] at h
    obtain ⟨v, hv, rfl⟩ := hprepend h
    obtain ⟨body, hbody, rfl⟩ := ih hv
    exact ⟨_, .escape he hescaped hbody, rfl⟩
  | case10 c l hquote hslash hcontrol ih =>
    rw [lexString.eq_def] at h
    dsimp only at h
    rw [if_neg hquote, if_neg hslash, if_neg hcontrol] at h
    obtain ⟨v, hv, rfl⟩ := hprepend h
    obtain ⟨body, hbody, rfl⟩ := ih hv
    exact ⟨_, .plain hquote hslash (Nat.not_lt.mp hcontrol) hbody, rfl⟩
  -- the others read no string
  | case3 => cases h
  | case5 w x y z l hunit _ =>
    rw [lexString, if_neg (by decide), if_pos rfl, if_pos rfl, hunit] at h
    cases h
  | case6 l hshort _ =>
    rw [lexString.eq_def] at h
    dsimp only at h
    rw [if_neg (by decide), if_pos rfl, if_pos rfl] at h
    split at h
    · exact absurd rfl (hshort _ _ _ _ _)
    · cases h
  | case8 e l he hescaped _ =>
    rw [lexString.eq_def] at h
    dsimp only at h
    rw [if_neg (by decide), if_pos rfl, if_neg he, hescaped] at h
    cases h
  | case9 c l hquote hslash hcontrol =>
    rw [lexString.eq_def] at h
    dsimp only at h
    rw [if_neg hquote, if_neg hslash, if_pos hcontrol] at h
    cases h

theorem length_lexString {l rest : List Char} {u : List ℕ} (h : lexString l = some (u, rest)) :
    rest.length < l.length := by
  obtain ⟨body, -, rfl⟩ := lexString_body h
  simp only [List.length_append, List.length_cons]
  omega

/-- The tokens of a text. -/
def lex : List Char → Option (List Token)
  | [] => some []
  | c :: l =>
    if isSpace c then lex l
    else if isPunct c then (lex l).map (.punct c :: ·)
    else if c = '"' then
      match h : lexString l with
      | none => none
      | some (u, rest) =>
        have := length_lexString h
        (lex rest).map (.str u :: ·)
    else (lex (l.dropWhile isWord)).map (.word (c :: l.takeWhile isWord) :: ·)
termination_by l => l.length
decreasing_by
  · simp only [List.length_cons]
    omega
  · simp only [List.length_cons]
    omega
  · simp only [List.length_cons]
    omega
  · have := (List.dropWhile_sublist isWord (l := l)).length_le
    simp only [List.length_cons]
    omega

/-! ### Values

The tokens of a value are spelled from left to right, with a comma between items and none after the
last. -/

/-- A value, as far as a parser may look at its text. -/
inductive Tree
  | null
  | bool (b : Bool)
  | num (spelling : List Char)
  | str (units : List ℕ)
  | arr (items : List Tree)
  | obj (fields : List (List ℕ × Tree))

mutual

/-- The tokens of a value. -/
def Tree.spell : Tree → List Token
  | .null => [.word "null".toList]
  | .bool b => [.word (if b then "true".toList else "false".toList)]
  | .num spelling => [.word spelling]
  | .str units => [.str units]
  | .arr items => .punct '[' :: (spellItems items ++ [.punct ']'])
  | .obj fields => .punct '\x7b' :: (spellFields fields ++ [.punct '\x7d'])

/-- The items of an array, with commas between them. -/
def spellItems : List Tree → List Token
  | [] => []
  | v :: items => v.spell ++ spellMore items

/-- The items after the first. -/
def spellMore : List Tree → List Token
  | [] => []
  | v :: items => .punct ',' :: (v.spell ++ spellMore items)

/-- The fields of an object, with commas between them. -/
def spellFields : List (List ℕ × Tree) → List Token
  | [] => []
  | (key, v) :: fields => .str key :: .punct ':' :: (v.spell ++ spellMoreFields fields)

/-- The fields after the first. -/
def spellMoreFields : List (List ℕ × Tree) → List Token
  | [] => []
  | (key, v) :: fields =>
    .punct ',' :: .str key :: .punct ':' :: (v.spell ++ spellMoreFields fields)

end

/-- Decimal digits, at least one. -/
def Digits (l : List Char) : Prop := l ≠ [] ∧ ∀ c ∈ l, c.isDigit = true

/-- The spelling of a number. -/
def Numeral (l : List Char) : Prop :=
  ∃ sign int fraction exponent, l = sign ++ int ++ fraction ++ exponent ∧
    (sign = [] ∨ sign = ['-']) ∧ Digits int ∧ (int = ['0'] ∨ int.head? ≠ some '0') ∧
    (fraction = [] ∨ ∃ d, Digits d ∧ fraction = '.' :: d) ∧
    (exponent = [] ∨ ∃ e s d, (e = 'e' ∨ e = 'E') ∧ (s = [] ∨ s = ['+'] ∨ s = ['-']) ∧ Digits d ∧
      exponent = e :: (s ++ d))

/-- The numbers of a value are spelled as numbers. -/
inductive Tree.Valid : Tree → Prop
  | null : Valid .null
  | bool (b : Bool) : Valid (.bool b)
  | num {spelling : List Char} (h : Numeral spelling) : Valid (.num spelling)
  | str (units : List ℕ) : Valid (.str units)
  | arr {items : List Tree} (h : ∀ v ∈ items, Valid v) : Valid (.arr items)
  | obj {fields : List (List ℕ × Tree)} (h : ∀ f ∈ fields, Valid f.2) : Valid (.obj fields)

/-- **A text is that of a value** if its tokens are those of the value. -/
def Denotes (text : List Char) (v : Tree) : Prop := v.Valid ∧ lex text = some v.spell

/-! ### One text, one value

By recursion on the value: what a value starts with tells its kind, and its parts follow one after
the other. -/

/-- A number starts with its sign or with a digit. -/
theorem Numeral.head {l : List Char} (h : Numeral l) :
    ∃ c rest, l = c :: rest ∧ (c = '-' ∨ c.isDigit = true) := by
  obtain ⟨sign, int, fraction, exponent, rfl, hsign, hint, -⟩ := h
  cases int with
  | nil => exact absurd rfl hint.1
  | cons c int =>
    rcases hsign with rfl | rfl
    · exact ⟨c, _, rfl, .inr (hint.2 c (List.mem_cons_self ..))⟩
    · exact ⟨'-', _, rfl, .inl rfl⟩

theorem Numeral.ne_literal {l : List Char} (h : Numeral l) :
    l ≠ "null".toList ∧ l ≠ "true".toList ∧ l ≠ "false".toList := by
  obtain ⟨c, rest, rfl, hc⟩ := h.head
  have hn : c ≠ 'n' := by rintro rfl; revert hc; decide
  have ht : c ≠ 't' := by rintro rfl; revert hc; decide
  have hf : c ≠ 'f' := by rintro rfl; revert hc; decide
  refine ⟨fun heq => hn (List.cons.inj heq).1, fun heq => ht (List.cons.inj heq).1,
    fun heq => hf (List.cons.inj heq).1⟩

/-- The first token of a value is not one that may follow a value. -/
theorem Tree.spell_head (v : Tree) :
    ∃ t rest, v.spell = t :: rest ∧ ∀ c, t = .punct c → c = '[' ∨ c = '\x7b' := by
  cases v with
  | null => exact ⟨_, _, rfl, nofun⟩
  | bool b => exact ⟨_, _, rfl, nofun⟩
  | num spelling => exact ⟨_, _, rfl, nofun⟩
  | str units => exact ⟨_, _, rfl, nofun⟩
  | arr items =>
    refine ⟨_, _, rfl, ?_⟩
    rintro c ⟨⟩
    exact .inl rfl
  | obj fields =>
    refine ⟨_, _, rfl, ?_⟩
    rintro c ⟨⟩
    exact .inr rfl

theorem Tree.spell_ne {v : Tree} {c : Char} {r r' : List Token}
    (hopen : c ≠ '[') (hbrace : c ≠ '\x7b') :
    v.spell ++ r ≠ .punct c :: r' := by
  obtain ⟨t, rest, hspell, ht⟩ := v.spell_head
  rw [hspell]
  intro heq
  rcases ht c (List.cons.inj heq).1 with rfl | rfl
  · exact hopen rfl
  · exact hbrace rfl

/-- A value is known from its tokens, and so is what follows it. -/
def Tree.Known (v : Tree) : Prop :=
  ∀ (v' : Tree) (r r' : List Token), v'.Valid → v.spell ++ r = v'.spell ++ r' → v = v' ∧ r = r'

theorem spellMore_inj {items items' : List Tree} {r r' : List Token}
    (h : ∀ v ∈ items, v.Known) (h' : ∀ v ∈ items', v.Valid)
    (heq : spellMore items ++ .punct ']' :: r = spellMore items' ++ .punct ']' :: r') :
    items = items' ∧ r = r' := by
  induction items generalizing items' with
  | nil =>
    cases items' with
    | nil => exact ⟨rfl, (List.cons.inj heq).2⟩
    | cons v items' =>
      injection (List.cons.inj heq).1 with hc
      cases hc
  | cons v items ih =>
    cases items' with
    | nil =>
      injection (List.cons.inj heq).1 with hc
      cases hc
    | cons v' items' =>
      have htail := (List.cons.inj heq).2
      simp only [List.append_eq, List.append_assoc] at htail
      obtain ⟨rfl, hmore⟩ := h v (List.mem_cons_self ..) v' _ _
        (h' v' (List.mem_cons_self ..)) htail
      obtain ⟨rfl, hr⟩ := ih (fun v hv => h v (List.mem_cons_of_mem _ hv))
        (fun v hv => h' v (List.mem_cons_of_mem _ hv)) hmore
      exact ⟨rfl, hr⟩

theorem spellItems_inj {items items' : List Tree} {r r' : List Token}
    (h : ∀ v ∈ items, v.Known) (h' : ∀ v ∈ items', v.Valid)
    (heq : spellItems items ++ .punct ']' :: r = spellItems items' ++ .punct ']' :: r') :
    items = items' ∧ r = r' := by
  cases items with
  | nil =>
    cases items' with
    | nil => exact ⟨rfl, (List.cons.inj heq).2⟩
    | cons v items' =>
      rw [spellItems, spellItems, List.nil_append, List.append_assoc] at heq
      exact absurd heq.symm (Tree.spell_ne (by decide) (by decide))
  | cons v items =>
    cases items' with
    | nil =>
      rw [spellItems, spellItems, List.nil_append, List.append_assoc] at heq
      exact absurd heq (Tree.spell_ne (by decide) (by decide))
    | cons v' items' =>
      rw [spellItems, spellItems, List.append_assoc, List.append_assoc] at heq
      obtain ⟨rfl, hmore⟩ := h v (List.mem_cons_self ..) v' _ _
        (h' v' (List.mem_cons_self ..)) heq
      obtain ⟨rfl, hr⟩ := spellMore_inj (fun v hv => h v (List.mem_cons_of_mem _ hv))
        (fun v hv => h' v (List.mem_cons_of_mem _ hv)) hmore
      exact ⟨rfl, hr⟩

theorem spellMoreFields_inj {fields fields' : List (List ℕ × Tree)} {r r' : List Token}
    (h : ∀ f ∈ fields, f.2.Known) (h' : ∀ f ∈ fields', f.2.Valid)
    (heq : spellMoreFields fields ++ .punct '\x7d' :: r =
      spellMoreFields fields' ++ .punct '\x7d' :: r') : fields = fields' ∧ r = r' := by
  induction fields generalizing fields' with
  | nil =>
    cases fields' with
    | nil => exact ⟨rfl, (List.cons.inj heq).2⟩
    | cons f fields' =>
      injection (List.cons.inj heq).1 with hc
      cases hc
  | cons f fields ih =>
    obtain ⟨key, v⟩ := f
    cases fields' with
    | nil =>
      injection (List.cons.inj heq).1 with hc
      cases hc
    | cons f' fields' =>
      obtain ⟨key', v'⟩ := f'
      have hkeys := (List.cons.inj heq).2
      injection (List.cons.inj hkeys).1 with hkey
      have htail := (List.cons.inj (List.cons.inj hkeys).2).2
      simp only [List.append_eq, List.append_assoc] at htail
      obtain ⟨rfl, hmore⟩ := h (key, v) (List.mem_cons_self ..) v' _ _
        (h' (key', v') (List.mem_cons_self ..)) htail
      obtain ⟨rfl, hr⟩ := ih (fun f hf => h f (List.mem_cons_of_mem _ hf))
        (fun f hf => h' f (List.mem_cons_of_mem _ hf)) hmore
      exact ⟨by rw [hkey], hr⟩

theorem spellFields_inj {fields fields' : List (List ℕ × Tree)} {r r' : List Token}
    (h : ∀ f ∈ fields, f.2.Known) (h' : ∀ f ∈ fields', f.2.Valid)
    (heq : spellFields fields ++ .punct '\x7d' :: r = spellFields fields' ++ .punct '\x7d' :: r') :
    fields = fields' ∧ r = r' := by
  cases fields with
  | nil =>
    cases fields' with
    | nil => exact ⟨rfl, (List.cons.inj heq).2⟩
    | cons f fields' => cases (List.cons.inj heq).1
  | cons f fields =>
    obtain ⟨key, v⟩ := f
    cases fields' with
    | nil => cases (List.cons.inj heq).1
    | cons f' fields' =>
      obtain ⟨key', v'⟩ := f'
      injection (List.cons.inj heq).1 with hkey
      have htail := (List.cons.inj (List.cons.inj heq).2).2
      simp only [List.append_eq, List.append_assoc] at htail
      obtain ⟨rfl, hmore⟩ := h (key, v) (List.mem_cons_self ..) v' _ _
        (h' (key', v') (List.mem_cons_self ..)) htail
      obtain ⟨rfl, hr⟩ := spellMoreFields_inj (fun f hf => h f (List.mem_cons_of_mem _ hf))
        (fun f hf => h' f (List.mem_cons_of_mem _ hf)) hmore
      exact ⟨by rw [hkey], hr⟩

/-- **A value is known from its tokens.** -/
theorem spell_inj {v : Tree} (h : v.Valid) : v.Known := by
  induction h with
  -- the first token tells which value comes
  | null =>
    intro v' r r' h' heq
    cases v' with
    | null => exact ⟨rfl, (List.cons.inj heq).2⟩
    | bool b => cases b <;> cases (List.cons.inj heq).1
    -- a numeral is none of the words
    | num spelling =>
      cases h' with
      | num hnum =>
        injection (List.cons.inj heq).1 with hword
        exact absurd hword.symm hnum.ne_literal.1
    | _ => cases (List.cons.inj heq).1
  | bool b =>
    intro v' r r' h' heq
    cases v' with
    | null => cases b <;> cases (List.cons.inj heq).1
    | bool b' =>
      cases b
      · cases b'
        · exact ⟨rfl, (List.cons.inj heq).2⟩
        · cases (List.cons.inj heq).1
      · cases b'
        · cases (List.cons.inj heq).1
        · exact ⟨rfl, (List.cons.inj heq).2⟩
    | num spelling =>
      cases h' with
      | num hnum =>
        injection (List.cons.inj heq).1 with hword
        cases b
        · exact absurd hword.symm hnum.ne_literal.2.2
        · exact absurd hword.symm hnum.ne_literal.2.1
    | _ => cases (List.cons.inj heq).1
  | num hnum =>
    intro v' r r' h' heq
    cases v' with
    | null =>
      injection (List.cons.inj heq).1 with hword
      exact absurd hword hnum.ne_literal.1
    | bool b =>
      injection (List.cons.inj heq).1 with hword
      cases b
      · exact absurd hword hnum.ne_literal.2.2
      · exact absurd hword hnum.ne_literal.2.1
    | num spelling' =>
      injection (List.cons.inj heq).1 with hword
      exact ⟨congrArg _ hword, (List.cons.inj heq).2⟩
    | _ => cases (List.cons.inj heq).1
  | str units =>
    intro v' r r' h' heq
    cases v' with
    | str units' =>
      injection (List.cons.inj heq).1 with hunits
      exact ⟨congrArg _ hunits, (List.cons.inj heq).2⟩
    | _ => cases (List.cons.inj heq).1
  | arr _ ih =>
    intro v' r r' h' heq
    cases h' with
    -- the items are told apart by what follows them
    | arr hitems' =>
      have htail := (List.cons.inj heq).2
      simp only [List.append_eq, List.append_assoc] at htail
      obtain ⟨rfl, hr⟩ := spellItems_inj ih hitems' htail
      exact ⟨rfl, hr⟩
    | obj =>
      injection (List.cons.inj heq).1 with hc
      cases hc
    | _ => cases (List.cons.inj heq).1
  | obj _ ih =>
    intro v' r r' h' heq
    cases h' with
    | obj hfields' =>
      have htail := (List.cons.inj heq).2
      simp only [List.append_eq, List.append_assoc] at htail
      obtain ⟨rfl, hr⟩ := spellFields_inj ih hfields' htail
      exact ⟨rfl, hr⟩
    | arr =>
      injection (List.cons.inj heq).1 with hc
      cases hc
    | _ => cases (List.cons.inj heq).1

/-- **A text is that of one value.** -/
theorem Denotes.unique {text : List Char} {v v' : Tree} (h : Denotes text v)
    (h' : Denotes text v') :
    v = v' := by
  have hspell : v.spell ++ [] = v'.spell ++ [] := by
    rw [List.append_nil, List.append_nil]
    exact Option.some.inj (h.2.symm.trans h'.2)
  exact (spell_inj h.1 v' [] [] h'.1 hspell).1

end Hmux.Lib.Json
