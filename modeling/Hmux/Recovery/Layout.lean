import Hmux.Model.Session
import Mathlib.Tactic.Common

namespace Hmux.Recovery

/-!
# Window layouts

`valid_layout` of `recovery.rs`: a layout is given to tmux on every boot, so the text is read with a
recognizer of its own.

* `cell`, `validLayout` — the recognizer; a cursor into the text is what is left of it, and every
  part that is read takes at least one byte, which is why it ends;
* `Cell`, `Layout` — the grammar;
* `cell_sound`, `cell_complete` — the two agree.

A number is followed by a byte that is not a digit in every layout, so that reading as many digits
as there are loses nothing.
-/

/-! ### The recognizer

The functions of the source on the text that is left; a level is a cell and what stands in its
brackets. -/

/-- What is left after a part. -/
abbrev Rest (l : List UInt8) := { r : List UInt8 // r.length < l.length }

/-- A part of a layout. -/
abbrev Part := (l : List UInt8) → Option (Rest l)

/-- One part after another. -/
def andThen (p q : Part) : Part := fun l =>
  (p l).bind fun m => (q m.1).map fun r => ⟨r.1, Nat.lt_trans r.2 m.2⟩

/-- The part that is one byte. -/
def expect (b : UInt8) : Part
  | [] => none
  | c :: l => if c = b then some ⟨l, Nat.lt_succ_self _⟩ else none

/-- Digits that are there are dropped. -/
theorem length_dropWhile_lt {l : List UInt8} (h : 0 < (l.takeWhile isAsciiDigit).length) :
    (l.dropWhile isAsciiDigit).length < l.length := by
  have hlength := congrArg List.length (List.takeWhile_append_dropWhile
    (p := isAsciiDigit) (l := l))
  rw [List.length_append] at hlength
  omega

/-- `number`. -/
def number : Part := fun l =>
  if h : 0 < (l.takeWhile isAsciiDigit).length ∧ (l.takeWhile isAsciiDigit).length ≤ 10 then
    some ⟨l.dropWhile isAsciiDigit, length_dropWhile_lt h.1⟩
  else none

/-- The cells after the first, and the bracket at the end. -/
def siblings (cell : Part) (close : UInt8) (count : ℕ) : Part
  | [] => none
  | c :: l =>
    if c = 44 then
      (cell l).bind fun m =>
        have := m.2
        (siblings cell close (count + 1) m.1).map fun r =>
          ⟨r.1, Nat.lt_succ_of_lt (Nat.lt_trans r.2 m.2)⟩
    else if count < 2 then none
    else if c = close then some ⟨l, Nat.lt_succ_self _⟩
    else none
termination_by l => l.length
decreasing_by
  simp only [List.length_cons]
  omega

/-- The bracket that ends a split. -/
def closing (bracket : UInt8) : UInt8 := if bracket = 91 then 93 else 125

/-- The pane of a cell, or its split. -/
def contents (cell : Part) : Part
  | [] => none
  | c :: l =>
    if c = 44 then (number l).map fun r => ⟨r.1, Nat.lt_succ_of_lt r.2⟩
    else if c = 91 ∨ c = 123 then
      (andThen cell (siblings cell (closing c) 1) l).map fun r =>
        ⟨r.1, Nat.lt_succ_of_lt r.2⟩
    else none

/-- A number and the byte after it. -/
def numberThen (b : UInt8) : Part := andThen number (expect b)

/-- `cell`, with the number of levels that are left: 129 at the root. -/
def cell : ℕ → Part
  | 0 => fun _ => none
  | levels + 1 =>
    andThen (numberThen 120) <| andThen (numberThen 44) <| andThen (numberThen 44) <|
      andThen number (contents (cell levels))

/-- `valid_layout`. -/
def validLayout (s : String) : Bool :=
  let l := bytes s
  if l.length < 6 || 65536 < l.length || l[4]? != some 44 ||
      !(l.take 4).all fun b => isAsciiDigit b || (97 ≤ b && b ≤ 102) then false
  else (cell 129 (l.drop 5)).any fun r => r.1.isEmpty

/-! ### The grammar

What a layout is, without a cursor: cells in brackets, with commas between them and at least two in
each split. -/

/-- One to ten decimal digits. -/
structure Number (l : List UInt8) : Prop where
  digits : ∀ b ∈ l, isAsciiDigit b = true
  pos : 0 < l.length
  le : l.length ≤ 10

/-- The size and the place of a cell. -/
def Geometry (l : List UInt8) : Prop :=
  ∃ w h x y, Number w ∧ Number h ∧ Number x ∧ Number y ∧
    l = w ++ 120 :: (h ++ 44 :: (x ++ 44 :: y))

/-- The two kinds of brackets. -/
def Brackets (bracket close : UInt8) : Prop := bracket = 91 ∧ close = 93 ∨ bracket = 123 ∧
    close = 125

/-- Cells with a comma before each. -/
def listed (cells : List (List UInt8)) : List UInt8 := cells.flatMap fun c => 44 :: c

/-- A cell whose splits nest at most `levels` deep. -/
inductive Cell : ℕ → List UInt8 → Prop
  | pane {levels : ℕ} {geometry id : List UInt8} (hgeometry : Geometry geometry) (hid : Number id) :
    Cell levels (geometry ++ 44 :: id)
  | split {levels : ℕ} {geometry first : List UInt8} {more : List (List UInt8)}
    {bracket close : UInt8} (hgeometry : Geometry geometry) (hbrackets : Brackets bracket close)
    (hfirst : Cell levels first) (hmore : ∀ c ∈ more, Cell levels c) (hnonempty : more ≠ []) :
    Cell (levels + 1) (geometry ++ bracket :: (first ++ listed more ++ [close]))

/-- Four lowercase hex digits, a comma, and one cell. -/
def Layout (l : List UInt8) : Prop :=
  ∃ checksum root, checksum.length = 4 ∧
    (∀ b ∈ checksum, isAsciiDigit b = true ∨ 97 ≤ b ∧ b ≤ 102) ∧ Cell 128 root ∧
    l = checksum ++ 44 :: root

/-! ### What the parts read

A part reads a prefix of the text, and which prefix it is does not depend on what comes after it.
-/

/-- The part reads a text up to `r`. -/
def Leaves (p : Part) (l r : List UInt8) : Prop := ∃ m, p l = some m ∧ m.1 = r

/-- The text does not go on with a digit. -/
def NoDigit (l : List UInt8) : Prop := ∀ b ∈ l.head?, isAsciiDigit b = false

section

variable {p q : Part} {l r : List UInt8} {b : UInt8}

/-- What two parsers leave, one after the other. -/
theorem andThen_leaves : Leaves (andThen p q) l r ↔ ∃ m, Leaves p l m ∧ Leaves q m r := by
  unfold Leaves andThen
  constructor
  · rintro ⟨m, hm, rfl⟩
    obtain ⟨m₁, h₁, h₂⟩ := Option.bind_eq_some_iff.mp hm
    obtain ⟨m₂, h₃, rfl⟩ := Option.map_eq_some_iff.mp h₂
    exact ⟨m₁.1, ⟨m₁, h₁, rfl⟩, ⟨m₂, h₃, rfl⟩⟩
  · rintro ⟨_, ⟨m₁, h₁, rfl⟩, ⟨m₂, h₂, rfl⟩⟩
    rw [h₁, Option.bind_some, h₂]
    exact ⟨_, rfl, rfl⟩

/-- A byte that is expected is left out. -/
theorem expect_leaves : Leaves (expect b) l r ↔ l = b :: r := by
  unfold Leaves
  cases l with
  | nil => exact ⟨nofun, nofun⟩
  | cons c l =>
    unfold expect
    dsimp only
    by_cases hc : c = b
    · rw [if_pos hc, hc]
      constructor
      · rintro ⟨m, ⟨⟩, rfl⟩
        rfl
      · rintro ⟨⟩
        exact ⟨_, rfl, rfl⟩
    · rw [if_neg hc]
      constructor
      · nofun
      · rintro ⟨⟩
        exact absurd rfl hc

/-- Digits end where something else begins. -/
theorem takeWhile_append_of_noDigit {d : List UInt8} (hd : ∀ b ∈ d, isAsciiDigit b = true)
    (hr : NoDigit r) :
    (d ++ r).takeWhile isAsciiDigit = d ∧ (d ++ r).dropWhile isAsciiDigit = r := by
  have hnone : r.takeWhile isAsciiDigit = [] ∧ r.dropWhile isAsciiDigit = r := by
    cases r with
    | nil => exact ⟨rfl, rfl⟩
    | cons b r =>
      have hb : ¬isAsciiDigit b = true := by
        rw [hr b rfl]
        nofun
      exact ⟨List.takeWhile_cons_of_neg hb, List.dropWhile_cons_of_neg hb⟩
  constructor
  · rw [List.takeWhile_append_of_pos hd, hnone.1, List.append_nil]
  · rw [List.dropWhile_append_of_pos hd, hnone.2]

/-- **Numbers** are read up to the first byte that is not a digit. -/
theorem number_leaves : Leaves number l r ↔ ∃ d, Number d ∧ l = d ++ r ∧ NoDigit r := by
  constructor
  · rintro ⟨m, hm, rfl⟩
    unfold number at hm
    split at hm
    · rename_i hlength
      cases hm
      refine ⟨l.takeWhile isAsciiDigit, ⟨?_, hlength.1, hlength.2⟩, ?_, ?_⟩
      · intro b hb
        exact List.all_eq_true.mp List.all_takeWhile b hb
      · exact List.takeWhile_append_dropWhile.symm
      · intro b hb
        have hnot := List.head?_dropWhile_not isAsciiDigit l
        rw [Option.mem_def] at hb
        rw [hb] at hnot
        simpa using hnot
    · cases hm
  · rintro ⟨d, hd, rfl, hr⟩
    have hsplit := takeWhile_append_of_noDigit hd.digits hr
    have hlength : 0 < ((d ++ r).takeWhile isAsciiDigit).length ∧
        ((d ++ r).takeWhile isAsciiDigit).length ≤ 10 := by
      rw [hsplit.1]
      exact ⟨hd.pos, hd.le⟩
    refine ⟨⟨_, length_dropWhile_lt hlength.1⟩, dif_pos hlength, hsplit.2⟩

/-- A number with the byte after it. -/
theorem numberThen_leaves (hb : isAsciiDigit b = false) :
    Leaves (numberThen b) l r ↔ ∃ d, Number d ∧ l = d ++ b :: r := by
  unfold numberThen
  rw [andThen_leaves]
  constructor
  · rintro ⟨m, hm, hr⟩
    obtain ⟨d, hd, rfl, -⟩ := number_leaves.mp hm
    rw [expect_leaves] at hr
    exact ⟨d, hd, by rw [hr]⟩
  · rintro ⟨d, hd, rfl⟩
    refine ⟨b :: r, number_leaves.mpr ⟨d, hd, rfl, ?_⟩, expect_leaves.mpr rfl⟩
    rintro _ ⟨⟩
    exact hb

end

section

variable {p : Part} {l r : List UInt8} {c close : UInt8} {count : ℕ}

/-- After a comma comes one more cell. -/
theorem siblings_comma : Leaves (siblings p close count) (44 :: l) r ↔
    ∃ m, Leaves p l m ∧ Leaves (siblings p close (count + 1)) m r := by
  unfold Leaves
  rw [siblings]
  rw [if_pos rfl]
  constructor
  · rintro ⟨m, hm, rfl⟩
    obtain ⟨m₁, h₁, h₂⟩ := Option.bind_eq_some_iff.mp hm
    obtain ⟨m₂, h₃, rfl⟩ := Option.map_eq_some_iff.mp h₂
    exact ⟨m₁.1, ⟨m₁, h₁, rfl⟩, ⟨m₂, h₃, rfl⟩⟩
  · rintro ⟨_, ⟨m₁, h₁, rfl⟩, ⟨m₂, h₂, rfl⟩⟩
    refine ⟨_, Option.bind_eq_some_iff.mpr ⟨m₁, h₁, Option.map_eq_some_iff.mpr ⟨m₂, h₂, rfl⟩⟩, rfl⟩

/-- After the last cell comes the closing bracket, if there are two cells. -/
theorem siblings_end (hc : c ≠ 44) : Leaves (siblings p close count) (c :: l) r ↔
    2 ≤ count ∧ c = close ∧ l = r := by
  unfold Leaves
  rw [siblings, if_neg hc]
  by_cases hcount : count < 2
  · rw [if_pos hcount]
    constructor
    · nofun
    · intro h
      omega
  · rw [if_neg hcount]
    by_cases hclose : c = close
    · rw [if_pos hclose]
      constructor
      · rintro ⟨m, ⟨⟩, rfl⟩
        exact ⟨by omega, hclose, rfl⟩
      · rintro ⟨-, -, rfl⟩
        exact ⟨_, rfl, rfl⟩
    · rw [if_neg hclose]
      constructor
      · nofun
      · intro h
        exact absurd h.2.1 hclose

/-- A row of cells does not end without its bracket. -/
theorem siblings_nil : ¬Leaves (siblings p close count) [] r := by
  unfold Leaves
  rw [siblings]
  nofun

/-- What is read as a list of cells is one. -/
theorem siblings_sound {C : List UInt8 → Prop}
    (hcell : ∀ l r, Leaves p l r → ∃ text, C text ∧ l = text ++ r)
    (h : Leaves (siblings p close count) l r) :
    ∃ more, (∀ c ∈ more, C c) ∧ 2 ≤ count + more.length ∧ l = listed more ++ close :: r := by
  induction hn : l.length using Nat.strongRecOn generalizing l count with
  | ind n ih =>
    cases l with
    | nil => exact absurd h siblings_nil
    | cons c l =>
      by_cases hc : c = 44
      · subst hc
        obtain ⟨m, hm, hrest⟩ := siblings_comma.mp h
        obtain ⟨text, htext, rfl⟩ := hcell l m hm
        have hlt : m.length < n := by
          rw [← hn, List.length_cons, List.length_append]
          omega
        obtain ⟨more, hmore, hcount, rfl⟩ := ih m.length hlt hrest rfl
        refine ⟨text :: more, ?_, ?_, ?_⟩
        · intro c hc
          rcases List.mem_cons.mp hc with rfl | hc
          · exact htext
          · exact hmore c hc
        · rw [List.length_cons]
          omega
        · simp only [listed, List.flatMap_cons, List.cons_append, List.append_assoc]
      · obtain ⟨hcount, rfl, rfl⟩ := (siblings_end hc).mp h
        exact ⟨[], nofun, hcount, rfl⟩

/-- A list of cells is read to its end. -/
theorem siblings_complete {more : List (List UInt8)}
    (hcell : ∀ c ∈ more, ∀ r, NoDigit r → Leaves p (c ++ r) r) (hclose : close ≠ 44)
    (hdigit : isAsciiDigit close = false) (hcount : 2 ≤ count + more.length) :
    Leaves (siblings p close count) (listed more ++ close :: r) r := by
  induction more generalizing count with
  | nil => exact (siblings_end hclose).mpr ⟨hcount, rfl, rfl⟩
  | cons text more ih =>
    have htext : listed (text :: more) ++ close :: r =
        44 :: (text ++ (listed more ++ close :: r)) := by
      simp only [listed, List.flatMap_cons, List.cons_append, List.append_assoc]
    -- the next byte is a comma or the bracket
    have hnext : NoDigit (listed more ++ close :: r) := by
      cases more with
      | nil =>
        rintro _ ⟨⟩
        exact hdigit
      | cons text more =>
        rintro _ ⟨⟩
        rfl
    rw [htext, siblings_comma]
    refine ⟨_, hcell text (List.mem_cons_self ..) _ hnext, ?_⟩
    apply ih
    · intro c hc
      exact hcell c (List.mem_cons_of_mem _ hc)
    · rw [List.length_cons] at hcount
      omega

/-- After the offsets of a cell may come its number. -/
theorem contents_comma : Leaves (contents p) (44 :: l) r ↔ Leaves number l r := by
  unfold Leaves contents
  dsimp only
  rw [if_pos rfl]
  constructor
  · rintro ⟨m, hm, rfl⟩
    obtain ⟨m', h', rfl⟩ := Option.map_eq_some_iff.mp hm
    exact ⟨m', h', rfl⟩
  · rintro ⟨m, hm, rfl⟩
    exact ⟨_, Option.map_eq_some_iff.mpr ⟨m, hm, rfl⟩, rfl⟩

/-- After the offsets of a cell may come cells in brackets. -/
theorem contents_bracket (hc : c = 91 ∨ c = 123) : Leaves (contents p) (c :: l) r ↔
    Leaves (andThen p (siblings p (closing c) 1)) l r := by
  have hcomma : c ≠ 44 := by rcases hc with rfl | rfl <;> decide
  unfold Leaves contents
  dsimp only
  rw [if_neg hcomma, if_pos hc]
  constructor
  · rintro ⟨m, hm, rfl⟩
    obtain ⟨m', h', rfl⟩ := Option.map_eq_some_iff.mp hm
    exact ⟨m', h', rfl⟩
  · rintro ⟨m, hm, rfl⟩
    exact ⟨_, Option.map_eq_some_iff.mpr ⟨m, hm, rfl⟩, rfl⟩

/-- Contents begin with a comma or an opening bracket. -/
theorem contents_cases (h : Leaves (contents p) l r) :
    ∃ c l', l = c :: l' ∧ (c = 44 ∨ c = 91 ∨ c = 123) := by
  obtain ⟨m, hm, -⟩ := h
  cases l with
  | nil => cases hm
  | cons c l =>
    refine ⟨c, l, rfl, ?_⟩
    by_contra hc
    rw [not_or] at hc
    unfold contents at hm
    dsimp only at hm
    rw [if_neg hc.1, if_neg hc.2] at hm
    cases hm

end

/-! ### Cells

By induction on the levels, in both directions. -/

/-- A cell is a geometry with its contents. -/
theorem cell_succ {levels : ℕ} {l r : List UInt8} : Leaves (cell (levels + 1)) l r ↔
    ∃ geometry rest, Geometry geometry ∧ NoDigit rest ∧ l = geometry ++ rest ∧
      Leaves (contents (cell levels)) rest r := by
  rw [cell]
  simp only [andThen_leaves, numberThen_leaves (b := 120) rfl, numberThen_leaves (b := 44) rfl,
    number_leaves]
  constructor
  · rintro ⟨_, ⟨w, hw, rfl⟩, _, ⟨h, hh, rfl⟩, _, ⟨x, hx, rfl⟩, rest, ⟨y, hy, rfl, hrest⟩, hr⟩
    refine ⟨_, rest, ⟨w, h, x, y, hw, hh, hx, hy, rfl⟩, hrest, ?_, hr⟩
    simp only [List.append_assoc, List.cons_append]
  · rintro ⟨_, rest, ⟨w, h, x, y, hw, hh, hx, hy, rfl⟩, hrest, rfl, hr⟩
    simp only [List.append_assoc, List.cons_append]
    exact ⟨_, ⟨w, hw, rfl⟩, _, ⟨h, hh, rfl⟩, _, ⟨x, hx, rfl⟩, rest, ⟨y, hy, rfl, hrest⟩, hr⟩

/-- **What is read is a cell.** -/
theorem cell_sound (levels : ℕ) {l r : List UInt8} (h : Leaves (cell (levels + 1)) l r) :
    ∃ text, Cell levels text ∧ l = text ++ r := by
  induction levels generalizing l r with
  | zero =>
    obtain ⟨geometry, rest, hgeometry, -, rfl, hcontents⟩ := cell_succ.mp h
    obtain ⟨c, rest, rfl, hc⟩ := contents_cases hcontents
    rcases hc with rfl | hc
    · obtain ⟨id, hid, rfl, -⟩ := number_leaves.mp (contents_comma.mp hcontents)
      exact ⟨_, .pane hgeometry hid, by simp only [List.append_assoc, List.cons_append]⟩
    · -- no level is left for the cells of a split
      rw [contents_bracket hc, andThen_leaves] at hcontents
      obtain ⟨m, ⟨_, hm, -⟩, -⟩ := hcontents
      cases hm
  | succ levels ih =>
    obtain ⟨geometry, rest, hgeometry, -, rfl, hcontents⟩ := cell_succ.mp h
    obtain ⟨c, rest, rfl, hc⟩ := contents_cases hcontents
    rcases hc with rfl | hc
    · obtain ⟨id, hid, rfl, -⟩ := number_leaves.mp (contents_comma.mp hcontents)
      exact ⟨_, .pane hgeometry hid, by simp only [List.append_assoc, List.cons_append]⟩
    · rw [contents_bracket hc, andThen_leaves] at hcontents
      obtain ⟨m, hleaves, hsiblings⟩ := hcontents
      obtain ⟨first, hfirst, rfl⟩ := ih hleaves
      obtain ⟨more, hmore, hcount, rfl⟩ := siblings_sound (fun _ _ => ih) hsiblings
      have hbrackets : Brackets c (closing c) := by
        rcases hc with rfl | rfl
        · exact .inl ⟨rfl, rfl⟩
        · exact .inr ⟨rfl, rfl⟩
      have hnonempty : more ≠ [] := by
        rintro rfl
        exact absurd hcount (by decide)
      exact ⟨_, .split hgeometry hbrackets hfirst hmore hnonempty,
        by simp only [List.append_assoc, List.cons_append, List.nil_append]⟩

/-- **A cell is read to its end.** -/
theorem cell_complete {levels : ℕ} {text : List UInt8} (h : Cell levels text) :
    ∀ r, NoDigit r → Leaves (cell (levels + 1)) (text ++ r) r := by
  induction h with
  | @pane levels geometry id hgeometry hid =>
    intro r hr
    rw [List.append_assoc, List.cons_append, cell_succ]
    refine ⟨geometry, _, hgeometry, ?_, rfl, contents_comma.mpr
      (number_leaves.mpr ⟨id, hid, rfl, hr⟩)⟩
    rintro _ ⟨⟩
    rfl
  | @split levels geometry first more bracket close hgeometry hbrackets _ _ hnonempty
      ihfirst ihmore =>
    intro r hr
    have hbracket : bracket = 91 ∨ bracket = 123 := hbrackets.imp And.left And.left
    have hclosing : closing bracket = close := by
      rcases hbrackets with ⟨rfl, rfl⟩ | ⟨rfl, rfl⟩ <;> rfl
    have hcomma : close ≠ 44 := by rcases hbrackets with ⟨-, rfl⟩ | ⟨-, rfl⟩ <;> decide
    have hdigit : isAsciiDigit close = false := by rcases hbrackets with ⟨-, rfl⟩ | ⟨-, rfl⟩ <;> rfl
    have hopen : isAsciiDigit bracket = false := by rcases hbracket with rfl | rfl <;> rfl
    have hlength := List.length_pos_iff.mpr hnonempty
    have htext : geometry ++ bracket :: (first ++ listed more ++ [close]) ++ r =
        geometry ++ bracket :: (first ++ (listed more ++ close :: r)) := by
      simp only [List.append_assoc, List.cons_append, List.nil_append]
    rw [htext, cell_succ]
    refine ⟨geometry, _, hgeometry, ?_, rfl, ?_⟩
    · rintro _ ⟨⟩
      exact hopen
    · rw [contents_bracket hbracket, andThen_leaves, hclosing]
      refine ⟨_, ihfirst _ ?_, siblings_complete ihmore hcomma hdigit (by omega)⟩
      -- there is another cell, and a comma before it
      cases more with
      | nil => exact absurd rfl hnonempty
      | cons text more =>
        rintro _ ⟨⟩
        rfl

/-- **Exactly the layouts are accepted.**  The recognizer ends for every text, and says yes if the
    text has 6 to 65536 bytes and is a layout of the grammar, with at most 128 levels below the
    root. -/
theorem validLayout_iff (s : String) : validLayout s = true ↔
    6 ≤ (bytes s).length ∧ (bytes s).length ≤ 65536 ∧ Layout (bytes s) := by
  unfold validLayout
  generalize bytes s = l
  have hroot : ∀ root : List UInt8, ((cell 129 root).any fun r => r.1.isEmpty) = true ↔
      Leaves (cell 129) root [] := by
    intro root
    unfold Leaves
    simp only [Option.any_eq_true, List.isEmpty_iff]
  dsimp only
  constructor
  -- what is accepted has four hex digits, a comma and a cell that reads to the end
  · intro h
    split at h
    · cases h
    · rename_i hchecks
      simp only [Bool.or_eq_true, decide_eq_true_eq, not_or, Nat.not_lt, bne_iff_ne, ne_eq,
        not_not, Bool.not_eq_true, Bool.not_eq_false', List.all_eq_true,
        Bool.and_eq_true] at hchecks
      obtain ⟨⟨⟨hmin, hmax⟩, hcomma⟩, hhex⟩ := hchecks
      obtain ⟨root, hcell, htext⟩ := cell_sound 128 ((hroot _).mp h)
      refine ⟨hmin, hmax, l.take 4, root, ?_, hhex, hcell, ?_⟩
      · rw [List.length_take]
        omega
      · obtain ⟨hlt, hget⟩ := List.getElem?_eq_some_iff.mp hcomma
        rw [List.append_nil] at htext
        calc l = l.take 4 ++ l.drop 4 := (List.take_append_drop 4 l).symm
          _ = l.take 4 ++ 44 :: root := by rw [List.drop_eq_getElem_cons hlt, hget, htext]
  -- the text of a layout passes every check, and its cell is read back
  · rintro ⟨hmin, hmax, checksum, root, hlength, hhex, hcell, rfl⟩
    have hcomma : (checksum ++ 44 :: root)[4]? = some 44 := by
      rw [List.getElem?_append_right (Nat.le_of_eq hlength), hlength]
      rfl
    have htake : (checksum ++ 44 :: root).take 4 = checksum := List.take_left' hlength
    have hdrop : (checksum ++ 44 :: root).drop 5 = root := by
      rw [List.drop_append, hlength, List.drop_eq_nil_of_le (by omega)]
      rfl
    have hread := cell_complete hcell [] nofun
    rw [List.append_nil] at hread
    rw [if_neg, hdrop]
    · exact (hroot root).mpr hread
    · simp only [Bool.or_eq_true, decide_eq_true_eq, not_or, Nat.not_lt, bne_iff_ne, ne_eq,
        not_not, Bool.not_eq_true, Bool.not_eq_false', List.all_eq_true, Bool.and_eq_true]
      rw [htake]
      exact ⟨⟨⟨hmin, hmax⟩, hcomma⟩, hhex⟩

end Hmux.Recovery
