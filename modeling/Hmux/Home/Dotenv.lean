import Hmux.Lib.StrLines
import Hmux.Lib.Text
import Hmux.Model.SafeText

namespace Hmux.Home

/-!
# The lines of `~/.gemini/.env`

`dotenv_value` and `set_dotenv` on the text of the file.  Both take a line apart in the same way
(`assignment`): a name, the first equals sign, a value, with `export ` before the name left out.

* `dotenvEdit_eq` — an edit keeps the lines of other names, and writes the new line at the first
  line of its name or at the end;
* `dotenvEdit_value`, `dotenvEdit_frame` — what is read after it;
* `dotenvEdit_again` — what the same edit writes once more.

The loop of the source goes through the lines once, writes the new line where the name occurs first
and drops the other lines of the name.  That is `upsertLine`, which has no state, and what is read
afterwards can be seen from it.
-/

open Lib
open Usage (isWhitespace trim trim_free trim_concat)

/-! ### Taking a line apart

A line without an equals sign is no assignment, and belongs to no name. -/

/-- `str::split_once` with a character. -/
def splitOnce (c : Char) : List Char → Option (List Char × List Char)
  | [] => none
  | d :: s => if d = c then some ([], s) else (splitOnce c s).map fun r => (d :: r.1, r.2)

/-- `str::strip_prefix`. -/
def stripStart (start s : List Char) : Option (List Char) :=
  if start.isPrefixOf s then some (s.drop start.length) else none

/-- A line's name and value, before they are trimmed. -/
def assignment (line : List Char) : Option (List Char × List Char) :=
  splitOnce '=' ((stripStart "export ".toList (trim line)).getD (trim line))

/-- What `trim_matches` takes away. -/
def isQuote (c : Char) : Bool := c = '"' || c = '\''

/-- `trim_matches` with the two quotes. -/
def trimQuotes (s : List Char) : List Char :=
  ((s.dropWhile isQuote).reverse.dropWhile isQuote).reverse

/-- The line is one of this name. -/
def isLineOf (name line : List Char) : Bool := (assignment line).any fun a => trim a.1 = name

/-- What `dotenv_value` finds in a line. -/
def assigned (key line : List Char) : Option (List Char) :=
  (assignment line).bind fun a => if trim a.1 = key then some (trimQuotes (trim a.2)) else none

/-- `dotenv_value` on the text of the file. -/
def dotenvText (key text : List Char) : List Char :=
  ((strLines text).findSome? (assigned key)).getD []

/-! ### The edit

The loop carries whether the name was found, and the lines it has written. -/

/-- What the loop of `set_dotenv` carries. -/
structure DotenvState where
  found : Bool
  lines : List (List Char)

/-- The line that is written. -/
def dotenvLine (name value : List Char) : List Char := name ++ '=' :: value

/-- One line of the loop. -/
def DotenvState.step (name value : List Char) (st : DotenvState) (line : List Char) : DotenvState :=
  if isLineOf name line then
    ⟨true, if !st.found && !value.isEmpty then st.lines ++ [dotenvLine name value] else st.lines⟩
  else ⟨st.found, st.lines ++ [line]⟩

/-- `set_dotenv` on the text of the file: the new text, if one is written. -/
def dotenvEdit (name value text : List Char) : Option (List Char) :=
  let st := (strLines text).foldl (DotenvState.step name value) ⟨false, []⟩
  let lines := if !st.found && !value.isEmpty then st.lines ++ [dotenvLine name value] else st.lines
  if st.found || !value.isEmpty then
    some (if lines.isEmpty then [] else List.intercalate ['\n'] lines ++ ['\n'])
  else none

/-! ### What the loop does

By induction on the lines, once with the name found before and once without. -/

section

variable {name value key line : List Char} {lines : List (List Char)}

/-- The lines of other names. -/
def otherLines (name : List Char) (lines : List (List Char)) : List (List Char) :=
  lines.filter fun line => !isLineOf name line

/-- The lines with a new one at the first line of its name, or at the end. -/
def upsertLine (name : List Char) (new : List Char) : List (List Char) → List (List Char)
  | [] => [new]
  | line :: lines =>
    if isLineOf name line then new :: otherLines name lines else line :: upsertLine name new lines

/-- What stands in the file after an edit. -/
def editedLines (name value : List Char) (lines : List (List Char)) : List (List Char) :=
  if value = [] then otherLines name lines else upsertLine name (dotenvLine name value) lines

/-- A line of the name is replaced when it is the first one, and left out otherwise. -/
theorem step_named {st : DotenvState} (h : isLineOf name line = true) :
    st.step name value line = ⟨true, if !st.found && !value.isEmpty then
      st.lines ++ [dotenvLine name value] else st.lines⟩ :=
  if_pos h

/-- A line of another name stays. -/
theorem step_other {st : DotenvState} (h : ¬ isLineOf name line = true) :
    st.step name value line = ⟨st.found, st.lines ++ [line]⟩ :=
  if_neg h

/-- A line of the name is none of the others. -/
theorem otherLines_named (h : isLineOf name line = true) :
    otherLines name (line :: lines) = otherLines name lines :=
  List.filter_cons_of_neg (by rw [h]; exact Bool.noConfusion)

/-- A line of another name is. -/
theorem otherLines_other (h : ¬ isLineOf name line = true) :
    otherLines name (line :: lines) = line :: otherLines name lines :=
  List.filter_cons_of_pos (by rw [Bool.eq_false_of_not_eq_true h]; rfl)

/-- An empty value leaves out every line of the name. -/
theorem foldl_removed (h : value = []) (st : DotenvState) :
    lines.foldl (DotenvState.step name value) st =
      ⟨st.found || lines.any (isLineOf name), st.lines ++ otherLines name lines⟩ := by
  induction lines generalizing st with
  | nil => simp [otherLines]
  | cons line lines ih =>
    rw [List.foldl_cons, ih]
    by_cases hline : isLineOf name line = true
    · rw [step_named hline, otherLines_named hline]
      simp [hline, h]
    · rw [step_other hline, otherLines_other hline]
      simp [hline]

/-- After the first line of the name the others are left out. -/
theorem foldl_found (st : DotenvState) (h : st.found = true) :
    lines.foldl (DotenvState.step name value) st = ⟨true, st.lines ++ otherLines name lines⟩ := by
  induction lines generalizing st with
  | nil =>
    obtain ⟨found, kept⟩ := st
    subst h
    simp [otherLines]
  | cons line lines ih =>
    rw [List.foldl_cons]
    by_cases hline : isLineOf name line = true
    · rw [step_named hline, ih _ rfl, otherLines_named hline]
      simp [h]
    · rw [step_other hline, ih ⟨st.found, st.lines ++ [line]⟩ h, otherLines_other hline]
      simp

/-- Before it the lines stay, and the new one takes its place. -/
theorem foldl_fresh (h : value ≠ []) (st : DotenvState) (hfound : st.found = false) :
    let st' := lines.foldl (DotenvState.step name value) st
    (if !st'.found && !value.isEmpty then st'.lines ++ [dotenvLine name value] else st'.lines) =
      st.lines ++ upsertLine name (dotenvLine name value) lines := by
  have hvalue : value.isEmpty = false := List.isEmpty_eq_false_iff.mpr h
  dsimp only
  induction lines generalizing st with
  | nil => simp [hfound, hvalue, upsertLine]
  | cons line lines ih =>
    rw [List.foldl_cons, upsertLine]
    by_cases hline : isLineOf name line = true
    · rw [step_named hline, foldl_found _ rfl, if_pos hline]
      simp [hfound, hvalue]
    · rw [step_other hline, ih ⟨st.found, st.lines ++ [line]⟩ hfound, if_neg hline]
      simp

/-- **What an edit writes.** -/
theorem dotenvEdit_eq (text : List Char) : dotenvEdit name value text =
    if value = [] ∧ (strLines text).any (isLineOf name) = false then none
    else some (unlines (editedLines name value (strLines text))) := by
  have hjoin : ∀ l : List (List Char),
      (if l.isEmpty then [] else List.intercalate ['\n'] l ++ ['\n']) = unlines l := by
    intro l
    cases l with
    | nil => rfl
    | cons line l => exact unlines_eq_join (List.cons_ne_nil _ _)
  unfold dotenvEdit editedLines
  dsimp only
  rw [hjoin]
  by_cases hvalue : value = []
  · rw [foldl_removed hvalue]
    subst hvalue
    cases (strLines text).any (isLineOf name) <;> simp
  · rw [foldl_fresh hvalue ⟨false, []⟩ rfl]
    have hempty : value.isEmpty = false := List.isEmpty_eq_false_iff.mpr hvalue
    have hcond : ¬ (value = [] ∧ (strLines text).any (isLineOf name) = false) := fun h => hvalue h.1
    rw [if_neg hcond, if_neg hvalue, hempty, Bool.not_false, Bool.or_true, if_pos rfl,
      List.nil_append]

/-! ### Reading after an edit

The line that is written is read as the name and the value, provided that neither has a character
that the reader would take away. -/

/-- A name that stands in a line as it is. -/
def PlainName (name : List Char) : Prop := ∀ c ∈ name, isWhitespace c = false ∧ c ≠ '='

/-- A value that is read as it is written. -/
def PlainValue (value : List Char) : Prop := ∀ c ∈ value, isWhitespace c = false ∧ isQuote c = false

/-- A text without quotes. -/
theorem trimQuotes_free {s : List Char} (h : ∀ c ∈ s, isQuote c = false) : trimQuotes s = s := by
  have hdrop : ∀ l : List Char, (∀ c ∈ l, isQuote c = false) → l.dropWhile isQuote = l := by
    intro l hl
    cases l with
    | nil => rfl
    | cons c l =>
      rw [List.dropWhile_cons_of_neg (by rw [hl c List.mem_cons_self]; exact Bool.noConfusion)]
  unfold trimQuotes
  rw [hdrop s h, hdrop _ fun c hc => h c (List.mem_reverse.mp hc), List.reverse_reverse]

/-- A text is split at the first separator. -/
theorem splitOnce_append {c : Char} {s t : List Char} (h : c ∉ s) :
    splitOnce c (s ++ c :: t) = some (s, t) := by
  induction s with
  | nil => exact if_pos rfl
  | cons d s ih =>
    rw [List.mem_cons, not_or] at h
    rw [List.cons_append, splitOnce, if_neg (Ne.symm h.1), ih h.2]
    rfl

/-- The new line has no white space. -/
theorem dotenvLine_free (hname : PlainName name) (hvalue : PlainValue value) :
    ∀ c ∈ dotenvLine name value, isWhitespace c = false := by
  intro c hc
  rcases List.mem_append.mp hc with hc | hc
  · exact (hname c hc).1
  · rcases List.mem_cons.mp hc with rfl | hc
    · decide
    · exact (hvalue c hc).1

/-- The new line is taken apart into what it was made of. -/
theorem assignment_dotenvLine (hname : PlainName name) (hvalue : PlainValue value) :
    assignment (dotenvLine name value) = some (name, value) := by
  have hfree := dotenvLine_free hname hvalue
  -- there is no blank in the line, so it does not start with `export `
  have hstart : stripStart "export ".toList (dotenvLine name value) = none := by
    refine if_neg fun hprefix => ?_
    have hblank := (List.isPrefixOf_iff_prefix.mp hprefix).subset
      (by decide : ' ' ∈ "export ".toList)
    exact absurd (hfree ' ' hblank) (by decide)
  unfold assignment
  rw [trim_free hfree, hstart, Option.getD_none]
  exact splitOnce_append fun hmem => (hname '=' hmem).2 rfl

/-- The new line is one of its name. -/
theorem isLineOf_dotenvLine (hname : PlainName name) (hvalue : PlainValue value) :
    isLineOf name (dotenvLine name value) = true := by
  unfold isLineOf
  rw [assignment_dotenvLine hname hvalue]
  exact decide_eq_true (trim_free fun c hc => (hname c hc).1)

/-- The new line has its value. -/
theorem assigned_dotenvLine (hname : PlainName name) (hvalue : PlainValue value) :
    assigned name (dotenvLine name value) = some value := by
  unfold assigned
  rw [assignment_dotenvLine hname hvalue, Option.bind_some]
  dsimp only
  rw [if_pos (trim_free fun c hc => (hname c hc).1), trim_free fun c hc => (hvalue c hc).1,
    trimQuotes_free fun c hc => (hvalue c hc).2]

/-- A line of one name says nothing about another. -/
theorem assigned_named (h : isLineOf name line = true) (hkey : key ≠ name) :
    assigned key line = none := by
  unfold isLineOf at h
  unfold assigned
  cases hline : assignment line with
  | none => rfl
  | some a =>
    rw [hline, Option.any_some, decide_eq_true_iff] at h
    rw [Option.bind_some, if_neg (h ▸ Ne.symm hkey)]

/-- A line of another name says nothing about this one. -/
theorem assigned_other (h : ¬ isLineOf name line = true) : assigned name line = none := by
  unfold isLineOf at h
  unfold assigned
  cases hline : assignment line with
  | none => rfl
  | some a =>
    rw [hline, Option.any_some, decide_eq_true_iff] at h
    rw [Option.bind_some, if_neg h]

/-- What is read for other names does not change without the lines of a name. -/
theorem findSome?_otherLines (hkey : key ≠ name) :
    (otherLines name lines).findSome? (assigned key) = lines.findSome? (assigned key) := by
  induction lines with
  | nil => rfl
  | cons line lines ih =>
    by_cases hline : isLineOf name line = true
    · rw [otherLines_named hline, List.findSome?_cons, assigned_named hline hkey, ih]
    · rw [otherLines_other hline, List.findSome?_cons, List.findSome?_cons, ih]

/-- Nothing is read for a name whose lines are gone. -/
theorem findSome?_otherLines_self : (otherLines name lines).findSome? (assigned name) = none := by
  rw [List.findSome?_eq_none_iff]
  intro line hline
  apply assigned_other
  have hother := List.of_mem_filter hline
  rw [Bool.not_eq_true'] at hother
  rw [hother]
  exact Bool.noConfusion

/-- What is read for other names does not change with a new line. -/
theorem findSome?_upsertLine {new : List Char} (hkey : key ≠ name)
    (hnew : isLineOf name new = true) :
    (upsertLine name new lines).findSome? (assigned key) = lines.findSome? (assigned key) := by
  induction lines with
  | nil => rw [upsertLine, List.findSome?_cons, assigned_named hnew hkey]
  | cons line lines ih =>
    rw [upsertLine]
    split
    · next hline =>
      rw [List.findSome?_cons, assigned_named hnew hkey, List.findSome?_cons,
        assigned_named hline hkey]
      exact findSome?_otherLines hkey
    · rw [List.findSome?_cons, List.findSome?_cons, ih]

/-- For the name of the new line its value is read. -/
theorem findSome?_upsertLine_self {new : List Char} (hnew : assigned name new = some value) :
    (upsertLine name new lines).findSome? (assigned name) = some value := by
  induction lines with
  | nil => rw [upsertLine, List.findSome?_cons, hnew]
  | cons line lines ih =>
    rw [upsertLine]
    split
    · rw [List.findSome?_cons, hnew]
    · next hline => rw [List.findSome?_cons, assigned_other hline, ih]

/-! ### Carriage returns

`str::lines` takes one carriage return off a line, which changes neither its name nor the value
that is read. -/

/-- A carriage return at the end of a line is trimmed away. -/
theorem trim_withoutReturn (line : List Char) : trim (withoutReturn line) = trim line := by
  unfold withoutReturn
  split
  · next hlast =>
    obtain ⟨front, rfl⟩ := List.getLast?_eq_some_iff.mp hlast
    rw [List.dropLast_concat, trim_concat (by decide)]
  · rfl

/-- A carriage return makes no difference for what a line assigns. -/
theorem assignment_withoutReturn (line : List Char) :
    assignment (withoutReturn line) = assignment line := by
  unfold assignment
  rw [trim_withoutReturn]

/-- A carriage return makes no difference for whose line it is. -/
theorem isLineOf_withoutReturn (name line : List Char) :
    isLineOf name (withoutReturn line) = isLineOf name line := by
  unfold isLineOf
  rw [assignment_withoutReturn]

/-- Carriage returns make no difference for what is read. -/
theorem findSome?_withoutReturn (key : List Char) (lines : List (List Char)) :
    (lines.map withoutReturn).findSome? (assigned key) = lines.findSome? (assigned key) := by
  rw [List.findSome?_map]
  congr 1
  funext line
  show assigned key (withoutReturn line) = assigned key line
  unfold assigned
  rw [assignment_withoutReturn]

/-- The new line has none. -/
theorem withoutReturn_dotenvLine (hname : PlainName name) (hvalue : PlainValue value) :
    withoutReturn (dotenvLine name value) = dotenvLine name value :=
  withoutReturn_of_free fun hmem =>
    absurd (dotenvLine_free hname hvalue '\r' hmem) (by decide)

/-! ### What an edit leaves

The value of the name, the values of the others, and the text when the edit is made again. -/

/-- Lines without line feeds stay such lines. -/
theorem otherLines_free (h : ∀ line ∈ lines, '\n' ∉ line) :
    ∀ line ∈ otherLines name lines, '\n' ∉ line :=
  fun line hline => h line (List.mem_of_mem_filter hline)

/-- Lines without line feeds stay such lines after the edit. -/
theorem editedLines_free (hname : PlainName name) (hvalue : PlainValue value)
    (h : ∀ line ∈ lines, '\n' ∉ line) : ∀ line ∈ editedLines name value lines, '\n' ∉ line := by
  have hnew : '\n' ∉ dotenvLine name value := fun hmem =>
    absurd (dotenvLine_free hname hvalue '\n' hmem) (by decide)
  have hupsert : ∀ line ∈ upsertLine name (dotenvLine name value) lines, '\n' ∉ line := by
    induction lines with
    | nil =>
      intro line hline
      rw [List.mem_singleton.mp hline]
      exact hnew
    | cons l lines ih =>
      have hrest : ∀ line ∈ lines, '\n' ∉ line := fun line hline =>
        h line (List.mem_cons_of_mem _ hline)
      intro line hline
      rw [upsertLine] at hline
      split at hline
      · rcases List.mem_cons.mp hline with rfl | hline
        · exact hnew
        · exact otherLines_free hrest line hline
      · rcases List.mem_cons.mp hline with rfl | hline
        · exact h line List.mem_cons_self
        · exact ih hrest line hline
  unfold editedLines
  split
  · exact otherLines_free h
  · exact hupsert

/-- The lines of the new text. -/
theorem strLines_edited (hname : PlainName name) (hvalue : PlainValue value) (text : List Char) :
    strLines (unlines (editedLines name value (strLines text))) =
      (editedLines name value (strLines text)).map withoutReturn :=
  strLines_unlines (editedLines_free hname hvalue (strLines_free text))

/-- **The new value is read**, and nothing after a removal. -/
theorem dotenvEdit_value (hname : PlainName name) (hvalue : PlainValue value) (text : List Char) :
    dotenvText name (unlines (editedLines name value (strLines text))) = value := by
  unfold dotenvText
  rw [strLines_edited hname hvalue, findSome?_withoutReturn]
  unfold editedLines
  split
  · next hempty => rw [findSome?_otherLines_self, Option.getD_none, hempty]
  · rw [findSome?_upsertLine_self (assigned_dotenvLine hname hvalue), Option.getD_some]

/-- **Other names** have the values they had. -/
theorem dotenvEdit_frame (hname : PlainName name) (hvalue : PlainValue value) (hkey : key ≠ name)
    (text : List Char) :
    dotenvText key (unlines (editedLines name value (strLines text))) = dotenvText key text := by
  unfold dotenvText
  rw [strLines_edited hname hvalue, findSome?_withoutReturn]
  unfold editedLines
  split
  · rw [findSome?_otherLines hkey]
  · rw [findSome?_upsertLine hkey (isLineOf_dotenvLine hname hvalue)]

/-- Nothing is written where the name does not occur. -/
theorem dotenvText_absent {text : List Char} (h : (strLines text).any (isLineOf name) = false) :
    dotenvText name text = [] := by
  have hnone : (strLines text).findSome? (assigned name) = none := by
    rw [List.findSome?_eq_none_iff]
    intro line hline
    exact assigned_other (List.any_eq_false.mp h line hline)
  unfold dotenvText
  rw [hnone, Option.getD_none]

/-- None of the others is a line of the name. -/
theorem any_otherLines : (otherLines name lines).any (isLineOf name) = false := by
  rw [List.any_eq_false]
  intro line hline
  have hother := List.of_mem_filter hline
  rw [Bool.not_eq_true'] at hother
  rw [hother]
  exact Bool.noConfusion

/-- Leaving lines out twice is leaving them out once. -/
theorem otherLines_otherLines :
    otherLines name (otherLines name lines) = otherLines name lines := by
  unfold otherLines
  rw [List.filter_filter]
  simp

/-- The lines of a name may go before or after carriage returns are cut off. -/
theorem otherLines_map : otherLines name (lines.map withoutReturn) =
    (otherLines name lines).map withoutReturn := by
  unfold otherLines
  rw [List.filter_map]
  congr 1
  apply List.filter_congr
  intro line _
  show (!isLineOf name (withoutReturn line)) = _
  rw [isLineOf_withoutReturn]

/-- A line may be set before or after carriage returns are cut off. -/
theorem upsertLine_map {new : List Char} (hnew : withoutReturn new = new) :
    upsertLine name new (lines.map withoutReturn) =
      (upsertLine name new lines).map withoutReturn := by
  induction lines with
  | nil => rw [List.map_nil, upsertLine, List.map_singleton, hnew]
  | cons line lines ih =>
    rw [List.map_cons, upsertLine, upsertLine, isLineOf_withoutReturn, ih, otherLines_map]
    split
    · rw [List.map_cons, hnew]
    · rw [List.map_cons]

/-- Doing the edit twice is doing it once. -/
theorem upsertLine_upsertLine {new : List Char} (hnew : isLineOf name new = true) :
    upsertLine name new (upsertLine name new lines) = upsertLine name new lines := by
  induction lines with
  | nil => simp [upsertLine, hnew, otherLines]
  | cons line lines ih =>
    by_cases hline : isLineOf name line = true
    · rw [upsertLine, if_pos hline, upsertLine, if_pos hnew, otherLines_otherLines]
    · rw [upsertLine, if_neg hline, upsertLine, if_neg hline, ih]

/-- **The same edit again** writes the lines it wrote, as they are read. -/
theorem dotenvEdit_again (hname : PlainName name) (hvalue : PlainValue value) (text : List Char) :
    dotenvEdit name value (unlines (editedLines name value (strLines text))) =
      if value = [] then none
      else some (unlines ((editedLines name value (strLines text)).map withoutReturn)) := by
  rw [dotenvEdit_eq, strLines_edited hname hvalue]
  by_cases hempty : value = []
  · have habsent :
      ((editedLines name value (strLines text)).map withoutReturn).any (isLineOf name) =
        false := by
      unfold editedLines
      rw [if_pos hempty, ← otherLines_map]
      exact any_otherLines
    rw [if_pos ⟨hempty, habsent⟩, if_pos hempty]
  · have hedited :
      editedLines name value ((editedLines name value (strLines text)).map withoutReturn) =
        (editedLines name value (strLines text)).map withoutReturn := by
      unfold editedLines
      rw [if_neg hempty, if_neg hempty, upsertLine_map (withoutReturn_dotenvLine hname hvalue),
        upsertLine_upsertLine (isLineOf_dotenvLine hname hvalue)]
    rw [if_neg fun h => hempty h.1, if_neg hempty, hedited]

end

end Hmux.Home
