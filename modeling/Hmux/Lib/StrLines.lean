import Mathlib.Data.List.Infix
import Hmux.Lib.Lines

namespace Hmux.Lib

/-!
# The lines of a text and the text of lines

`strLines` is `str::lines`: a text is cut at its line feeds, one carriage return before a line feed
goes with it, and an empty end is no line.  `unlines` writes lines, each with a line feed.

* `strLines_unlines` — the lines come back, without a carriage return at their end;
* `unlines_eq_join` — joining with line feeds and adding one more is the same;
* `unlines_map_withoutReturn` — writing the lines that came back again changes nothing where no
  carriage return stands before a line feed.
-/

/-- A line without one carriage return at its end. -/
def withoutReturn (line : List Char) : List Char :=
  if line.getLast? = some '\r' then line.dropLast else line

/-- `str::lines`. -/
def strLines (text : List Char) : List (List Char) :=
  (Lines.lines '\n' text).map withoutReturn ++
    (if Lines.unfinished '\n' text = [] then [] else [Lines.unfinished '\n' text])

/-- Every line with its line feed. -/
def unlines (lines : List (List Char)) : List Char := lines.flatMap fun line => line ++ ['\n']

variable {lines : List (List Char)} {text line : List Char}

theorem unlines_concat : unlines (lines ++ [line]) = unlines lines ++ (line ++ ['\n']) := by
  unfold unlines
  rw [List.flatMap_append, List.flatMap_singleton]

/-- Lines joined by line feeds, and one at the end. -/
theorem unlines_eq_join (h : lines ≠ []) :
    List.intercalate ['\n'] lines ++ ['\n'] = unlines lines := by
  induction lines with
  | nil => exact absurd rfl h
  | cons line lines ih =>
    cases lines with
    | nil => simp [unlines, List.intercalate]
    | cons next lines =>
      have ih := ih (List.cons_ne_nil _ _)
      have hjoin : List.intercalate ['\n'] (line :: next :: lines) =
          line ++ ['\n'] ++ List.intercalate ['\n'] (next :: lines) := by
        simp [List.intercalate]
      rw [hjoin, List.append_assoc, ih]
      rfl

/-! ### Reading back

A line without a line feed and without a carriage return at its end is read back as it was written.
-/

theorem split_append_free (h : '\n' ∉ line) :
    Lines.split '\n' (text ++ line) =
      ((Lines.split '\n' text).1, (Lines.split '\n' text).2 ++ line) := by
  induction line using List.reverseRecOn with
  | nil => rw [List.append_nil, List.append_nil]
  | append_singleton line c ih =>
    rw [List.mem_append, not_or, List.mem_singleton] at h
    rw [← List.append_assoc, Lines.split_concat, ih h.1, Lines.add, if_neg (Ne.symm h.2)]
    simp

theorem split_unlines (h : ∀ line ∈ lines, '\n' ∉ line) :
    Lines.split '\n' (unlines lines) = (lines, []) := by
  induction lines using List.reverseRecOn with
  | nil => rfl
  | append_singleton lines line ih =>
    have hline := h line (List.mem_append_right _ (List.mem_singleton_self _))
    rw [unlines_concat, ← List.append_assoc, Lines.split_concat, split_append_free hline,
      ih fun l hl => h l (List.mem_append_left _ hl)]
    unfold Lines.add
    rw [if_pos rfl, List.nil_append]

/-- **The lines come back.** -/
theorem strLines_unlines (h : ∀ line ∈ lines, '\n' ∉ line) :
    strLines (unlines lines) = lines.map withoutReturn := by
  unfold strLines Lines.lines Lines.unfinished
  rw [split_unlines h, if_pos rfl, List.append_nil]

theorem split_free (text : List Char) :
    (∀ line ∈ Lines.lines '\n' text, '\n' ∉ line) ∧ '\n' ∉ Lines.unfinished '\n' text := by
  induction text using List.reverseRecOn with
  | nil => exact ⟨nofun, nofun⟩
  | append_singleton text c ih =>
    by_cases hc : c = '\n'
    · subst hc
      rw [Lines.lines_concat_sep, Lines.unfinished_concat_sep]
      refine ⟨fun line hline => ?_, nofun⟩
      rcases List.mem_append.mp hline with hline | hline
      · exact ih.1 line hline
      · rw [List.mem_singleton.mp hline]
        exact ih.2
    · rw [Lines.lines_concat hc, Lines.unfinished_concat hc]
      refine ⟨ih.1, fun hmem => ?_⟩
      rcases List.mem_append.mp hmem with hmem | hmem
      · exact ih.2 hmem
      · exact hc (List.mem_singleton.mp hmem).symm

theorem mem_withoutReturn {c : Char} (h : c ∈ withoutReturn line) : c ∈ line := by
  unfold withoutReturn at h
  split at h
  · exact List.mem_of_mem_dropLast h
  · exact h

/-- No line has a line feed. -/
theorem strLines_free (text : List Char) : ∀ line ∈ strLines text, '\n' ∉ line := by
  obtain ⟨hlines, hunfinished⟩ := split_free text
  intro line hline hmem
  unfold strLines at hline
  rcases List.mem_append.mp hline with hline | hline
  · obtain ⟨raw, hraw, rfl⟩ := List.mem_map.mp hline
    exact hlines raw hraw (mem_withoutReturn hmem)
  · split at hline
    · cases hline
    · rw [List.mem_singleton.mp hline] at hmem
      exact hunfinished hmem

/-! ### Carriage returns

A line that ends in a carriage return loses it when it is read, so writing the lines again gives
another text exactly where there was one. -/

theorem withoutReturn_of_free (h : '\r' ∉ line) : withoutReturn line = line := by
  unfold withoutReturn
  rw [if_neg fun hlast => h (List.mem_of_getLast? hlast)]

theorem withoutReturn_eq_self_iff : withoutReturn line = line ↔ ¬ ['\r'] <:+ line := by
  unfold withoutReturn
  constructor
  · intro h hsuffix
    obtain ⟨front, rfl⟩ := hsuffix
    rw [List.getLast?_concat, if_pos rfl, List.dropLast_concat] at h
    have hlength := congrArg List.length h
    rw [List.length_append, List.length_singleton] at hlength
    omega
  · intro h
    refine if_neg fun hlast => h ?_
    obtain ⟨front, hfront⟩ := List.getLast?_eq_some_iff.mp hlast
    exact ⟨front, hfront.symm⟩

/-- **Lines written again** are the same text where no carriage return stands before a line feed. -/
theorem unlines_map_withoutReturn (h : ¬ ['\r', '\n'] <:+: unlines lines) :
    unlines (lines.map withoutReturn) = unlines lines := by
  have hmap : lines.map withoutReturn = lines := by
    refine (List.map_congr_left fun line hline => ?_).trans (List.map_id lines)
    show withoutReturn line = line
    rw [withoutReturn_eq_self_iff]
    rintro ⟨front, hfront⟩
    obtain ⟨before, after, rfl⟩ := List.append_of_mem hline
    refine h ⟨unlines before ++ front, unlines after, ?_⟩
    unfold unlines
    rw [List.flatMap_append, List.flatMap_cons, ← hfront]
    simp
  rw [hmap]

end Hmux.Lib
