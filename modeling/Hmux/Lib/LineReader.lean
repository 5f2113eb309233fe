import Mathlib.Data.List.Induction
import Mathlib.Tactic.Common

namespace Hmux.Lib

/-!
# Reading lines from a place of a text

A reader takes the symbols of a text one by one, from some place on, and hands out what stands
before each separator with the place where it starts.  It leaves out what is empty or longer than a
limit, and it may skip what stands before the first separator.

* `LineReader.read_append_sep` — at a separator a reader is as good as new;
* `LineReader.read_resume` — **reading in parts**: what is read from the last separator on, when the
  text has grown, is what reading at once hands out next;
* `LineReader.visited_segment` — what is handed out stands in the text between separators;
* `LineReader.visited_ordered` — in the order of the text.

A reader keeps the line it is in, whether it skips or has passed the limit, where it stands, where
the last separator was, and the lines it has handed out.  Reading a text is a fold over its
symbols.  The two facts that matter to a caller who reads a file again and again, with the file
growing in between, are that the place after the last separator is enough to go on from, and that
nothing is handed out twice or left out.
-/

/-- A reader of lines. -/
structure LineReader (α : Type) where
  line : List α
  skip : Bool
  oversized : Bool
  position : ℕ
  complete : ℕ
  visited : List (List α × ℕ)

namespace LineReader

variable {α : Type} [DecidableEq α] {sep : α} {limit start : ℕ} {skip : Bool} {b : α}
  {r : LineReader α} {xs ys done rest : List α}

/-- A reader at a place of a text. -/
def init (start : ℕ) (skip : Bool) : LineReader α := ⟨[], skip, false, start, start, []⟩

/-- One more symbol. -/
def add (sep : α) (limit : ℕ) (r : LineReader α) (b : α) : LineReader α :=
  if b = sep then
    { line := [], skip := false, oversized := false, position := r.position + 1,
      complete := r.position + 1,
      visited := if r.skip || r.oversized || r.line.isEmpty then r.visited
        else r.visited ++ [(r.line, r.position - r.line.length)] }
  else if r.skip || r.oversized then { r with position := r.position + 1 }
  else if r.line.length = limit then
    { r with line := [], oversized := true, position := r.position + 1 }
  else { r with line := r.line ++ [b], position := r.position + 1 }

/-- The symbols of a text. -/
def read (sep : α) (limit : ℕ) (r : LineReader α) (xs : List α) : LineReader α :=
  xs.foldl (add sep limit) r

/-- A reader that has handed out these lines before. -/
def after (lines : List (List α × ℕ)) (r : LineReader α) : LineReader α :=
  { r with visited := lines ++ r.visited }

/-- Reading goes on where it stopped. -/
theorem read_append : read sep limit r (xs ++ ys) = read sep limit (read sep limit r xs) ys :=
  List.foldl_append

/-- Reading goes on one element at a time. -/
theorem read_concat : read sep limit r (xs ++ [b]) = add sep limit (read sep limit r xs) b := by
  rw [read_append]
  rfl

/-! ### What was handed out before

Lines that were handed out do not influence what follows, so they can be put back in front at the
end. -/

/-- What was visited before makes no difference to what is read next. -/
theorem add_after (lines : List (List α × ℕ)) :
    add sep limit (after lines r) b = after lines (add sep limit r b) := by
  unfold add after
  split
  · dsimp only
    split
    · rfl
    · rw [List.append_assoc]
  · dsimp only
    split
    · rfl
    · split <;> rfl

/-- What was visited before makes no difference to all that is read next. -/
theorem read_after (lines : List (List α × ℕ)) :
    read sep limit (after lines r) xs = after lines (read sep limit r xs) := by
  induction xs generalizing r with
  | nil => rfl
  | cons b xs ih =>
    show read sep limit (add sep limit (after lines r) b) xs = _
    rw [add_after, ih]
    rfl

/-! ### Separators

A text is cut behind its last separator.  What comes after the cut has no separator in it, so
reading it hands out nothing and only fills the line that is unfinished. -/

/-- **At a separator** a reader is as good as new. -/
theorem read_append_sep : read sep limit r (xs ++ [sep]) =
    after (read sep limit r (xs ++ [sep])).visited
      (init ((read sep limit r xs).position + 1) false) := by
  rw [read_concat]
  unfold add
  rw [if_pos rfl]
  simp only [after, init, List.append_nil]

/-- The position counts what was read. -/
theorem position_read : (read sep limit r xs).position = r.position + xs.length := by
  induction xs generalizing r with
  | nil => rfl
  | cons b xs ih =>
    have hadd : (add sep limit r b).position = r.position + 1 := by
      unfold add
      split
      · rfl
      · split
        · rfl
        · split <;> rfl
    show (read sep limit (add sep limit r b) xs).position = _
    rw [ih, hadd, List.length_cons]
    omega

/-- What comes after the last separator. -/
theorem read_free (h : sep ∉ rest) : read sep limit (init start skip) rest =
    { line := if skip = true ∨ limit < rest.length then [] else rest
      skip
      oversized := !skip && decide (limit < rest.length)
      position := start + rest.length
      complete := start
      visited := [] } := by
  induction rest using List.reverseRecOn with
  | nil =>
    cases skip <;> rfl
  | append_singleton rest b ih =>
    rw [List.mem_append, not_or, List.mem_singleton] at h
    rw [read_concat, ih h.1]
    unfold add
    rw [if_neg (Ne.symm h.2), List.length_append, List.length_singleton]
    cases skip with
    | true => simp; omega
    | false =>
      by_cases hlong : limit < rest.length
      · have hlonger : limit < rest.length + 1 := by omega
        simp [hlong, hlonger]
        omega
      · by_cases hfull : rest.length = limit
        · simp [hfull]
          omega
        · have hroom : ¬ limit < rest.length + 1 := by omega
          simp [hlong, hfull, hroom]
          omega

/-- A text up to its last separator, and what comes after it. -/
def Cut (sep : α) (done rest : List α) : Prop :=
  (done = [] ∨ ∃ before, done = before ++ [sep]) ∧ sep ∉ rest

/-- Every text can be cut after its last separator. -/
theorem exists_cut (sep : α) (xs : List α) :
    ∃ done rest, xs = done ++ rest ∧ Cut sep done rest := by
  induction xs using List.reverseRecOn with
  | nil => exact ⟨[], [], rfl, .inl rfl, List.not_mem_nil⟩
  | append_singleton xs b ih =>
    by_cases hb : b = sep
    · exact ⟨xs ++ [b], [], (List.append_nil _).symm, .inr ⟨xs, by rw [hb]⟩, List.not_mem_nil⟩
    · obtain ⟨done, rest, rfl, hdone, hrest⟩ := ih
      refine ⟨done, rest ++ [b], List.append_assoc _ _ _, hdone, ?_⟩
      rw [List.mem_append, not_or, List.mem_singleton]
      exact ⟨hrest, Ne.symm hb⟩

/-- A reader is where the last separator left it. -/
theorem read_cut (hdone : done = [] ∨ ∃ before, done = before ++ [sep]) :
    read sep limit (init start skip) (done ++ rest) =
      after (read sep limit (init start skip) done).visited
        (read sep limit (init (start + done.length) (skip && done.isEmpty)) rest) := by
  rcases hdone with rfl | ⟨before, rfl⟩
  · rw [List.isEmpty_nil, Bool.and_true]
    rfl
  · have hempty : (before ++ [sep]).isEmpty = false := by
      cases before <;> rfl
    have hposition : (read sep limit (init start skip) before).position + 1 =
        start + (before ++ [sep]).length := by
      rw [position_read, List.length_append, List.length_singleton]
      exact Nat.add_assoc _ _ _
    rw [read_append, read_append_sep, read_after, hposition, hempty, Bool.and_false]
    simp only [after, init, List.append_nil]

/-- The lines end at the cut. -/
theorem complete_cut (h : Cut sep done rest) :
    (read sep limit (init start skip) (done ++ rest)).complete = start + done.length := by
  rw [read_cut h.1, read_free h.2]
  rfl

/-- What comes after it completes no line. -/
theorem visited_cut (h : Cut sep done rest) :
    (read sep limit (init start skip) (done ++ rest)).visited =
      (read sep limit (init start skip) done).visited := by
  rw [read_cut h.1, read_free h.2]
  exact List.append_nil _

/-- A rest that is skipped ends at the first separator. -/
theorem skip_cut (h : Cut sep done rest) :
    (read sep limit (init start skip) (done ++ rest)).skip = (skip && done.isEmpty) := by
  rw [read_cut h.1, read_free h.2]
  rfl

/-- **Reading in parts.**  A reader that goes on from where the last separator was, once the text
    has grown, ends where a reader of the whole text ends, and hands out what that hands out after
    the first part. -/
theorem read_resume : read sep limit (init start false) (xs ++ ys) =
    after (read sep limit (init start false) xs).visited
      (read sep limit (init (read sep limit (init start false) xs).complete false)
        ((xs ++ ys).drop ((read sep limit (init start false) xs).complete - start))) := by
  obtain ⟨done, rest, rfl, hcut⟩ := exists_cut sep xs
  rw [complete_cut hcut, visited_cut hcut, List.append_assoc, read_cut hcut.1, Bool.false_and,
    Nat.add_sub_cancel_left, List.drop_left]

/-- Every separator is passed. -/
theorem le_complete {n : ℕ} (h : xs[n]? = some sep) :
    start + n + 1 ≤ (read sep limit (init start skip) xs).complete := by
  obtain ⟨done, rest, rfl, hcut⟩ := exists_cut sep xs
  rw [complete_cut hcut]
  by_contra hlate
  rw [List.getElem?_append_right (by omega)] at h
  exact hcut.2 (List.mem_of_getElem? h)

theorem start_le_complete : start ≤ (read sep limit (init start skip) xs).complete := by
  obtain ⟨done, rest, rfl, hcut⟩ := exists_cut sep xs
  rw [complete_cut hcut]
  exact Nat.le_add_right _ _

theorem complete_le_position :
    (read sep limit (init start skip) xs).complete ≤ start + xs.length := by
  obtain ⟨done, rest, rfl, hcut⟩ := exists_cut sep xs
  rw [complete_cut hcut, List.length_append]
  omega

/-! ### What is handed out

Every line that is handed out is a segment of the text, and every segment that is neither empty nor
too long is handed out when nothing is skipped. -/

/-- A segment of a text between separators, or from its start on. -/
structure Segment (sep : α) (limit start : ℕ) (skip : Bool) (xs : List α) (line : List α)
    (position : ℕ) : Prop where
  stands : ∃ before after, xs = before ++ line ++ sep :: after ∧ position = start + before.length ∧
    (before = [] ∧ skip = false ∨ ∃ earlier, before = earlier ++ [sep])
  free : sep ∉ line
  short : line.length ≤ limit
  nonempty : line ≠ []

omit [DecidableEq α] in
theorem Segment.append {line : List α} {position : ℕ}
    (h : Segment sep limit start skip xs line position) (ys : List α) :
    Segment sep limit start skip (xs ++ ys) line position := by
  obtain ⟨before, after, rfl, hposition, hstart⟩ := h.stands
  exact ⟨⟨before, after ++ ys, by simp, hposition, hstart⟩, h.free, h.short, h.nonempty⟩

/-- What a separator adds. -/
theorem visited_concat_sep (h : Cut sep done rest) :
    (read sep limit (init start skip) (done ++ rest ++ [sep])).visited =
      (read sep limit (init start skip) (done ++ rest)).visited ++
        if (skip && done.isEmpty) = true ∨ limit < rest.length ∨ rest = [] then []
        else [(rest, start + done.length)] := by
  rw [read_concat]
  unfold add
  rw [if_pos rfl, read_cut h.1, read_free h.2]
  generalize hskip : (skip && done.isEmpty) = skipped
  generalize (read sep limit (init start skip) done).visited = lines
  simp only [after, List.append_nil]
  cases skipped with
  | true => simp
  | false =>
    by_cases hlong : limit < rest.length
    · simp [hlong]
    · cases rest with
      | nil => simp
      | cons b rest =>
        have hshort : ¬ limit < rest.length + 1 := hlong
        simp [hshort]

/-- **What is handed out** stands in the text. -/
theorem visited_segment {line : List α} {position : ℕ}
    (h : (line, position) ∈ (read sep limit (init start skip) xs).visited) :
    Segment sep limit start skip xs line position := by
  induction xs using List.reverseRecOn with
  | nil => cases h
  | append_singleton xs b ih =>
    obtain ⟨done, rest, rfl, hcut⟩ := exists_cut sep xs
    by_cases hb : b = sep
    · subst hb
      rw [visited_concat_sep hcut, List.mem_append] at h
      rcases h with hbefore | hnew
      · exact (ih hbefore).append _
      · split at hnew
        · cases hnew
        · next hshort =>
          rw [not_or, not_or, Nat.not_lt] at hshort
          obtain ⟨hskip, hlength, hsome⟩ := hshort
          cases List.mem_singleton.mp hnew
          refine ⟨⟨done, [], rfl, rfl, ?_⟩, hcut.2, hlength, hsome⟩
          rcases hcut.1 with rfl | hends
          · left
            rw [List.isEmpty_nil, Bool.and_true, Bool.not_eq_true] at hskip
            exact ⟨rfl, hskip⟩
          · exact .inr hends
    · have hfree : Cut sep done (rest ++ [b]) := by
        refine ⟨hcut.1, ?_⟩
        rw [List.mem_append, not_or, List.mem_singleton]
        exact ⟨hcut.2, Ne.symm hb⟩
      rw [List.append_assoc, visited_cut hfree, ← visited_cut hcut] at h
      exact (ih h).append _

theorem visited_prefix : r.visited <+: (read sep limit r xs).visited := by
  have hbefore : after r.visited { r with visited := [] } = r := by
    simp only [after, List.append_nil]
  have hread : read sep limit _ xs = _ := read_after (r := { r with visited := [] }) r.visited
  rw [hbefore] at hread
  rw [hread]
  exact List.prefix_append _ _

/-- **What stands in the text** is handed out. -/
theorem Segment.visited {line : List α} {position : ℕ}
    (h : Segment sep limit start skip xs line position) :
    (line, position) ∈ (read sep limit (init start skip) xs).visited := by
  obtain ⟨before, rest, rfl, rfl, hstart⟩ := h.stands
  have hcut : Cut sep before line := by
    refine ⟨?_, h.free⟩
    rcases hstart with ⟨rfl, -⟩ | hends
    · exact .inl rfl
    · exact .inr hends
  have hskip : ¬ (skip && before.isEmpty) = true := by
    rcases hstart with ⟨rfl, rfl⟩ | ⟨earlier, rfl⟩
    · exact Bool.false_ne_true
    · cases earlier <;> simp
  have hfirst : (line, start + before.length) ∈
      (read sep limit (init start skip) (before ++ line ++ [sep])).visited := by
    have hshort := h.short
    have hsome := h.nonempty
    rw [visited_concat_sep hcut, if_neg]
    · exact List.mem_append_right _ (List.mem_singleton.mpr rfl)
    · rintro (hno | hno | hno)
      · exact hskip hno
      · omega
      · exact hsome hno
  rw [List.append_cons, read_append]
  exact visited_prefix.subset hfirst

/-- A line that was handed out ends before the last separator. -/
theorem visited_le_complete {line : List α} {position : ℕ}
    (h : (line, position) ∈ (read sep limit (init start skip) xs).visited) :
    start ≤ position ∧
      position + line.length < (read sep limit (init start skip) xs).complete := by
  obtain ⟨before, after, rfl, rfl, -⟩ := (visited_segment h).stands
  have hsep : (before ++ line ++ sep :: after)[before.length + line.length]? = some sep := by
    rw [← List.length_append, List.getElem?_append_right (Nat.le_refl _), Nat.sub_self]
    rfl
  have hle : start + (before.length + line.length) + 1 ≤
      (read sep limit (init start skip) (before ++ line ++ sep :: after)).complete :=
    le_complete hsep
  exact ⟨Nat.le_add_right _ _, by omega⟩

/-- Lines are handed out in their order. -/
theorem visited_ordered : (read sep limit (init start skip) xs).visited.Pairwise
    fun a b => a.2 + a.1.length < b.2 := by
  induction xs using List.reverseRecOn with
  | nil => exact List.Pairwise.nil
  | append_singleton xs b ih =>
    obtain ⟨done, rest, rfl, hcut⟩ := exists_cut sep xs
    by_cases hb : b = sep
    · subst hb
      rw [visited_concat_sep hcut, List.pairwise_append]
      refine ⟨ih, ?_, fun x hx y hy => ?_⟩
      · split
        · exact List.Pairwise.nil
        · exact List.pairwise_singleton _ _
      · split at hy
        · cases hy
        · cases List.mem_singleton.mp hy
          obtain ⟨line, position⟩ := x
          have hlt := (visited_le_complete hx).2
          rw [complete_cut hcut] at hlt
          exact hlt
    · have hfree : Cut sep done (rest ++ [b]) := by
        refine ⟨hcut.1, ?_⟩
        rw [List.mem_append, not_or, List.mem_singleton]
        exact ⟨hcut.2, Ne.symm hb⟩
      rw [List.append_assoc, visited_cut hfree, ← visited_cut hcut]
      exact ih

end LineReader

end Hmux.Lib
