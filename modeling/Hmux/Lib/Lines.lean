import Mathlib.Data.List.Induction
import Mathlib.Tactic.Common

namespace Hmux.Lib.Lines

/-!
# The lines of a growing text

A text is cut at every separator.  What stands before one is a line; what comes after the last
one is unfinished, and grows with the text.

* `split_concat` — what one more symbol does;
* `split_closed` — a text without its unfinished end has the same lines;
* `unfinished_eq_nil` — nothing is unfinished at the start and after a separator.

This is the specification that the readers of growing files are compared with: it has neither a
buffer nor a limit, and reads everything again from the start.
-/

variable {α : Type} [DecidableEq α] {sep b : α} {text : List α}

/-- One more symbol, after lines and an unfinished end. -/
def add (sep : α) (state : List (List α) × List α) (b : α) : List (List α) × List α :=
  if b = sep then (state.1 ++ [state.2], []) else (state.1, state.2 ++ [b])

/-- The lines of a text and its unfinished end. -/
def split (sep : α) (text : List α) : List (List α) × List α := text.foldl (add sep) ([], [])

/-- The lines of a text that a separator ends. -/
def lines (sep : α) (text : List α) : List (List α) := (split sep text).1

/-- What stands after the last separator. -/
def unfinished (sep : α) (text : List α) : List α := (split sep text).2

theorem split_concat : split sep (text ++ [b]) = add sep (split sep text) b := by
  unfold split
  rw [List.foldl_append]
  rfl

theorem lines_concat_sep : lines sep (text ++ [sep]) = lines sep text ++ [unfinished sep text] := by
  unfold lines unfinished
  rw [split_concat, add, if_pos rfl]

theorem unfinished_concat_sep : unfinished sep (text ++ [sep]) = [] := by
  unfold unfinished
  rw [split_concat, add, if_pos rfl]

theorem lines_concat (h : b ≠ sep) : lines sep (text ++ [b]) = lines sep text := by
  unfold lines
  rw [split_concat, add, if_neg h]

theorem unfinished_concat (h : b ≠ sep) :
    unfinished sep (text ++ [b]) = unfinished sep text ++ [b] := by
  unfold unfinished
  rw [split_concat, add, if_neg h]

theorem length_unfinished_le : (unfinished sep text).length ≤ text.length := by
  induction text using List.reverseRecOn with
  | nil => exact Nat.le_refl _
  | append_singleton text b ih =>
    rw [List.length_append, List.length_singleton]
    by_cases hb : b = sep
    · subst hb
      rw [unfinished_concat_sep]
      exact Nat.zero_le _
    · rw [unfinished_concat hb, List.length_append, List.length_singleton]
      omega

/-- **Without its unfinished end** a text has the same lines, and nothing unfinished. -/
theorem split_closed :
    lines sep (text.take (text.length - (unfinished sep text).length)) = lines sep text ∧
      unfinished sep (text.take (text.length - (unfinished sep text).length)) = [] := by
  induction text using List.reverseRecOn with
  | nil => exact ⟨rfl, rfl⟩
  | append_singleton text b ih =>
    by_cases hb : b = sep
    · subst hb
      rw [unfinished_concat_sep, List.length_nil, Nat.sub_zero, List.take_length]
      exact ⟨rfl, unfinished_concat_sep⟩
    · have hle : (unfinished sep text).length ≤ text.length := length_unfinished_le
      have hlen : (text ++ [b]).length - (unfinished sep (text ++ [b])).length =
          text.length - (unfinished sep text).length := by
        rw [unfinished_concat hb, List.length_append, List.length_append, List.length_singleton]
        omega
      rw [hlen, List.take_append_of_le_length (by omega), lines_concat hb]
      exact ih

/-- **Where nothing is unfinished** the text is empty or ends with a separator. -/
theorem unfinished_eq_nil (h : unfinished sep text = []) :
    text = [] ∨ text.getLast? = some sep := by
  induction text using List.reverseRecOn with
  | nil => exact .inl rfl
  | append_singleton text b ih =>
    right
    by_cases hb : b = sep
    · rw [hb, List.getLast?_concat]
    · rw [unfinished_concat hb] at h
      exact absurd h (List.concat_ne_nil _ _)

end Hmux.Lib.Lines
