import Mathlib.Data.Int.Basic
import Mathlib.Data.List.Induction
import Mathlib.Tactic.Common

namespace Hmux.Lib.Windows

/-!
# Counting by fixed windows

A sequence of times is cut into windows: the first time opens one, each later time joins the
window that is open when it is less than `span` after the time that opened it, and opens the next
window otherwise.

* `split_concat` — what one more time does;
* `flatten_split` — every time is in one window, in order;
* `mem_split_first` — the times of a window are less than `span` after the one that opened it.

Compared with a sliding window, a fixed window admits up to twice as much in a span that lies
across the border of two windows.
-/

/-- One more time; the window that was opened last is the first of the list. -/
def add (span : ℤ) : List (List ℤ) → ℤ → List (List ℤ)
  | (first :: rest) :: older, t =>
    if t - first < span then (first :: (rest ++ [t])) :: older else [t] :: (first :: rest) :: older
  | older, t => [t] :: older

/-- The windows of a sequence of times, the last one first. -/
def split (span : ℤ) (times : List ℤ) : List (List ℤ) := times.foldl (add span) []

variable {span : ℤ} {times : List ℤ} {t : ℤ}

theorem split_concat : split span (times ++ [t]) = add span (split span times) t := by
  unfold split
  rw [List.foldl_append]
  rfl

theorem flatten_add (windows : List (List ℤ)) :
    (add span windows t).reverse.flatten = windows.reverse.flatten ++ [t] := by
  unfold add
  split
  · split
    · simp
    · simp
  · simp

/-- **Every time is in a window**, in its order. -/
theorem flatten_split : (split span times).reverse.flatten = times := by
  induction times using List.reverseRecOn with
  | nil => rfl
  | append_singleton times t ih => rw [split_concat, flatten_add, ih]

/-- The times of a window are close to the one that opened it. -/
theorem mem_split_first (hspan : 0 < span) {w : List ℤ} (hw : w ∈ split span times) :
    ∃ first rest, w = first :: rest ∧ ∀ t ∈ w, t - first < span := by
  induction times using List.reverseRecOn generalizing w with
  | nil => cases hw
  | append_singleton times t ih =>
    have hone : ∃ first rest, [t] = first :: rest ∧ ∀ u ∈ [t], u - first < span := by
      refine ⟨t, [], rfl, ?_⟩
      intro u hu
      rw [List.mem_singleton.mp hu]
      omega
    rw [split_concat] at hw
    unfold add at hw
    split at hw
    · rename_i t _ _ first rest older heq
      split at hw
      · rename_i hjoins
        rcases List.mem_cons.mp hw with rfl | hw
        · obtain ⟨first', rest', hcons, hclose⟩ :=
            ih (w := first :: rest) (heq ▸ List.mem_cons_self)
          obtain ⟨rfl, rfl⟩ := List.cons.inj hcons
          refine ⟨first, rest ++ [t], rfl, ?_⟩
          intro u hu
          rcases List.mem_cons.mp hu with rfl | hu
          · exact hclose u List.mem_cons_self
          · rcases List.mem_append.mp hu with hu | hu
            · exact hclose u (List.mem_cons_of_mem _ hu)
            · rw [List.mem_singleton.mp hu]
              exact hjoins
        · exact ih (by rw [heq]; exact List.mem_cons_of_mem _ hw)
      · rcases List.mem_cons.mp hw with rfl | hw
        · exact hone
        · exact ih (by rw [heq]; exact hw)
    · rcases List.mem_cons.mp hw with rfl | hw
      · exact hone
      · exact ih hw

end Hmux.Lib.Windows
