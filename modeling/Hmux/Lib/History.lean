import Mathlib.Data.List.Basic
import Mathlib.Data.List.Infix
import Mathlib.Tactic.Common

namespace Hmux.Lib

/-!
# Bounded FIFO histories

A log of at most `cap` entries that forgets its oldest entry when a new one arrives.
The facts here are about *when* an entry can be forgotten:

* `History.push cap log x` — append `x`, dropping the head of a full log;
* `History.Within log x k` — `x` is recorded and at most `k` entries were recorded later;
* `History.within_push` — one push either keeps an entry within `k + 1`, or forgets it,
  and it forgets it only when already `cap - 1` entries are younger.

The last fact is what a retry guard needs: an identifier can only leave the log after
`cap` later pushes.

An entry is described by how many younger ones there are and not by its index, so that the same
statement holds before and after an eviction.
-/

namespace History

variable {α : Type*}

/-- Append to a log of capacity `cap`, evicting the oldest entry of a full log. -/
def push (cap : ℕ) (log : List α) (x : α) : List α :=
  (if log.length = cap then log.tail else log) ++ [x]

/-- `x` is recorded in `log` with at most `k` younger entries. -/
def Within (log : List α) (x : α) (k : ℕ) : Prop :=
  ∃ older younger, log = older ++ x :: younger ∧ younger.length ≤ k

theorem mem_push_self (cap : ℕ) (log : List α) (x : α) : x ∈ push cap log x := by
  simp [push]

theorem Within.mem {log : List α} {x : α} {k : ℕ} (h : Within log x k) : x ∈ log := by
  obtain ⟨older, younger, rfl, -⟩ := h
  simp

theorem Within.mono {log : List α} {x : α} {k m : ℕ} (h : Within log x k) (hkm : k ≤ m) :
    Within log x m := by
  obtain ⟨older, younger, rfl, hk⟩ := h
  exact ⟨older, younger, rfl, le_trans hk hkm⟩

/-- The entry just pushed has no younger entry. -/
theorem within_push_self (cap : ℕ) (log : List α) (x : α) : Within (push cap log x) x 0 :=
  ⟨_, [], rfl, le_refl 0⟩

/-- A log of capacity `cap` never outgrows it. -/
theorem length_push_le {cap : ℕ} {log : List α} (x : α) (hcap : 0 < cap)
    (hlog : log.length ≤ cap) : (push cap log x).length ≤ cap := by
  unfold push
  split
  · rw [List.length_append, List.length_tail, List.length_singleton]; omega
  · rw [List.length_append, List.length_singleton]; omega

/-- **Eviction needs a full turn.** A push moves a recorded entry one place back; it drops
    the entry only when that entry was the oldest of a full log, hence when at least
    `cap - 1` entries are younger. -/
theorem within_push (cap : ℕ) {log : List α} {x : α} {k : ℕ} (y : α) (h : Within log x k) :
    Within (push cap log y) x (k + 1) ∨ cap ≤ k + 1 := by
  obtain ⟨older, younger, rfl, hk⟩ := h
  unfold push
  split
  · rename_i hfull
    cases older with
    | nil =>
      -- `x` is the head of a full log, so everything else is younger.
      right
      simp only [List.nil_append, List.length_cons] at hfull
      omega
    | cons z older =>
      left
      refine ⟨older, younger ++ [y], ?_, ?_⟩
      · simp
      · rw [List.length_append, List.length_singleton]; omega
  · left
    refine ⟨older, younger ++ [y], ?_, ?_⟩
    · simp
    · rw [List.length_append, List.length_singleton]; omega

end History

end Hmux.Lib
