import Mathlib.Algebra.Order.Ring.Nat
import Mathlib.Algebra.BigOperators.Group.List.Basic
import Mathlib.Data.List.Basic
import Mathlib.Tactic.Common

namespace Hmux.Lib

/-!
# A stream cut into pieces of given lengths

`pieces ns xs` gives the first `ns[0]` symbols of the stream to the first piece, the next
`ns[1]` to the second one and so on; a stream that has not come to its end leaves the last
pieces short.

* `pieces_append` — symbols that fit into one piece go to that piece;
* `length_piece` — a piece the stream has passed is as long as it should be.

A receiver that is told the lengths in advance and gets the stream in chunks of any size puts every
symbol where `pieces` has it.  Where a chunk crosses from one piece to the next, it is divided
there; the lemmas are about a chunk that does not cross, since the receiver treats a crossing one
as several.
-/

variable {α : Type*} {ns : List ℕ} {xs ys : List α} {k n : ℕ}

/-- The stream cut into pieces of these lengths. -/
def pieces : List ℕ → List α → List (List α)
  | [], _ => []
  | n :: ns, xs => xs.take n :: pieces ns (xs.drop n)

/-- Where piece `k` starts. -/
def offset (ns : List ℕ) (k : ℕ) : ℕ := (ns.take k).sum

@[simp] theorem offset_zero : offset ns 0 = 0 := by
  rw [offset, List.take_zero, List.sum_nil]

theorem offset_cons_succ : offset (n :: ns) (k + 1) = n + offset ns k := by
  rw [offset, List.take_succ_cons, List.sum_cons]
  rfl

theorem offset_succ (h : ns[k]? = some n) : offset ns (k + 1) = offset ns k + n := by
  obtain ⟨hlt, rfl⟩ := List.getElem?_eq_some_iff.mp h
  rw [offset, offset, List.take_add_one, h, List.sum_append]
  simp

theorem offset_length : offset ns ns.length = ns.sum := by
  rw [offset, List.take_length]

theorem offset_mono {m : ℕ} (h : k ≤ m) : offset ns k ≤ offset ns m := by
  have hsplit : ns.take m = ns.take k ++ (ns.drop k).take (m - k) := by
    rw [← List.take_add, Nat.add_sub_cancel' h]
  rw [offset, offset, hsplit, List.sum_append]
  omega

@[simp] theorem length_pieces : (pieces ns xs).length = ns.length := by
  induction ns generalizing xs with
  | nil => rfl
  | cons n ns ih => rw [pieces, List.length_cons, List.length_cons, ih]

theorem pieces_nil : pieces ns ([] : List α) = List.replicate ns.length [] := by
  induction ns with
  | nil => rfl
  | cons n ns ih =>
    rw [pieces, List.take_nil, List.drop_nil, ih, List.length_cons, List.replicate_succ]

theorem getElem?_pieces (h : ns[k]? = some n) :
    (pieces ns xs)[k]? = some ((xs.drop (offset ns k)).take n) := by
  induction ns generalizing xs k with
  | nil => cases h
  | cons m ns ih =>
    rw [pieces]
    cases k with
    | zero =>
      obtain rfl := Option.some.inj h
      rw [offset_zero, List.drop_zero]
      rfl
    | succ k =>
      rw [List.getElem?_cons_succ] at h ⊢
      rw [ih h, offset_cons_succ, List.drop_drop]

/-- Symbols that fit into what is missing of piece `k` go to that piece. -/
theorem pieces_append (hstart : offset ns k ≤ xs.length)
    (hend : xs.length + ys.length ≤ offset ns (k + 1)) (hk : k < ns.length) :
    pieces ns (xs ++ ys) = (pieces ns xs).modify k (· ++ ys) := by
  induction ns generalizing xs k with
  | nil => cases hk
  | cons n ns ih =>
    rw [pieces, pieces]
    cases k with
    | zero =>
      rw [offset_cons_succ, offset_zero, Nat.add_zero] at hend
      have htake : (xs ++ ys).take n = xs.take n ++ ys := by
        rw [List.take_append, List.take_of_length_le (by omega : xs.length ≤ n),
          List.take_of_length_le (by omega : ys.length ≤ n - xs.length)]
      have hdrop : (xs ++ ys).drop n = xs.drop n := by
        rw [List.drop_of_length_le (by rw [List.length_append]; omega),
          List.drop_of_length_le (by omega)]
      rw [htake, hdrop]
      rfl
    | succ k =>
      rw [offset_cons_succ] at hstart hend
      have hn : n ≤ xs.length := by omega
      have hdrop : (xs ++ ys).drop n = xs.drop n ++ ys := List.drop_append_of_le_length hn
      have htake : (xs ++ ys).take n = xs.take n := List.take_append_of_le_length hn
      rw [htake, hdrop, List.modify_succ_cons]
      congr 1
      refine ih ?_ ?_ (Nat.lt_of_succ_lt_succ hk)
      · rw [List.length_drop]; omega
      · rw [List.length_drop]; omega

/-- A piece that the stream has passed is complete. -/
theorem length_piece {piece : List α} (hn : ns[k]? = some n)
    (hpiece : (pieces ns xs)[k]? = some piece) (h : offset ns (k + 1) ≤ xs.length) :
    piece.length = n := by
  rw [getElem?_pieces hn] at hpiece
  obtain rfl := Option.some.inj hpiece
  rw [offset_succ hn] at h
  rw [List.length_take, List.length_drop]
  omega

end Hmux.Lib
