import Mathlib.Algebra.Order.Ring.Nat
import Mathlib.Data.List.Basic
import Mathlib.Tactic.Common

namespace Hmux.Lib

/-!
# Counting semaphores

A semaphore is the number of permits it has left; `tryAcquire` takes some of them or fails, and
dropping a permit gives them back.  Who holds the other ones is not the semaphore's business: an
owner keeps lists of holders and counts what they hold with `held`.

* `tryAcquire_eq_some` — what an acquisition leaves;
* `held_eraseIdx`, `held_set` — what is held after a holder left or changed its share.
-/

/-- A semaphore, as its free permits. -/
structure Semaphore where
  available : ℕ
  deriving DecidableEq, Repr

namespace Semaphore

/-- `Semaphore::try_acquire_many_owned`. -/
def tryAcquire (s : Semaphore) (n : ℕ) : Option Semaphore :=
  if n ≤ s.available then some ⟨s.available - n⟩ else none

/-- `n` permits are dropped. -/
def release (s : Semaphore) (n : ℕ) : Semaphore := ⟨s.available + n⟩

@[simp] theorem available_release (s : Semaphore) (n : ℕ) :
    (s.release n).available = s.available + n := rfl

theorem tryAcquire_eq_some {s s' : Semaphore} {n : ℕ} (h : s.tryAcquire n = some s') :
    s.available = s'.available + n := by
  rw [tryAcquire] at h
  split at h
  · rename_i hle
    obtain rfl := Option.some.inj h
    show s.available = s.available - n + n
    omega
  · cases h

end Semaphore

/-! ### What a list of holders holds

Permits that are free and permits that are held add up to the permits there are.  The sum over a
list of holders changes by one summand when a holder leaves or takes another share. -/

section
variable {α : Type*} {f : α → ℕ} {xs ys : List α} {x : α} {i : ℕ}

/-- The permits that the holders `xs` have between them. -/
def held (f : α → ℕ) (xs : List α) : ℕ := (xs.map f).sum

@[simp] theorem held_nil : held f [] = 0 := rfl

@[simp] theorem held_cons : held f (x :: xs) = f x + held f xs := by
  rw [held, List.map_cons, List.sum_cons]
  rfl

@[simp] theorem held_append : held f (xs ++ ys) = held f xs + held f ys := by
  rw [held, List.map_append, List.sum_append]
  rfl

theorem held_eraseIdx (h : xs[i]? = some x) : held f xs = f x + held f (xs.eraseIdx i) := by
  induction xs generalizing i with
  | nil => cases h
  | cons y ys ih =>
    cases i with
    | zero =>
      obtain rfl := Option.some.inj h
      rw [held_cons, List.eraseIdx_zero, List.tail_cons]
    | succ i =>
      have hys := ih h
      rw [held_cons, List.eraseIdx_cons_succ, held_cons, hys]
      omega

theorem held_set {y : α} (h : xs[i]? = some x) : held f (xs.set i y) + f x = held f xs + f y := by
  induction xs generalizing i with
  | nil => cases h
  | cons z zs ih =>
    cases i with
    | zero =>
      obtain rfl := Option.some.inj h
      rw [List.set_cons_zero, held_cons, held_cons]
      omega
    | succ i =>
      have hzs := ih h
      rw [List.set_cons_succ, held_cons, held_cons]
      omega

end

end Hmux.Lib
