import Mathlib.Data.List.Basic
import Mathlib.Tactic.Common

namespace Hmux.Lib

/-!
# Checks in sequence

A validation is a list of checks of which the first failure is reported, the reading of
Rust's `?` after `?`.

The lemmas turn a validation that passed into the facts it checked, one for each check, and back.
With them a long validation of the source is opened once, at the place where its meaning is stated,
and not in the proofs that rely on it.
-/

variable {ε : Type}

/-- Fail with `e` unless `b`. -/
def require (b : Bool) (e : ε) : Except ε Unit := if b then .ok () else .error e

/-- All checks pass, or the first error. -/
def allOk : List (Except ε Unit) → Except ε Unit
  | [] => .ok ()
  | .ok _ :: checks => allOk checks
  | .error e :: _ => .error e

theorem require_ok {b : Bool} {e : ε} : require b e = .ok () ↔ b = true := by
  unfold require
  split <;> simp_all

theorem allOk_ok {checks : List (Except ε Unit)} :
    allOk checks = .ok () ↔ ∀ c ∈ checks, c = .ok () := by
  induction checks with
  | nil => simp [allOk]
  | cons c checks ih =>
    cases c with
    | ok u => rw [allOk, ih, List.forall_mem_cons]; simp
    | error e => simp [allOk]

/-- `Option::ok_or`. -/
def okOr {α : Type} (x : Option α) (e : ε) : Except ε α := x.elim (.error e) .ok

theorem okOr_ok {α : Type} {x : Option α} {e : ε} {a : α} : okOr x e = .ok a ↔ x = some a := by
  cases x with
  | none => exact iff_of_false nofun nofun
  | some b => simp [okOr]

/-- A computation that returns is one whose steps return. -/
theorem bind_ok {α β : Type} {x : Except ε α} {f : α → Except ε β} {b : β}
    (h : (x >>= f) = .ok b) : ∃ a, x = .ok a ∧ f a = .ok b := by
  cases x with
  | error e => cases h
  | ok a => exact ⟨a, rfl, h⟩

theorem ok_bind {α β : Type} {x : Except ε α} {f : α → Except ε β} {a : α} (h : x = .ok a) :
    (x >>= f) = f a := by
  rw [h]
  rfl

/-- A loop returns when its body does. -/
theorem mapM_ok {α β : Type} {f : α → Except ε β} {l : List α} (h : ∀ x ∈ l, ∃ y, f x = .ok y) :
    ∃ ys, l.mapM f = .ok ys := by
  induction l with
  | nil => exact ⟨[], rfl⟩
  | cons x l ih =>
    obtain ⟨y, hy⟩ := h x List.mem_cons_self
    obtain ⟨ys, hys⟩ := ih fun z hz => h z (List.mem_cons_of_mem _ hz)
    exact ⟨y :: ys, by rw [List.mapM_cons, ok_bind hy, ok_bind hys]; rfl⟩

end Hmux.Lib
