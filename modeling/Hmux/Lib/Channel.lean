import Mathlib.Data.List.Basic
import Mathlib.Tactic.Common

namespace Hmux.Lib

/-!
# Bounded channels

A bounded multi-producer queue with one receiver, as `tokio::sync::mpsc::channel(n)` has it:
a non-blocking send fails when the buffer is full or the receiver is gone, and `free` is the
number of sends that would still succeed.

A send and a receive are single steps here, whatever a task that waits for one of them does in
between.  Messages are only known by their place in the buffer: nothing is dropped but by closing,
and what is received was sent before everything that stands behind it.
-/

/-- A bounded channel: its buffer, oldest message first, and whether the receiver is gone. -/
structure Channel (α : Type*) where
  capacity : ℕ
  queue : List α
  closed : Bool
  deriving DecidableEq, Repr

namespace Channel

variable {α : Type*}

/-- A fresh channel of capacity `n`. -/
def new (n : ℕ) : Channel α := { capacity := n, queue := [], closed := false }

/-- `Sender::capacity`: the free slots. -/
def free (c : Channel α) : ℕ := c.capacity - c.queue.length

/-- `Sender::try_send`; `none` is the error. -/
def trySend (c : Channel α) (x : α) : Option (Channel α) :=
  if c.closed || c.capacity ≤ c.queue.length then none
  else some { c with queue := c.queue ++ [x] }

/-- `Receiver::recv` when a message is buffered. -/
def recv (c : Channel α) : Option (α × Channel α) :=
  match c.queue with
  | [] => none
  | x :: rest => some (x, { c with queue := rest })

/-- The receiver is dropped, with whatever was still buffered. -/
def close (c : Channel α) : Channel α := { c with queue := [], closed := true }

theorem trySend_eq_some {c c' : Channel α} {x : α} :
    c.trySend x = some c' ↔
      c.closed = false ∧ c.queue.length < c.capacity ∧
        c' = { c with queue := c.queue ++ [x] } := by
  rw [trySend]
  split
  · rename_i h
    simp only [Bool.or_eq_true, decide_eq_true_eq] at h
    constructor
    · intro h'; cases h'
    · rintro ⟨hc, hlt, -⟩
      rcases h with h | h
      · rw [hc] at h; cases h
      · omega
  · rename_i h
    simp only [Bool.or_eq_true, decide_eq_true_eq, not_or, Bool.not_eq_true] at h
    rw [Option.some.injEq, eq_comm]
    exact ⟨fun heq => ⟨h.1, by omega, heq⟩, fun heq => heq.2.2⟩

theorem trySend_eq_none {c : Channel α} {x : α} :
    c.trySend x = none ↔ c.closed = true ∨ c.capacity ≤ c.queue.length := by
  rw [trySend]
  split
  · rename_i h
    simp only [Bool.or_eq_true, decide_eq_true_eq] at h
    exact iff_of_true rfl h
  · rename_i h
    simp only [Bool.or_eq_true, decide_eq_true_eq] at h
    exact iff_of_false (fun h' => by cases h') h

theorem recv_eq_some {c c' : Channel α} {x : α} :
    c.recv = some (x, c') ↔ ∃ rest, c.queue = x :: rest ∧ c' = { c with queue := rest } := by
  rw [recv]
  split
  · rename_i h
    rw [h]
    constructor
    · intro h'; cases h'
    · rintro ⟨rest, h', -⟩; cases h'
  · rename_i y rest h
    rw [h]
    constructor
    · intro h'
      obtain ⟨rfl, rfl⟩ := Prod.mk.inj (Option.some.inj h')
      exact ⟨rest, rfl, rfl⟩
    · rintro ⟨rest', h', rfl⟩
      obtain ⟨rfl, rfl⟩ := List.cons.inj h'
      rfl

end Channel

end Hmux.Lib
