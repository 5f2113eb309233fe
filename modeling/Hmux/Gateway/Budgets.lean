import Hmux.Gateway.Hub
import Hmux.Lib.Budget
import Mathlib.Data.List.Induction
import Mathlib.Data.Nat.Log

namespace Hmux.Gateway

open Lib

/-!
# Retained memory

Copies of what Home sent (`Hub::retain`, `Hub::retain_response`) and the JSON replies of the HTTP
boundary are charged to two counters.  A buffer is charged for what it asks for before it is
allocated, and for what it got afterwards; any of these steps may fail, and other buffers come and
go in between.  What is charged is given back when the buffer is dropped.

* `Payloads.step`, `Replies.step` — one atomic step of one of the buffers;
* `budgets_balanced` — **the counters never drift**, over every interleaving.

The counter is a number of the machine, and what a value was charged is known to that value alone.
The invariant ties the two: the counter is the sum of the charges, so it is back at zero when all
values are gone, whatever the order of the steps was and whichever of them failed.
-/

/-! ### Copies of payloads

A copy is charged for the bytes it asks for, allocated, and charged for what the allocator gave on
top. -/

/-- Where `Hub::retain` is. -/
inductive RetainPhase
  /-- Before the first `charge`. -/
  | begun
  /-- Before `try_reserve_exact`. -/
  | admitted
  /-- Before the second `charge`. -/
  | reserved
  /-- The bytes were handed out. -/
  | retained
  /-- An error was returned. -/
  | failed
  deriving DecidableEq

/-- `RetainedPayload`, with the bytes that it is to hold. -/
structure RetainedPayload where
  raw : List UInt8
  data : List UInt8
  capacity : ℕ
  charged : ℕ
  phase : RetainPhase

/-- `RetainedPayload::charge`. -/
def RetainedPayload.charge (p : RetainedPayload) (used capacity : ℕ) :
    Option (ℕ × RetainedPayload) :=
  let extra := capacity - p.charged
  (Budget.charge retainedPayloadBytes used extra).map fun used =>
    (used, { p with charged := p.charged + extra })

/-- The next step of `Hub::retain`.  `allocated` is what the allocator returns, as the bytes beyond
those that were asked for. -/
def RetainedPayload.advance (p : RetainedPayload) (used : ℕ) (allocated : Option ℕ) :
    ℕ × RetainedPayload :=
  match p.phase with
  | .begun =>
    match p.charge used p.raw.length with
    | none => (used, { p with phase := .failed })
    | some (used, p) => (used, { p with phase := .admitted })
  | .admitted =>
    match allocated with
    | none => (used, { p with phase := .failed })
    | some more => (used, { p with capacity := p.raw.length + more, phase := .reserved })
  | .reserved =>
    match p.charge used p.capacity with
    | none => (used, { p with phase := .failed })
    | some (used, p) => (used, { p with data := p.raw, phase := .retained })
  | .retained | .failed => (used, p)

/-- The call is over. -/
def RetainedPayload.ended (p : RetainedPayload) : Bool := p.phase = .retained || p.phase = .failed

/-- `RetainedResponse`, as far as it is charged for. -/
structure RetainedResponse where
  charged : ℕ

/-- What is charged to a `PayloadBudget`. -/
inductive Retained
  | payload (p : RetainedPayload)
  | response (r : RetainedResponse)

/-- `charged`. -/
def Retained.charged : Retained → ℕ
  | .payload p => p.charged
  | .response r => r.charged

/-- Whether a value may be dropped. -/
def Retained.ended : Retained → Bool
  | .payload p => p.ended
  | .response _ => true

/-- `PayloadBudget` and the values that share it. -/
abbrev Payloads := Budget ℕ Retained

/-- A step of one of the values; a new value has a number of its own. -/
inductive PayloadAction
  /-- A call of `Hub::retain`. -/
  | retain (id : ℕ) (raw : List UInt8)
  /-- The call goes on. -/
  | advance (id : ℕ) (allocated : Option ℕ)
  /-- A call of `Hub::retain_response`: what `response_retained_bytes` counts, and the sizes that
  are added to it. -/
  | retainResponse (id : ℕ) (bytes overhead : ℕ)
  /-- The last owner of a value, or the failed call, drops it. -/
  | drop (id : ℕ)

/-- One atomic step. -/
def Payloads.step (s : Payloads) : PayloadAction → Payloads
  | .retain id raw =>
    if raw.isEmpty || s.live.contains id then s
    else ⟨s.used, s.live.insert id (.payload ⟨raw, [], 0, 0, .begun⟩)⟩
  | .advance id allocated =>
    match s.live.get? id with
    | some (.payload p) =>
      let (used, p) := p.advance s.used allocated
      ⟨used, s.live.insert id (.payload p)⟩
    | _ => s
  | .retainResponse id bytes overhead =>
    if s.live.contains id then s
    else if 2 ^ 64 ≤ bytes + overhead then s
    else
      match Budget.charge retainedPayloadBytes s.used (bytes + overhead) with
      | none => s
      | some used => ⟨used, s.live.insert id (.response ⟨bytes + overhead⟩)⟩
  | .drop id =>
    match s.live.get? id with
    | some v => if v.ended then ⟨Budget.release s.used v.charged, s.live.erase id⟩ else s
    | none => s

/-- Steps in any order. -/
def Payloads.run (actions : List PayloadAction) : Payloads :=
  actions.foldl Payloads.step Budget.empty

/-! ### JSON replies

A reply grows while it is written; a growth is charged for the new capacity before it is allocated,
and for what the allocator gave on top of it. -/

/-- `MAX_REPLY_BYTES`. -/
def maxReplyBytes : ℕ := 6 * 2 ^ 20 + 136 * 2 ^ 10

/-- `usize::next_power_of_two`. -/
def nextPowerOfTwo (n : ℕ) : ℕ := 2 ^ Nat.clog 2 n

/-- Where the serializer and the writer are. -/
inductive ReplyPhase
  /-- Between two calls of `write`. -/
  | idle
  /-- Before the first `charge` of a `write`. -/
  | admitting (chunk : List UInt8) (target : ℕ)
  /-- Before `try_reserve_exact`. -/
  | reserving (chunk : List UInt8) (target : ℕ)
  /-- Before the second `charge`. -/
  | settling (chunk : List UInt8)
  /-- The reply was handed out. -/
  | replied
  /-- The serializer stopped with an error. -/
  | failed
  deriving DecidableEq

/-- `JsonBuffer`. -/
structure JsonBuffer where
  data : List UInt8
  capacity : ℕ
  charged : ℕ
  busy : Bool
  phase : ReplyPhase

namespace JsonBuffer

/-- A buffer of `json_with_budget`. -/
def new : JsonBuffer := ⟨[], 0, 0, false, .idle⟩

/-- `JsonBuffer::charge`. -/
def charge (b : JsonBuffer) (limit used capacity : ℕ) : Bool × ℕ × JsonBuffer :=
  if capacity ≤ b.charged then (true, used, b)
  else
    match Budget.charge limit used (capacity - b.charged) with
    | none => (false, used, { b with busy := true })
    | some used => (true, used, { b with charged := capacity })

/-- `extend_from_slice`, the end of `write`. -/
def extend (b : JsonBuffer) (chunk : List UInt8) : JsonBuffer :=
  { b with data := b.data ++ chunk, phase := .idle }

/-- `write`, up to the first `charge`. -/
def write (b : JsonBuffer) (chunk : List UInt8) : JsonBuffer :=
  if maxReplyBytes - b.data.length < chunk.length then { b with phase := .failed }
  else
    let needed := b.data.length + chunk.length
    if b.capacity < needed then
      { b with phase := .admitting chunk (min (nextPowerOfTwo needed) maxReplyBytes) }
    else b.extend chunk

/-- The next step of `write`.  `allocated` is what the allocator returns, as the bytes beyond those
that were asked for. -/
def advance (b : JsonBuffer) (limit used : ℕ) (allocated : Option ℕ) : ℕ × JsonBuffer :=
  match b.phase with
  | .admitting chunk target =>
    match b.charge limit used target with
    | (false, used, b) => (used, { b with phase := .failed })
    | (true, used, b) => (used, { b with phase := .reserving chunk target })
  | .reserving chunk target =>
    match allocated with
    | none => (used, { b with phase := .failed })
    | some more =>
      let b := { b with capacity := target + more }
      if b.charged < b.capacity then (used, { b with phase := .settling chunk })
      else (used, b.extend chunk)
  | .settling chunk =>
    match b.charge limit used b.capacity with
    | (false, used, b) => (used, { b with phase := .failed })
    | (true, used, b) => (used, b.extend chunk)
  | .idle | .replied | .failed => (used, b)

/-- The reply was handed out or the serializer stopped. -/
def ended (b : JsonBuffer) : Bool := b.phase = .replied || b.phase = .failed

/-- The status of the reply of `json_with_budget`. -/
def status (b : JsonBuffer) : Option ℕ :=
  match b.phase with
  | .replied => some 200
  | .failed => some (if b.busy then 503 else 500)
  | _ => none

end JsonBuffer

/-- `ReplyBudget` and the buffers that share it. -/
abbrev Replies := Budget ℕ JsonBuffer

/-- A step of one of the buffers; a new buffer has a number of its own. -/
inductive ReplyAction
  /-- A call of `json_with_budget`. -/
  | begin_ (id : ℕ)
  /-- The serializer writes. -/
  | write (id : ℕ) (chunk : List UInt8)
  /-- The writer goes on. -/
  | advance (id : ℕ) (allocated : Option ℕ)
  /-- The serializer is done, or fails by itself. -/
  | finish (id : ℕ) (ok : Bool)
  /-- The last owner of a reply, or the failed call, drops the buffer. -/
  | drop (id : ℕ)

/-- One atomic step. -/
def Replies.step (limit : ℕ) (s : Replies) : ReplyAction → Replies
  | .begin_ id => if s.live.contains id then s else ⟨s.used, s.live.insert id .new⟩
  | .write id chunk =>
    match s.live.get? id with
    | some b => if b.phase = .idle then ⟨s.used, s.live.insert id (b.write chunk)⟩ else s
    | none => s
  | .advance id allocated =>
    match s.live.get? id with
    | some b =>
      let (used, b) := b.advance limit s.used allocated
      ⟨used, s.live.insert id b⟩
    | none => s
  | .finish id ok =>
    match s.live.get? id with
    | some b =>
      if b.phase = .idle then
        ⟨s.used, s.live.insert id { b with phase := if ok then .replied else .failed }⟩
      else s
    | none => s
  | .drop id =>
    match s.live.get? id with
    | some b => if b.ended then ⟨Budget.release s.used b.charged, s.live.erase id⟩ else s
    | none => s

/-- Steps in any order. -/
def Replies.run (limit : ℕ) (actions : List ReplyAction) : Replies :=
  actions.foldl (Replies.step limit) Budget.empty

/-! ### One step of a payload

The charge moves with the counter, and nothing else does. -/

/-- What holds of a payload between its steps. -/
def RetainedPayload.Ok (p : RetainedPayload) : Prop :=
  match p.phase with
  | .begun | .failed => True
  | .admitted => p.raw.length ≤ p.charged
  | .reserved => p.raw.length ≤ p.capacity
  | .retained => p.data = p.raw ∧ p.data.length ≤ p.capacity ∧ p.capacity ≤ p.charged

/-- A payload that is charged carries its charge. -/
theorem RetainedPayload.charge_eq_some {p p' : RetainedPayload} {used used' capacity : ℕ}
    (h : p.charge used capacity = some (used', p')) :
    p' = { p with charged := p.charged + (capacity - p.charged) } ∧
      used' = used + (capacity - p.charged) ∧ used' ≤ retainedPayloadBytes := by
  unfold RetainedPayload.charge at h
  obtain ⟨next, hnext, heq⟩ := Option.map_eq_some_iff.mp h
  obtain ⟨rfl, rfl⟩ := Prod.mk.inj heq
  exact ⟨rfl, Budget.charge_eq_some hnext⟩

/-- **A step of `Hub::retain`** moves the charge with the counter. -/
theorem RetainedPayload.advance_spec {p : RetainedPayload} (h : p.Ok) {used : ℕ}
    (hused : used ≤ retainedPayloadBytes) (allocated : Option ℕ) :
    (p.advance used allocated).1 + p.charged = used + (p.advance used allocated).2.charged ∧
      (p.advance used allocated).1 ≤ retainedPayloadBytes ∧ (p.advance used allocated).2.Ok := by
  unfold RetainedPayload.advance
  cases hphase : p.phase with
  -- the raw bytes are charged first
  | begun =>
    dsimp only
    cases hcharge : p.charge used p.raw.length with
    | none => exact ⟨rfl, hused, trivial⟩
    | some r =>
      obtain ⟨next, p'⟩ := r
      obtain ⟨rfl, hnext, hlimit⟩ := RetainedPayload.charge_eq_some hcharge
      refine ⟨?_, hlimit, ?_⟩
      · dsimp only
        omega
      · show p.raw.length ≤ p.charged + (p.raw.length - p.charged)
        omega
  | admitted =>
    cases allocated with
    | none => exact ⟨rfl, hused, trivial⟩
    | some more => exact ⟨rfl, hused, Nat.le_add_right _ _⟩
  -- then what the decoded size exceeds them by
  | reserved =>
    dsimp only
    cases hcharge : p.charge used p.capacity with
    | none => exact ⟨rfl, hused, trivial⟩
    | some r =>
      obtain ⟨next, p'⟩ := r
      obtain ⟨rfl, hnext, hlimit⟩ := RetainedPayload.charge_eq_some hcharge
      refine ⟨?_, hlimit, ?_⟩
      · dsimp only
        omega
      · unfold RetainedPayload.Ok at h
        rw [hphase] at h
        refine ⟨rfl, h, ?_⟩
        show p.capacity ≤ p.charged + (p.capacity - p.charged)
        omega
  | retained => exact ⟨rfl, hused, h⟩
  | failed => exact ⟨rfl, hused, h⟩

/-- What holds of a value between its steps. -/
def Retained.Ok : Retained → Prop
  | .payload p => p.Ok
  | .response _ => True

/-- The invariant of the payload budget. -/
structure Payloads.Inv (s : Payloads) : Prop where
  balanced : Budget.Balanced Retained.charged retainedPayloadBytes s
  ok : ∀ id v, s.live.get? id = some v → v.Ok

/-- What holds of all entries holds with a new one. -/
theorem contains_insert_ok {α : Type} {P : α → Prop} {live : Table ℕ α} {id : ℕ} {v : α}
    (h : ∀ k a, live.get? k = some a → P a) (hv : P v) :
    ∀ k a, (live.insert id v).get? k = some a → P a := by
  intro k a hget
  rcases Table.get?_insert_some hget with ⟨-, rfl⟩ | hget
  · exact hv
  · exact h k a hget

/-- What holds of all entries holds without one of them. -/
theorem erase_ok {α : Type} {P : α → Prop} {live : Table ℕ α} {id : ℕ}
    (h : ∀ k a, live.get? k = some a → P a) : ∀ k a, (live.erase id).get? k = some a → P a := by
  intro k a hget
  rw [Table.get?_erase] at hget
  split at hget
  · cases hget
  · exact h k a hget

/-- **Every step keeps the payload budget balanced.** -/
theorem Payloads.Inv.step {s : Payloads} (h : s.Inv) (action : PayloadAction) :
    (s.step action).Inv := by
  cases action with
  | retain id raw =>
    dsimp only [Payloads.step]
    split
    · exact h
    · next hnew =>
      simp only [Bool.or_eq_true, not_or, Bool.not_eq_true] at hnew
      exact ⟨h.balanced.enter (Table.contains_eq_false.mp hnew.2) rfl,
        contains_insert_ok h.ok trivial⟩
  | advance id allocated =>
    dsimp only [Payloads.step]
    cases hget : s.live.get? id with
    | none => exact h
    | some v =>
      cases v with
      | response r => exact h
      | payload p =>
        -- the payload's own charge moves with what its parser has taken
        have hok : p.Ok := h.ok id _ hget
        obtain ⟨hmoved, hlimit, hok⟩ := p.advance_spec hok h.balanced.within allocated
        exact ⟨h.balanced.update hget hmoved hlimit, contains_insert_ok h.ok hok⟩
  | retainResponse id bytes overhead =>
    dsimp only [Payloads.step]
    split
    · exact h
    · next hnew =>
      split
      · exact h
      · cases hcharge : Budget.charge retainedPayloadBytes s.used (bytes + overhead) with
        | none => exact h
        | some used =>
          rw [Bool.not_eq_true] at hnew
          have hnone := Table.contains_eq_false.mp hnew
          let v : Retained := .response ⟨bytes + overhead⟩
          exact ⟨h.balanced.enter_charged (v := v) hnone hcharge, contains_insert_ok h.ok trivial⟩
  | drop id =>
    dsimp only [Payloads.step]
    cases hget : s.live.get? id with
    | none => exact h
    | some v =>
      -- only what was retained under this id is given back
      dsimp only
      split
      · exact ⟨h.balanced.leave (by decide) hget, erase_ok h.ok⟩
      · exact h

/-- **Run lemma.** The payloads account for what is charged. -/
theorem Payloads.run_inv (actions : List PayloadAction) : (Payloads.run actions).Inv := by
  induction actions using List.reverseRecOn with
  | nil => exact ⟨Budget.Balanced.empty, nofun⟩
  | append_singleton actions action ih =>
    unfold Payloads.run at ih ⊢
    rw [List.foldl_concat]
    exact ih.step action

/-! ### One step of a reply

The same, for a buffer that may be charged many times. -/

/-- The next power of two is no smaller. -/
theorem le_nextPowerOfTwo (n : ℕ) : n ≤ nextPowerOfTwo n := Nat.le_pow_clog (by decide) n

namespace JsonBuffer

/-- What holds of a buffer between its steps, besides that it is not too long. -/
def PhaseOk (b : JsonBuffer) : Prop :=
  match b.phase with
  | .idle | .replied => b.data.length ≤ b.capacity ∧ b.capacity ≤ b.charged ∧ b.busy = false
  | .admitting chunk target =>
    b.data.length + chunk.length ≤ target ∧ target ≤ maxReplyBytes ∧ b.busy = false
  | .reserving chunk target =>
    b.data.length + chunk.length ≤ target ∧ target ≤ maxReplyBytes ∧ target ≤ b.charged ∧
      b.busy = false
  | .settling chunk =>
    b.data.length + chunk.length ≤ b.capacity ∧ b.data.length + chunk.length ≤ maxReplyBytes ∧
      b.busy = false
  | .failed => True

/-- What holds of a buffer between its steps. -/
structure Ok (b : JsonBuffer) : Prop where
  /-- The subtraction in `write` does not wrap. -/
  short : b.data.length ≤ maxReplyBytes
  phase : b.PhaseOk

/-- The capacity whose charge is next. -/
def asked (b : JsonBuffer) : Option ℕ :=
  match b.phase with
  | .admitting _ target => some target
  | .settling _ => some b.capacity
  | _ => none

/-- What `charge` does. -/
theorem charge_cases (b : JsonBuffer) {limit used : ℕ} (hlimit : limit < 2 ^ 64)
    (hused : used ≤ limit) (capacity : ℕ) :
    (∃ used' charged, b.charge limit used capacity = (true, used', { b with charged }) ∧
      capacity ≤ charged ∧ used' + b.charged = used + charged ∧ used' ≤ limit) ∨
    (b.charge limit used capacity = (false, used, { b with busy := true }) ∧
      limit < used + (capacity - b.charged)) := by
  unfold charge
  by_cases hle : capacity ≤ b.charged
  · rw [if_pos hle]
    exact .inl ⟨used, b.charged, rfl, hle, rfl, hused⟩
  · rw [if_neg hle]
    cases hcharge : Budget.charge limit used (capacity - b.charged) with
    | none => exact .inr ⟨rfl, (Budget.charge_eq_none hlimit).mp hcharge⟩
    | some next =>
      obtain ⟨hnext, hwithin⟩ := Budget.charge_eq_some hcharge
      exact .inl ⟨next, capacity, rfl, le_refl _, by omega, hwithin⟩

/-- A buffer with room is extended. -/
theorem extend_ok {b : JsonBuffer} {chunk : List UInt8}
    (hfits : b.data.length + chunk.length ≤ b.capacity)
    (hshort : b.data.length + chunk.length ≤ maxReplyBytes) (hcharged : b.capacity ≤ b.charged)
    (hbusy : b.busy = false) : (b.extend chunk).Ok := by
  have hlength : (b.extend chunk).data.length = b.data.length + chunk.length := List.length_append
  exact ⟨hlength ▸ hshort, hlength ▸ hfits, hcharged, hbusy⟩

/-- **Step lemma.** A write that has its charge keeps the buffer in order. -/
theorem write_ok {b : JsonBuffer} (h : b.Ok) (hidle : b.phase = .idle) (chunk : List UInt8) :
    (b.write chunk).Ok ∧ (b.write chunk).charged = b.charged := by
  have hphase := h.phase
  have hshort := h.short
  unfold PhaseOk at hphase
  rw [hidle] at hphase
  unfold write
  by_cases hlarge : maxReplyBytes - b.data.length < chunk.length
  · rw [if_pos hlarge]
    exact ⟨⟨hshort, trivial⟩, rfl⟩
  · rw [if_neg hlarge]
    dsimp only
    by_cases hgrow : b.capacity < b.data.length + chunk.length
    · rw [if_pos hgrow]
      have hpower := le_nextPowerOfTwo (b.data.length + chunk.length)
      have hfits : b.data.length + chunk.length ≤ maxReplyBytes := by omega
      exact ⟨⟨hshort, le_min hpower hfits, Nat.min_le_right _ _, hphase.2.2⟩, rfl⟩
    · rw [if_neg hgrow]
      exact ⟨extend_ok (by omega) (by omega) hphase.2.1 hphase.2.2, rfl⟩

/-- A write does not change whether another one is under way. -/
theorem write_busy (b : JsonBuffer) (chunk : List UInt8) : (b.write chunk).busy = b.busy := by
  unfold write
  split
  · rfl
  · dsimp only
    split
    · rfl
    · rfl

/-- **A step of `write`** moves the charge with the counter, and a buffer that becomes busy asked
for more than there was. -/
theorem advance_spec {b : JsonBuffer} (h : b.Ok) {limit used : ℕ} (hlimit : limit < 2 ^ 64)
    (hused : used ≤ limit) (allocated : Option ℕ) :
    (b.advance limit used allocated).1 + b.charged =
        used + (b.advance limit used allocated).2.charged ∧
      (b.advance limit used allocated).1 ≤ limit ∧ (b.advance limit used allocated).2.Ok ∧
      ((b.advance limit used allocated).2.busy = true → b.busy = true ∨
        ∃ capacity, b.asked = some capacity ∧ limit < used + (capacity - b.charged)) := by
  have hphase := h.phase
  unfold PhaseOk at hphase
  unfold advance
  cases hb : b.phase with
  -- a buffer that waits for nothing is not moved
  | idle => exact ⟨rfl, hused, h, .inl⟩
  | replied => exact ⟨rfl, hused, h, .inl⟩
  | failed => exact ⟨rfl, hused, h, .inl⟩
  -- the growth is charged before it is allocated
  | admitting chunk target =>
    rw [hb] at hphase
    dsimp only
    rcases b.charge_cases hlimit hused target with
      ⟨next, charged, hcharge, hcharged, hmoved, hwithin⟩ | ⟨hcharge, hfull⟩
    · rw [hcharge]
      exact ⟨hmoved, hwithin, ⟨h.short, hphase.1, hphase.2.1, hcharged, hphase.2.2⟩, .inl⟩
    · rw [hcharge]
      refine ⟨rfl, hused, ⟨h.short, trivial⟩, fun _ => .inr ⟨target, ?_, hfull⟩⟩
      unfold asked
      rw [hb]
  -- what was allocated may be more than was asked for
  | reserving chunk target =>
    rw [hb] at hphase
    cases allocated with
    | none => exact ⟨rfl, hused, ⟨h.short, trivial⟩, .inl⟩
    | some more =>
      obtain ⟨htarget, hmax, hcharged, hbusy⟩ := hphase
      dsimp only
      split
      · refine ⟨rfl, hused, ⟨h.short, ?_, ?_, hbusy⟩, .inl⟩
        · dsimp only
          omega
        · dsimp only
          omega
      · next hsettled =>
        refine ⟨rfl, hused, extend_ok ?_ ?_ (Nat.not_lt.mp hsettled) hbusy, .inl⟩
        · dsimp only
          omega
        · dsimp only
          omega
  -- so the difference is charged afterwards
  | settling chunk =>
    rw [hb] at hphase
    dsimp only
    rcases b.charge_cases hlimit hused b.capacity with
      ⟨next, charged, hcharge, hcharged, hmoved, hwithin⟩ | ⟨hcharge, hfull⟩
    · rw [hcharge]
      exact ⟨hmoved, hwithin, extend_ok hphase.1 hphase.2.1 hcharged hphase.2.2, .inl⟩
    · rw [hcharge]
      refine ⟨rfl, hused, ⟨h.short, trivial⟩, fun _ => .inr ⟨b.capacity, ?_, hfull⟩⟩
      unfold asked
      rw [hb]

end JsonBuffer

/-- The invariant of the reply budget. -/
structure Replies.Inv (limit : ℕ) (s : Replies) : Prop where
  balanced : Budget.Balanced JsonBuffer.charged limit s
  ok : ∀ id b, s.live.get? id = some b → b.Ok

/-- **Every step keeps the reply budget balanced.** -/
theorem Replies.Inv.step {limit : ℕ} {s : Replies} (hlimit : limit < 2 ^ 64) (h : s.Inv limit)
    (action : ReplyAction) : (s.step limit action).Inv limit := by
  cases action with
  -- a new reply has nothing
  | begin_ id =>
    dsimp only [Replies.step]
    split
    · exact h
    · next hnew =>
      rw [Bool.not_eq_true] at hnew
      refine ⟨h.balanced.enter (Table.contains_eq_false.mp hnew) rfl, contains_insert_ok h.ok ?_⟩
      exact ⟨Nat.zero_le _, le_refl _, le_refl _, rfl⟩
  -- a chunk only says what it needs
  | write id chunk =>
    dsimp only [Replies.step]
    cases hget : s.live.get? id with
    | none => exact h
    | some b =>
      dsimp only
      split
      · next hidle =>
        obtain ⟨hok, hcharged⟩ := JsonBuffer.write_ok (h.ok id b hget) hidle chunk
        exact ⟨h.balanced.update hget (by rw [hcharged]) h.balanced.within,
          contains_insert_ok h.ok hok⟩
      · exact h
  -- the charges move with the buffer
  | advance id allocated =>
    dsimp only [Replies.step]
    cases hget : s.live.get? id with
    | none => exact h
    | some b =>
      obtain ⟨hmoved, hwithin, hok, -⟩ :=
        JsonBuffer.advance_spec (h.ok id b hget) hlimit h.balanced.within allocated
      exact ⟨h.balanced.update hget hmoved hwithin, contains_insert_ok h.ok hok⟩
  -- a reply that is finished keeps its charge
  | finish id ok =>
    dsimp only [Replies.step]
    cases hget : s.live.get? id with
    | none => exact h
    | some b =>
      dsimp only
      split
      · next hidle =>
        have hb := h.ok id b hget
        have hphase := hb.phase
        unfold JsonBuffer.PhaseOk at hphase
        rw [hidle] at hphase
        refine ⟨h.balanced.update hget rfl h.balanced.within, contains_insert_ok h.ok ?_⟩
        cases ok with
        | false => exact ⟨hb.short, trivial⟩
        | true => exact ⟨hb.short, hphase⟩
      · exact h
  -- and gives it back when it is dropped
  | drop id =>
    dsimp only [Replies.step]
    cases hget : s.live.get? id with
    | none => exact h
    | some b =>
      dsimp only
      split
      · exact ⟨h.balanced.leave hlimit hget, erase_ok h.ok⟩
      · exact h

/-- A run goes on with one more step. -/
theorem Replies.run_concat (limit : ℕ) (actions : List ReplyAction) (action : ReplyAction) :
    Replies.run limit (actions ++ [action]) = (Replies.run limit actions).step limit action := by
  unfold Replies.run
  rw [List.foldl_concat]

/-- **Run lemma.** The replies account for what is charged. -/
theorem Replies.run_inv {limit : ℕ} (hlimit : limit < 2 ^ 64) (actions : List ReplyAction) :
    (Replies.run limit actions).Inv limit := by
  induction actions using List.reverseRecOn with
  | nil => exact ⟨Budget.Balanced.empty, nofun⟩
  | append_singleton actions action ih =>
    rw [Replies.run_concat]
    exact ih.step hlimit action

/-- A charge of this buffer failed for want of room. -/
def Refused (limit : ℕ) (actions : List ReplyAction) (id : ℕ) : Prop :=
  ∃ before allocated later b capacity, actions = before ++ .advance id allocated :: later ∧
    (Replies.run limit before).live.get? id = some b ∧ b.asked = some capacity ∧
    limit < (Replies.run limit before).used + (capacity - b.charged)

/-- A reply that was refused stays so. -/
theorem Refused.concat {limit : ℕ} {actions : List ReplyAction} {id : ℕ}
    (h : Refused limit actions id) (action : ReplyAction) :
    Refused limit (actions ++ [action]) id := by
  obtain ⟨before, allocated, later, b, capacity, rfl, hb⟩ := h
  exact ⟨before, allocated, later ++ [action], b, capacity, by simp, hb⟩

/-- **A buffer is busy only if one of its charges was refused.** -/
theorem Replies.busy_refused {limit : ℕ} (hlimit : limit < 2 ^ 64) (actions : List ReplyAction)
    (id : ℕ) (b : JsonBuffer) (hget : (Replies.run limit actions).live.get? id = some b)
    (hbusy : b.busy = true) : Refused limit actions id := by
  induction actions using List.reverseRecOn generalizing b with
  | nil => cases hget
  | append_singleton actions action ih =>
    have hinv := Replies.run_inv hlimit actions
    rw [Replies.run_concat] at hget
    -- a step that does not make the buffer busy leaves it as it was, or as busy as it was
    have hold : ∀ b₁, (Replies.run limit actions).live.get? id = some b₁ → b₁.busy = true →
        Refused limit (actions ++ [action]) id :=
      fun b₁ hget₁ hbusy₁ => (ih b₁ hget₁ hbusy₁).concat action
    cases action with
    -- a new reply is not busy
    | begin_ k =>
      dsimp only [Replies.step] at hget
      split at hget
      · exact hold b hget hbusy
      · rcases Table.get?_insert_some hget with ⟨-, rfl⟩ | hget
        · cases hbusy
        · exact hold b hget hbusy
    | write k chunk =>
      dsimp only [Replies.step] at hget
      split at hget
      · next b₁ hk =>
        split at hget
        · next hidle =>
          rcases Table.get?_insert_some hget with ⟨rfl, rfl⟩ | hget
          · refine hold b₁ hk ?_
            rw [← JsonBuffer.write_busy b₁ chunk]
            exact hbusy
          · exact hold b hget hbusy
        · exact hold b hget hbusy
      · exact hold b hget hbusy
    -- only here may a buffer become busy: its charge did not fit
    | advance k allocated =>
      dsimp only [Replies.step] at hget
      split at hget
      · next b₁ hk =>
        rcases Table.get?_insert_some hget with ⟨rfl, rfl⟩ | hget
        · obtain ⟨-, -, -, hrefused⟩ :=
            JsonBuffer.advance_spec (hinv.ok id b₁ hk) hlimit hinv.balanced.within allocated
          rcases hrefused hbusy with hbusy₁ | ⟨capacity, hasked, hfull⟩
          · exact hold b₁ hk hbusy₁
          · exact ⟨actions, allocated, [], b₁, capacity, rfl, hk, hasked, hfull⟩
        · exact hold b hget hbusy
      · exact hold b hget hbusy
    | finish k ok =>
      dsimp only [Replies.step] at hget
      split at hget
      · next b₁ hk =>
        split at hget
        · rcases Table.get?_insert_some hget with ⟨rfl, rfl⟩ | hget
          · exact hold b₁ hk hbusy
          · exact hold b hget hbusy
        · exact hold b hget hbusy
      · exact hold b hget hbusy
    | drop k =>
      dsimp only [Replies.step] at hget
      split at hget
      · split at hget
        · rw [Table.get?_erase] at hget
          split at hget
          · cases hget
          · exact hold b hget hbusy
        · exact hold b hget hbusy
      · exact hold b hget hbusy

/-! ### Both budgets

The two machines share the invariant and differ in their steps. -/

/-- **Budgets never drift.**  After any interleaving of the steps of the values the counter is the
sum of what the values that are alive were charged; it is within the limit, and zero when no value
is left.  What a value gives back was charged, so the subtraction does not wrap.  A buffer that was
handed out is charged for its capacity, and a reply fails as busy only if a charge of it would have
exceeded the limit. -/
theorem budgets_balanced (limit : ℕ) (hlimit : limit < 2 ^ 64) :
    (∀ actions, let s := Payloads.run actions
      s.used = Budget.total Retained.charged s.live ∧ s.used ≤ retainedPayloadBytes ∧
      (s.live.entries = [] → s.used = 0) ∧
      (∀ id v, s.live.get? id = some v → v.charged ≤ s.used ∧
        Budget.release s.used v.charged = s.used - v.charged) ∧
      ∀ id p, s.live.get? id = some (.payload p) → p.phase = .retained →
        p.data = p.raw ∧ p.data.length ≤ p.capacity ∧ p.capacity ≤ p.charged) ∧
    ∀ actions, let s := Replies.run limit actions
      s.used = Budget.total JsonBuffer.charged s.live ∧ s.used ≤ limit ∧
      (s.live.entries = [] → s.used = 0) ∧
      ∀ id b, s.live.get? id = some b →
        (b.charged ≤ s.used ∧ Budget.release s.used b.charged = s.used - b.charged) ∧
        (b.status = some 200 → b.data.length ≤ b.capacity ∧ b.capacity ≤ b.charged) ∧
        (b.status = some 503 → Refused limit actions id) := by
  have hempty : ∀ {α : Type} {charged : α → ℕ} {bound : ℕ} {s : Budget ℕ α},
      Budget.Balanced charged bound s → s.live.entries = [] → s.used = 0 := by
    intro α charged bound s h hnone
    rw [h.used_eq, Budget.total, hnone]
    rfl
  -- the counters are sums, so without values they are zero
  constructor
  · intro actions
    have hinv := Payloads.run_inv actions
    have hwithin := hinv.balanced.within
    have hbytes : retainedPayloadBytes < 2 ^ 64 := by decide
    refine ⟨hinv.balanced.used_eq, hwithin, hempty hinv.balanced, fun id v hget => ?_, ?_⟩
    · have hle := hinv.balanced.le_used hget
      exact ⟨hle, Budget.release_eq (by omega) hle⟩
    · intro id p hget hretained
      have hok : p.Ok := hinv.ok id _ hget
      unfold RetainedPayload.Ok at hok
      rw [hretained] at hok
      exact hok
  · intro actions
    have hinv := Replies.run_inv hlimit actions
    have hwithin := hinv.balanced.within
    refine ⟨hinv.balanced.used_eq, hwithin, hempty hinv.balanced, fun id b hget => ?_⟩
    have hle := hinv.balanced.le_used hget
    refine ⟨⟨hle, Budget.release_eq (by omega) hle⟩, fun hstatus => ?_, fun hstatus => ?_⟩
    -- a reply is sent with what it was charged for
    · have hphase := (hinv.ok id b hget).phase
      unfold JsonBuffer.PhaseOk at hphase
      unfold JsonBuffer.status at hstatus
      cases hb : b.phase with
      | replied =>
        rw [hb] at hphase
        exact ⟨hphase.1, hphase.2.1⟩
      | failed =>
        rw [hb] at hstatus
        dsimp only at hstatus
        split at hstatus <;> cases hstatus
      | _ =>
        rw [hb] at hstatus
        cases hstatus
    -- a reply that was refused is busy
    · refine Replies.busy_refused hlimit actions id b hget ?_
      unfold JsonBuffer.status at hstatus
      cases hb : b.phase with
      | failed =>
        rw [hb] at hstatus
        dsimp only at hstatus
        split at hstatus
        · assumption
        · cases hstatus
      | _ =>
        rw [hb] at hstatus
        cases hstatus

namespace BudgetsExample

/-- Two replies of three bytes; there is room for one of them. -/
def actions : List ReplyAction :=
  [.begin_ 0, .write 0 [34, 97, 34], .advance 0 none, .advance 0 (some 0), .finish 0 true,
    .begin_ 1, .write 1 [34, 98, 34], .advance 1 none]

/-- The second reply was refused while the first one held four bytes. -/
theorem second_refused :
    Refused 4 actions 1 ∧ (Replies.run 4 actions).used = 4 := by
  have hget : (Replies.run 4 actions).live.get? 1 = some ⟨[], 0, 0, true, .failed⟩ := by rfl
  obtain ⟨-, -, -, h⟩ := (budgets_balanced 4 (by decide)).2 actions
  exact ⟨(h 1 _ hget).2.2 rfl, by rfl⟩

end BudgetsExample

end Hmux.Gateway
