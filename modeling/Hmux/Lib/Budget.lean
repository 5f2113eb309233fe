import Hmux.Lib.Table
import Mathlib.Algebra.BigOperators.Group.List.Basic
import Mathlib.Algebra.Order.Ring.Nat

namespace Hmux.Lib

/-!
# A counter that values share

Values that are alive charge what they hold to one machine counter with a limit, and give it back
when they go.  Giving back is a wrapping subtraction, so a value that gives back more than it was
charged would fill the counter up.

* `Budget.charge`, `Budget.release` — the operations on the counter;
* `Budget.Balanced` — **the counter is the sum of the charges** and within its limit;
* `Balanced.enter`, `Balanced.update`, `Balanced.leave` — what keeps it so.

Several threads may charge and release at once; each of the two is one atomic step, so the
invariant has to hold between any two of them and says nothing about who comes first.  A value that
is alive is a key of the table, and its charge is what is found there.
-/

/-- The counter and the values that are alive. -/
structure Budget (ι α : Type) where
  used : ℕ
  live : Table ι α

namespace Budget

/-- `fetch_update` with a `checked_add` that stays within the limit. -/
def charge (limit used extra : ℕ) : Option ℕ :=
  if used + extra < 2 ^ 64 ∧ used + extra ≤ limit then some (used + extra) else none

/-- `fetch_sub`, which wraps. -/
def release (used charged : ℕ) : ℕ := (used + (2 ^ 64 - charged % 2 ^ 64)) % 2 ^ 64

theorem charge_eq_some {limit used extra next : ℕ} (h : charge limit used extra = some next) :
    next = used + extra ∧ next ≤ limit := by
  unfold charge at h
  split at h
  · next hfits =>
    obtain rfl := Option.some.inj h
    exact ⟨rfl, hfits.2⟩
  · cases h

/-- A charge fails only for want of room. -/
theorem charge_eq_none {limit used extra : ℕ} (hlimit : limit < 2 ^ 64) :
    charge limit used extra = none ↔ limit < used + extra := by
  unfold charge
  constructor
  · intro h
    split at h
    · cases h
    · omega
  · intro h
    rw [if_neg (by omega)]

/-- What was charged is given back. -/
theorem release_eq {used charged : ℕ} (hused : used < 2 ^ 64) (hle : charged ≤ used) :
    release used charged = used - charged := by
  unfold release
  omega

variable {ι α : Type} [DecidableEq ι] (charged : α → ℕ)

/-- What the values were charged. -/
def total (live : Table ι α) : ℕ := (live.entries.map fun e => charged e.2).sum

/-- The counter is the sum of the charges. -/
structure Balanced (limit : ℕ) (b : Budget ι α) : Prop where
  used_eq : b.used = total charged b.live
  within : b.used ≤ limit

/-- No value, no charge. -/
def empty : Budget ι α := ⟨0, Table.empty⟩

variable {charged} {live : Table ι α} {key : ι} {v v' : α} {limit used : ℕ}

theorem total_erase (h : live.get? key = some v) :
    total charged (live.erase key) + charged v = total charged live := by
  have hperm := List.filter_append_perm (fun e : ι × α => decide (e.1 = key)) live.entries
  have hsum := (hperm.map fun e => charged e.2).sum_eq
  rw [List.map_append, List.sum_append, Table.filter_key, h, Option.map_some, Option.toList_some,
    List.map_singleton, List.sum_singleton] at hsum
  dsimp only at hsum
  have herase : (live.erase key).entries =
      live.entries.filter fun e => !decide (e.1 = key) := by
    show live.entries.filter (fun e => decide (e.1 ≠ key)) = _
    apply List.filter_congr
    intro e _
    exact decide_not
  unfold total
  rw [herase]
  omega

theorem total_erase_of_none (h : live.get? key = none) :
    total charged (live.erase key) = total charged live := by
  have herase : (live.erase key).entries = live.entries := by
    show live.entries.filter (fun e => decide (e.1 ≠ key)) = _
    rw [List.filter_eq_self]
    rintro ⟨k, a⟩ hmem
    apply decide_eq_true
    rintro rfl
    rw [Table.mem_entries.mp hmem] at h
    cases h
  unfold total
  rw [herase]

theorem total_insert :
    total charged (live.insert key v) = charged v + total charged (live.erase key) :=
  List.sum_cons

/-- The charge of a value is part of the sum. -/
theorem le_total (h : live.get? key = some v) : charged v ≤ total charged live := by
  have herase : total charged (live.erase key) + charged v = total charged live := total_erase h
  omega

namespace Balanced

omit [DecidableEq ι] in
theorem empty : Balanced charged limit (Budget.empty : Budget ι α) := ⟨rfl, Nat.zero_le _⟩

/-- A value that is not charged for yet. -/
theorem enter {b : Budget ι α} (h : Balanced charged limit b) (hnew : b.live.get? key = none)
    (hzero : charged v = 0) : Balanced charged limit ⟨b.used, b.live.insert key v⟩ := by
  refine ⟨?_, h.within⟩
  show b.used = _
  rw [total_insert, total_erase_of_none hnew, hzero, Nat.zero_add, h.used_eq]

/-- A value that was charged for at once. -/
theorem enter_charged {b : Budget ι α} (h : Balanced charged limit b)
    (hnew : b.live.get? key = none) (hcharge : Budget.charge limit b.used (charged v) = some used) :
    Balanced charged limit ⟨used, b.live.insert key v⟩ := by
  obtain ⟨hused, hlimit⟩ := charge_eq_some hcharge
  refine ⟨?_, hlimit⟩
  show used = _
  rw [total_insert, total_erase_of_none hnew, hused, h.used_eq]
  omega

/-- A value whose charge moves with the counter. -/
theorem update {b : Budget ι α} (h : Balanced charged limit b) (hget : b.live.get? key = some v)
    (hused : used + charged v = b.used + charged v') (hlimit : used ≤ limit) :
    Balanced charged limit ⟨used, b.live.insert key v'⟩ := by
  refine ⟨?_, hlimit⟩
  show used = _
  have herase : total charged (b.live.erase key) + charged v = total charged b.live :=
    total_erase hget
  have hused_eq := h.used_eq
  rw [total_insert]
  omega

/-- The subtraction does not wrap. -/
theorem le_used {b : Budget ι α} (h : Balanced charged limit b)
    (hget : b.live.get? key = some v) : charged v ≤ b.used :=
  h.used_eq ▸ le_total hget

/-- A value that goes gives back its charge. -/
theorem leave {b : Budget ι α} (h : Balanced charged limit b) (hlimit : limit < 2 ^ 64)
    (hget : b.live.get? key = some v) :
    Balanced charged limit ⟨release b.used (charged v), b.live.erase key⟩ := by
  have hle := h.le_used hget
  have hwithin := h.within
  have hrelease : release b.used (charged v) = b.used - charged v :=
    release_eq (by omega) hle
  have herase : total charged (b.live.erase key) + charged v = total charged b.live :=
    total_erase hget
  have hused_eq := h.used_eq
  constructor
  · show release b.used (charged v) = total charged (b.live.erase key)
    omega
  · show release b.used (charged v) ≤ limit
    omega

end Balanced

end Budget

end Hmux.Lib
