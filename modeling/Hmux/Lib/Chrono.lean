import Mathlib.Data.Int.Basic
import Mathlib.Tactic.Common

namespace Hmux.Lib

/-!
# Wall-clock instants with leap seconds

A UTC instant as `chrono` represents it: a day, a second of that day, and a nanosecond part
that reaches past one second (10⁹ nanoseconds) inside a leap second.  The difference of two instants
counts a leap second only when it lies strictly inside the interval, so differences are linear up to
one second (`since_ofNanos`); that slack is all the proofs about freshness windows need.

A difference is a `TimeDelta`, which is compared field by field; as a number of nanoseconds it
may not fit into 64 bits.

* `TimeDelta.numNanoseconds_any` — within bounds that fit, the two ways to compare agree.
-/

/-- A UTC instant. -/
structure DateTime where
  day : ℤ
  secs : ℕ
  frac : ℕ
  secs_lt : secs < 86400
  frac_lt : frac < 2000000000
  deriving DecidableEq

namespace DateTime

/-- `<`, field by field. -/
def before (t u : DateTime) : Bool :=
  t.day < u.day || (t.day == u.day && (t.secs < u.secs || (t.secs == u.secs && t.frac < u.frac)))

theorem before_iff {t u : DateTime} : t.before u = true ↔ t.day < u.day ∨
    t.day = u.day ∧ (t.secs < u.secs ∨ t.secs = u.secs ∧ t.frac < u.frac) := by
  unfold before
  simp only [Bool.or_eq_true, Bool.and_eq_true, decide_eq_true_eq, beq_iff_eq]

theorem before_trans {t u v : DateTime} (htu : t.before u = true) (huv : u.before v = true) :
    t.before v = true := by
  rw [before_iff] at htu huv ⊢
  omega

theorem before_asymm {t u : DateTime} (h : t.before u = true) : u.before t = false := by
  rw [← Bool.not_eq_true, before_iff]
  rw [before_iff] at h
  omega

/-- Of two instants one comes first. -/
theorem before_or_before {t u : DateTime} (h : t ≠ u) : t.before u = true ∨ u.before t = true := by
  by_contra hnone
  rw [not_or, before_iff, before_iff] at hnone
  apply h
  cases t
  cases u
  rw [DateTime.mk.injEq]
  dsimp only at hnone
  omega

/-- `min`. -/
def min (t u : DateTime) : DateTime := if u.before t then u else t

/-- `max`. -/
def max (t u : DateTime) : DateTime := if u.before t then t else u

/-- Nanoseconds since day 0, leap seconds not counted. -/
def nanos (t : DateTime) : ℤ := (t.day * 86400 + t.secs) * 1000000000 + t.frac

/-- The instant lies in a leap second. -/
def leap (t : DateTime) : Bool := 1000000000 ≤ t.frac

/-- `signed_duration_since`, in nanoseconds. -/
def since (t u : DateTime) : ℤ :=
  let secs : ℤ := t.secs - u.secs
  let secs :=
    if u.secs < t.secs && u.leap then secs + 1
    else if t.secs < u.secs && t.leap then secs - 1
    else secs
  ((t.day - u.day) * 86400 + secs) * 1000000000 + (t.frac - u.frac)

/-- The instant `n` nanoseconds after day 0, as a system clock reports it. -/
def ofNanos (n : ℤ) : DateTime where
  day := n / (86400 * 1000000000)
  secs := (n % (86400 * 1000000000) / 1000000000).toNat
  frac := (n % 1000000000).toNat
  secs_lt := by
    have h := Int.emod_lt_of_pos n (show (0 : ℤ) < 86400 * 1000000000 by decide)
    omega
  frac_lt := by
    have h := Int.emod_lt_of_pos n (show (0 : ℤ) < 1000000000 by decide)
    omega

theorem nanos_ofNanos (n : ℤ) : (ofNanos n).nanos = n := by
  simp only [nanos, ofNanos]
  omega

theorem leap_ofNanos (n : ℤ) : (ofNanos n).leap = false := by
  have h := Int.emod_lt_of_pos n (show (0 : ℤ) < 1000000000 by decide)
  rw [leap, decide_eq_false_iff_not]
  simp only [ofNanos]
  omega

/-- A system-clock instant is apart from any other by the plain difference, plus one second
    when a leap second lies between them. -/
theorem since_ofNanos (n : ℤ) (t : DateTime) :
    (ofNanos n).since t = n - t.nanos ∨ (ofNanos n).since t = n - t.nanos + 1000000000 := by
  have hn := nanos_ofNanos n
  rw [nanos] at hn
  simp only [since, leap_ofNanos, Bool.and_false, Bool.false_eq_true, if_false, nanos]
  split
  · right; omega
  · left; omega

/-- Two system-clock instants are apart by the plain difference. -/
theorem since_ofNanos_ofNanos (m n : ℤ) : (ofNanos m).since (ofNanos n) = m - n := by
  have hm := nanos_ofNanos m
  have hn := nanos_ofNanos n
  rw [nanos] at hm hn
  simp only [since, leap_ofNanos, Bool.and_false, Bool.false_eq_true, if_false]
  omega

theorem since_symm (n : ℤ) (t : DateTime) : t.since (ofNanos n) = -(ofNanos n).since t := by
  simp only [since, leap_ofNanos, Bool.and_false, Bool.false_eq_true, if_false]
  split <;> omega

end DateTime

/-! ### Differences

`chrono` keeps a difference as seconds and nanoseconds, and callers compare either the fields or a
number of nanoseconds that may not fit.  Both ways are here, with the bounds within which they say
the same. -/

/-- `chrono::TimeDelta`: whole seconds and a part of a second that is not negative. -/
structure TimeDelta where
  secs : ℤ
  nanos : ℕ
  nanos_lt : nanos < 1000000000
  deriving DecidableEq

namespace TimeDelta

/-- The difference of this many nanoseconds. -/
def nanoseconds (n : ℤ) : TimeDelta where
  secs := n / 1000000000
  nanos := (n % 1000000000).toNat
  nanos_lt := by
    have h := Int.emod_lt_of_pos n (show (0 : ℤ) < 1000000000 by decide)
    omega

theorem zero_lt_second : 0 < 1000000000 := by decide

/-- `hours`. -/
def hours (n : ℤ) : TimeDelta := ⟨n * 3600, 0, zero_lt_second⟩

/-- `<`, field by field. -/
def lt (a b : TimeDelta) : Bool := a.secs < b.secs || (a.secs == b.secs && a.nanos < b.nanos)

/-- A number fits into an `i64`. -/
def fits (n : ℤ) : Bool := -9223372036854775808 ≤ n && n ≤ 9223372036854775807

/-- `num_seconds`: rounded towards zero. -/
def numSeconds (a : TimeDelta) : ℤ := if a.secs < 0 && 0 < a.nanos then a.secs + 1 else a.secs

/-- `subsec_nanos`: with the sign of the difference. -/
def subsecNanos (a : TimeDelta) : ℤ :=
  if a.secs < 0 && 0 < a.nanos then a.nanos - 1000000000 else a.nanos

/-- `num_nanoseconds`. -/
def numNanoseconds (a : TimeDelta) : Option ℤ :=
  if !fits (a.numSeconds * 1000000000) then none
  else if !fits (a.numSeconds * 1000000000 + a.subsecNanos) then none
  else some (a.numSeconds * 1000000000 + a.subsecNanos)

/-- The parts of a difference add up. -/
theorem parts_nanoseconds (n : ℤ) :
    (nanoseconds n).numSeconds * 1000000000 + (nanoseconds n).subsecNanos = n := by
  unfold numSeconds subsecNanos nanoseconds
  dsimp only
  split <;> omega

theorem lt_nanoseconds (m n : ℤ) : lt (nanoseconds m) (nanoseconds n) = decide (m < n) := by
  rw [Bool.eq_iff_iff]
  unfold lt nanoseconds
  simp only [Bool.or_eq_true, Bool.and_eq_true, decide_eq_true_eq, beq_iff_eq]
  omega

/-- **Within bounds that fit**, comparing the number of nanoseconds is comparing the
    difference. -/
theorem numNanoseconds_any {low high : ℤ} (hlow : 0 ≤ low) (hhigh : high ≤ 9223372036854775807)
    (n : ℤ) :
    ((nanoseconds n).numNanoseconds.any fun ns => low < ns && ns ≤ high)
      = (lt (nanoseconds low) (nanoseconds n) && !lt (nanoseconds high) (nanoseconds n)) := by
  have hparts := parts_nanoseconds n
  have hsecs : 0 < n → (nanoseconds n).numSeconds * 1000000000 ≤ n ∧
      0 ≤ (nanoseconds n).numSeconds := by
    intro hn
    have hneg : ¬n / 1000000000 < 0 := by omega
    unfold numSeconds nanoseconds
    dsimp only
    rw [decide_eq_false hneg, Bool.false_and, if_neg Bool.false_ne_true]
    omega
  rw [lt_nanoseconds, lt_nanoseconds, Bool.eq_iff_iff]
  unfold numNanoseconds fits
  rw [hparts]
  -- a number that does not fit is out of the bounds
  split
  · rename_i hfit
    simp only [Bool.not_eq_true', Bool.and_eq_false_iff, decide_eq_false_iff_not] at hfit
    simp only [Option.any_none, Bool.false_eq_true, false_iff, Bool.and_eq_true, decide_eq_true_eq,
      Bool.not_eq_true', decide_eq_false_iff_not]
    omega
  · split
    · rename_i hfit
      simp only [Bool.not_eq_true', Bool.and_eq_false_iff, decide_eq_false_iff_not] at hfit
      simp only [Option.any_none, Bool.false_eq_true, false_iff, Bool.and_eq_true,
        decide_eq_true_eq, Bool.not_eq_true', decide_eq_false_iff_not]
      omega
    · simp only [Option.any_some, Bool.and_eq_true, decide_eq_true_eq, Bool.not_eq_true',
        decide_eq_false_iff_not]
      omega

end TimeDelta

/-- `signed_duration_since`. -/
def DateTime.signedDurationSince (t u : DateTime) : TimeDelta := .nanoseconds (t.since u)

end Hmux.Lib
