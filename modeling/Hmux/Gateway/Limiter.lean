import Hmux.Lib.Chrono
import Hmux.Lib.Sliding
import Hmux.Lib.Text

namespace Hmux.Gateway

open Lib
open Lib.Sliding (recent others timesOf inWindow)

/-!
# Login limits

The gateway admits five attempts in a minute for each source and each account
(`allow_attempt` of `auth_store.rs`), at the wall clock of the request.  `admission.rs` has the same
limiter for the monotonic clock.  Both are the sliding window of `Lib.Sliding`.

The wall clock is that of the system, which shows no leap second: `DateTime.ofNanos`.

* `allowAttempt`, `LoginLimiter.admit` — the code;
* `limiters_slide` — **what is admitted and what is refused**, over the whole history of all keys.
-/

/-! ### The code

The two limiters as they are written, one over the wall clock and one over the monotonic clock. -/

/-- `ChronoDuration::minutes(1)`. -/
def oneMinute : TimeDelta := ⟨60, 0, TimeDelta.zero_lt_second⟩

/-- The map of `allow_attempt`. -/
abbrev Attempts := Table String (List DateTime)

/-- `now.signed_duration_since(*attempt) < ChronoDuration::minutes(1)`. -/
def withinMinute (now attempt : DateTime) : Bool :=
  TimeDelta.lt (now.signedDurationSince attempt) oneMinute

/-- `allow_attempt`. -/
def allowAttempt (map : Attempts) (key : String) (now : DateTime) (cap : ℕ) : Bool × Attempts :=
  Sliding.attempt withinMinute 5 cap map key now

/-- Calls of `allow_attempt` one after the other. -/
def allowRun (cap : ℕ) (map : Attempts) : List (String × DateTime) → List Bool × Attempts
  | [] => ([], map)
  | (key, now) :: attempts =>
    let first := allowAttempt map key now cap
    let rest := allowRun cap first.2 attempts
    (first.1 :: rest.1, rest.2)

/-- `LOGIN_SOURCES`. -/
def loginSources : ℕ := 1024

/-- `LOGIN_ATTEMPTS`. -/
def loginAttempts : ℕ := 5

/-- `LOGIN_WINDOW`, in nanoseconds. -/
def loginWindow : ℕ := 60000000000

/-- `LoginLimiter`; an `Instant` is a number of nanoseconds. -/
structure LoginLimiter where
  attempts : Table String (List ℕ)

/-- `LoginLimiter::admit`. -/
def LoginLimiter.admit (l : LoginLimiter) (source : String) (now : ℕ) : Bool × LoginLimiter :=
  let source := if 80 < (bytes source).length then "unknown" else source
  let result :=
    Sliding.attempt (fun now t => now - t < loginWindow) loginAttempts loginSources l.attempts
      source now
  (result.1, ⟨result.2⟩)

/-- Calls of `admit` one after the other. -/
def LoginLimiter.run (l : LoginLimiter) : List (String × ℕ) → List Bool × LoginLimiter
  | [] => ([], l)
  | (source, now) :: attempts =>
    let first := l.admit source now
    let rest := LoginLimiter.run first.2 attempts
    (first.1 :: rest.1, rest.2)

/-! ### Both are the sliding window

With the clock of the system a difference of times is a difference of numbers, so the runs of the
code are runs of the library. -/

/-- A minute, in nanoseconds. -/
def minuteNanos : ℤ := 60000000000

theorem withinMinute_ofNanos (now t : ℤ) :
    withinMinute (DateTime.ofNanos now) (DateTime.ofNanos t) = inWindow minuteNanos now t := by
  have hminute : oneMinute = TimeDelta.nanoseconds minuteNanos := by decide
  unfold withinMinute DateTime.signedDurationSince
  rw [DateTime.since_ofNanos_ofNanos, hminute, TimeDelta.lt_nanoseconds]
  rfl

theorem allowRun_eq (cap : ℕ) (map : Attempts) (attempts : List (String × DateTime)) :
    allowRun cap map attempts = Sliding.run withinMinute 5 cap map attempts := by
  induction attempts generalizing map with
  | nil => rfl
  | cons a attempts ih =>
    rw [allowRun, Sliding.run, ih]
    rfl

/-- The wall clock in place of a number. -/
def atClock (a : String × ℤ) : String × DateTime := (a.1, DateTime.ofNanos a.2)

/-- The map of a run on numbers. -/
def clockMap (map : Table String (List ℤ)) : Attempts := map.mapValues (List.map DateTime.ofNanos)

theorem allowRun_clock (cap : ℕ) (map : Table String (List ℤ)) (attempts : List (String × ℤ)) :
    allowRun cap (clockMap map) (attempts.map atClock) =
      ((Sliding.run (inWindow minuteNanos) 5 cap map attempts).1,
        clockMap (Sliding.run (inWindow minuteNanos) 5 cap map attempts).2) := by
  rw [allowRun_eq]
  exact Sliding.run_map withinMinute_ofNanos 5 cap map attempts

theorem allowAttempt_clock (cap : ℕ) (map : Table String (List ℤ)) (key : String) (now : ℤ) :
    allowAttempt (clockMap map) key (DateTime.ofNanos now) cap =
      ((Sliding.attempt (inWindow minuteNanos) 5 cap map key now).1,
        clockMap (Sliding.attempt (inWindow minuteNanos) 5 cap map key now).2) :=
  Sliding.attempt_map withinMinute_ofNanos 5 cap map key now

/-- The monotonic clock saturates where the other one is negative, which both are in the window. -/
theorem inWindow_instant (boot : ℤ) (now t : ℕ) :
    inWindow minuteNanos (boot + now) (boot + t) = decide (now - t < loginWindow) := by
  unfold inWindow
  rw [decide_eq_decide]
  have hminute : minuteNanos = 60000000000 := rfl
  have hwindow : loginWindow = 60000000000 := rfl
  omega

theorem login_run_eq (l : LoginLimiter) (attempts : List (String × ℕ))
    (hshort : ∀ a ∈ attempts, (bytes a.1).length ≤ 80) :
    (l.run attempts).1 =
      (Sliding.run (fun now t => now - t < loginWindow) loginAttempts loginSources
      l.attempts attempts).1 := by
  induction attempts generalizing l with
  | nil => rfl
  | cons a attempts ih =>
    have hsource : ¬ 80 < (bytes a.1).length := Nat.not_lt.mpr (hshort a List.mem_cons_self)
    rw [LoginLimiter.run, Sliding.run, ih _ fun b hb => hshort b (List.mem_cons_of_mem _ hb)]
    unfold LoginLimiter.admit
    rw [if_neg hsource]

/-! ### What is admitted

The characterisation of the library, for both limiters. -/

/-- **Login limits slide.**  For calls in the order of time: in no minute are more than five
attempts of a key admitted, the map has no more than `cap` keys, and the next attempt is refused if
and only if five admitted attempts of its key are less than a minute old, or none is and `cap` other
keys have such an attempt; a refused attempt leaves the times of its key as they were.  The limiter
of the monotonic clock decides in the same way for sources that are not too long. -/
theorem limiters_slide :
    (∀ (cap : ℕ) (attempts : List (String × ℤ)), (attempts.map Prod.snd).Pairwise (· ≤ ·) →
      let ran := allowRun cap Table.empty (attempts.map atClock)
      let history := Sliding.admitted attempts ran.1
      (∀ key start,
        (timesOf history key).countP (fun t => start ≤ t ∧ t < start + minuteNanos) ≤ 5) ∧
      ran.2.entries.length ≤ cap ∧
      ∀ key now, (∀ a ∈ attempts, a.2 ≤ now) →
        let next := allowAttempt ran.2 key (DateTime.ofNanos now) cap
        (next.1 = false ↔ 5 ≤ (recent minuteNanos history key now).length ∨
          (recent minuteNanos history key now = [] ∧
            cap ≤ (others minuteNanos history key now).card)) ∧
        (next.1 = false → (next.2.get? key).getD [] =
          (recent minuteNanos history key now).map DateTime.ofNanos)) ∧
    ∀ (attempts : List (String × ℕ)) (boot : ℤ), (∀ a ∈ attempts, (bytes a.1).length ≤ 80) →
      (LoginLimiter.run ⟨Table.empty⟩ attempts).1 =
        (allowRun 1024 Table.empty (attempts.map fun a => atClock (a.1, boot + a.2))).1 := by
  have hempty : (Table.empty : Attempts) = clockMap Table.empty := rfl
  constructor
  -- the general window of instants, read through the clock of the limiter
  · intro cap attempts hsorted
    obtain ⟨hinv, hbounded, hcount⟩ :=
      Sliding.run_spec (by decide : 0 < minuteNanos) (by decide : 0 < 5) attempts hsorted
    dsimp only
    rw [hempty, allowRun_clock]
    dsimp only
    refine ⟨hcount, ?_, fun key now hnow => ?_⟩
    · unfold clockMap
      rw [Table.length_mapValues]
      exact hbounded
    · obtain ⟨-, hrefused, hshows⟩ :=
        (hinv now hnow).attempt (by decide : 0 < minuteNanos) (by decide : 0 < 5) (le_refl now) key
      rw [allowAttempt_clock]
      refine ⟨hrefused, fun h => ?_⟩
      unfold clockMap
      rw [Table.get?_mapValues, ← hshows h]
      cases (Sliding.attempt (inWindow minuteNanos) 5 cap _ key now).2.get? key <;> rfl
  -- the other limiter counts nanoseconds since its start: the same window, shifted by `boot`
  · intro attempts boot hshort
    have hmap : (attempts.map fun a => atClock (a.1, boot + a.2)) =
        (attempts.map fun a => (a.1, boot + (a.2 : ℤ))).map atClock := by
      rw [List.map_map]
      rfl
    rw [login_run_eq _ attempts hshort, hmap, hempty, allowRun_clock]
    have hrun := Sliding.run_map (f := fun t : ℕ => boot + (t : ℤ)) (inWindow_instant boot) 5 1024
      (Table.empty : Table String (List ℕ)) attempts
    exact (congrArg Prod.fst hrun).symm

namespace LimiterExample

/-- Six attempts of one source in a minute, and one of another. -/
def attempts : List (String × ℤ) :=
  [("a", 0), ("a", 1), ("a", 2), ("b", 2), ("a", 3), ("a", 4), ("a", 5)]

/-- The sixth attempt is refused, and so is one a minute after the first minus a nanosecond. -/
theorem sixth_refused :
    (allowRun 2 Table.empty (attempts.map atClock)).1 =
      [true, true, true, true, true, true, false] ∧
      (allowAttempt (allowRun 2 Table.empty (attempts.map atClock)).2 "a"
        (DateTime.ofNanos 59999999999) 2).1 = false ∧
      (allowRun 2 Table.empty (attempts.map atClock)).2.entries.length ≤ 2 ∧
      (LoginLimiter.run ⟨Table.empty⟩ [("a", 0)]).1 = [true] := by
  have h := limiters_slide.1 2 attempts (by decide)
  have hdecisions : (allowRun 2 Table.empty (attempts.map atClock)).1 =
      [true, true, true, true, true, true, false] := by decide
  refine ⟨hdecisions, ?_, h.2.1, ?_⟩
  · refine (h.2.2 "a" 59999999999 (by decide)).1.mpr (.inl ?_)
    rw [hdecisions]
    decide
  · rw [limiters_slide.2 [("a", 0)] 0 (by decide)]
    decide

end LimiterExample

end Hmux.Gateway
