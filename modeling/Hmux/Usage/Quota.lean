import Mathlib.Data.UInt
import Hmux.Lib.Civil
import Hmux.Lib.Machine
import Hmux.Usage.Transport

namespace Hmux.Usage

open Lib Pb

/-!
# The quota cache of one provider

`quota_state.rs`: whether Home fetches, serves what it has or waits, and what it makes of the
result of a fetch.  A fetch is identified by its ticket; the state holds the latest snapshot, the
last good one and the end of a suspension, all of them for one account.

Instants are nanoseconds since the start of 1970 and differences are plain differences: `now` is
a reading of the system clock.  What an operation may do is said once, in `begin_step` and
`finish_step`.
-/

/-- So many seconds in nanoseconds. -/
def seconds (n : ℤ) : ℤ := n * 1000000000

/-- `CACHE_TTL`. -/
def cacheTtl : ℤ := seconds 60

/-- `STICKY_TTL`. -/
def stickyTtl : ℤ := seconds 600

/-- `FALLBACK_BACKOFF`. -/
def fallbackBackoff : ℤ := seconds 300

/-- `MAX_BACKOFF`. -/
def maxBackoff : ℤ := seconds (24 * 60 * 60)

/-- `AccountKey`, a digest. -/
structure AccountKey where
  digest : Vector UInt8 32
  deriving DecidableEq

/-- `FetchTicket`. -/
structure FetchTicket where
  id : UInt64
  account : Option AccountKey
  startedAt : ℤ
  seq : Int64
  deriving DecidableEq

/-- `Begin`. -/
inductive Begin
  | fetch (ticket : FetchTicket)
  | cached (snap : Snapshot)
  | inFlight

/-- `Failure`; a duration is in nanoseconds. -/
inductive Failure
  | credentialMissing | credentialMalformed | credentialIo | unauthorized
  | rateLimited (retryAfter : Option ℤ)
  | network | server | contract
  deriving DecidableEq

/-- `Finish`. -/
inductive Finish
  | applied (snap : Snapshot)
  | rejectedSnapshot (snap : Snapshot)
  | discarded

/-- `QuotaState`. -/
structure QuotaState where
  provider : Provider
  account : Option AccountKey
  seq : Int64
  ticketId : UInt64
  flight : Option FetchTicket
  latest : Option Snapshot
  lastFetchAt : Option ℤ
  lastGood : Option (Snapshot × ℤ)
  suspendedUntil : Option ℤ
  lastAttempt : Option ℤ
  lastSuccess : Option ℤ
  lastError : Option ℤ
  lastErrorKind : Option String
  lastState : Option String

/-! ### Texts

The texts that a snapshot shows for times and failures. -/

/-- `format_time`. -/
def formatTime (now : ℤ) : String := Civil.rfc3339 3 now

/-- `Snapshot::degraded`. -/
def Snapshot.degraded (provider : Provider) (seq : Int64) (now : ℤ) (state : String) : Snapshot :=
  { schema := 1, seq, generatedAtUtc := formatTime now, provider, planType := "",
    burnRatePerMin := ⟨0⟩, burnState := "idle", todayTotalTokens := 0, todaySessions := 0,
    rolling5h := default, weekly := default, rolling5hObserved := false, weeklyObserved := false,
    status := { quotaWeighting := "", state, dataSource := "api_only", quotaSource := "none",
                stale := true, quotaObservedAt := none, retryAt := none },
    accounts := [], accountsUpdatedAt := none, sources := [] }

/-- `auth_state`. -/
def authState : Provider → String
  | .claude => "authExpired"
  | .codex => "codexLoggedOut"

/-- `retry_at`: a deadline whose text is not after that of the snapshot is left out. -/
def retryAt (deadline generatedAt : ℤ) : Option String :=
  if deadline ≤ generatedAt then none
  else if formatTime generatedAt < formatTime deadline then some (formatTime deadline) else none

/-! ### Operations

The functions of the source; `begin` decides what to do next, `finish` takes the result of a fetch.
-/

namespace QuotaState

/-- `QuotaState::new`. -/
def new (provider : Provider) : QuotaState :=
  { provider, account := none, seq := 0, ticketId := 0, flight := none, latest := none,
    lastFetchAt := none, lastGood := none, suspendedUntil := none, lastAttempt := none,
    lastSuccess := none, lastError := none, lastErrorKind := none, lastState := none }

/-- The start of `begin`: a change of the key drops what belongs to the other account. -/
def switch (s : QuotaState) (key : Option AccountKey) : QuotaState :=
  if s.account = key then s
  else { s with account := key, flight := none, latest := none, lastFetchAt := none,
                lastGood := none, suspendedUntil := none, lastState := none }

/-- `emit`. -/
def emit (s : QuotaState) (snap : Snapshot) (now : ℤ) : Snapshot × QuotaState :=
  let seq := saturatingSucc s.seq
  let snap := { snap with seq, generatedAtUtc := formatTime now }
  (snap, { s with seq, latest := some snap })

/-- `degraded`. -/
def degraded (s : QuotaState) (state : String) (now : ℤ) (retry : Option String) :
    Snapshot × QuotaState :=
  let snap := Snapshot.degraded s.provider s.seq now state
  ({ snap with status := { snap.status with retryAt := retry } },
    { s with lastState := some state })

/-- The last good snapshot as long as it may be shown. -/
def good (s : QuotaState) (now : ℤ) : Option Snapshot :=
  s.lastGood.bind fun p => if now - p.2 < stickyTtl then some p.1 else none

/-- The last good snapshot as it is shown in place of a newer one. -/
def stale (good : Snapshot) (retry : Option String) : Snapshot :=
  { good with status := { good.status with stale := true, retryAt := retry } }

/-- `begin` once the key is that of the state. -/
def resume (s : QuotaState) (key : Option AccountKey) (now : ℤ) : Begin × QuotaState :=
  if s.flight.isSome then (.inFlight, s)
  else
    let suspended := key.isSome && s.suspendedUntil.any fun t => now < t
    let expiredSuspension := s.suspendedUntil.isSome && !suspended
    let s := if expiredSuspension then { s with suspendedUntil := none } else s
    let cacheValid := key.isSome && !expiredSuspension &&
      s.lastFetchAt.any fun t => now - t < cacheTtl
    match if cacheValid then s.latest else none with
    | some snap =>
      let (snap, s) := s.emit snap now
      (.cached snap, s)
    | none =>
      if suspended then
        let retry := s.suspendedUntil.bind fun t => retryAt t now
        let (snap, s) :=
          match s.good now with
          | some good => (stale good retry, s)
          | none => s.degraded "rateLimited" now retry
        let (snap, s) := s.emit snap now
        (.cached snap, s)
      else
        let ticket : FetchTicket :=
          { id := s.ticketId + 1, account := key, startedAt := now, seq := saturatingSucc s.seq }
        (.fetch ticket,
          { s with seq := ticket.seq, ticketId := ticket.id, flight := some ticket,
                   lastFetchAt := some now, lastAttempt := some now })

/-- `begin`. -/
def begin (s : QuotaState) (key : Option AccountKey) (now : ℤ) : Begin × QuotaState :=
  (s.switch key).resume key now

/-- How long a rate limit suspends the account. -/
def backoff (retryAfter : Option ℤ) : ℤ :=
  match retryAfter.filter fun d => 0 < d with
  | some d => min d maxBackoff
  | none => fallbackBackoff

/-- The state, the kind and whether the last good snapshot may stand in, of a failure. -/
def classify (provider : Provider) : Failure → String × String × Bool
  | .credentialMissing => (authState provider, "credential_missing", false)
  | .credentialMalformed => ("quotaEndpointChanged", "credential_contract", false)
  | .credentialIo => ("networkError", "credential_io", true)
  | .unauthorized => (authState provider, "auth_rejected", false)
  | .rateLimited _ => ("rateLimited", "rate_limited", true)
  | .network => ("networkError", "network", true)
  | .server => ("networkError", "upstream_server", true)
  | .contract => ("quotaEndpointChanged", "upstream_contract", false)

/-- The suspension that a failure starts, and the retry time that is shown. -/
def suspend (s : QuotaState) (failure : Failure) (now : ℤ) : Option String × QuotaState :=
  match failure with
  | .rateLimited retryAfter =>
    let deadline := now + backoff retryAfter
    (retryAt deadline now, { s with suspendedUntil := s.account.map fun _ => deadline })
  | _ => (none, s)

/-- `failure`. -/
def failure (s : QuotaState) (failure : Failure) (now : ℤ) : Snapshot × QuotaState :=
  let (state, kind, transient) := classify s.provider failure
  let s := { s with lastError := some now, lastErrorKind := some kind }
  let (retry, s) := s.suspend failure now
  let (snap, s) :=
    match if transient && s.account.isSome then s.good now else none with
    | some good => (stale good retry, { s with lastState := some "ok" })
    | none => s.degraded state now retry
  let snap := { snap with seq := s.seq, generatedAtUtc := formatTime now }
  (snap, { s with latest := some snap })

section

variable (parseTime : String → Option DateTime)

/-- `valid_success`. -/
def validSuccess (s : QuotaState) (raw : Snapshot) : Bool :=
  raw.provider == s.provider && raw.status.state == "ok" && !raw.status.stale &&
    raw.status.quotaSource == "oauth_api" && raw.status.dataSource == "api_only" &&
    raw.status.retryAt.isNone && raw.accounts.isEmpty && raw.accountsUpdatedAt.isNone &&
    raw.sources.isEmpty && (raw.burnRatePerMin.bits == 0 || raw.burnRatePerMin.bits == 2 ^ 63) &&
    raw.burnState == "idle" && raw.todayTotalTokens == 0 && raw.todaySessions == 0 &&
    (validate parseTime raw).isOk

/-- A success as it is applied. -/
def stamp (raw : Snapshot) (ticket : FetchTicket) (now : ℤ) : Snapshot :=
  { raw with
    seq := ticket.seq
    generatedAtUtc := formatTime now
    status := { raw.status with
      quotaObservedAt := some (raw.status.quotaObservedAt.getD raw.generatedAtUtc)
      retryAt := none } }

/-- `finish`. -/
def finish (s : QuotaState) (ticket : FetchTicket) (result : Except Failure Snapshot) (now : ℤ) :
    Finish × QuotaState :=
  if s.flight ≠ some ticket ∨ s.account ≠ ticket.account then (.discarded, s)
  else
    let s := { s with flight := none }
    match result with
    | .ok raw =>
      if !s.validSuccess parseTime raw then
        let (snap, s) := s.failure .contract now
        (.rejectedSnapshot snap, s)
      else
        let raw := stamp raw ticket now
        (.applied raw, { s with latest := some raw, lastGood := some (raw, now),
                                suspendedUntil := none, lastSuccess := some now,
                                lastState := some "ok" })
    | .error f =>
      let (snap, s) := s.failure f now
      (.applied snap, s)

end

/-! ### What the operations do

Both operations as relations with few cases, which is all that the runs look at. -/

/-- A snapshot with the number and the time at which it is handed out. -/
def dated (snap : Snapshot) (seq : Int64) (now : ℤ) : Snapshot :=
  { snap with seq, generatedAtUtc := formatTime now }

/-- The snapshot that stands for a failure. -/
def failed (provider : Provider) (state : String) (retry : Option String) (seq : Int64) (now : ℤ) :
    Snapshot :=
  let snap := Snapshot.degraded provider seq now state
  { snap with status := { snap.status with retryAt := retry } }

/-- The ticket of the next fetch. -/
def ticket (s : QuotaState) (key : Option AccountKey) (now : ℤ) : FetchTicket :=
  { id := s.ticketId + 1, account := key, startedAt := now, seq := saturatingSucc s.seq }

/-- What `begin` may do in a state whose account is `key`. -/
inductive BeginStep (s : QuotaState) (key : Option AccountKey) (now : ℤ) :
    Begin → QuotaState → Prop
  /-- A fetch is under way. -/
  | inFlight : s.flight ≠ none → BeginStep s key now .inFlight s
  /-- The latest snapshot is handed out again. -/
  | cached (snap : Snapshot) (fetched : ℤ) : s.flight = none → key ≠ none →
      (∀ t, s.suspendedUntil = some t → now < t) → s.lastFetchAt = some fetched →
      now - fetched < cacheTtl → s.latest = some snap →
      BeginStep s key now (.cached (dated snap (saturatingSucc s.seq) now))
        { s with
          seq := saturatingSucc s.seq
          latest := some (dated snap (saturatingSucc s.seq) now) }
  /-- During a suspension the last good snapshot is shown. -/
  | sticky (good : Snapshot) (deadline applied : ℤ) : s.flight = none → key ≠ none →
      s.suspendedUntil = some deadline → now < deadline →
      (∀ t, s.lastFetchAt = some t → now - t < cacheTtl → s.latest = none) →
      s.lastGood = some (good, applied) → now - applied < stickyTtl →
      BeginStep s key now
        (.cached (dated (stale good (retryAt deadline now)) (saturatingSucc s.seq) now))
        { s with
          seq := saturatingSucc s.seq
          latest := some (dated (stale good (retryAt deadline now)) (saturatingSucc s.seq) now) }
  /-- During a suspension there is no good snapshot to show. -/
  | limited (deadline : ℤ) : s.flight = none → key ≠ none → s.suspendedUntil = some deadline →
      now < deadline → (∀ t, s.lastFetchAt = some t → now - t < cacheTtl → s.latest = none) →
      BeginStep s key now
        (.cached (failed s.provider "rateLimited" (retryAt deadline now)
          (saturatingSucc s.seq) now))
        { s with
          seq := saturatingSucc s.seq
          latest := some
            (failed s.provider "rateLimited" (retryAt deadline now) (saturatingSucc s.seq) now)
          lastState := some "rateLimited" }
  /-- A fetch starts. -/
  | fetch : s.flight = none → (∀ t, key ≠ none → s.suspendedUntil = some t → t ≤ now) →
      BeginStep s key now (.fetch (s.ticket key now))
        { s with
          seq := saturatingSucc s.seq
          ticketId := s.ticketId + 1
          flight := some (s.ticket key now)
          lastFetchAt := some now
          lastAttempt := some now
          suspendedUntil := none }

/-- The latest snapshot is not served when it is too old. -/
theorem cache_cases (s : QuotaState) (now : ℤ) :
    (∃ snap fetched, s.lastFetchAt = some fetched ∧ now - fetched < cacheTtl ∧
      s.latest = some snap ∧
      (if s.lastFetchAt.any fun t => now - t < cacheTtl then s.latest else none) = some snap) ∨
    ((∀ t, s.lastFetchAt = some t → now - t < cacheTtl → s.latest = none) ∧
      (if s.lastFetchAt.any fun t => now - t < cacheTtl then s.latest else none) = none) := by
  cases hfetch : s.lastFetchAt with
  | none => exact .inr ⟨fun t ht => (nomatch ht), by simp⟩
  | some fetched =>
    by_cases hfresh : now - fetched < cacheTtl
    · cases hlatest : s.latest with
      | none => exact .inr ⟨fun _ _ _ => rfl, by simp⟩
      | some snap => exact .inl ⟨snap, fetched, rfl, hfresh, rfl, by simp [hfresh]⟩
    · exact .inr ⟨fun t ht hlt => absurd (Option.some.inj ht ▸ hlt) hfresh, by simp [hfresh]⟩

/-- **What `begin` may do.** -/
theorem begin_step (s : QuotaState) (key : Option AccountKey) (now : ℤ) :
    BeginStep (s.switch key) key now (s.begin key now).1 (s.begin key now).2 := by
  unfold QuotaState.begin
  generalize s.switch key = s
  by_cases hflight : s.flight = none
  swap
  · have hresume : s.resume key now = (.inFlight, s) := by
      unfold resume
      rw [if_pos (Option.isSome_iff_ne_none.mpr hflight)]
    rw [hresume]
    exact .inFlight hflight
  have hnot : ¬s.flight.isSome = true := by rw [hflight]; exact Bool.false_ne_true
  by_cases hlive : key ≠ none ∧ ∃ t, s.suspendedUntil = some t ∧ now < t
  · -- the account is suspended
    obtain ⟨hkey, deadline, hsuspended, hlt⟩ := hlive
    have hkey' : key.isSome = true := Option.isSome_iff_ne_none.mpr hkey
    have hthen : ∀ t, s.suspendedUntil = some t → now < t := fun t ht => by
      rw [hsuspended] at ht
      exact Option.some.inj ht ▸ hlt
    unfold resume
    simp only [if_neg hnot, hkey', hsuspended, Option.any_some, hlt, decide_true, Bool.and_self,
      Option.isSome_some, Bool.not_true, Bool.and_false, Bool.false_eq_true, if_false,
      Bool.not_false, Bool.true_and, if_true, Option.bind_some]
    rcases cache_cases s now with ⟨snap, fetched, hfetched, hfresh, hlatest, heq⟩ | ⟨hold, heq⟩
    · rw [heq]
      exact .cached snap fetched hflight hkey hthen hfetched hfresh hlatest
    · rw [heq]
      dsimp only
      cases hgood : s.good now with
      | none => exact .limited deadline hflight hkey hsuspended hlt hold
      | some good =>
        obtain ⟨⟨snap, applied⟩, hlast, hif⟩ := Option.bind_eq_some_iff.mp hgood
        dsimp only at hif
        split at hif
        · rename_i hsticky
          cases hif
          exact .sticky _ deadline applied hflight hkey hsuspended hlt hold hlast hsticky
        · cases hif
  · have hsuspended : (key.isSome && s.suspendedUntil.any fun t => now < t) = false := by
      cases key with
      | none => rfl
      | some k =>
        cases hs : s.suspendedUntil with
        | none => rfl
        | some t =>
          have hnlt : ¬now < t := fun hlt => hlive ⟨Option.some_ne_none _, t, hs, hlt⟩
          simpa using hnlt
    have hpast : ∀ t, key ≠ none → s.suspendedUntil = some t → t ≤ now := fun t hkey ht =>
      not_lt.mp fun hlt => hlive ⟨hkey, t, ht, hlt⟩
    unfold resume
    simp only [if_neg hnot, hsuspended, Bool.not_false, Bool.and_true, Bool.false_eq_true, if_false]
    cases hs : s.suspendedUntil with
    | some t =>
      -- a suspension that ended makes the latest snapshot stale
      simp only [Option.isSome_some, if_true, Bool.not_true, Bool.and_false, Bool.false_and,
        Bool.false_eq_true, if_false]
      exact .fetch hflight hpast
    | none =>
      simp only [Option.isSome_none, Bool.false_eq_true, if_false, Bool.not_false, Bool.and_true]
      have hfetch : BeginStep s key now (.fetch (s.ticket key now))
          { s with seq := saturatingSucc s.seq, ticketId := s.ticketId + 1,
                   flight := some (s.ticket key now), lastFetchAt := some now,
                   lastAttempt := some now } := by
        have h : BeginStep s key now (.fetch (s.ticket key now)) _ := .fetch hflight hpast
        rw [← hs] at h
        exact h
      cases hkey : key with
      | none =>
        simp only [Option.isSome_none, Bool.false_and, Bool.false_eq_true, if_false]
        rw [hkey] at hfetch
        exact hfetch
      | some k =>
        simp only [Option.isSome_some, Bool.true_and]
        rcases cache_cases s now with ⟨snap, fetched, hfetched, hfresh, hlatest, heq⟩ | ⟨-, heq⟩
        · rw [heq]
          exact .cached snap fetched hflight (Option.some_ne_none k)
            (fun t ht => by rw [hs] at ht; cases ht) hfetched hfresh hlatest
        · rw [heq]
          rw [hkey] at hfetch
          exact hfetch

/-- The retry time that a failure shows. -/
def shownRetry (f : Failure) (now : ℤ) : Option String :=
  match f with
  | .rateLimited retryAfter => retryAt (now + backoff retryAfter) now
  | _ => none

/-- The end of the suspension after a failure. -/
def suspension (s : QuotaState) (f : Failure) (now : ℤ) : Option ℤ :=
  match f with
  | .rateLimited retryAfter => s.account.map fun _ => now + backoff retryAfter
  | _ => s.suspendedUntil

/-- What `failure` may do. -/
inductive FailStep (s : QuotaState) (f : Failure) (now : ℤ) : Snapshot → QuotaState → Prop
  /-- The last good snapshot stands in. -/
  | sticky (good : Snapshot) (applied : ℤ) : s.account ≠ none →
      s.lastGood = some (good, applied) → now - applied < stickyTtl →
      FailStep s f now (dated (stale good (shownRetry f now)) s.seq now)
        { s with
          lastError := some now
          lastErrorKind := some (classify s.provider f).2.1
          suspendedUntil := s.suspension f now
          lastState := some "ok"
          latest := some (dated (stale good (shownRetry f now)) s.seq now) }
  /-- The failure is shown. -/
  | shown :
      FailStep s f now (failed s.provider (classify s.provider f).1 (shownRetry f now) s.seq now)
        { s with
          lastError := some now
          lastErrorKind := some (classify s.provider f).2.1
          suspendedUntil := s.suspension f now
          lastState := some (classify s.provider f).1
          latest := some
            (failed s.provider (classify s.provider f).1 (shownRetry f now) s.seq now) }

theorem suspend_eq (s : QuotaState) (f : Failure) (now : ℤ) :
    s.suspend f now = (shownRetry f now, { s with suspendedUntil := s.suspension f now }) := by
  cases f <;> rfl

/-- **What `failure` may do.** -/
theorem failure_step (s : QuotaState) (f : Failure) (now : ℤ) :
    FailStep s f now (s.failure f now).1 (s.failure f now).2 := by
  unfold failure
  dsimp only
  rw [suspend_eq]
  dsimp only
  by_cases htransient : ((classify s.provider f).2.2 && s.account.isSome) = true
  · rw [if_pos htransient]
    have haccount : s.account ≠ none := by
      rw [Bool.and_eq_true] at htransient
      exact Option.isSome_iff_ne_none.mp htransient.2
    have hsame : ∀ a b c,
        good { s with lastError := a, lastErrorKind := b, suspendedUntil := c } now
        = s.good now := fun _ _ _ => rfl
    rw [hsame]
    cases hgood : s.good now with
    | none => exact .shown
    | some snap =>
      obtain ⟨⟨good, applied⟩, hlast, hif⟩ := Option.bind_eq_some_iff.mp hgood
      dsimp only at hif
      split at hif
      · rename_i hsticky
        cases hif
        exact .sticky _ applied haccount hlast hsticky
      · cases hif
  · rw [if_neg htransient]
    exact .shown

section

variable (parseTime : String → Option DateTime)

/-- What `finish` may do. -/
inductive FinishStep (s : QuotaState) (ticket : FetchTicket) (result : Except Failure Snapshot)
    (now : ℤ) : Finish → QuotaState → Prop
  /-- The ticket is not the one in flight. -/
  | discarded : s.flight ≠ some ticket ∨ s.account ≠ ticket.account →
      FinishStep s ticket result now .discarded s
  /-- A success is applied. -/
  | success (raw : Snapshot) : s.flight = some ticket → s.account = ticket.account →
      result = .ok raw → s.validSuccess parseTime raw = true →
      FinishStep s ticket result now (.applied (stamp raw ticket now))
        { s with
          flight := none
          latest := some (stamp raw ticket now)
          lastGood := some (stamp raw ticket now, now)
          suspendedUntil := none
          lastSuccess := some now
          lastState := some "ok" }
  /-- A failure is applied. -/
  | failure (f : Failure) (snap : Snapshot) (s' : QuotaState) : s.flight = some ticket →
      s.account = ticket.account → result = .error f →
      FailStep { s with flight := none } f now snap s' →
      FinishStep s ticket result now (.applied snap) s'
  /-- What was fetched is not a quota snapshot. -/
  | rejected (raw snap : Snapshot) (s' : QuotaState) : s.flight = some ticket →
      s.account = ticket.account → result = .ok raw →
      FailStep { s with flight := none } .contract now snap s' →
      FinishStep s ticket result now (.rejectedSnapshot snap) s'

/-- **What `finish` may do.** -/
theorem finish_step (s : QuotaState) (ticket : FetchTicket) (result : Except Failure Snapshot)
    (now : ℤ) :
    FinishStep parseTime s ticket result now (s.finish parseTime ticket result now).1
      (s.finish parseTime ticket result now).2 := by
  unfold finish
  split
  · rename_i hother
    exact .discarded hother
  · rename_i hcurrent
    rw [not_or, not_not, not_not] at hcurrent
    obtain ⟨hflight, haccount⟩ := hcurrent
    cases result with
    | error f =>
      exact .failure f _ _ hflight haccount rfl (failure_step { s with flight := none } f now)
    | ok raw =>
      dsimp only
      split
      · exact .rejected raw _ _ hflight haccount rfl
          (failure_step { s with flight := none } .contract now)
      · rename_i hvalid
        have hvalid' : validSuccess parseTime { s with flight := none } raw = true := by
          simpa using hvalid
        exact .success raw hflight haccount rfl hvalid'

end

end QuotaState

end Hmux.Usage
