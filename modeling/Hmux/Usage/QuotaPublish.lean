import Hmux.Usage.QuotaRuns

namespace Hmux.Usage

open Lib Pb QuotaState

/-!
# Whether what the quota cache returns can be published

A snapshot is published only if it passes `transport::validate`.  The checks that the cache can
fail are those of the retry time: it must be after the time of the snapshot when both are written
in milliseconds.  `retry_at` leaves such a time out, but a cached snapshot keeps the time it has.

* `Sound` — what the cache holds is valid apart from its times;
* `published_iff` — everything is published unless a cached snapshot is served in the
  millisecond in which its suspension ends.
-/

variable {parseTime : String → Option DateTime}

/-- `parse_from_rfc3339` reads what `to_rfc3339_opts` wrote, to the millisecond. -/
def ReadsTimes (parseTime : String → Option DateTime) : Prop :=
  ∀ n, Civil.FourDigitYear n → parseTime (formatTime n) = some (.ofNanos (n / 1000000 * 1000000))

/-! ### Times

A time is shown to the millisecond, so two times may have the same text. -/

/-- **A retry time is shown** when it is written differently from the time of the snapshot. -/
theorem retryAt_eq_some {deadline now : ℤ} {r : String} (hnow : Civil.FourDigitYear now) :
    retryAt deadline now = some r ↔
      now / 1000000 < deadline / 1000000 ∧ Civil.FourDigitYear deadline ∧
        r = formatTime deadline := by
  unfold retryAt
  split
  · rename_i hle
    refine iff_of_false (fun h => nomatch h) fun h => ?_
    omega
  · rename_i hlt
    have hyear := Civil.date_year_le (show now ≤ deadline by omega)
    by_cases hfour : Civil.FourDigitYear deadline
    · have hiff : formatTime now < formatTime deadline ↔ _ :=
        Civil.rfc3339_lt_iff (.inl rfl) hnow hfour
      rw [Civil.unit_millis] at hiff
      split
      · rename_i htext
        refine ⟨fun h => ⟨hiff.mp htext, hfour, (Option.some.inj h).symm⟩, fun h => ?_⟩
        rw [h.2.2]
      · rename_i htext
        exact iff_of_false (fun h => nomatch h) fun h => htext (hiff.mpr h.1)
    · -- after the year 9999 the text of the deadline comes first
      have hlarge : 9999 < (Civil.date deadline).year := by
        by_contra hnot
        exact hfour ⟨le_trans hnow.1 hyear, not_lt.mp hnot⟩
      have htext : ¬formatTime now < formatTime deadline :=
        lt_asymm (Civil.rfc3339_large hnow hlarge)
      rw [if_neg htext]
      exact iff_of_false (fun h => nomatch h) fun h => hfour h.2.1

theorem formatTime_len {now : ℤ} (hnow : Civil.FourDigitYear now) :
    formatTime now ≠ "" ∧ len (formatTime now) ≤ 128 := by
  have hlength : (formatTime now).toList.length = 24 := Civil.length_rfc3339 hnow
  constructor
  · intro hempty
    rw [hempty] at hlength
    cases hlength
  · have hle := length_bytes_le (formatTime now)
    unfold len
    omega

/-- A retry time that is shown is one that may be published. -/
theorem retry_dated (hparse : ReadsTimes parseTime) {snap : Snapshot} {seq : Int64}
    {deadline now : ℤ} (hretry : snap.status.retryAt = some (formatTime deadline))
    (hstate : snap.status.state = "rateLimited" ∨
      (snap.status.state = "ok" ∧ snap.status.stale = true))
    (hnow : Civil.FourDigitYear now) (hdeadline : Civil.FourDigitYear deadline)
    (hmax : deadline ≤ now + maxBackoff) :
    retry parseTime (dated snap seq now) = true ↔ now / 1000000 < deadline / 1000000 := by
  have hallowed : (decide (128 < len (formatTime deadline)) ||
      !(snap.status.state == "rateLimited" ||
        (snap.status.state == "ok" && snap.status.stale))) = false := by
    have hlen := (formatTime_len hdeadline).2
    rw [Bool.or_eq_false_iff, decide_eq_false_iff_not, Bool.not_eq_false', Bool.or_eq_true,
      Bool.and_eq_true, beq_iff_eq, beq_iff_eq]
    exact ⟨by omega, hstate⟩
  have hzero : TimeDelta.hours 0 = .nanoseconds 0 := rfl
  have hday : TimeDelta.hours 24 = .nanoseconds (24 * 60 * 60 * 1000000000) := rfl
  unfold retry dated
  dsimp only
  rw [hretry]
  dsimp only
  rw [hallowed, if_neg Bool.false_ne_true, hparse deadline hdeadline, hparse now hnow]
  dsimp only
  unfold DateTime.signedDurationSince
  rw [DateTime.since_ofNanos_ofNanos, hzero, hday, TimeDelta.lt_nanoseconds,
    TimeDelta.lt_nanoseconds, Bool.and_eq_true, Bool.not_eq_true', decide_eq_true_eq,
    decide_eq_false_iff_not]
  unfold maxBackoff seconds at hmax
  omega

/-! ### Snapshots that are valid apart from their times

Everything the cache makes itself is such a snapshot, and so is a success that it accepts. -/

/-- A snapshot without accounts and sources passes all checks that are not about its number, its
    time and its retry time. -/
def Plain (parseTime : String → Option DateTime) (snap : Snapshot) : Prop :=
  snap.accounts = [] ∧ snap.sources = [] ∧
    fields parseTime { snap with
      seq := 0, generatedAtUtc := "0", status := { snap.status with retryAt := none } } = true

/-- What is left of the checks of such a snapshot. -/
theorem validate_plain {snap : Snapshot} (h : Plain parseTime snap) :
    validate parseTime snap = .ok () ↔
      0 ≤ snap.seq ∧ snap.generatedAtUtc ≠ "" ∧ len snap.generatedAtUtc ≤ 128 ∧
        retry parseTime snap = true := by
  obtain ⟨haccounts, hsources, hfields⟩ := h
  have hvalidate : validate parseTime snap = .ok () ↔ fields parseTime snap = true := by
    unfold validate
    rw [checks_ok, haccounts, hsources]
    refine ⟨fun h => h.1, fun h => ⟨h, fun p hp => absurd hp List.not_mem_nil, fun p hp => ?_⟩⟩
    exact absurd hp List.not_mem_nil
  rw [hvalidate]
  unfold fields at hfields ⊢
  simp only [Bool.and_eq_true, decide_eq_true_eq, bne_iff_ne, ne_eq] at hfields ⊢
  constructor
  · rintro h
    simp only [h, and_true, not_false_eq_true]
  · rintro ⟨h1, h2, h3, h4⟩
    simp only [hfields, h1, h2, h3, h4, and_true, not_false_eq_true]

/-- A number and a time that are written with four digits of the year are valid. -/
theorem validate_dated {snap : Snapshot} {seq : Int64} {now : ℤ} (h : Plain parseTime snap)
    (hseq : 0 ≤ seq) (hnow : Civil.FourDigitYear now) :
    validate parseTime (dated snap seq now) = .ok () ↔
      retry parseTime (dated snap seq now) = true := by
  obtain ⟨hempty, hlen⟩ := formatTime_len hnow
  have hplain : Plain parseTime (dated snap seq now) := h
  rw [validate_plain hplain]
  exact ⟨fun h => h.2.2.2, fun h => ⟨hseq, hempty, hlen, h⟩⟩

theorem retry_none {snap : Snapshot} (h : snap.status.retryAt = none) :
    retry parseTime snap = true := by
  unfold retry
  rw [h]

/-- The states that stand for failures. -/
def failureStates : List String :=
  ["authExpired", "codexLoggedOut", "quotaEndpointChanged", "networkError", "rateLimited"]

theorem classify_mem (provider : Provider) (f : Failure) :
    (classify provider f).1 ∈ failureStates := by
  cases provider <;> cases f <;> simp [classify, authState, failureStates]

/-- The snapshots that stand for failures are valid. -/
theorem plain_failed (provider : Provider) {state : String} (h : state ∈ failureStates)
    (shown : Option String) (seq : Int64) (now : ℤ) :
    Plain parseTime (failed provider state shown seq now) := by
  have hall : ∀ state ∈ failureStates, fields (fun _ => none)
      { failed .claude state none 0 0 with generatedAtUtc := "0" } = true := by decide
  have hfields := hall state h
  refine ⟨rfl, rfl, ?_⟩
  unfold fields at hfields ⊢
  exact hfields

/-- A success is valid, also once it is applied. -/
theorem plain_stamp {s : QuotaState} {raw : Snapshot} (h : s.validSuccess parseTime raw = true)
    (ticket : FetchTicket) (now : ℤ) : Plain parseTime (stamp raw ticket now) ∧
      (stamp raw ticket now).status.state = "ok" := by
  unfold validSuccess at h
  simp only [Bool.and_eq_true, beq_iff_eq, List.isEmpty_iff] at h
  obtain ⟨⟨⟨⟨⟨⟨⟨⟨⟨⟨⟨⟨⟨-, hstate⟩, -⟩, -⟩, -⟩, -⟩, haccounts⟩, -⟩, hsources⟩, -⟩, -⟩, -⟩, -⟩, hok⟩ :=
    h
  have hvalid : validate parseTime raw = .ok () := by
    cases hv : validate parseTime raw with
    | error e => rw [hv] at hok; cases hok
    | ok u => rfl
  refine ⟨⟨haccounts, hsources, ?_⟩, hstate⟩
  have hfields := (checks_ok.mp hvalid).1
  unfold fields at hfields ⊢
  simp only [Bool.and_eq_true, decide_eq_true_eq, bne_iff_ne, ne_eq] at hfields ⊢
  have hlen : len raw.generatedAtUtc ≤ 128 := by simp only [hfields]
  have hat : timestampLen raw.status.quotaObservedAt = true := by simp only [hfields]
  have hobserved : timestampLen (some (raw.status.quotaObservedAt.getD raw.generatedAtUtc))
      = true := by
    cases hq : raw.status.quotaObservedAt with
    | none => simpa [timestampLen] using hlen
    | some text => rw [hq] at hat; exact hat
  simp only [stamp, hfields, hobserved, retry_none, true_and, and_true]
  decide

/-! ### What the cache holds

The invariant does not say that a cached snapshot can be published, since that also depends on when
it is served. -/

/-- A retry time belongs to a limited or stale snapshot. -/
def MayRetry (snap : Snapshot) : Prop :=
  snap.status.state = "rateLimited" ∨ (snap.status.state = "ok" ∧ snap.status.stale = true)

/-- What the cache holds at `now` is valid apart from its times.  A retry time that may be served
    again is the end of the suspension, which is a day away at most. -/
structure Sound (parseTime : String → Option DateTime) (s : QuotaState) (now : ℤ) : Prop where
  seq : 0 ≤ s.seq
  latest : ∀ snap, s.latest = some snap → Plain parseTime snap
  retry : ∀ snap r, s.latest = some snap → snap.status.retryAt = some r → MayRetry snap ∧
    (s.flight = none → s.account ≠ none → ∃ deadline, s.suspendedUntil = some deadline ∧
      Civil.FourDigitYear deadline ∧ r = formatTime deadline)
  good : ∀ snap applied, s.lastGood = some (snap, applied) →
    Plain parseTime snap ∧ snap.status.state = "ok"
  suspended : ∀ deadline, s.suspendedUntil = some deadline →
    s.flight = none ∧ deadline ≤ now + maxBackoff
  ticket : ∀ ticket, s.flight = some ticket → 0 ≤ ticket.seq

theorem Sound.mono {s : QuotaState} {now later : ℤ} (h : Sound parseTime s now)
    (hle : now ≤ later) : Sound parseTime s later :=
  ⟨h.seq, h.latest, h.retry, h.good, fun deadline hd =>
    ⟨(h.suspended deadline hd).1, by have := (h.suspended deadline hd).2; omega⟩, h.ticket⟩

theorem Sound.switch {s : QuotaState} {now : ℤ} (h : Sound parseTime s now)
    (key : Option AccountKey) : Sound parseTime (s.switch key) now := by
  unfold QuotaState.switch
  split
  · exact h
  · exact ⟨h.seq, fun _ hx => (nomatch hx), fun _ _ hx => (nomatch hx), fun _ _ hx => (nomatch hx),
      fun _ hx => (nomatch hx), fun _ hx => (nomatch hx)⟩

theorem saturatingSucc_nonneg {n : Int64} (h : 0 ≤ n) : 0 ≤ saturatingSucc n := by
  have hsucc := toInt_saturatingSucc n
  have hzero : (0 : Int64).toInt = 0 := rfl
  rw [Int64.le_iff_toInt_le, hzero] at h ⊢
  omega

/-- A snapshot with a retry time that was computed for its time is valid. -/
theorem valid_shown (hparse : ReadsTimes parseTime) {now deadline : ℤ}
    (hnow : Civil.FourDigitYear now) {snap : Snapshot} {seq : Int64} (hplain : Plain parseTime snap)
    (hseq : 0 ≤ seq) (hretry : snap.status.retryAt = retryAt deadline now) (hmay : MayRetry snap)
    (hmax : deadline ≤ now + maxBackoff) :
    validate parseTime (dated snap seq now) = .ok () := by
  rw [validate_dated hplain hseq hnow]
  cases hshown : retryAt deadline now with
  | none =>
    rw [hshown] at hretry
    exact retry_none hretry
  | some r =>
    obtain ⟨hlt, hdeadline, rfl⟩ := (retryAt_eq_some hnow).mp hshown
    rw [hshown] at hretry
    exact (retry_dated hparse hretry hmay hnow hdeadline hmax).mpr hlt

/-- A cached snapshot is served in the millisecond in which its suspension ends. -/
def QuotaState.collapsed (s : QuotaState) (key : Option AccountKey) (now : ℤ) : Bool :=
  let s := s.switch key
  s.flight.isNone && key.isSome &&
    (s.suspendedUntil.any fun t => now < t && t / 1000000 ≤ now / 1000000) &&
    (s.lastFetchAt.any fun t => now - t < cacheTtl) &&
    s.latest.any fun snap => snap.status.retryAt.isSome

theorem collapsed_eq_true {s : QuotaState} {key : Option AccountKey} {now : ℤ} :
    s.collapsed key now = true ↔
      (s.switch key).flight = none ∧ key ≠ none ∧
        (∃ t, (s.switch key).suspendedUntil = some t ∧ now < t ∧ t / 1000000 ≤ now / 1000000) ∧
        (∃ t, (s.switch key).lastFetchAt = some t ∧ now - t < cacheTtl) ∧
        ∃ snap, (s.switch key).latest = some snap ∧ snap.status.retryAt ≠ none := by
  unfold QuotaState.collapsed
  simp only [Bool.and_eq_true, Option.isNone_iff_eq_none, Option.isSome_iff_ne_none,
    Option.any_eq_true, decide_eq_true_eq, and_assoc]

/-- What `begin` returns is valid unless its retry time collapses. -/
theorem Sound.begin (hparse : ReadsTimes parseTime) {s s' : QuotaState} {key : Option AccountKey}
    {now : ℤ} {reply : Begin} (hnow : Civil.FourDigitYear now)
    (h : Sound parseTime (s.switch key) now) (hstep : BeginStep (s.switch key) key now reply s') :
    Sound parseTime s' now ∧ ∀ snap, reply = .cached snap →
      (validate parseTime snap = .ok () ↔ s.collapsed key now = false) := by
  have hkey := switch_account s key
  have hcollapsed : s.collapsed key now = true ↔ _ := collapsed_eq_true
  generalize s.switch key = s₁ at h hstep hkey hcollapsed
  have hseq := saturatingSucc_nonneg h.seq
  -- a retry time that is computed now
  have hfresh : ∀ (snap : Snapshot) (deadline : ℤ) (state : Option String),
      s₁.flight = none → key ≠ none → s₁.suspendedUntil = some deadline →
      (∀ t, s₁.lastFetchAt = some t → now - t < cacheTtl → s₁.latest = none) →
      Plain parseTime snap → MayRetry snap → snap.status.retryAt = retryAt deadline now →
      Sound parseTime { s₁ with
        seq := saturatingSucc s₁.seq, latest := some (dated snap (saturatingSucc s₁.seq) now),
        lastState := state } now ∧
      (validate parseTime (dated snap (saturatingSucc s₁.seq) now) = .ok () ↔
        s.collapsed key now = false) := by
    intro snap deadline state hflight hsome hsuspended hold hplain hmay hretry
    have hmax := (h.suspended deadline hsuspended).2
    refine ⟨⟨hseq, fun x hx => ?_, fun x r hx hr => ?_, h.good, h.suspended, h.ticket⟩,
      iff_of_true ?_ ?_⟩
    · cases hx; exact hplain
    · cases hx
      refine ⟨hmay, fun _ _ => ⟨deadline, hsuspended, ?_⟩⟩
      have hshown : retryAt deadline now = some r := hretry.symm.trans hr
      exact ((retryAt_eq_some hnow).mp hshown).2
    · exact valid_shown hparse hnow hplain hseq hretry hmay hmax
    · rw [Bool.eq_false_iff]
      intro hc
      obtain ⟨-, -, -, ⟨t, ht, hlt⟩, snap', hlatest, -⟩ := hcollapsed.mp hc
      rw [hold t ht hlt] at hlatest
      cases hlatest
  -- one case for each way in which `begin` ends
  cases hstep with
  | inFlight => exact ⟨h, fun _ hx => (nomatch hx)⟩
  | cached snap fetched hflight hsome hlive hfetched hcache hlatest =>
    have hplain := h.latest snap hlatest
    refine ⟨⟨hseq, fun x hx => ?_, fun x r hx hr => ?_, h.good, h.suspended, h.ticket⟩,
      fun x hx => ?_⟩
    · cases hx; exact hplain
    · cases hx; exact h.retry snap r hlatest hr
    · cases hx
      -- the cached snapshot has a retry time or none
      cases hretry : snap.status.retryAt with
      | none =>
        refine iff_of_true ((validate_dated hplain hseq hnow).mpr (retry_none hretry)) ?_
        rw [Bool.eq_false_iff]
        intro hc
        obtain ⟨-, -, -, -, snap', hlatest', hne⟩ := hcollapsed.mp hc
        rw [hlatest] at hlatest'
        cases hlatest'
        exact hne hretry
      | some r =>
        obtain ⟨hmay, hend⟩ := h.retry snap r hlatest hretry
        obtain ⟨deadline, hsuspended, hfour, rfl⟩ := hend hflight (hkey ▸ hsome)
        -- its retry time is in the future when it is valid, which the end of the suspension decides
        have hmax := (h.suspended deadline hsuspended).2
        have hvalid := (validate_dated hplain hseq hnow).trans
          (retry_dated hparse hretry hmay hnow hfour hmax)
        rw [hvalid, Bool.eq_false_iff, ne_eq, hcollapsed]
        constructor
        · rintro hlt ⟨-, -, ⟨t, ht, -, hle⟩, -, -⟩
          rw [hsuspended] at ht
          cases ht
          omega
        · intro hnot
          by_contra hle
          exact hnot ⟨hflight, hsome, ⟨deadline, hsuspended, hlive deadline hsuspended, by omega⟩,
            ⟨fetched, hfetched, hcache⟩, snap, hlatest, by rw [hretry]; exact Option.some_ne_none _⟩
  -- the last good snapshot is shown as a stale one
  | sticky good deadline applied hflight hsome hsuspended hlt hold hgood =>
    obtain ⟨hplain, hok⟩ := h.good good applied hgood
    obtain ⟨hsound, hvalid⟩ := hfresh (stale good (retryAt deadline now)) deadline _ hflight hsome
      hsuspended hold hplain (.inr ⟨hok, rfl⟩) rfl
    exact ⟨hsound, fun x hx => by cases hx; exact hvalid⟩
  -- there is none to show
  | limited deadline hflight hsome hsuspended hlt hold =>
    have hplain : Plain parseTime (failed s₁.provider "rateLimited" (retryAt deadline now)
        (saturatingSucc s₁.seq) now) := plain_failed s₁.provider (by decide) _ _ now
    obtain ⟨hsound, hvalid⟩ := hfresh (failed s₁.provider "rateLimited" (retryAt deadline now)
      (saturatingSucc s₁.seq) now) deadline (some "rateLimited") hflight hsome hsuspended hold
      hplain (.inl rfl) rfl
    exact ⟨hsound, fun x hx => by cases hx; exact hvalid⟩
  -- a fetch starts without a suspension
  | fetch hflight =>
    refine ⟨⟨hseq, h.latest, fun x r hx hr => ⟨(h.retry x r hx hr).1, ?_⟩, h.good, ?_, ?_⟩,
      fun _ hx => (nomatch hx)⟩
    · intro hnone
      cases hnone
    · intro _ hx
      cases hx
    · intro ticket hx
      cases hx
      exact hseq

theorem backoff_le (retryAfter : Option ℤ) : backoff retryAfter ≤ maxBackoff := by
  unfold backoff
  split
  · exact min_le_right _ _
  · decide

/-- Only a rate limit shows a retry time and starts a suspension, which ends then. -/
theorem limit_cases (s : QuotaState) (f : Failure) (now : ℤ) :
    (shownRetry f now = none ∧ s.suspension f now = s.suspendedUntil) ∨
    ∃ retryAfter deadline, f = .rateLimited retryAfter ∧ deadline ≤ now + maxBackoff ∧
      shownRetry f now = retryAt deadline now ∧
      s.suspension f now = s.account.map fun _ => deadline := by
  cases f with
  | rateLimited retryAfter =>
    have hle := backoff_le retryAfter
    exact .inr ⟨retryAfter, now + backoff retryAfter, rfl, by omega, rfl, rfl⟩
  | _ => exact .inl ⟨rfl, rfl⟩

/-- A snapshot that stands for a failure is valid and may be served again. -/
theorem failure_kept (hparse : ReadsTimes parseTime) {s : QuotaState} {f : Failure} {now : ℤ}
    (hnow : Civil.FourDigitYear now) (hseq : 0 ≤ s.seq)
    (hgood : ∀ snap applied, s.lastGood = some (snap, applied) →
      Plain parseTime snap ∧ snap.status.state = "ok")
    (hflight : s.flight = none) (hsuspended : s.suspendedUntil = none) {snap : Snapshot}
    (hplain : Plain parseTime snap) (hretry : snap.status.retryAt = shownRetry f now)
    (hmay : ∀ retryAfter, f = .rateLimited retryAfter → MayRetry snap)
    (error : Option ℤ) (kind state : Option String) :
    Sound parseTime { s with
        lastError := error, lastErrorKind := kind, suspendedUntil := s.suspension f now,
        lastState := state, latest := some (dated snap s.seq now) } now ∧
      validate parseTime (dated snap s.seq now) = .ok () := by
  have hnoTicket : ∀ ticket, s.flight = some ticket → 0 ≤ ticket.seq := by
    intro ticket hx
    cases hflight.symm.trans hx
  rcases limit_cases s f now with ⟨hnone, hsame⟩ | ⟨retryAfter, deadline, hf, hmax, hshown, hends⟩
  · rw [hnone] at hretry
    refine ⟨⟨hseq, fun x hx => ?_, fun x r hx hr => ?_, hgood, fun deadline hd => ?_, hnoTicket⟩,
      (validate_dated hplain hseq hnow).mpr (retry_none hretry)⟩
    · cases hx; exact hplain
    · cases hx
      cases hretry.symm.trans hr
    · cases (hsuspended.symm.trans hsame.symm).trans hd
  · rw [hshown] at hretry
    refine ⟨⟨hseq, fun x hx => ?_, fun x r hx hr => ?_, hgood, fun d hd => ⟨hflight, ?_⟩,
      hnoTicket⟩, valid_shown hparse hnow hplain hseq hretry (hmay retryAfter hf) hmax⟩
    · cases hx; exact hplain
    · cases hx
      refine ⟨hmay retryAfter hf, fun _ haccount => ⟨deadline, ?_, ?_⟩⟩
      · obtain ⟨key, hkey⟩ := Option.ne_none_iff_exists'.mp haccount
        show s.suspension f now = some deadline
        rw [hends, show s.account = some key from hkey]
        rfl
      · exact ((retryAt_eq_some hnow).mp (hretry.symm.trans hr)).2
    · obtain ⟨-, -, rfl⟩ := Option.map_eq_some_iff.mp (hends.symm.trans hd)
      exact hmax

/-- What stands for a failure is valid. -/
theorem failure_valid (hparse : ReadsTimes parseTime) {s s' : QuotaState} {f : Failure} {now : ℤ}
    {snap : Snapshot} (hnow : Civil.FourDigitYear now) (hstep : FailStep s f now snap s')
    (hseq : 0 ≤ s.seq)
    (hgood : ∀ snap applied, s.lastGood = some (snap, applied) →
      Plain parseTime snap ∧ snap.status.state = "ok")
    (hflight : s.flight = none) (hsuspended : s.suspendedUntil = none) :
    Sound parseTime s' now ∧ validate parseTime snap = .ok () := by
  cases hstep with
  | sticky good applied _ hlast =>
    obtain ⟨hplain, hok⟩ := hgood good applied hlast
    have hstale : Plain parseTime (stale good (shownRetry f now)) := hplain
    exact failure_kept hparse hnow hseq hgood hflight hsuspended hstale rfl
      (fun _ _ => .inr ⟨hok, rfl⟩) _ _ _
  | shown =>
    have hplain : Plain parseTime
        (failed s.provider (classify s.provider f).1 (shownRetry f now) s.seq now) :=
      plain_failed s.provider (classify_mem s.provider f) _ _ now
    refine failure_kept hparse hnow hseq hgood hflight hsuspended hplain rfl
      (fun retryAfter hf => ?_) _ _ _
    subst hf
    exact .inl rfl

/-- What `finish` returns is valid. -/
theorem Sound.finish (hparse : ReadsTimes parseTime) {s s' : QuotaState} {ticket : FetchTicket}
    {result : Except Failure Snapshot} {now : ℤ} {reply : Finish}
    (hnow : Civil.FourDigitYear now) (h : Sound parseTime s now)
    (hstep : FinishStep parseTime s ticket result now reply s') :
    Sound parseTime s' now ∧ ∀ snap, (QuotaReply.finish reply).snapshot = some snap →
      validate parseTime snap = .ok () := by
  have hlanded : ∀ t, s.flight = some t → s.suspendedUntil = none := by
    intro t ht
    cases hs : s.suspendedUntil with
    | none => rfl
    | some deadline => cases ht.symm.trans (h.suspended deadline hs).1
  cases hstep with
  | discarded => exact ⟨h, fun _ hx => (nomatch hx)⟩
  | success raw hflight _ _ hvalid =>
    obtain ⟨hplain, hok⟩ := plain_stamp hvalid ticket now
    obtain ⟨hempty, hlen⟩ := formatTime_len hnow
    refine ⟨⟨h.seq, fun x hx => ?_, fun x r hx hr => ?_, fun x t hx => ?_, fun _ hx => (nomatch hx),
      fun _ hx => (nomatch hx)⟩, fun x hx => ?_⟩
    · cases hx; exact hplain
    · cases hx; cases hr
    · cases hx; exact ⟨hplain, hok⟩
    · cases hx
      exact (validate_plain hplain).mpr ⟨h.ticket ticket hflight, hempty, hlen, retry_none rfl⟩
  | failure f snap s' hflight _ _ hfail =>
    obtain ⟨hsound, hvalid⟩ :=
      failure_valid hparse hnow hfail h.seq h.good rfl (hlanded ticket hflight)
    exact ⟨hsound, fun x hx => by cases hx; exact hvalid⟩
  | rejected raw snap s' hflight _ _ hfail =>
    obtain ⟨hsound, hvalid⟩ :=
      failure_valid hparse hnow hfail h.seq h.good rfl (hlanded ticket hflight)
    exact ⟨hsound, fun x hx => by cases hx; exact hvalid⟩

/-! ### Runs

The condition is one on the state before a `begin`, and in every run it is the only thing that can
go wrong. -/

section

variable {provider : Provider} {history : List Entry} {s : QuotaState}

/-- The calls of a run are made one after the other. -/
def InOrder (history : List Entry) : Prop :=
  history.Pairwise fun later earlier => earlier.1.now ≤ later.1.now

/-- A `begin` whose retry time collapses returns a snapshot. -/
theorem begin_collapsed {key : Option AccountKey} {now : ℤ} (h : s.collapsed key now = true) :
    ∃ snap, (s.begin key now).1 = .cached snap := by
  obtain ⟨hflight, hkey, ⟨t, ht, hlt, -⟩, ⟨u, hu, hcache⟩, snap, hlatest, -⟩ :=
    collapsed_eq_true.mp h
  have hstep := begin_step s key now
  generalize (s.begin key now).1 = reply at hstep ⊢
  generalize (s.begin key now).2 = s' at hstep
  cases hstep with
  | inFlight hne => exact absurd hflight hne
  | cached snap => exact ⟨_, rfl⟩
  | sticky => exact ⟨_, rfl⟩
  | limited => exact ⟨_, rfl⟩
  | fetch _ hpast =>
    have hle := hpast t hkey ht
    omega

/-- One call keeps the cache sound, and its reply is valid unless its retry time collapses. -/
theorem Sound.step (hparse : ReadsTimes parseTime) {call : QuotaCall}
    (hnow : Civil.FourDigitYear call.now) (h : Sound parseTime s call.now) :
    Sound parseTime (s.step parseTime call).2 call.now ∧
      ((∀ snap, (s.step parseTime call).1.snapshot = some snap →
          validate parseTime snap = .ok ()) ↔
        ∀ key now, call = .begin key now → s.collapsed key now = false) := by
  cases call with
  | begin key now =>
    obtain ⟨hsound, hvalid⟩ := (h.switch key).begin hparse hnow (begin_step s key now)
    refine ⟨hsound, fun hall k t hcall => ?_, fun hnot snap hsnap => ?_⟩
    · cases hcall
      rw [Bool.eq_false_iff]
      intro hc
      obtain ⟨snap, hreply⟩ := begin_collapsed hc
      have hsnap : (QuotaReply.begin (s.begin key now).1).snapshot = some snap := by
        rw [hreply]; rfl
      have hfalse : s.collapsed key now = false := (hvalid snap hreply).mp (hall snap hsnap)
      rw [hfalse] at hc
      cases hc
    · have hreply : (s.begin key now).1 = .cached snap := by
        change (QuotaReply.begin (s.begin key now).1).snapshot = some snap at hsnap
        generalize (s.begin key now).1 = reply at hsnap
        cases reply with
        | cached x => cases hsnap; rfl
        | fetch t => cases hsnap
        | inFlight => cases hsnap
      exact (hvalid snap hreply).mpr (hnot key now rfl)
  | finish ticket result now =>
    obtain ⟨hsound, hvalid⟩ := h.finish hparse hnow (finish_step parseTime s ticket result now)
    exact ⟨hsound, fun _ _ _ hcall => (nomatch hcall), fun _ snap hsnap => hvalid snap hsnap⟩

/-- In every run in order the cache is sound. -/
theorem Run.sound (hparse : ReadsTimes parseTime) (h : Run parseTime provider history s)
    (horder : InOrder history) (hyears : ∀ e ∈ history, Civil.FourDigitYear e.1.now) {now : ℤ}
    (hnow : ∀ e ∈ history, e.1.now ≤ now) : Sound parseTime s now := by
  induction h generalizing now with
  | new =>
    exact ⟨Int64.le_refl 0, fun _ hx => (nomatch hx), fun _ _ hx => (nomatch hx),
      fun _ _ hx => (nomatch hx), fun _ hx => (nomatch hx), fun _ hx => (nomatch hx)⟩
  | step call _ ih =>
    obtain ⟨hbefore, horder⟩ := List.pairwise_cons.mp horder
    have hsound := ih horder (fun e he => hyears e (List.mem_cons_of_mem _ he)) hbefore
    have hstep := (hsound.step hparse (hyears _ List.mem_cons_self)).1
    exact hstep.mono (hnow _ List.mem_cons_self)

/-- **What the cache returns is published**, in a run in order, exactly if no `begin` serves a
    cached snapshot in the millisecond in which its suspension ends. -/
theorem published_iff (hparse : ReadsTimes parseTime) (h : Run parseTime provider history s)
    (horder : InOrder history) (hyears : ∀ e ∈ history, Civil.FourDigitYear e.1.now) :
    (∀ e ∈ history, ∀ snap, e.2.snapshot = some snap → validate parseTime snap = .ok ()) ↔
      ∀ (later earlier : List Entry) (key : Option AccountKey) (now : ℤ) (reply : QuotaReply)
        (before : QuotaState), history = later ++ (.begin key now, reply) :: earlier →
        Run parseTime provider earlier before → before.collapsed key now = false := by
  -- the entry of a run is a step from the state before it, which is sound at its time
  have hentry : ∀ later earlier call reply before, history = later ++ (call, reply) :: earlier →
      Run parseTime provider earlier before → reply = (before.step parseTime call).1 ∧
        ((∀ snap, reply.snapshot = some snap → validate parseTime snap = .ok ()) ↔
          ∀ key now, call = .begin key now → before.collapsed key now = false) := by
    intro later earlier call reply before hsplit hrun
    rw [hsplit] at h horder hyears
    obtain ⟨s₀, hrun', hreply⟩ := h.split
    rw [hrun'.unique hrun] at hreply
    have hpair := List.pairwise_cons.mp (List.pairwise_append.mp horder).2.1
    have hsound := hrun.sound hparse hpair.2
      (fun e he => hyears e (List.mem_append_right _ (List.mem_cons_of_mem _ he))) hpair.1
    have hstep := (hsound.step hparse (hyears _ (List.mem_append_right _ List.mem_cons_self))).2
    rw [← hreply] at hstep
    exact ⟨hreply, hstep⟩
  constructor
  · intro hall later earlier key now reply before hsplit hrun
    have hmem : (QuotaCall.begin key now, reply) ∈ history := by
      rw [hsplit]
      exact List.mem_append_right _ List.mem_cons_self
    exact (hentry later earlier _ reply before hsplit hrun).2.mp (hall _ hmem) key now rfl
  · rintro hnot ⟨call, reply⟩ he
    obtain ⟨later, earlier, hsplit⟩ := List.append_of_mem he
    have h' := h
    rw [hsplit] at h'
    obtain ⟨before, hrun, -⟩ := h'.split
    refine (hentry later earlier call reply before hsplit hrun).2.mpr fun key now hcall => ?_
    subst hcall
    exact hnot later earlier key now reply before hsplit hrun

end

namespace RetryExample

/-- The instant that a text was written for, to the millisecond. -/
noncomputable def readTime (text : String) : Option DateTime :=
  open Classical in
  if h : ∃ n, Civil.FourDigitYear n ∧ formatTime n = text then
    some (.ofNanos (h.choose / 1000000 * 1000000))
  else none

theorem readTime_reads : ReadsTimes readTime := by
  intro n hn
  have h : ∃ m, Civil.FourDigitYear m ∧ formatTime m = formatTime n := ⟨n, hn, rfl⟩
  obtain ⟨hfour, htext⟩ := h.choose_spec
  have heq : h.choose / 1000000 = n / 1000000 := by
    have hinj := Civil.rfc3339_inj (.inl rfl) hfour hn htext
    rw [Civil.unit_millis] at hinj
    exact hinj
  unfold readTime
  rw [dif_pos h, heq]

/-- A rate limit of ten seconds, and a second look at the account. -/
def calls (again : ℤ) : List QuotaCall :=
  [.begin (some QuotaExample.first) 500000,
    .finish (QuotaExample.ticket QuotaExample.first 500000)
      (.error (.rateLimited (some 10000000000))) 500000,
    .begin (some QuotaExample.first) again]

/-- The run of these calls. -/
noncomputable def run (again : ℤ) : List Entry × QuotaState := replay readTime .claude (calls again)

theorem run_inOrder {again : ℤ} (h : 500000 ≤ again) (hyear : Civil.FourDigitYear again) :
    InOrder (run again).1 ∧ ∀ e ∈ (run again).1, Civil.FourDigitYear e.1.now := by
  have hfirst : Civil.FourDigitYear 500000 := by unfold Civil.FourDigitYear; decide
  constructor
  · refine List.pairwise_cons.mpr ⟨?_, List.pairwise_cons.mpr ⟨?_, List.pairwise_singleton _ _⟩⟩
    · intro e he
      rcases List.mem_cons.mp he with rfl | he
      · exact h
      · cases List.mem_singleton.mp he
        exact h
    · intro e he
      cases List.mem_singleton.mp he
      exact le_refl _
  · intro e he
    rcases List.mem_cons.mp he with rfl | he
    · exact hyear
    · rcases List.mem_cons.mp he with rfl | he
      · exact hfirst
      · cases List.mem_singleton.mp he
        exact hfirst

/-- The suspension ends at 10.0005 s.  A second look at 10.0002 s finds the cached snapshot, whose
    time and retry time are both written 10.000 s, so it is not published. -/
theorem cached_retry_collapses :
    ReadsTimes readTime ∧ Run readTime .claude (run 10000200000).1 (run 10000200000).2 ∧
      InOrder (run 10000200000).1 ∧
      (∀ e ∈ (run 10000200000).1, Civil.FourDigitYear e.1.now) ∧
      ¬∀ e ∈ (run 10000200000).1, ∀ snap, e.2.snapshot = some snap →
        validate readTime snap = .ok () := by
  have hyear : Civil.FourDigitYear 10000200000 := by unfold Civil.FourDigitYear; decide
  obtain ⟨horder, hyears⟩ := run_inOrder (by decide) hyear
  have hrun := replay_run readTime .claude (calls 10000200000)
  refine ⟨readTime_reads, hrun, horder, hyears, fun hall => ?_⟩
  obtain ⟨before, hbefore, hreply, -⟩ := Run.last hrun
  have hsame := hbefore.unique (replay_run readTime .claude ((calls 10000200000).take 2))
  obtain ⟨hfirst, horder'⟩ := List.pairwise_cons.mp horder
  have hsound := hbefore.sound readTime_reads horder'
    (fun e he => hyears e (List.mem_cons_of_mem _ he)) hfirst
  have hvalid := (hsound.step readTime_reads (hyears _ List.mem_cons_self)).2.mp fun snap hsnap =>
    hall _ List.mem_cons_self snap (hreply ▸ hsnap)
  have hfalse := hvalid _ _ rfl
  rw [hsame] at hfalse
  have htrue : (replay readTime .claude ((calls 10000200000).take 2)).2.collapsed
      (some QuotaExample.first) 10000200000 = true := by decide
  rw [htrue] at hfalse
  cases hfalse

/-- A second look at five seconds is published. -/
theorem cached_retry_published :
    InOrder (run 5000000000).1 ∧ ∀ e ∈ (run 5000000000).1, ∀ snap, e.2.snapshot = some snap →
      validate readTime snap = .ok () := by
  have hyear : Civil.FourDigitYear 5000000000 := by unfold Civil.FourDigitYear; decide
  obtain ⟨horder, hyears⟩ := run_inOrder (by decide) hyear
  refine ⟨horder, ?_⟩
  refine (published_iff readTime_reads (replay_run readTime .claude (calls 5000000000)) horder
    hyears).mpr fun later earlier key now reply before hsplit hrun => ?_
  rcases later with _ | ⟨e₁, _ | ⟨e₂, _ | ⟨e₃, later⟩⟩⟩
  · cases hsplit
    rw [hrun.unique (replay_run readTime .claude ((calls 5000000000).take 2))]
    decide
  · cases hsplit
  · cases hsplit
    rw [hrun.unique (replay_run readTime .claude [])]
    decide
  · have hlen := congrArg List.length hsplit
    simp [replay, calls] at hlen

end RetryExample

end Hmux.Usage
