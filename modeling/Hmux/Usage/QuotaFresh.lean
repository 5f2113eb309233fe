import Hmux.Usage.QuotaPublish

namespace Hmux.Usage

open Lib Pb QuotaState

/-!
# How old the quota is, and in which order it is shown

What is served from the cache was fetched by the last ticket or is the last good snapshot, and the
two clocks that limit it run from the start of that ticket and from the success.  A suspension
lasts until its deadline unless the account changes.

* `Timed` — how the state is related to the calls before it;
* `quota_fresh` — numbers grow, and every snapshot is as fresh as it says.
-/

variable {parseTime : String → Option DateTime} {provider : Provider} {history : List Entry}
  {s : QuotaState}

/-- The success of a ticket was applied at this time. -/
def Applied (history : List Entry) (ticket : FetchTicket) (raw : Snapshot) (applied : ℤ) : Prop :=
  ∃ snap, (QuotaCall.finish ticket (.ok raw) applied, QuotaReply.finish (.applied snap)) ∈ history

/-- The ticket was handed out when it says. -/
def Started (history : List Entry) (ticket : FetchTicket) : Prop :=
  (QuotaCall.begin ticket.account ticket.startedAt, QuotaReply.begin (.fetch ticket)) ∈ history

/-- The rate limit that a ticket met was applied at this time, for `key`. -/
def Limited (history : List Entry) (key : Option AccountKey) (retryAfter : Option ℤ)
    (applied : ℤ) : Prop :=
  ∃ ticket snap, ticket.account = key ∧
    (QuotaCall.finish ticket (.error (.rateLimited retryAfter)) applied,
      QuotaReply.finish (.applied snap)) ∈ epoch key history

/-- How the state is related to the calls before it; the last was at `now`. -/
structure Timed (history : List Entry) (s : QuotaState) (now : ℤ) : Prop where
  /-- A ticket in flight is the last one, and no suspension runs. -/
  flight : ∀ ticket, s.flight = some ticket → Started history ticket ∧
    s.lastFetchAt = some ticket.startedAt ∧ s.suspendedUntil = none
  fetched : ∀ t, s.lastFetchAt = some t → t ≤ now
  /-- The last good snapshot is a success. -/
  good : ∀ snap applied, s.lastGood = some (snap, applied) →
    ∃ ticket raw, Applied history ticket raw applied ∧ TakenFrom raw snap
  /-- A fresh snapshot is the result of the last ticket. -/
  fresh : ∀ snap, s.flight = none → s.latest = some snap → snap.status.state = "ok" →
    snap.status.stale = false → ∃ ticket raw applied, Started history ticket ∧
      s.lastFetchAt = some ticket.startedAt ∧ Applied history ticket raw applied ∧
      TakenFrom raw snap
  /-- A stale snapshot was good when the last ticket started. -/
  stale : ∀ snap, s.flight = none → s.latest = some snap → snap.status.state = "ok" →
    snap.status.stale = true → ∃ ticket raw applied, Applied history ticket raw applied ∧
      TakenFrom raw snap ∧ ∀ t, s.lastFetchAt = some t → t - applied < stickyTtl
  /-- A rate limit lasts. -/
  limited : ∀ retryAfter applied, s.account ≠ none →
    Limited history s.account retryAfter applied →
    applied + backoff retryAfter ≤ now ∨ s.suspendedUntil = some (applied + backoff retryAfter)
  /-- Nothing happened for another account since the last `begin`. -/
  home : ∀ key, key ≠ s.account → ∀ retryAfter applied, ¬Limited history key retryAfter applied

theorem Applied.cons {ticket : FetchTicket} {raw : Snapshot} {applied : ℤ}
    (h : Applied history ticket raw applied) (e : Entry) :
    Applied (e :: history) ticket raw applied := by
  obtain ⟨snap, hmem⟩ := h
  exact ⟨snap, List.mem_cons_of_mem _ hmem⟩

theorem Started.cons {ticket : FetchTicket} (h : Started history ticket) (e : Entry) :
    Started (e :: history) ticket := List.mem_cons_of_mem _ h

/-- A rate limit that is known after a call was known before, or it is the reply. -/
theorem Limited.of_cons {call : QuotaCall} {reply : QuotaReply} {key : Option AccountKey}
    {retryAfter : Option ℤ} {applied : ℤ}
    (h : Limited ((call, reply) :: history) key retryAfter applied) :
    Limited history key retryAfter applied ∨ ∃ ticket snap, ticket.account = key ∧
      call = .finish ticket (.error (.rateLimited retryAfter)) applied ∧
      reply = .finish (.applied snap) := by
  obtain ⟨ticket, snap, hkey, hmem⟩ := h
  unfold epoch at hmem
  rw [List.takeWhile_cons] at hmem
  split at hmem
  · rcases List.mem_cons.mp hmem with heq | hmem
    · cases heq
      exact .inr ⟨ticket, snap, hkey, rfl, rfl⟩
    · exact .inl ⟨ticket, snap, hkey, hmem⟩
  · exact absurd hmem List.not_mem_nil

theorem Timed.mono {now later : ℤ} (h : Timed history s now) (hle : now ≤ later) :
    Timed history s later where
  flight := h.flight
  fetched t ht := le_trans (h.fetched t ht) hle
  good := h.good
  fresh := h.fresh
  stale := h.stale
  limited retryAfter applied haccount hlimited :=
    (h.limited retryAfter applied haccount hlimited).imp_left fun hend => le_trans hend hle
  home := h.home

/-- A call that meets no rate limit is added to the history. -/
theorem Timed.cons {now : ℤ} (h : Timed history s now) (e : Entry)
    (hlimited : ∀ key retryAfter applied, Limited (e :: history) key retryAfter applied →
      Limited history key retryAfter applied) : Timed (e :: history) s now where
  flight ticket ht := ⟨(h.flight ticket ht).1.cons e, (h.flight ticket ht).2⟩
  fetched := h.fetched
  good snap applied hg := by
    obtain ⟨ticket, raw, happlied, htaken⟩ := h.good snap applied hg
    exact ⟨ticket, raw, happlied.cons e, htaken⟩
  fresh snap hflight hlatest hok hfresh := by
    obtain ⟨ticket, raw, applied, hstarted, hfetched, happlied, htaken⟩ :=
      h.fresh snap hflight hlatest hok hfresh
    exact ⟨ticket, raw, applied, hstarted.cons e, hfetched, happlied.cons e, htaken⟩
  stale snap hflight hlatest hok hstale := by
    obtain ⟨ticket, raw, applied, happlied, htaken, hage⟩ := h.stale snap hflight hlatest hok hstale
    exact ⟨ticket, raw, applied, happlied.cons e, htaken, hage⟩
  limited retryAfter applied haccount hl :=
    h.limited retryAfter applied haccount (hlimited _ _ _ hl)
  home key hkey retryAfter applied hl :=
    h.home key hkey retryAfter applied (hlimited _ _ _ hl)

/-- A `begin` meets no rate limit. -/
theorem limited_begin {key' : Option AccountKey} {now : ℤ} {reply : QuotaReply}
    {key : Option AccountKey} {retryAfter : Option ℤ} {applied : ℤ}
    (h : Limited ((.begin key' now, reply) :: history) key retryAfter applied) :
    Limited history key retryAfter applied := by
  rcases h.of_cons with h | ⟨_, _, _, hcall, _⟩
  · exact h
  · cases hcall

/-- A change of the key leaves nothing to relate. -/
theorem Timed.switch {now t : ℤ} (h : Timed history s now) (key : Option AccountKey)
    (reply : QuotaReply) : Timed ((.begin key t, reply) :: history) (s.switch key) now := by
  have hmore := h.cons (.begin key t, reply) fun _ _ _ => limited_begin
  unfold QuotaState.switch
  split
  · exact hmore
  · rename_i hkey
    refine ⟨fun _ hx => (nomatch hx), fun _ hx => (nomatch hx), fun _ _ hx => (nomatch hx),
      fun _ _ hx => (nomatch hx), fun _ _ hx => (nomatch hx), fun retryAfter applied _ hl => ?_,
      fun other hother retryAfter applied hl => ?_⟩
    · exact absurd hl (hmore.home key (Ne.symm hkey) retryAfter applied)
    · -- a `begin` under another key starts a new epoch
      obtain ⟨ticket, snap, -, hmem⟩ := hl
      have hforeign : (!(QuotaCall.begin key t).foreign other) = false := by
        show (!(key != other)) = false
        rw [Bool.not_eq_false', bne_iff_ne]
        exact Ne.symm hother
      unfold epoch at hmem
      rw [List.takeWhile_cons_of_neg (by rw [hforeign]; exact Bool.false_ne_true)] at hmem
      exact absurd hmem List.not_mem_nil

/-! ### One call

Of each snapshot that is returned it is said which ticket fetched it and when. -/

/-- What a snapshot says of its age is true when `call` returns it. -/
structure AsFreshAs (history : List Entry) (call : QuotaCall) (snap : Snapshot) : Prop where
  /-- It was just fetched, or by a ticket that started within the last minute. -/
  fresh : snap.status.state = "ok" → snap.status.stale = false →
    (∃ ticket raw, call = .finish ticket (.ok raw) call.now ∧ snap = stamp raw ticket call.now) ∨
    ∃ ticket raw applied, Started history ticket ∧ Applied history ticket raw applied ∧
      TakenFrom raw snap ∧ call.now - ticket.startedAt < seconds 60
  stale : snap.status.state = "ok" → snap.status.stale = true →
    ∃ ticket raw applied, Applied history ticket raw applied ∧ TakenFrom raw snap ∧
      call.now - applied < seconds 660

/-- A failure does not look like a success. -/
theorem failed_not_ok (provider : Provider) {state : String} (h : state ∈ failureStates)
    (shown : Option String) (seq : Int64) (now : ℤ) :
    (failed provider state shown seq now).status.state ≠ "ok" := by
  show state ≠ "ok"
  rintro rfl
  revert h
  decide

/-- A success is not stale. -/
theorem validSuccess_fresh {raw : Snapshot} (h : s.validSuccess parseTime raw = true) :
    raw.status.stale = false := by
  unfold validSuccess at h
  simp only [Bool.and_eq_true, Bool.not_eq_true'] at h
  tauto

/-- What `begin` serves is as fresh as it says, and it fetches only when no rate limit lasts. -/
theorem Timed.begin {key : Option AccountKey} {now : ℤ} {reply : Begin} {s' : QuotaState}
    {earlier : List Entry} (hhead : history = (.begin key now, .begin reply) :: earlier)
    (h : Timed history s now) (hkey : s.account = key) (hstep : BeginStep s key now reply s') :
    Timed history s' now ∧ (∀ snap, reply = .cached snap → AsFreshAs history
    (.begin key now) snap) ∧
      ∀ ticket, reply = .fetch ticket → ∀ retryAfter applied, key ≠ none →
        Limited history key retryAfter applied → applied + backoff retryAfter ≤ now := by
  subst hkey
  cases hstep with
  | inFlight =>
    exact ⟨h, fun _ hx => (nomatch hx), fun _ hx => (nomatch hx)⟩
  -- a cached snapshot is as fresh as it was
  | cached snap fetched hflight _ _ hfetched hcache hlatest =>
    refine ⟨⟨h.flight, h.fetched, h.good, fun x hf hx hok hfresh => ?_,
      fun x hf hx hok hstale => ?_, h.limited, h.home⟩, fun x hx => ⟨fun hok hfresh => ?_,
      fun hok hstale => ?_⟩, fun _ hx => (nomatch hx)⟩
    · cases hx
      obtain ⟨ticket, raw, applied, hstarted, hlast, happlied, htaken⟩ :=
        h.fresh snap hf hlatest hok hfresh
      exact ⟨ticket, raw, applied, hstarted, hlast, happlied, htaken.dated _ _⟩
    · cases hx
      obtain ⟨ticket, raw, applied, happlied, htaken, hage⟩ := h.stale snap hf hlatest hok hstale
      exact ⟨ticket, raw, applied, happlied, htaken.dated _ _, hage⟩
    · cases hx
      obtain ⟨ticket, raw, applied, hstarted, hlast, happlied, htaken⟩ :=
        h.fresh snap hflight hlatest hok hfresh
      cases hfetched.symm.trans hlast
      exact .inr ⟨ticket, raw, applied, hstarted, happlied, htaken.dated _ _, hcache⟩
    · cases hx
      obtain ⟨ticket, raw, applied, happlied, htaken, hage⟩ :=
        h.stale snap hflight hlatest hok hstale
      have hage' := hage fetched hfetched
      refine ⟨ticket, raw, applied, happlied, htaken.dated _ _, ?_⟩
      show now - applied < seconds 660
      unfold cacheTtl stickyTtl seconds at *
      omega
  -- the last good snapshot is not older than it may be
  | sticky good deadline applied hflight _ _ _ _ hgood hsticky =>
    obtain ⟨ticket, raw, happlied, htaken⟩ := h.good good applied hgood
    refine ⟨⟨h.flight, h.fetched, h.good, fun x hf hx hok hfresh => ?_,
      fun x hf hx hok hstale => ?_, h.limited, h.home⟩, fun x hx => ⟨fun hok hfresh => ?_,
      fun hok hstale => ?_⟩, fun _ hx => (nomatch hx)⟩
    -- a stale snapshot is not fresh
    · cases hx; cases hfresh
    · cases hx
      refine ⟨ticket, raw, applied, happlied, (htaken.stale _).dated _ _, fun t ht => ?_⟩
      have hle := h.fetched t ht
      omega
    · cases hx; cases hfresh
    · cases hx
      refine ⟨ticket, raw, applied, happlied, (htaken.stale _).dated _ _, ?_⟩
      show now - applied < seconds 660
      unfold stickyTtl seconds at *
      omega
  -- a failure is neither
  | limited deadline =>
    have hnot := failed_not_ok s.provider (show "rateLimited" ∈ failureStates by decide)
      (retryAt deadline now) (saturatingSucc s.seq) now
    refine ⟨⟨h.flight, h.fetched, h.good, fun x _ hx hok _ => ?_, fun x _ hx hok _ => ?_, h.limited,
      h.home⟩, fun x hx => ⟨fun hok _ => ?_, fun hok _ => ?_⟩, fun _ hx => (nomatch hx)⟩
    · cases hx; exact absurd hok hnot
    · cases hx; exact absurd hok hnot
    · cases hx; exact absurd hok hnot
    · cases hx; exact absurd hok hnot
  | fetch hflight hpast =>
    -- what lasted until now has ended
    have hended : ∀ retryAfter applied, s.account ≠ none →
        Limited history s.account retryAfter applied → applied + backoff retryAfter ≤ now := by
      intro retryAfter applied haccount hl
      rcases h.limited retryAfter applied haccount hl with hend | hlast
      · exact hend
      · exact hpast _ haccount hlast
    -- the fetch starts now, so nothing fetched later can be older
    refine ⟨⟨fun ticket ht => ?_, fun t ht => ?_, h.good, fun _ hf => (nomatch hf),
      fun _ hf => (nomatch hf), fun retryAfter applied haccount hl =>
        .inl (hended retryAfter applied haccount hl), h.home⟩, fun _ hx => (nomatch hx),
      fun _ _ => hended⟩
    · cases ht
      refine ⟨?_, rfl, rfl⟩
      show (QuotaCall.begin s.account now, _) ∈ history
      rw [hhead]
      exact List.mem_cons_self
    · cases ht
      exact le_refl _

/-- With a ticket in flight no rate limit lasts. -/
theorem Timed.ended {now : ℤ} {ticket : FetchTicket} (h : Timed history s now)
    (hflight : s.flight = some ticket) {retryAfter : Option ℤ} {applied : ℤ}
    (haccount : s.account ≠ none) (hl : Limited history s.account retryAfter applied) :
    applied + backoff retryAfter ≤ now := by
  rcases h.limited retryAfter applied haccount hl with hend | hlast
  · exact hend
  · cases (h.flight ticket hflight).2.2.symm.trans hlast

/-- What stands for the failure of the ticket in flight is as fresh as it says. -/
theorem Timed.failure {f : Failure} {now : ℤ} {snap : Snapshot} {s' : QuotaState}
    (call : QuotaCall) (reply : QuotaReply) (h : Timed history s now) (hnow : call.now = now)
    (hlimited : ∀ retryAfter applied, s.account ≠ none →
      Limited ((call, reply) :: history) s.account retryAfter applied →
      applied + backoff retryAfter ≤ now ∨
        s.suspension f now = some (applied + backoff retryAfter))
    (hhome : ∀ key, key ≠ s.account → ∀ retryAfter applied,
      ¬Limited ((call, reply) :: history) key retryAfter applied)
    (hstep : FailStep { s with flight := none } f now snap s') :
    Timed ((call, reply) :: history) s' now ∧ AsFreshAs ((call, reply) :: history) call snap := by
  -- the last good reading stays the one that was applied
  have hgood : ∀ snap applied, s.lastGood = some (snap, applied) → ∃ ticket raw,
      Applied ((call, reply) :: history) ticket raw applied ∧ TakenFrom raw snap := by
    intro snap applied hsnap
    obtain ⟨ticket, raw, happlied, htaken⟩ := h.good snap applied hsnap
    exact ⟨ticket, raw, happlied.cons _, htaken⟩
  cases hstep with
  | sticky good applied haccount hlast hsticky =>
    obtain ⟨ticket, raw, happlied, htaken⟩ := hgood good applied hlast
    -- the sticky reading is shown as stale, and is younger than its limit
    have htaken' := (htaken.stale (shownRetry f now)).dated s.seq now
    refine ⟨⟨fun _ ht => (nomatch ht), h.fetched, hgood, fun x _ hx _ hfresh => ?_,
      fun x _ hx _ _ => ?_, hlimited, hhome⟩, fun _ hfresh => ?_, fun _ _ => ?_⟩
    · cases hx; cases hfresh
    · cases hx
      refine ⟨ticket, raw, applied, happlied, htaken', fun t ht => ?_⟩
      have hle := h.fetched t ht
      omega
    · cases hfresh
    · refine ⟨ticket, raw, applied, happlied, htaken', ?_⟩
      unfold stickyTtl seconds at *
      omega
  | shown =>
    -- what is shown instead has a status other than `ok`
    have hnot := failed_not_ok s.provider (classify_mem s.provider f) (shownRetry f now) s.seq now
    refine ⟨⟨fun _ ht => (nomatch ht), h.fetched, hgood, fun x _ hx hok _ => ?_,
      fun x _ hx hok _ => ?_, hlimited, hhome⟩, fun hok _ => ?_, fun hok _ => ?_⟩
    · cases hx; exact absurd hok hnot
    · cases hx; exact absurd hok hnot
    · exact absurd hok hnot
    · exact absurd hok hnot

/-- What `finish` returns is as fresh as it says. -/
theorem Timed.finish {ticket : FetchTicket} {result : Except Failure Snapshot} {now : ℤ}
    {reply : Finish} {s' : QuotaState} (h : Timed history s now)
    (hstep : FinishStep parseTime s ticket result now reply s') :
    Timed ((.finish ticket result now, .finish reply) :: history) s' now ∧
      ∀ snap, (QuotaReply.finish reply).snapshot = some snap →
        AsFreshAs ((.finish ticket result now, .finish reply) :: history)
          (.finish ticket result now) snap := by
  cases hstep with
  | discarded =>
    refine ⟨h.cons _ fun key retryAfter applied hl => ?_, fun _ hx => (nomatch hx)⟩
    rcases hl.of_cons with hl | ⟨_, _, _, _, hreply⟩
    · exact hl
    · cases hreply
  -- a success is as fresh as its fetch
  | success raw hflight haccount hresult hvalid =>
    subst hresult
    have hkeep : ∀ key retryAfter applied, Limited ((.finish ticket (.ok raw) now,
        .finish (.applied (stamp raw ticket now))) :: history) key retryAfter applied →
        Limited history key retryAfter applied := by
      intro key retryAfter applied hl
      rcases hl.of_cons with hl | ⟨_, _, _, hcall, _⟩
      · exact hl
      · cases hcall
    have happlied : Applied ((.finish ticket (.ok raw) now,
        .finish (.applied (stamp raw ticket now))) :: history) ticket raw now :=
      ⟨_, List.mem_cons_self⟩
    have hfresh := validSuccess_fresh hvalid
    obtain ⟨hstarted, hlast, -⟩ := h.flight ticket hflight
    refine ⟨⟨fun _ hx => (nomatch hx), h.fetched, fun x applied hx => ?_, fun x _ hx _ _ => ?_,
      fun x _ hx _ hstale => ?_, fun retryAfter applied hsome hl => ?_,
      fun key hkey retryAfter applied hl => h.home key hkey retryAfter applied (hkeep _ _ _ hl)⟩,
      fun x hx => ⟨fun _ _ => ?_, fun _ hstale => ?_⟩⟩
    -- it is the last good snapshot now
    · cases hx
      exact ⟨ticket, raw, happlied, TakenFrom.stamp raw ticket now⟩
    · cases hx
      exact ⟨ticket, raw, now, hstarted.cons _, hlast, happlied, TakenFrom.stamp raw ticket now⟩
    · cases hx
      cases hfresh.symm.trans hstale
    · exact .inl (h.ended hflight hsome (hkeep _ _ _ hl))
    · cases hx
      exact .inl ⟨ticket, raw, rfl, rfl⟩
    · cases hx
      cases hfresh.symm.trans hstale
  | failure f snap s' hflight haccount hresult hfail =>
    subst hresult
    -- the rate limit that is met now starts the suspension
    obtain ⟨htimed, hsnap⟩ := h.failure (.finish ticket (.error f) now)
      (.finish (.applied snap)) rfl
      (fun retryAfter applied hsome hl => by
        rcases hl.of_cons with hl | ⟨_, _, _, hcall, _⟩
        · exact .inl (h.ended hflight hsome hl)
        · cases hcall
          obtain ⟨key, hkey⟩ := Option.ne_none_iff_exists'.mp hsome
          right
          show s.account.map _ = _
          rw [hkey]
          rfl)
      (fun key hkey retryAfter applied hl => by
        rcases hl.of_cons with hl | ⟨_, _, hfor, hcall, _⟩
        · exact h.home key hkey retryAfter applied hl
        · cases hcall
          exact hkey (hfor ▸ haccount.symm))
      hfail
    refine ⟨htimed, fun x hx => ?_⟩
    cases hx
    exact hsnap
  | rejected raw snap s' hflight haccount hresult hfail =>
    subst hresult
    have hkeep : ∀ key retryAfter applied, Limited ((.finish ticket (.ok raw) now,
        .finish (.rejectedSnapshot snap)) :: history) key retryAfter applied →
        Limited history key retryAfter applied := by
      intro key retryAfter applied hl
      rcases hl.of_cons with hl | ⟨_, _, _, hcall, _⟩
      · exact hl
      · cases hcall
    obtain ⟨htimed, hsnap⟩ := h.failure (.finish ticket (.ok raw) now)
      (.finish (.rejectedSnapshot snap)) rfl
      (fun retryAfter applied hsome hl => .inl (h.ended hflight hsome (hkeep _ _ _ hl)))
      (fun key hkey retryAfter applied hl => h.home key hkey retryAfter applied (hkeep _ _ _ hl))
      hfail
    refine ⟨htimed, fun x hx => ?_⟩
    cases hx
    exact hsnap

/-- One call keeps the state related to the calls before it, and its reply is as fresh as it
    says. -/
theorem Timed.step {call : QuotaCall} (h : Timed history s call.now) :
    Timed ((call, (s.step parseTime call).1) :: history) (s.step parseTime call).2 call.now ∧
      ∀ snap, (s.step parseTime call).1.snapshot = some snap →
        AsFreshAs ((call, (s.step parseTime call).1) :: history) call snap := by
  cases call with
  | begin key now =>
    obtain ⟨htimed, hsnap, -⟩ := (h.switch key (.begin (s.begin key now).1)).begin rfl
      (switch_account s key) (begin_step s key now)
    refine ⟨htimed, fun snap hx => hsnap snap ?_⟩
    change (QuotaReply.begin (s.begin key now).1).snapshot = some snap at hx
    cases hreply : (s.begin key now).1 with
    | fetch ticket => rw [hreply] at hx; cases hx
    | inFlight => rw [hreply] at hx; cases hx
    | cached x => rw [hreply] at hx; cases hx; rfl
  | finish ticket result now => exact h.finish (finish_step parseTime s ticket result now)

/-- In every run in order the state is related to the calls before it. -/
theorem Run.timed (h : Run parseTime provider history s) (horder : InOrder history) {now : ℤ}
    (hnow : ∀ e ∈ history, e.1.now ≤ now) : Timed history s now := by
  induction h generalizing now with
  | new =>
    exact ⟨fun _ hx => (nomatch hx), fun _ hx => (nomatch hx), fun _ _ hx => (nomatch hx),
      fun _ _ hx => (nomatch hx), fun _ _ hx => (nomatch hx), fun _ _ hne => absurd rfl hne,
      fun _ _ _ _ ⟨_, _, _, hmem⟩ => absurd hmem List.not_mem_nil⟩
  | step call _ ih =>
    obtain ⟨hbefore, horder⟩ := List.pairwise_cons.mp horder
    exact (ih horder hbefore).step.1.mono (hnow _ List.mem_cons_self)

/-! ### The order of the snapshots

Numbers are given when a ticket is handed out and when a snapshot is shown, and they never go back.
-/

/-- The number `n` comes after everything that was shown, as long as numbers last. -/
def After (history : List Entry) (n : Int64) : Prop :=
  ∀ e ∈ history, ∀ snap, e.2.snapshot = some snap → snap.seq < Int64.maxValue → snap.seq < n

/-- Numbers are handed out in order: that of the ticket in flight is not used yet. -/
structure Ordered (history : List Entry) (s : QuotaState) : Prop where
  shown : ∀ e ∈ history, ∀ snap, e.2.snapshot = some snap → snap.seq ≤ s.seq
  flight : ∀ ticket, s.flight = some ticket → ticket.seq = s.seq ∧ After history s.seq

/-- The next number comes after everything that was shown. -/
theorem Ordered.succ (h : Ordered history s) : After history (saturatingSucc s.seq) := by
  intro e he snap hsnap hlt
  have hle := Int64.le_iff_toInt_le.mp (h.shown e he snap hsnap)
  have hmax := Int64.lt_iff_toInt_lt.mp hlt
  rw [Int64.toInt_maxValue] at hmax
  rw [Int64.lt_iff_toInt_lt, toInt_saturatingSucc]
  omega

theorem le_saturatingSucc (n : Int64) : n ≤ saturatingSucc n := by
  have hle := n.toInt_le
  rw [Int64.toInt_maxValue] at hle
  rw [Int64.le_iff_toInt_le, toInt_saturatingSucc]
  omega

/-- A call that returns no snapshot and hands out no ticket. -/
theorem Ordered.keep (h : Ordered history s) {e : Entry} (he : e.2.snapshot = none) :
    Ordered (e :: history) s := by
  have hall : ∀ x ∈ e :: history, ∀ snap, x.2.snapshot = some snap → x ∈ history := by
    intro x hx snap hsnap
    rcases List.mem_cons.mp hx with rfl | hx
    · cases he.symm.trans hsnap
    · exact hx
  exact ⟨fun x hx snap hsnap => h.shown x (hall x hx snap hsnap) snap hsnap,
    fun ticket ht => ⟨(h.flight ticket ht).1, fun x hx snap hsnap =>
      (h.flight ticket ht).2 x (hall x hx snap hsnap) snap hsnap⟩⟩

/-- A call that returns a snapshot with a number that is not smaller than before. -/
theorem Ordered.show {e : Entry} {snap : Snapshot} {s' : QuotaState} (h : Ordered history s)
    (he : e.2.snapshot = some snap) (hseq : snap.seq = s'.seq) (hle : s.seq ≤ s'.seq)
    (hflight : s'.flight = none) : Ordered (e :: history) s' := by
  refine ⟨fun x hx shown hshown => ?_, fun ticket ht => ?_⟩
  · rcases List.mem_cons.mp hx with rfl | hx
    · cases he.symm.trans hshown
      rw [hseq]
      exact Int64.le_refl _
    · exact Int64.le_trans (h.shown x hx shown hshown) hle
  · cases hflight.symm.trans ht

theorem Ordered.switch (h : Ordered history s) (key : Option AccountKey) :
    Ordered history (s.switch key) := by
  unfold QuotaState.switch
  split
  · exact h
  · exact ⟨h.shown, fun _ hx => (nomatch hx)⟩

/-- What `begin` returns comes after everything before. -/
theorem Ordered.begin {key : Option AccountKey} {now : ℤ} {reply : Begin} {s' : QuotaState}
    (h : Ordered history s) (hstep : BeginStep s key now reply s') :
    Ordered ((.begin key now, .begin reply) :: history) s' ∧
      ∀ snap, (QuotaReply.begin reply).snapshot = some snap → After history snap.seq := by
  have hle := le_saturatingSucc s.seq
  cases hstep with
  | inFlight => exact ⟨h.keep rfl, fun _ hx => (nomatch hx)⟩
  | cached snap _ hflight =>
    refine ⟨h.show rfl rfl hle hflight, fun x hx => ?_⟩
    cases hx
    exact h.succ
  | sticky good _ _ hflight =>
    refine ⟨h.show rfl rfl hle hflight, fun x hx => ?_⟩
    cases hx
    exact h.succ
  | limited _ hflight =>
    refine ⟨h.show rfl rfl hle hflight, fun x hx => ?_⟩
    cases hx
    exact h.succ
  | fetch hflight =>
    refine ⟨⟨fun x hx snap hsnap => ?_, fun ticket ht => ?_⟩, fun _ hx => (nomatch hx)⟩
    · rcases List.mem_cons.mp hx with rfl | hx
      · cases hsnap
      · exact Int64.le_trans (h.shown x hx snap hsnap) hle
    · cases ht
      refine ⟨rfl, fun x hx snap hsnap => ?_⟩
      rcases List.mem_cons.mp hx with rfl | hx
      · cases hsnap
      · exact h.succ x hx snap hsnap

/-- What stands for a failure has the number of the state. -/
theorem failStep_seq {f : Failure} {now : ℤ} {snap : Snapshot} {s' : QuotaState}
    (h : FailStep s f now snap s') :
    snap.seq = s.seq ∧ s'.seq = s.seq ∧ s'.flight = s.flight := by
  cases h with
  | sticky => exact ⟨rfl, rfl, rfl⟩
  | shown => exact ⟨rfl, rfl, rfl⟩

/-- What `finish` returns comes after everything before. -/
theorem Ordered.finish {ticket : FetchTicket} {result : Except Failure Snapshot} {now : ℤ}
    {reply : Finish} {s' : QuotaState} (h : Ordered history s)
    (hstep : FinishStep parseTime s ticket result now reply s') :
    Ordered ((.finish ticket result now, .finish reply) :: history) s' ∧
      ∀ snap, (QuotaReply.finish reply).snapshot = some snap → After history snap.seq := by
  cases hstep with
  | discarded => exact ⟨h.keep rfl, fun _ hx => (nomatch hx)⟩
  | success raw hflight =>
    obtain ⟨hseq, hafter⟩ := h.flight ticket hflight
    refine ⟨h.show rfl hseq (Int64.le_refl _) rfl, fun x hx => ?_⟩
    cases hx
    show After history ticket.seq
    rw [hseq]
    exact hafter
  | failure f snap s' hflight _ _ hfail =>
    obtain ⟨hseq, hseq', hnone⟩ := failStep_seq hfail
    refine ⟨h.show rfl (hseq.trans hseq'.symm) (hseq' ▸ Int64.le_refl _) hnone, fun x hx => ?_⟩
    cases hx
    rw [hseq]
    exact (h.flight ticket hflight).2
  | rejected raw snap s' hflight _ _ hfail =>
    obtain ⟨hseq, hseq', hnone⟩ := failStep_seq hfail
    refine ⟨h.show rfl (hseq.trans hseq'.symm) (hseq' ▸ Int64.le_refl _) hnone, fun x hx => ?_⟩
    cases hx
    rw [hseq]
    exact (h.flight ticket hflight).2

theorem Ordered.step (h : Ordered history s) (call : QuotaCall) :
    Ordered ((call, (s.step parseTime call).1) :: history) (s.step parseTime call).2 ∧
      ∀ snap, (s.step parseTime call).1.snapshot = some snap → After history snap.seq := by
  cases call with
  | begin key now => exact (h.switch key).begin (begin_step s key now)
  | finish ticket result now => exact h.finish (finish_step parseTime s ticket result now)

/-- In every run numbers are handed out in order. -/
theorem Run.ordered (h : Run parseTime provider history s) : Ordered history s := by
  induction h with
  | new => exact ⟨fun _ h => absurd h List.not_mem_nil, fun _ h => (nomatch h)⟩
  | step call _ ih => exact (ih.step call).1

/-- In every run the snapshots come in the order of their numbers. -/
theorem Run.increasing (h : Run parseTime provider history s) :
    history.Pairwise fun later earlier => ∀ snap shown, later.2.snapshot = some snap →
      earlier.2.snapshot = some shown → shown.seq < Int64.maxValue → shown.seq < snap.seq := by
  induction h with
  | new => exact .nil
  | step call hrun ih =>
    refine List.pairwise_cons.mpr ⟨fun e he snap shown hsnap hshown hlt => ?_, ih⟩
    exact (hrun.ordered.step call).2 snap hsnap e he shown hshown hlt

/-- During a suspension `begin` does not fetch. -/
theorem begin_suspended {key : AccountKey} {now deadline : ℤ} (haccount : s.account = some key)
    (hsuspended : s.suspendedUntil = some deadline) (hlt : now < deadline) (ticket : FetchTicket) :
    (s.begin (some key) now).1 ≠ .fetch ticket := by
  intro hfetch
  have hstep := begin_step s (some key) now
  have hsame : s.switch (some key) = s := if_pos haccount
  rw [hsame, hfetch] at hstep
  generalize (s.begin (some key) now).2 = s' at hstep
  cases hstep with
  | fetch _ hpast =>
    have hle := hpast deadline (Option.some_ne_none key) hsuspended
    omega

/-- **The quota is as fresh as it says.**  In every run in order the numbers of the snapshots grow
    until they reach the largest one.  A snapshot that is not stale was fetched by a ticket that
    started less than 60 s ago, or is what was just fetched; one that is stale shows a success that
    was applied less than 660 s ago.  As long as a rate limit of the account lasts nothing is
    fetched for it. -/
theorem quota_fresh (h : Run parseTime provider history s) (horder : InOrder history) :
    (history.Pairwise fun later earlier => ∀ snap shown, later.2.snapshot = some snap →
      earlier.2.snapshot = some shown → shown.seq < Int64.maxValue → shown.seq < snap.seq) ∧
    (∀ (later earlier : List Entry) (call : QuotaCall) (reply : QuotaReply) (snap : Snapshot),
      history = later ++ (call, reply) :: earlier → reply.snapshot = some snap →
      AsFreshAs ((call, reply) :: earlier) call snap) ∧
    (∀ (later earlier : List Entry) (key : AccountKey) (now : ℤ) (ticket : FetchTicket),
      history = later ++ (.begin (some key) now, .begin (.fetch ticket)) :: earlier →
      ∀ retryAfter applied, Limited earlier (some key) retryAfter applied →
        applied + backoff retryAfter ≤ now) ∧
    ∀ (key : AccountKey) (now deadline : ℤ) (ticket : FetchTicket), s.account = some key →
      s.suspendedUntil = some deadline → now < deadline →
      (s.begin (some key) now).1 ≠ .fetch ticket := by
  -- each reply is that of a state whose clock has not passed the call
  have hentry : ∀ later earlier call reply, history = later ++ (call, reply) :: earlier →
      ∃ before, reply = (QuotaState.step parseTime before call).1 ∧
        Timed earlier before call.now := by
    intro later earlier call reply hsplit
    rw [hsplit] at h horder
    obtain ⟨before, hrun, hreply⟩ := h.split
    have hpair := List.pairwise_cons.mp (List.pairwise_append.mp horder).2.1
    exact ⟨before, hreply, hrun.timed hpair.2 hpair.1⟩
  refine ⟨h.increasing, fun later earlier call reply snap hsplit hsnap => ?_,
    fun later earlier key now ticket hsplit retryAfter applied hl => ?_,
    fun key now deadline ticket haccount hsuspended hlt =>
      begin_suspended haccount hsuspended hlt ticket⟩
  · obtain ⟨before, rfl, htimed⟩ := hentry later earlier call reply hsplit
    exact htimed.step.2 snap hsnap
  · obtain ⟨before, hreply, htimed⟩ := hentry later earlier _ _ hsplit
    have hbegin : (before.begin (some key) now).1 = .fetch ticket :=
      (QuotaReply.begin.inj hreply).symm
    -- the switch to the account comes first, and the fetch is decided after it
    have hswitch :
      Timed ((.begin (some key) now, .begin (before.begin (some key) now).1) :: earlier)
        (before.switch (some key)) now := htimed.switch (some key) _
    refine (hswitch.begin rfl (switch_account before (some key))
      (begin_step before (some key) now)).2.2 ticket hbegin retryAfter applied
      (Option.some_ne_none key) ?_
    obtain ⟨t, snap, hkey, hmem⟩ := hl
    refine ⟨t, snap, hkey, ?_⟩
    have hcall : (QuotaCall.begin (some key) now).foreign (some key) = false :=
      bne_self_eq_false (some key)
    rw [epoch_cons hcall]
    exact List.mem_cons_of_mem _ hmem

namespace FreshExample

/-- The first account is looked at again 27 s after its quota came. -/
def calls : List QuotaCall :=
  QuotaExample.calls ++ [.begin (some QuotaExample.first) 30000000000]

/-- The run of these calls. -/
def run : List Entry × QuotaState := replay (fun _ => none) .codex calls

theorem run_inOrder : InOrder run.1 := by
  have htimes : (run.1.map fun e => e.1.now).Pairwise fun later earlier => earlier ≤ later := by
    decide
  exact List.pairwise_map.mp htimes

/-- The snapshot that is shown again is not stale, and it was fetched within the last minute. -/
theorem cached_fresh :
    ∃ e earlier snap, run.1 = e :: earlier ∧ e.2.snapshot = some snap ∧
      snap.status.state = "ok" ∧ snap.status.stale = false ∧ AsFreshAs run.1 e.1 snap := by
  have hlast : (run.1.head?.bind fun e => e.2.snapshot).map
      (fun snap => (snap.status.state, snap.status.stale)) = some ("ok", false) := by decide
  obtain ⟨-, hfresh, -, -⟩ := quota_fresh (replay_run (fun _ => none) .codex calls) run_inOrder
  cases hrun : run.1 with
  | nil => rw [hrun] at hlast; cases hlast
  | cons e earlier =>
    rw [hrun, List.head?_cons] at hlast
    obtain ⟨snap, hsnap, hstatus⟩ := Option.map_eq_some_iff.mp hlast
    have he : e.2.snapshot = some snap := hsnap
    obtain ⟨hok, hstale⟩ := Prod.mk.inj hstatus
    exact ⟨e, earlier, snap, rfl, he, hok, hstale, hfresh [] earlier e.1 e.2 snap hrun he⟩

end FreshExample

end Hmux.Usage
