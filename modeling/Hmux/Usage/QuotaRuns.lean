import Hmux.Usage.Quota

namespace Hmux.Usage

open Lib Pb QuotaState

/-!
# Runs of the quota cache, and whose quota they show

A run is any interleaving of `begin` and `finish`, with the replies it had.  The caches, the
ticket in flight and the suspension always belong to the account of the last `begin`: what they
hold was fetched for it since the last `begin` under another key (`Owned`).

* `Run.split` — every entry of a run is a step from a state that was reached before;
* `quota_isolated` — no snapshot shows the quota of another account.
-/

/-! ### Runs

The history has every call with its reply, the newest first, so that a state is known from it. -/

/-- A call of the cache. -/
inductive QuotaCall
  | begin (key : Option AccountKey) (now : ℤ)
  | finish (ticket : FetchTicket) (result : Except Failure Snapshot) (now : ℤ)

/-- What it returned. -/
inductive QuotaReply
  | begin (reply : Begin)
  | finish (reply : Finish)

/-- The time of a call. -/
def QuotaCall.now : QuotaCall → ℤ
  | .begin _ now => now
  | .finish _ _ now => now

/-- The key a call is made for. -/
def QuotaCall.key : QuotaCall → Option AccountKey
  | .begin key _ => key
  | .finish ticket _ _ => ticket.account

/-- The snapshot that was returned. -/
def QuotaReply.snapshot : QuotaReply → Option Snapshot
  | .begin (.cached snap) => some snap
  | .finish (.applied snap) => some snap
  | .finish (.rejectedSnapshot snap) => some snap
  | _ => none

/-- A call and its reply. -/
abbrev Entry := QuotaCall × QuotaReply

/-- The ticket that an entry handed out. -/
def Entry.issued (e : Entry) : Option FetchTicket :=
  match e with
  | (_, .begin (.fetch ticket)) => some ticket
  | _ => none

/-- The tickets of a run, the newest first. -/
def issued (history : List Entry) : List FetchTicket := history.filterMap Entry.issued

/-- A `begin` under another key. -/
def QuotaCall.foreign (key : Option AccountKey) : QuotaCall → Bool
  | .begin other _ => other != key
  | .finish .. => false

/-- The entries since the last `begin` under another key. -/
def epoch (key : Option AccountKey) (history : List Entry) : List Entry :=
  history.takeWhile fun e => !e.1.foreign key

section

variable (parseTime : String → Option DateTime)

/-- One call. -/
def QuotaState.step (s : QuotaState) : QuotaCall → QuotaReply × QuotaState
  | .begin key now => ((.begin (s.begin key now).1), (s.begin key now).2)
  | .finish ticket result now =>
    ((.finish (s.finish parseTime ticket result now).1), (s.finish parseTime ticket result now).2)

/-- The histories of a new cache, the newest entry first, and the states they lead to. -/
inductive Run (provider : Provider) : List Entry → QuotaState → Prop
  | new : Run provider [] (QuotaState.new provider)
  | step {history : List Entry} {s : QuotaState} (call : QuotaCall) : Run provider history s →
      Run provider ((call, (s.step parseTime call).1) :: history) (s.step parseTime call).2

/-- The run of these calls. -/
def replay (provider : Provider) (calls : List QuotaCall) : List Entry × QuotaState :=
  calls.foldl (fun r call => ((call, (r.2.step parseTime call).1) :: r.1,
    (r.2.step parseTime call).2)) ([], QuotaState.new provider)

/-- What is replayed is a run. -/
theorem replay_run (provider : Provider) (calls : List QuotaCall) :
    Run parseTime provider (replay parseTime provider calls).1
      (replay parseTime provider calls).2 := by
  have hfold : ∀ (calls : List QuotaCall) (r : List Entry × QuotaState),
      Run parseTime provider r.1 r.2 →
      Run parseTime provider
        (calls.foldl (fun r call => ((call, (r.2.step parseTime call).1) :: r.1,
          (r.2.step parseTime call).2)) r).1
        (calls.foldl (fun r call => ((call, (r.2.step parseTime call).1) :: r.1,
          (r.2.step parseTime call).2)) r).2 := by
    intro calls
    induction calls with
    | nil => intro r h; exact h
    | cons call calls ih => intro r h; exact ih _ (h.step call)
  exact hfold calls ([], QuotaState.new provider) .new

end

variable {parseTime : String → Option DateTime} {provider : Provider} {history : List Entry}
  {s : QuotaState}

/-- The last step of a run. -/
theorem Run.last {e : Entry} (h : Run parseTime provider (e :: history) s) :
    ∃ s₀, Run parseTime provider history s₀ ∧ e.2 = (s₀.step parseTime e.1).1 ∧
      s = (s₀.step parseTime e.1).2 := by
  cases h with
  | step call h => exact ⟨_, h, rfl, rfl⟩

/-- A run leads to one state. -/
theorem Run.unique {s' : QuotaState} (h : Run parseTime provider history s)
    (h' : Run parseTime provider history s') : s = s' := by
  induction history generalizing s s' with
  | nil =>
    cases h
    cases h'
    rfl
  | cons e history ih =>
    obtain ⟨s₀, hrun, -, rfl⟩ := h.last
    obtain ⟨s₁, hrun', -, rfl⟩ := h'.last
    rw [ih hrun hrun']

/-- Every entry of a run is a step from a state that was reached before. -/
theorem Run.split {later earlier : List Entry} {call : QuotaCall} {reply : QuotaReply}
    (h : Run parseTime provider (later ++ (call, reply) :: earlier) s) :
    ∃ s₀, Run parseTime provider earlier s₀ ∧ reply = (s₀.step parseTime call).1 := by
  induction later generalizing s with
  | nil =>
    obtain ⟨s₀, hrun, hreply, -⟩ := h.last
    exact ⟨s₀, hrun, hreply⟩
  | cons e later ih =>
    obtain ⟨s₀, hrun, -, -⟩ := h.last
    exact ih hrun

/-! ### Whose quota

The state belongs to the account of the last `begin`, and a result is only applied when its ticket
does too. -/

/-- A snapshot without any quota. -/
structure NoQuota (snap : Snapshot) : Prop where
  rolling : snap.rolling5h = default
  weekly : snap.weekly = default
  rollingObserved : snap.rolling5hObserved = false
  weeklyObserved : snap.weeklyObserved = false
  plan : snap.planType = ""
  observedAt : snap.status.quotaObservedAt = none

/-- A snapshot that shows what `raw` says: its windows, its plan and when it was observed. -/
def TakenFrom (raw snap : Snapshot) : Prop :=
  ∃ (seq : Int64) (generatedAtUtc : String) (stale : Bool) (retryAt : Option String),
    snap = { raw with
      seq, generatedAtUtc
      status := { raw.status with
        stale, retryAt
        quotaObservedAt := some (raw.status.quotaObservedAt.getD raw.generatedAtUtc) } }

/-- The ticket was issued for `key` since the last `begin` under another key. -/
def IssuedFor (history : List Entry) (key : Option AccountKey) (ticket : FetchTicket) : Prop :=
  ticket.account = key ∧
    (QuotaCall.begin key ticket.startedAt, QuotaReply.begin (.fetch ticket)) ∈ epoch key history

/-- The snapshot shows the result of such a ticket. -/
def Observed (history : List Entry) (key : Option AccountKey) (snap : Snapshot) : Prop :=
  ∃ ticket raw now applied, IssuedFor history key ticket ∧
    (QuotaCall.finish ticket (.ok raw) now, QuotaReply.finish (.applied applied)) ∈ history ∧
    TakenFrom raw snap

/-- A call for the same account belongs to its epoch. -/
theorem epoch_cons {key : Option AccountKey} {call : QuotaCall} {reply : QuotaReply}
    (h : call.foreign key = false) :
    epoch key ((call, reply) :: history) = (call, reply) :: epoch key history := by
  unfold epoch
  rw [List.takeWhile_cons_of_pos]
  show (!call.foreign key) = true
  rw [h]
  rfl

/-- An entry that is not a `begin` under another key changes nothing. -/
theorem IssuedFor.cons {key : Option AccountKey} {ticket : FetchTicket} {call : QuotaCall}
    {reply : QuotaReply} (h : IssuedFor history key ticket) (hcall : call.foreign key = false) :
    IssuedFor ((call, reply) :: history) key ticket := by
  refine ⟨h.1, ?_⟩
  rw [epoch_cons hcall]
  exact List.mem_cons_of_mem _ h.2

/-- What was observed in an epoch still is after more of its calls. -/
theorem Observed.cons {key : Option AccountKey} {snap : Snapshot} {call : QuotaCall}
    {reply : QuotaReply} (h : Observed history key snap) (hcall : call.foreign key = false) :
    Observed ((call, reply) :: history) key snap := by
  obtain ⟨ticket, raw, now, applied, hissued, hmem, htaken⟩ := h
  exact ⟨ticket, raw, now, applied, hissued.cons hcall, List.mem_cons_of_mem _ hmem, htaken⟩

/-- What is shown again is still taken from the same result. -/
theorem TakenFrom.again {raw snap : Snapshot} (h : TakenFrom raw snap) (seq : Int64)
    (generated : String) (stale : Bool) (retry : Option String) :
    TakenFrom raw { snap with
      seq, generatedAtUtc := generated
      status := { snap.status with stale, retryAt := retry } } := by
  obtain ⟨_, _, _, _, rfl⟩ := h
  exact ⟨seq, generated, stale, retry, rfl⟩

/-- A snapshot with the stamp of a ticket is taken from its result. -/
theorem TakenFrom.stamp (raw : Snapshot) (ticket : FetchTicket) (now : ℤ) :
    TakenFrom raw (stamp raw ticket now) :=
  ⟨ticket.seq, formatTime now, raw.status.stale, none, rfl⟩

/-- A snapshot stays taken from a result with another date. -/
theorem TakenFrom.dated {raw snap : Snapshot} (h : TakenFrom raw snap) (seq : Int64) (now : ℤ) :
    TakenFrom raw (dated snap seq now) :=
  h.again seq (formatTime now) snap.status.stale snap.status.retryAt

/-- A snapshot stays taken from a result as a stale one. -/
theorem TakenFrom.stale {raw good : Snapshot} (h : TakenFrom raw good) (retry : Option String) :
    TakenFrom raw (stale good retry) :=
  h.again good.seq good.generatedAtUtc true retry

/-- A failure has no quota. -/
theorem NoQuota.failed (provider : Provider) (state : String) (retry : Option String)
    (seq : Int64) (now : ℤ) : NoQuota (failed provider state retry seq now) :=
  ⟨rfl, rfl, rfl, rfl, rfl, rfl⟩

/-- A snapshot without quota has none with another date. -/
theorem NoQuota.dated {snap : Snapshot} (h : NoQuota snap) (seq : Int64) (now : ℤ) :
    NoQuota (dated snap seq now) :=
  ⟨h.rolling, h.weekly, h.rollingObserved, h.weeklyObserved, h.plan, h.observedAt⟩

/-- Everything in the state belongs to its account. -/
structure Owned (history : List Entry) (s : QuotaState) : Prop where
  latest : ∀ snap, s.latest = some snap → NoQuota snap ∨ Observed history s.account snap
  good : ∀ snap applied, s.lastGood = some (snap, applied) → Observed history s.account snap
  flight : ∀ ticket, s.flight = some ticket → IssuedFor history s.account ticket

/-- A switch sets the account. -/
theorem switch_account (s : QuotaState) (key : Option AccountKey) :
    (s.switch key).account = key := by
  unfold switch
  split
  · assumption
  · rfl

/-- A change of the key drops what belongs to the other account. -/
theorem Owned.switch (h : Owned history s) (key : Option AccountKey) (now : ℤ)
    (reply : QuotaReply) : Owned ((.begin key now, reply) :: history) (s.switch key) := by
  have hcall : (QuotaCall.begin key now).foreign key = false := bne_self_eq_false key
  unfold QuotaState.switch
  split
  · rename_i hkey
    rw [← hkey] at hcall ⊢
    exact ⟨fun snap hsnap => (h.latest snap hsnap).imp_right fun ho => ho.cons hcall,
      fun snap applied hsnap => (h.good snap applied hsnap).cons hcall,
      fun ticket hticket => (h.flight ticket hticket).cons hcall⟩
  · exact ⟨fun _ h => (nomatch h), fun _ _ h => (nomatch h), fun _ h => (nomatch h)⟩

/-- What `begin` returns belongs to its key. -/
theorem Owned.begin {key : Option AccountKey} {now : ℤ} {reply : Begin} {s' : QuotaState}
    {earlier : List Entry} (hhead : history = (.begin key now, .begin reply) :: earlier)
    (h : Owned history s) (hkey : s.account = key) (hstep : BeginStep s key now reply s') :
    Owned history s' ∧ ∀ snap, (QuotaReply.begin reply).snapshot = some snap →
      NoQuota snap ∨ Observed history key snap := by
  subst hkey
  -- a snapshot that is returned is also kept
  have hkept : ∀ (snap : Snapshot) (seq : Int64) (state : Option String),
      NoQuota snap ∨ Observed history s.account snap →
      Owned history { s with seq, latest := some snap, lastState := state } ∧
        ∀ x, (QuotaReply.begin (.cached snap)).snapshot = some x →
          NoQuota x ∨ Observed history s.account x := by
    intro snap seq state hsnap
    refine ⟨⟨fun x hx => ?_, h.good, h.flight⟩, fun x hx => ?_⟩
    · cases hx; exact hsnap
    · cases hx; exact hsnap
  cases hstep with
  | inFlight => exact ⟨h, fun _ hsnap => (nomatch hsnap)⟩
  | cached snap fetched _ _ _ _ _ hlatest =>
    refine hkept _ _ _ ?_
    rcases h.latest snap hlatest with hnone | ⟨ticket, raw, t, applied, hissued, hmem, htaken⟩
    · exact .inl (hnone.dated _ _)
    · exact .inr ⟨ticket, raw, t, applied, hissued, hmem, htaken.dated _ _⟩
  | sticky good deadline applied _ _ _ _ _ hgood =>
    obtain ⟨ticket, raw, t, applied, hissued, hmem, htaken⟩ := h.good good applied hgood
    exact hkept _ _ _ (.inr ⟨ticket, raw, t, applied, hissued, hmem, (htaken.stale _).dated _ _⟩)
  | limited deadline => exact hkept _ _ _ (.inl (NoQuota.failed _ _ _ _ _))
  | fetch =>
    refine ⟨⟨h.latest, h.good, fun ticket hticket => ?_⟩, fun _ hsnap => (nomatch hsnap)⟩
    cases hticket
    refine ⟨rfl, ?_⟩
    have hcall : (QuotaCall.begin s.account now).foreign s.account = false :=
      bne_self_eq_false s.account
    rw [hhead, epoch_cons hcall]
    exact List.mem_cons_self

/-- What stands for a failure belongs to the account. -/
theorem Owned.failure {f : Failure} {now : ℤ} {snap : Snapshot} {s' : QuotaState}
    (h : Owned history s) (hstep : FailStep s f now snap s') :
    Owned history s' ∧ s'.account = s.account ∧
      (NoQuota snap ∨ Observed history s.account snap) := by
  cases hstep with
  | sticky good applied _ hgood =>
    obtain ⟨ticket, raw, t, applied, hissued, hmem, htaken⟩ := h.good good applied hgood
    have hsnap : Observed history s.account (dated (stale good (shownRetry f now)) s.seq now) :=
      ⟨ticket, raw, t, applied, hissued, hmem, (htaken.stale _).dated _ _⟩
    refine ⟨⟨fun x hx => ?_, h.good, h.flight⟩, rfl, .inr hsnap⟩
    cases hx
    exact .inr hsnap
  | shown =>
    refine ⟨⟨fun x hx => ?_, h.good, h.flight⟩, rfl, .inl (NoQuota.failed _ _ _ _ _)⟩
    cases hx
    exact .inl (NoQuota.failed _ _ _ _ _)

/-- A fetch that has landed owns nothing any more. -/
theorem Owned.landed (h : Owned history s) : Owned history { s with flight := none } :=
  ⟨h.latest, h.good, fun _ hx => (nomatch hx)⟩

/-- What `finish` returns belongs to the account of the ticket. -/
theorem Owned.finish {ticket : FetchTicket} {result : Except Failure Snapshot} {now : ℤ}
    {reply : Finish} {s' : QuotaState} (h : Owned history s)
    (hstep : FinishStep parseTime s ticket result now reply s') :
    Owned ((.finish ticket result now, .finish reply) :: history) s' ∧
      ∀ snap, (QuotaReply.finish reply).snapshot = some snap → NoQuota snap ∨
        Observed ((.finish ticket result now, .finish reply) :: history) ticket.account snap := by
  have hmore : Owned ((.finish ticket result now, .finish reply) :: history) s :=
    ⟨fun snap hsnap => (h.latest snap hsnap).imp_right fun ho => ho.cons rfl,
      fun snap applied hsnap => (h.good snap applied hsnap).cons rfl,
      fun ticket hticket => (h.flight ticket hticket).cons rfl⟩
  cases hstep with
  | discarded => exact ⟨hmore, fun _ hsnap => (nomatch hsnap)⟩
  | success raw hflight haccount hresult =>
    subst hresult
    have hsnap : Observed ((.finish ticket (.ok raw) now,
        .finish (.applied (stamp raw ticket now))) :: history) s.account (stamp raw ticket now) :=
      ⟨ticket, raw, now, stamp raw ticket now, hmore.flight ticket hflight, List.mem_cons_self,
        TakenFrom.stamp raw ticket now⟩
    refine ⟨⟨fun x hx => ?_, fun x t hx => ?_, fun _ hx => (nomatch hx)⟩, fun x hx => ?_⟩
    · cases hx; exact .inr hsnap
    · cases hx; exact hsnap
    · cases hx; rw [← haccount]; exact .inr hsnap
  | failure f snap s' _ haccount _ hfail =>
    obtain ⟨howned, -, hsnap⟩ := hmore.landed.failure hfail
    refine ⟨howned, fun x hx => ?_⟩
    cases hx
    rw [← haccount]
    exact hsnap
  | rejected raw snap s' _ haccount _ hfail =>
    obtain ⟨howned, -, hsnap⟩ := hmore.landed.failure hfail
    refine ⟨howned, fun x hx => ?_⟩
    cases hx
    rw [← haccount]
    exact hsnap

/-- One call keeps everything with its account, and so does its reply. -/
theorem Owned.step (h : Owned history s) (call : QuotaCall) :
    Owned ((call, (s.step parseTime call).1) :: history) (s.step parseTime call).2 ∧
      ∀ snap, (s.step parseTime call).1.snapshot = some snap → NoQuota snap ∨
        Observed ((call, (s.step parseTime call).1) :: history) call.key snap := by
  cases call with
  | begin key now =>
    exact (h.switch key now _).begin rfl (switch_account s key) (begin_step s key now)
  | finish ticket result now => exact h.finish (finish_step parseTime s ticket result now)

/-- In every run everything belongs to the account of the state. -/
theorem Run.owned (h : Run parseTime provider history s) : Owned history s := by
  induction h with
  | new => exact ⟨fun _ h => (nomatch h), fun _ _ h => (nomatch h), fun _ h => (nomatch h)⟩
  | step call _ ih => exact (ih.step call).1

/-! ### Tickets

A ticket is known by its number; with fewer than 2⁶⁴ of them no number comes twice. -/

/-- The tickets of a run are numbered one after the other, and only the newest is in flight. -/
structure Numbered (history : List Entry) (s : QuotaState) : Prop where
  count : s.ticketId.toNat = (issued history).length
  bound : ∀ ticket ∈ issued history, ticket.id.toNat ≤ (issued history).length
  nodup : (issued history).Nodup
  flight : ∀ ticket, s.flight = some ticket → (issued history).head? = some ticket

/-- A call that hands out no ticket. -/
theorem Numbered.keep {e : Entry} {s' : QuotaState} (h : Numbered history s)
    (he : e.issued = none) (hid : s'.ticketId = s.ticketId)
    (hflight : s'.flight = none ∨ s'.flight = s.flight) : Numbered (e :: history) s' := by
  have hissued : issued (e :: history) = issued history := List.filterMap_cons_none he
  refine ⟨by rw [hissued, hid, h.count], by rw [hissued]; exact h.bound,
    by rw [hissued]; exact h.nodup, fun ticket hticket => ?_⟩
  rw [hissued]
  rcases hflight with hnone | hsame
  · rw [hnone] at hticket; cases hticket
  · exact h.flight ticket (hsame ▸ hticket)

/-- A new ticket has the next number. -/
theorem Numbered.issue {e : Entry} {ticket : FetchTicket} {s' : QuotaState}
    (h : Numbered history s) (he : e.issued = some ticket) (hnumber : ticket.id = s.ticketId + 1)
    (hid : s'.ticketId = ticket.id) (hflight : s'.flight = some ticket)
    (hlen : (issued (e :: history)).length < 2 ^ 64) : Numbered (e :: history) s' := by
  have hissued : issued (e :: history) = ticket :: issued history := List.filterMap_cons_some he
  rw [hissued, List.length_cons] at hlen
  have hnew : ticket.id.toNat = (issued history).length + 1 := by
    rw [hnumber, UInt64.toNat_add, h.count]
    exact Nat.mod_eq_of_lt hlen
  refine ⟨?_, fun t ht => ?_, ?_, fun t ht => ?_⟩
  · rw [hissued, hid, hnew, List.length_cons]
  · rw [hissued] at ht ⊢
    rw [List.length_cons]
    rcases List.mem_cons.mp ht with rfl | ht
    · exact le_of_eq hnew
    · exact Nat.le_succ_of_le (h.bound t ht)
  · rw [hissued, List.nodup_cons]
    refine ⟨fun hmem => ?_, h.nodup⟩
    have hle := h.bound ticket hmem
    omega
  · rw [hissued, List.head?_cons]
    rw [hflight] at ht
    exact ht

/-- In a run with fewer than 2⁶⁴ tickets no two are the same. -/
theorem Run.numbered (h : Run parseTime provider history s)
    (hlen : (issued history).length < 2 ^ 64) : Numbered history s := by
  induction h with
  | new =>
    exact ⟨rfl, fun _ h => absurd h List.not_mem_nil, List.nodup_nil, fun _ h => (nomatch h)⟩
  | @step history s call _ ih =>
    have hle :
      (issued history).length ≤ (issued ((call, (s.step parseTime call).1) :: history)).length := by
      unfold issued
      exact ((List.sublist_cons_self _ _).filterMap _).length_le
    have hn := ih (Nat.lt_of_le_of_lt hle hlen)
    cases call with
    | begin key now =>
      -- a change of the account drops the flight, and never moves the counter
      have hswitch : (s.switch key).ticketId = s.ticketId ∧
          ((s.switch key).flight = none ∨ (s.switch key).flight = s.flight) := by
        unfold QuotaState.switch
        split
        · exact ⟨rfl, .inr rfl⟩
        · exact ⟨rfl, .inl rfl⟩
      obtain ⟨hid, hflight⟩ := hswitch
      have hstep := begin_step s key now
      unfold QuotaState.step at hlen ⊢
      dsimp only at hlen ⊢
      generalize (s.begin key now).1 = reply at hstep hlen ⊢
      generalize (s.begin key now).2 = s' at hstep ⊢
      -- only a fetch gives out a ticket
      cases hstep with
      | inFlight => exact hn.keep rfl hid hflight
      | cached => exact hn.keep rfl hid hflight
      | sticky => exact hn.keep rfl hid hflight
      | limited => exact hn.keep rfl hid hflight
      | fetch => exact hn.issue rfl (by rw [← hid]; rfl) rfl rfl hlen
    | finish ticket result now =>
      have hstep := finish_step parseTime s ticket result now
      unfold QuotaState.step
      dsimp only
      generalize (s.finish parseTime ticket result now).1 = reply at hstep ⊢
      generalize (s.finish parseTime ticket result now).2 = s' at hstep ⊢
      -- an answer closes the flight, whatever it brings
      cases hstep with
      | discarded => exact hn.keep rfl rfl (.inr rfl)
      | success => exact hn.keep rfl rfl (.inl rfl)
      | failure f snap s' _ _ _ hfail => cases hfail <;> exact hn.keep rfl rfl (.inl rfl)
      | rejected raw snap s' _ _ _ hfail => cases hfail <;> exact hn.keep rfl rfl (.inl rfl)

/-- Only the ticket in flight is finished. -/
theorem finish_discarded {ticket : FetchTicket} (h : s.flight ≠ some ticket)
    (result : Except Failure Snapshot) (now : ℤ) :
    s.finish parseTime ticket result now = (.discarded, s) := by
  unfold QuotaState.finish
  rw [if_pos (.inl h)]

/-- A `begin`. -/
def QuotaCall.isBegin : QuotaCall → Bool
  | .begin .. => true
  | .finish .. => false

/-- A ticket is issued by a `begin`. -/
theorem length_issued_le (h : Run parseTime provider history s) :
    (issued history).length ≤ (history.filter fun e => e.1.isBegin).length := by
  induction h with
  | new => exact le_refl _
  | step call _ ih =>
    unfold issued at ih ⊢
    cases call with
    | begin key now =>
      rw [List.filter_cons_of_pos rfl, List.length_cons, List.filterMap_cons]
      split
      · omega
      · rw [List.length_cons]; omega
    | finish ticket result now =>
      rw [List.filter_cons_of_neg Bool.false_ne_true, List.filterMap_cons_none rfl]
      exact ih

/-- **Quota never leaks across accounts.**  In every interleaving of fewer than 2⁶⁴ `begin`s with
    any `finish`es, a snapshot that is returned under a key has no quota or shows the result of a
    ticket that was issued for that key since the last `begin` under another one.  The tickets are
    distinct and only the newest can be in flight; a `finish` of any other changes nothing. -/
theorem quota_isolated (h : Run parseTime provider history s)
    (hbegins : (history.filter fun e => e.1.isBegin).length < 2 ^ 64) :
    (∀ (later earlier : List Entry) (call : QuotaCall) (reply : QuotaReply) (snap : Snapshot),
      history = later ++ (call, reply) :: earlier → reply.snapshot = some snap →
      NoQuota snap ∨ Observed ((call, reply) :: earlier) call.key snap) ∧
    (∀ (ticket : FetchTicket) (result : Except Failure Snapshot) (now : ℤ),
      s.flight ≠ some ticket → s.finish parseTime ticket result now = (.discarded, s)) ∧
    (issued history).Nodup ∧
    ∀ ticket, s.flight = some ticket → (issued history).head? = some ticket := by
  have hn := h.numbered (Nat.lt_of_le_of_lt (length_issued_le h) hbegins)
  refine ⟨fun later earlier call reply snap hsplit hsnap => ?_,
    fun ticket result now hne => finish_discarded hne result now, hn.nodup, hn.flight⟩
  rw [hsplit] at h
  obtain ⟨s₀, hrun, rfl⟩ := h.split
  exact (hrun.owned.step call).2 snap hsnap

namespace QuotaExample

/-- Two accounts. -/
def first : AccountKey := ⟨Vector.replicate 32 1⟩

def second : AccountKey := ⟨Vector.replicate 32 2⟩

/-- A quarter of the five hours is used. -/
def raw : Snapshot :=
  { Snapshot.degraded .codex 0 0 "ok" with
    rolling5h := ⟨⟨0x3FD0000000000000⟩, 0, none⟩
    rolling5hObserved := true
    status := ⟨"", "ok", "api_only", "oauth_api", false, none, none⟩ }

/-- The first ticket of a cache. -/
def ticket (key : AccountKey) (now : ℤ) : FetchTicket := ⟨1, some key, now, 1⟩

/-- The second account, then the first: the ticket of the second comes back too late, that of the
    first is applied. -/
def calls : List QuotaCall :=
  [.begin (some second) 0, .begin (some first) 1000000000,
    .finish (ticket second 0) (.ok raw) 2000000000,
    .finish ⟨2, some first, 1000000000, 2⟩ (.ok raw) 3000000000]

/-- The run of these calls. -/
def run : List Entry × QuotaState := replay (fun _ => none) .codex calls

/-- The snapshot that is returned at last shows what was fetched for the first account. -/
theorem first_isolated :
    ∃ e earlier snap, run.1 = e :: earlier ∧ e.2.snapshot = some snap ∧
      snap.rolling5hObserved = true ∧ Observed run.1 (some first) snap := by
  have hbegins : (run.1.filter fun e => e.1.isBegin).length < 2 ^ 64 := by decide
  have hlast : (run.1.head?.bind fun e => e.2.snapshot).map Snapshot.rolling5hObserved
      = some true := by decide
  have hkey : run.1.head?.map (fun e => e.1.key) = some (some first) := by decide
  obtain ⟨hquota, -, -, -⟩ := quota_isolated (replay_run (fun _ => none) .codex calls) hbegins
  cases hrun : run.1 with
  | nil => rw [hrun] at hlast; cases hlast
  | cons e earlier =>
    rw [hrun, List.head?_cons] at hlast hkey
    obtain ⟨snap, hsnap, hobserved⟩ := Option.map_eq_some_iff.mp hlast
    have he : e.2.snapshot = some snap := hsnap
    have hcall : e.1.key = some first := Option.some.inj hkey
    refine ⟨e, earlier, snap, rfl, he, hobserved, ?_⟩
    rcases hquota [] earlier e.1 e.2 snap hrun he with hnone | hsome
    · rw [hnone.rollingObserved] at hobserved
      cases hobserved
    · rw [hcall] at hsome
      exact hsome

end QuotaExample

end Hmux.Usage
