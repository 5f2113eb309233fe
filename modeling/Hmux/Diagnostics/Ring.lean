import Hmux.Diagnostics.State
import Hmux.Lib.Windows

namespace Hmux.Diagnostics

open Lib

/-!
# What the diagnostic ring keeps

Runs of `append`, `prune` and `report` on an empty ring, for any logins and at any instants.

* `Bounded` — no owner has more than its share, the ring has its size, and no event is there twice;
* `State.append_cases` — what an append does: it fails and lets records expire at most, or it
  deduplicates its batch against the ring that is left and then makes room;
* `Counted` — how the rate table counts the batches of a login by windows of a minute;
* `ring_runs` — what follows for every run.

The ring is shared by all accounts, and an account has only a share of it.  What an account can
rely on is that its records go when they are a week old, when newer ones of its own use up its
share, or when the ring is full: the number of another account's records alone does not push them
out.
-/

/-- What makes an event the same: its owner, its page and its number. -/
def Record.key (r : Record) : String × String × String × ℤ :=
  (r.source.account, r.source.profile, r.source.client, r.event.sequence)

/-- Records are lost by expiry only. -/
def OnlyExpired (now : ℤ) (before after : List Record) : Prop :=
  after = before ∨ after = before.filter (·.live now)

/-- The bounds on what the ring holds. -/
structure Bounded (records : List Record) : Prop where
  length : records.length ≤ limit
  owner : ∀ account profile, records.countP (·.sameOwner account profile) ≤ accountLimit
  keys : (records.map Record.key).Nodup

/-- Fewer records are within the bounds as well. -/
theorem Bounded.sublist {records records' : List Record} (h : Bounded records)
    (hsub : records'.Sublist records) : Bounded records' where
  length := le_trans hsub.length_le h.length
  owner account profile := le_trans hsub.countP_le (h.owner account profile)
  keys := h.keys.sublist (hsub.map _)

/-- Without records there is nothing to bound. -/
theorem bounded_nil : Bounded [] where
  length := Nat.zero_le _
  owner _ _ := Nat.zero_le _
  keys := List.nodup_nil

/-- Where only expired records go the others keep their order. -/
theorem OnlyExpired.sublist {now : ℤ} {before after : List Record}
    (h : OnlyExpired now before after) : after.Sublist before := by
  rcases h with rfl | rfl
  · exact List.Sublist.refl _
  · exact List.filter_sublist

/-- Records of one owner are those of the account and the profile. -/
theorem sameOwner_iff {r : Record} {account profile : String} :
    r.sameOwner account profile = true ↔
      r.source.account = account ∧ r.source.profile = profile := by
  unfold Record.sameOwner
  rw [Bool.and_eq_true, decide_eq_true_eq, decide_eq_true_eq]

namespace State

/-! ### Deduplication

The loop accepts a record unless the ring or an earlier record of the batch has its event, so a
batch that is sent again is accepted once. -/

variable {records accepted incoming : List Record} {record : Record}

/-- Two records are duplicates when they have the same key. -/
theorem duplicate_iff {r : Record} : duplicate r record = true ↔ r.key = record.key := by
  unfold duplicate Record.key
  simp only [Bool.and_eq_true, sameOwner_iff, decide_eq_true_eq, Prod.mk.injEq, and_assoc]

/-- Sharing changes the memory of a source, not its value. -/
theorem share_eq (records : List Record) (record : Record) : share records record = record := by
  unfold share
  split
  · rename_i previous hfind
    have heq := List.find?_some hfind
    rw [decide_eq_true_eq] at heq
    rw [heq]
  · rfl

/-- What is accepted was accepted before or comes from the batch. -/
theorem mem_foldl_accept {r : Record} (h : r ∈ incoming.foldl (accept records) accepted) :
    r ∈ accepted ∨ r ∈ incoming := by
  induction incoming generalizing accepted with
  | nil => exact .inl h
  | cons record incoming ih =>
    rcases ih h with hacc | hin
    · unfold accept at hacc
      split at hacc
      · exact .inl hacc
      · rw [share_eq] at hacc
        rcases List.mem_append.mp hacc with hacc | hnew
        · exact .inl hacc
        · exact .inr (List.mem_singleton.mp hnew ▸ List.mem_cons_self)
    · exact .inr (List.mem_cons_of_mem _ hin)

/-- **No accepted event is in the ring**, nor accepted twice. -/
theorem keys_foldl_accept (h : ((records ++ accepted).map Record.key).Nodup) :
    ((records ++ incoming.foldl (accept records) accepted).map Record.key).Nodup := by
  induction incoming generalizing accepted with
  | nil => exact h
  | cons record incoming ih =>
    refine ih ?_
    unfold accept
    split
    · exact h
    · rename_i hnew
      rw [share_eq, ← List.append_assoc, List.map_append, List.map_singleton]
      refine List.nodup_append.mpr ⟨h, List.nodup_singleton _, ?_⟩
      intro key hkey key' hkey' heq
      obtain ⟨r, hr, rfl⟩ := List.mem_map.mp hkey
      rw [List.mem_singleton] at hkey'
      exact hnew (List.any_eq_true.mpr ⟨r, hr, duplicate_iff.mpr (heq.trans hkey')⟩)

/-- A batch that the ring has already brings nothing. -/
theorem foldl_accept_replay (h : ∀ record ∈ incoming, ∃ r ∈ records, r.key = record.key) :
    incoming.foldl (accept records) accepted = accepted := by
  induction incoming generalizing accepted with
  | nil => rfl
  | cons record incoming ih =>
    obtain ⟨r, hr, hkey⟩ := h record List.mem_cons_self
    have hany : (records ++ accepted).any (duplicate · record) = true :=
      List.any_eq_true.mpr ⟨r, List.mem_append_left _ hr, duplicate_iff.mpr hkey⟩
    have hskip : accept records accepted record = accepted := by
      unfold accept
      rw [if_pos hany]
    rw [List.foldl_cons, hskip]
    exact ih fun record hrecord => h record (List.mem_cons_of_mem _ hrecord)

/-- What comes in belongs to the login and was received now. -/
theorem mem_incoming {access : Auth.SessionAccess} {browser : String} {batch : Batch} {now : ℤ}
    {r : Record} (h : r ∈ State.incoming access browser batch now) :
    r.sameOwner access.username access.profile = true ∧ r.received = now := by
  unfold State.incoming Batch.records at h
  obtain ⟨event, -, rfl⟩ := List.mem_map.mp h
  exact ⟨sameOwner_iff.mpr ⟨rfl, rfl⟩, rfl⟩

/-- The accepted records keep the bounds. -/
theorem bounded_store {account profile : String} (h : Bounded records)
    (hkeys : ((records ++ accepted).map Record.key).Nodup)
    (howner : ∀ r ∈ accepted, r.sameOwner account profile = true) :
    Bounded (store account profile records accepted) where
  length := Ring.length_pushAll_le (by decide) h.length
  owner account' profile' := by
    refine Ring.countP_pushAll_le (by decide) (h.owner account' profile') ?_
    by_cases hsame : account = account' ∧ profile = profile'
    · left
      rw [hsame.1, hsame.2]
    · right
      intro r hr
      obtain ⟨ha, hp⟩ := sameOwner_iff.mp (howner r hr)
      rw [← Bool.not_eq_true, sameOwner_iff, ha, hp]
      exact hsame
  keys := hkeys.sublist (Ring.pushAll_sublist.map _)

/-! ### What each call does

Old records and old rates go first, in every call; a call that fails after that has changed nothing
else. -/

/-- A call that fails before anything expires. -/
structure Kept (s s' : State) : Prop where
  records : s'.records = s.records
  rates : s'.rates = s.rates
  revision : s'.revision = s.revision

/-- What is left when the old records and rates are gone. -/
structure Pruned (now : ℤ) (s s' : State) : Prop where
  records : s'.records = s.records.filter (·.live now)
  rates : s'.rates = s.freshRates now
  revision : (s'.records = s.records ∧ s'.revision = s.revision) ∨
    s'.revision.toNat = s.revision.toNat + 1

variable {s s' : State} {now : ℤ} {f : Fault}

/-- A revision is counted, or there are no more and the ring is disabled. -/
theorem bump_cases (s : State) :
    (s.bump.1 = .error (.error .unavailable) ∧ Kept s s.bump.2 ∧ ¬s.revision.toNat + 1 < 2 ^ 64) ∨
    ∃ next, s.bump = (.ok (), { s with revision := next }) ∧
      next.toNat = s.revision.toNat + 1 := by
  unfold bump
  cases hnext : checkedSucc s.revision with
  | none =>
    refine .inl ⟨rfl, ⟨rfl, rfl, rfl⟩, fun hlt => ?_⟩
    rw [checkedSucc, if_pos hlt] at hnext
    cases hnext
  | some next => exact .inr ⟨next, rfl, checkedSucc_some hnext⟩

/-- Where nothing has expired everything stays. -/
theorem filter_live_self (h : ¬s.records.any (fun r => r.received ≤ now - ttl) = true) :
    s.records.filter (·.live now) = s.records := by
  rw [List.filter_eq_self]
  intro r hr
  by_contra hdead
  refine h (List.any_eq_true.mpr ⟨r, hr, ?_⟩)
  unfold Record.live at hdead
  rw [decide_eq_true_eq] at hdead ⊢
  omega

/-- **What `prune` does**: it fails and changes no record, or the records of the last week and
    the rates of the last minute are left. -/
theorem prune_cases (s : State) (now : ℤ) :
    (∃ f s', s.prune now = (.error f, s') ∧ Kept s s' ∧
      (now - ttl < minUtc ∨ (∃ r ∈ s.records, r.live now = false) ∧
        ¬s.revision.toNat + 1 < 2 ^ 64)) ∨
    ∃ s', s.prune now = (.ok (), s') ∧ Pruned now s s' := by
  unfold prune
  split
  · rename_i hlow
    exact .inl ⟨_, _, rfl, ⟨rfl, rfl, rfl⟩, .inl hlow⟩
  · split
    · rename_i hany
      rcases bump_cases s with ⟨hfail, hkept, hmax⟩ | ⟨next, hok, hnext⟩
      · left
        obtain ⟨r, hr, hold⟩ := List.any_eq_true.mp hany
        rw [decide_eq_true_eq] at hold
        have hdead : r.live now = false := by
          unfold Record.live
          rw [decide_eq_false_iff_not]
          omega
        cases hb : s.bump with
        | mk r' s' =>
          rw [hb] at hfail hkept
          dsimp only at hfail hkept
          subst hfail
          exact ⟨_, s', rfl, hkept, .inr ⟨⟨r, hr, hdead⟩, hmax⟩⟩
      · right
        rw [hok]
        exact ⟨_, rfl, rfl, rfl, .inr hnext⟩
    · rename_i hnone
      right
      have hself := filter_live_self hnone
      exact ⟨_, rfl, hself.symm, rfl, .inl ⟨rfl, rfl⟩⟩

variable {sha256 : List UInt8 → Digest} {access : Auth.SessionAccess} {browser : String}
  {batch : Batch}

/-- The records that `append` accepts, from what is left of the ring. -/
def acceptedOf (s : State) (access : Auth.SessionAccess) (browser : String) (batch : Batch)
    (now : ℤ) : List Record :=
  (State.incoming access browser batch now).foldl (accept (s.records.filter (·.live now))) []

/-- An append that takes its batch, from the state `p` that is left when the old is gone. -/
structure Appended (sha256 : List UInt8 → Digest) (access : Auth.SessionAccess) (browser : String)
    (batch : Batch) (now : ℤ) (s p s' : State) : Prop where
  pruned : Pruned now s p
  records : s'.records = store access.username access.profile (s.records.filter (·.live now))
    (acceptedOf s access browser batch now)
  room : ∀ rate, p.rates.get? (sha256 (bytes access.id)) = some rate → rate.batches < 6
  rates : s'.rates = p.rates.insert (sha256 (bytes access.id))
    (countUp (p.rates.get? (sha256 (bytes access.id))) now)
  revision : s'.revision.toNat = p.revision.toNat + 1

/-- **What `append` does**: it fails, and old records and rates are gone at most, or it takes its
    batch. -/
theorem append_cases (sha256 : List UInt8 → Digest) (access : Auth.SessionAccess)
    (browser : String) (batch : Batch) (now : ℤ) (s : State) :
    (∃ f s', s.append sha256 access browser batch now = (.error f, s') ∧
      (Kept s s' ∨ Pruned now s s')) ∨
    ∃ p s', s.append sha256 access browser batch now = (.ok (), s') ∧
      Appended sha256 access browser batch now s p s' := by
  unfold append
  split
  · exact .inl ⟨_, _, rfl, .inl ⟨rfl, rfl, rfl⟩⟩
  · rcases prune_cases s now with ⟨f, p, hprune, hkept, -⟩ | ⟨p, hprune, hpruned⟩
    · rw [hprune]
      exact .inl ⟨f, p, rfl, .inl hkept⟩
    · rw [hprune]
      dsimp only
      split
      · exact .inl ⟨_, p, rfl, .inr hpruned⟩
      · rename_i hroom
        rw [Bool.or_eq_true, not_or] at hroom
        rcases bump_cases p with ⟨hfail, hkept, -⟩ | ⟨next, hok, hnext⟩
        · left
          cases hb : p.bump with
          | mk r s' =>
            rw [hb] at hfail hkept
            dsimp only at hfail hkept
            subst hfail
            refine ⟨_, s', rfl, .inr ⟨?_, ?_, ?_⟩⟩
            · rw [hkept.records, hpruned.records]
            · rw [hkept.rates, hpruned.rates]
            · rw [hkept.records, hkept.revision]
              exact hpruned.revision
        · right
          rw [hok]
          refine ⟨p, _, rfl, hpruned, ?_, ?_, rfl, hnext⟩
          · unfold acceptedOf
            rw [← hpruned.records]
          · intro rate hrate
            rw [hrate] at hroom
            simpa using hroom.1

/-- A state that keeps its records loses none that has not expired. -/
theorem Kept.onlyExpired (h : Kept s s') : OnlyExpired now s.records s'.records := .inl h.records

/-- A state that is pruned loses only what has expired. -/
theorem Pruned.onlyExpired (h : Pruned now s s') : OnlyExpired now s.records s'.records :=
  .inr h.records

/-- **A replayed batch changes nothing** but what time does. -/
theorem append_replay (h : ∀ record ∈ State.incoming access browser batch now,
      ∃ r ∈ s.records, r.live now = true ∧ r.key = record.key) :
    OnlyExpired now s.records (s.append sha256 access browser batch now).2.records := by
  rcases append_cases sha256 access browser batch now s with
    ⟨f, s', heq, hkept | hpruned⟩ | ⟨p, s', heq, happended⟩
  · rw [heq]
    exact hkept.onlyExpired
  · rw [heq]
    exact hpruned.onlyExpired
  · rw [heq]
    right
    have hnothing : acceptedOf s access browser batch now = [] := by
      apply foldl_accept_replay
      intro record hrecord
      obtain ⟨r, hr, hlive, hkey⟩ := h record hrecord
      exact ⟨r, List.mem_filter.mpr ⟨hr, hlive⟩, hkey⟩
    rw [happended.records, hnothing]
    rfl

/-- **Another owner's record** leaves when it is old, or a full ring. -/
theorem append_others (hbounded : Bounded s.records) {r : Record} (hr : r ∈ s.records)
    (hother : r.sameOwner access.username access.profile = false)
    (hgone : r ∉ (s.append sha256 access browser batch now).2.records) :
    r.live now = false ∨ ∃ before record after,
      acceptedOf s access browser batch now = before ++ record :: after ∧
      r ∈ store access.username access.profile (s.records.filter (·.live now)) before ∧
      (store access.username access.profile (s.records.filter (·.live now)) before).length =
      limit := by
  rcases append_cases sha256 access browser batch now s with
    ⟨f, s', heq, hkept | hpruned⟩ | ⟨p, s', heq, happended⟩
  · rw [heq, hkept.records] at hgone
    exact absurd hr hgone
  · rw [heq, hpruned.records, List.mem_filter] at hgone
    left
    rw [← Bool.not_eq_true]
    exact fun hlive => hgone ⟨hr, hlive⟩
  · rw [heq, happended.records] at hgone
    by_cases hlive : r.live now = true
    · right
      have hkeep : r ∈ s.records.filter (·.live now) := List.mem_filter.mpr ⟨hr, hlive⟩
      have hsub : (s.records.filter (·.live now)).Sublist s.records := List.filter_sublist
      obtain ⟨before, record, after, heq', hmem, hfull, -⟩ :=
        Ring.mem_pushAll (by decide) (hbounded.sublist hsub).length hkeep hother hgone
      exact ⟨before, record, after, heq', hmem, hfull⟩
    · exact .inl (Bool.not_eq_true _ ▸ hlive)

/-- **`append`** keeps the bounds. -/
theorem bounded_append (h : Bounded s.records) :
    Bounded (s.append sha256 access browser batch now).2.records := by
  rcases append_cases sha256 access browser batch now s with
    ⟨f, s', heq, hkept | hpruned⟩ | ⟨p, s', heq, happended⟩
  · rw [heq, hkept.records]
    exact h
  · rw [heq]
    exact h.sublist hpruned.onlyExpired.sublist
  · rw [heq, happended.records]
    have hleft : Bounded (s.records.filter (·.live now)) := h.sublist List.filter_sublist
    refine bounded_store hleft ?_ ?_
    · apply keys_foldl_accept
      rw [List.append_nil]
      exact hleft.keys
    · intro r hr
      rcases mem_foldl_accept hr with hnil | hin
      · cases hnil
      · exact (mem_incoming hin).1

/-- An append that fails lets records expire at most. -/
theorem append_fails (h : (s.append sha256 access browser batch now).1 = .error f) :
    OnlyExpired now s.records (s.append sha256 access browser batch now).2.records := by
  rcases append_cases sha256 access browser batch now s with
    ⟨f', s', heq, hkept | hpruned⟩ | ⟨p, s', heq, happended⟩
  · rw [heq]
    exact hkept.onlyExpired
  · rw [heq]
    exact hpruned.onlyExpired
  · rw [heq] at h
    cases h

/-- **What a report has**: the records of its owner that are newer than a week, in their order. -/
theorem report_events {account profile : String} {r : Report}
    (h : (s.report account profile now).1 = .ok r) :
    r.events = s.records.filter fun r => r.sameOwner account profile && r.live now := by
  unfold report at h
  rcases prune_cases s now with ⟨f, p, heq, -, -⟩ | ⟨p, heq, hpruned⟩
  · rw [heq] at h
    cases h
  · rw [heq] at h
    injection h with h
    rw [← h, ← List.filter_filter, ← hpruned.records]

/-- A report is refused only where `chrono` has no instant a week ago, or where records have
    expired and no revision is left. -/
theorem report_returns {account profile : String} (htime : minUtc ≤ now - ttl)
    (hrevision : (∃ r ∈ s.records, r.live now = false) → s.revision.toNat + 1 < 2 ^ 64) :
    ∃ r, (s.report account profile now).1 = .ok r := by
  unfold report
  rcases prune_cases s now with ⟨f, p, heq, -, hlow | ⟨hdead, hmax⟩⟩ | ⟨p, heq, -⟩
  · omega
  · exact absurd (hrevision hdead) hmax
  · rw [heq]
    exact ⟨_, rfl⟩

/-- A report prunes and changes nothing else. -/
theorem report_state (account profile : String) :
    (s.report account profile now).2 = (s.prune now).2 := by
  unfold report
  split
  · rename_i heq
    rw [heq]
  · rename_i heq
    rw [heq]

/-! ### Runs

The bounds hold in every state, by the invariant rule for runs. -/

/-- **What a call does to the state.** -/
theorem step_cases (sha256 : List UInt8 → Digest) (s : State) (op : Op) :
    ((Kept s (s.step sha256 op).2 ∨ Pruned op.now s (s.step sha256 op).2) ∧
      ∀ access browser batch now, op = .append access browser batch now →
        ∃ f, (s.step sha256 op).1 = .error f) ∨
    ∃ access browser batch now p, op = .append access browser batch now ∧
      (s.step sha256 op).1 = .ok .done ∧
      Appended sha256 access browser batch now s p (s.step sha256 op).2 := by
  -- every operation prunes first
  have hprune : ∀ now, Kept s (s.prune now).2 ∨ Pruned now s (s.prune now).2 := by
    intro now
    rcases prune_cases s now with ⟨f, p, heq, hkept, -⟩ | ⟨p, heq, hpruned⟩
    · rw [heq]
      exact .inl hkept
    · rw [heq]
      exact .inr hpruned
  cases op with
  | append access browser batch now =>
    rcases append_cases sha256 access browser batch now s with
      ⟨f, s', heq, hcase⟩ | ⟨p, s', heq, happended⟩
    · have hstep : s.step sha256 (.append access browser batch now) = (.error f, s') := by
        unfold step
        dsimp only
        rw [heq]
        rfl
      rw [hstep]
      exact .inl ⟨hcase, fun _ _ _ _ _ => ⟨f, rfl⟩⟩
    · have hstep : s.step sha256 (.append access browser batch now) = (.ok .done, s') := by
        unfold step
        dsimp only
        rw [heq]
        rfl
      rw [hstep]
      exact .inr ⟨access, browser, batch, now, p, rfl, rfl, happended⟩
  | prune now =>
    left
    exact ⟨hprune now, fun _ _ _ _ h => nomatch h⟩
  | report account profile now =>
    left
    refine ⟨?_, fun _ _ _ _ h => nomatch h⟩
    -- a report reads the pruned state and changes nothing else
    unfold step
    dsimp only
    rw [report_state]
    exact hprune now

/-- Pruning counts when it changes the records. -/
theorem Pruned.revision_le (h : Pruned now s s') : s.revision.toNat ≤ s'.revision.toNat ∧
    (s'.records ≠ s.records → s.revision.toNat < s'.revision.toNat) := by
  rcases h.revision with ⟨hrec, hrev⟩ | hrev
  · exact ⟨by rw [hrev], fun hne => absurd hrec hne⟩
  · exact ⟨by omega, fun _ => by omega⟩

/-- **Every change of the records has a new revision.** -/
theorem step_revision (op : Op) : s.revision.toNat ≤ (s.step sha256 op).2.revision.toNat ∧
    ((s.step sha256 op).2.records ≠ s.records →
      s.revision.toNat < (s.step sha256 op).2.revision.toNat) := by
  rcases step_cases sha256 s op with
    ⟨hkept | hpruned, -⟩ | ⟨access, browser, batch, now, p, -, -, happended⟩
  · rw [hkept.revision]
    exact ⟨le_refl _, fun hne => absurd hkept.records hne⟩
  · exact hpruned.revision_le
  · have hle := happended.pruned.revision_le.1
    have heq := happended.revision
    exact ⟨by omega, fun _ => by omega⟩

/-- The ring stays within its bounds. -/
theorem Run.bounded {log : List (Op × Except Fault Reply)} (h : Run sha256 log s) :
    Bounded s.records := by
  induction h with
  | new => exact bounded_nil
  | @step log s op _ _ ih =>
    cases op with
    | append access browser batch now => exact bounded_append ih
    | prune now =>
      rcases step_cases sha256 s (.prune now) with ⟨hkept | hpruned, -⟩ | ⟨_, _, _, _, _, h, -⟩
      · exact hkept.records ▸ ih
      · exact ih.sublist hpruned.onlyExpired.sublist
      · cases h
    | report account profile now =>
      rcases step_cases sha256 s (.report account profile now) with
        ⟨hkept | hpruned, -⟩ | ⟨_, _, _, _, _, h, -⟩
      · exact hkept.records ▸ ih
      · exact ih.sublist hpruned.onlyExpired.sublist
      · cases h

/-! ### Rates

The rate of a login is a count and the time of the first batch it counts; the accepted batches of
the history, cut into fixed windows, are what it counts. -/

/-- The instant at which a batch of the logins of a kind was accepted. -/
def acceptedAt (login : String → Bool) : Op × Except Fault Reply → Option ℤ
  | (.append access _ _ now, .ok _) => if login access.id then some now else none
  | _ => none

/-- The instants at which batches of the logins of a kind were accepted. -/
def acceptedTimes (login : String → Bool) (log : List (Op × Except Fault Reply)) : List ℤ :=
  log.filterMap (acceptedAt login)

/-- The logins that have a digest. -/
def hashed (sha256 : List UInt8 → Digest) (key : Digest) (id : String) : Bool :=
  sha256 (bytes id) = key

/-- How the rate of a digest tells its accepted batches: an entry is the window that is open, and
    where there is none the clock has passed the last window. -/
structure Counted (times : List ℤ) (clock : ℤ → Prop) (entry : Option Rate) : Prop where
  windows : ∀ w ∈ Windows.split minute times, w.length ≤ 6
  opened : ∀ rate, entry = some rate → ∃ rest older,
    Windows.split minute times = (rate.start :: rest) :: older ∧ rate.batches = rest.length + 1
  passed : entry = none → ∀ first rest older,
    Windows.split minute times = (first :: rest) :: older → ∃ t, clock t ∧ minute ≤ t - first

/-- More may be known of the clock. -/
theorem Counted.clock {times : List ℤ} {clock clock' : ℤ → Prop} {entry : Option Rate}
    (h : Counted times clock entry) (hclock : ∀ t, clock t → clock' t) :
    Counted times clock' entry where
  windows := h.windows
  opened := h.opened
  passed hnone first rest older heq := by
    obtain ⟨t, ht, hpast⟩ := h.passed hnone first rest older heq
    exact ⟨t, hclock t ht, hpast⟩

/-- An entry that is gone was a minute old. -/
theorem Counted.pruned {times : List ℤ} {clock : ℤ → Prop} {key : Digest}
    (h : Counted times clock (s.rates.get? key)) (hnow : clock now) :
    Counted times clock ((s.freshRates now).get? key) where
  windows := h.windows
  opened rate hrate := h.opened rate (Table.get?_retain.mp hrate).1
  passed hnone first rest older heq := by
    cases hentry : s.rates.get? key with
    | none => exact h.passed hentry first rest older heq
    | some rate =>
      obtain ⟨rest', older', heq', -⟩ := h.opened rate hentry
      rw [heq] at heq'
      obtain ⟨hfirst, -⟩ := List.cons.inj (List.cons.inj heq').1
      refine ⟨now, hnow, ?_⟩
      -- a younger entry would still be there
      by_contra hyoung
      have hkept : (s.freshRates now).get? key = some rate := by
        refine Table.get?_retain.mpr ⟨hentry, ?_⟩
        rw [decide_eq_true_eq]
        omega
      rw [hnone] at hkept
      cases hkept

/-- One more batch joins the window that is open, or opens one. -/
theorem Counted.joined {times : List ℤ} {clock clock' : ℤ → Prop} {entry : Option Rate}
    (h : Counted times clock entry) (hclock : ∀ t, clock t → t ≤ now)
    (hfresh : ∀ rate, entry = some rate → now - rate.start < minute)
    (hroom : ∀ rate, entry = some rate → rate.batches < 6) :
    Counted (times ++ [now]) clock' (some (countUp entry now)) := by
  cases entry with
  -- the window goes on
  | some rate =>
    obtain ⟨rest, older, heq, hcount⟩ := h.opened rate rfl
    have hwindow : Windows.split minute (times ++ [now]) =
        (rate.start :: (rest ++ [now])) :: older := by
      rw [Windows.split_concat, heq, Windows.add, if_pos (hfresh rate rfl)]
    constructor
    · intro w hw
      rw [hwindow] at hw
      rcases List.mem_cons.mp hw with rfl | hw
      · have hlt := hroom rate rfl
        rw [List.length_cons, List.length_append, List.length_singleton]
        omega
      · exact h.windows w (heq ▸ List.mem_cons_of_mem _ hw)
    · intro rate' hrate
      obtain rfl := Option.some.inj hrate
      refine ⟨rest ++ [now], older, hwindow, ?_⟩
      show rate.batches + 1 = _
      rw [List.length_append, List.length_singleton, hcount]
    · intro hnone
      cases hnone
  -- a new window opens: the last one has passed
  | none =>
    have hwindow : Windows.split minute (times ++ [now]) =
        [now] :: Windows.split minute times := by
      rw [Windows.split_concat]
      unfold Windows.add
      split
      · rename_i first rest older heq
        obtain ⟨t, ht, hpast⟩ := h.passed rfl first rest older heq
        have hle := hclock t ht
        rw [if_neg (by omega), heq]
      · rfl
    constructor
    · intro w hw
      rw [hwindow] at hw
      rcases List.mem_cons.mp hw with rfl | hw
      · exact Nat.le_of_ble_eq_true rfl
      · exact h.windows w hw
    · intro rate hrate
      obtain rfl := Option.some.inj hrate
      exact ⟨[], Windows.split minute times, hwindow, rfl⟩
    · intro hnone
      cases hnone

/-- **How batches are counted**, when the clock does not go back. -/
theorem Run.counted {log : List (Op × Except Fault Reply)} (h : Run sha256 log s)
    (hclock : (log.map (·.1.now)).Pairwise (· ≤ ·)) (key : Digest) :
    Counted (acceptedTimes (hashed sha256 key) log) (fun t => t ∈ log.map (·.1.now))
    (s.rates.get? key) := by
  induction h with
  | new =>
    constructor
    · intro w hw
      cases hw
    · intro rate hrate
      cases hrate
    · intro _ first rest older heq
      cases heq
  | @step log s op hrun hvalid ih =>
    rw [List.map_append, List.pairwise_append] at hclock
    obtain ⟨hbefore, -, hle⟩ := hclock
    have hmono : ∀ t, t ∈ log.map (·.1.now) → t ≤ op.now := fun t ht =>
      hle t ht op.now (List.mem_singleton.mpr rfl)
    -- the clock of the longer run
    have hlater : ∀ t, t ∈ log.map (·.1.now) →
        t ∈ (log ++ [(op, (s.step sha256 op).1)]).map (·.1.now) := by
      intro t ht
      rw [List.map_append]
      exact List.mem_append_left _ ht
    have hnow : op.now ∈ (log ++ [(op, (s.step sha256 op).1)]).map (·.1.now) := by
      rw [List.map_append]
      exact List.mem_append_right _ (List.mem_singleton.mpr rfl)
    have hold := (ih hbefore).clock hlater
    have htimes : acceptedTimes (hashed sha256 key) (log ++ [(op, (s.step sha256 op).1)]) =
        acceptedTimes (hashed sha256 key) log ++
          acceptedTimes (hashed sha256 key) [(op, (s.step sha256 op).1)] :=
      List.filterMap_append
    rw [htimes]
    rcases step_cases sha256 s op with
      ⟨hcase, hfails⟩ | ⟨access, browser, batch, now, p, rfl, hok, happended⟩
    · -- nothing is accepted
      have hnone : acceptedTimes (hashed sha256 key) [(op, (s.step sha256 op).1)] = [] := by
        cases op with
        | append access browser batch now =>
          obtain ⟨f, hf⟩ := hfails access browser batch now rfl
          rw [hf]
          rfl
        | prune now => rfl
        | report account profile now => rfl
      rw [hnone, List.append_nil]
      rcases hcase with hkept | hpruned
      · rw [hkept.rates]
        exact hold
      · rw [hpruned.rates]
        exact hold.pruned hnow
    -- the batch is accepted, after pruning
    · have hpruned := hold.pruned hnow
      rw [hok] at hpruned ⊢
      rw [happended.rates, Table.get?_insert]
      -- it counts for the login that sent it
      by_cases hkey : key = sha256 (bytes access.id)
      · have hone :
          acceptedTimes (hashed sha256 key) [(.append access browser batch now, .ok .done)] =
            [now] := by
          exact List.filterMap_cons_some (if_pos (decide_eq_true hkey.symm))
        rw [hone, if_pos hkey, ← hkey, happended.pruned.rates]
        refine hpruned.joined ?_ ?_ ?_
        · intro t ht
          rw [List.map_append] at ht
          rcases List.mem_append.mp ht with ht | ht
          · exact hmono t ht
          · exact le_of_eq (List.mem_singleton.mp ht)
        · intro rate hrate
          exact of_decide_eq_true (Table.get?_retain.mp hrate).2
        · intro rate hrate
          refine happended.room rate ?_
          rw [happended.pruned.rates, ← hkey]
          exact hrate
      -- and for no other login
      · have hone :
          acceptedTimes (hashed sha256 key) [(.append access browser batch now, .ok .done)] =
            [] := by
          refine List.filterMap_cons_none (if_neg ?_)
          rw [hashed, decide_eq_true_eq]
          exact Ne.symm hkey
        rw [hone, List.append_nil, if_neg hkey, happended.pruned.rates]
        exact hpruned

/-- A login whose digest no other login of the run has is counted by itself. -/
theorem acceptedTimes_hashed {log : List (Op × Except Fault Reply)} {id : String}
    (h : ∀ access browser batch now r, (.append access browser batch now, r) ∈ log →
      sha256 (bytes access.id) = sha256 (bytes id) → access.id = id) :
    acceptedTimes (hashed sha256 (sha256 (bytes id))) log = acceptedTimes (· = id) log := by
  unfold acceptedTimes
  apply List.filterMap_congr
  rintro ⟨op, r⟩ hmem
  cases op with
  | append access browser batch now =>
    cases r with
    | error f => rfl
    | ok reply =>
      have hiff : hashed sha256 (sha256 (bytes id)) access.id = decide (access.id = id) := by
        unfold hashed
        rw [decide_eq_decide]
        exact ⟨h access browser batch now _ hmem, fun heq => by rw [heq]⟩
      unfold acceptedAt
      dsimp only
      rw [hiff]
  | prune now => rfl
  | report account profile now => rfl

end State

open State in
/-- **What the ring keeps, in every run.**  The bounds hold; a batch that the ring has changes no
    record; another owner's record leaves when it is old or the ring full; a failed append lets
    records expire at most; a report has the records of its owner of the last week; every change
    of the records has a new revision; and while the clock does not go back the batches of a
    login fall into windows of a minute, each opened by its first batch, of six at most. -/
theorem ring_runs (sha256 : List UInt8 → Digest) {log : List (Op × Except Fault Reply)} {s : State}
    (h : Run sha256 log s) :
    (s.records.length ≤ 2048 ∧
      (∀ account profile, s.records.countP (·.sameOwner account profile) ≤ 256) ∧
      (s.records.map Record.key).Nodup) ∧
    (∀ access browser batch now,
      ((∀ record ∈ incoming access browser batch now,
          ∃ r ∈ s.records, r.live now = true ∧ r.key = record.key) →
        OnlyExpired now s.records (s.append sha256 access browser batch now).2.records) ∧
      (∀ r ∈ s.records, r.sameOwner access.username access.profile = false →
        r ∉ (s.append sha256 access browser batch now).2.records →
        r.live now = false ∨ ∃ before record after,
          acceptedOf s access browser batch now = before ++ record :: after ∧
          r ∈ store access.username access.profile (s.records.filter (·.live now)) before ∧
          (store access.username access.profile (s.records.filter (·.live now)) before).length =
            2048) ∧
      (∀ f, (s.append sha256 access browser batch now).1 = .error f →
        OnlyExpired now s.records (s.append sha256 access browser batch now).2.records)) ∧
    (∀ account profile now,
      (∀ r, (s.report account profile now).1 = .ok r → r.events =
        s.records.filter fun r => r.sameOwner account profile && r.live now) ∧
      (minUtc ≤ now - ttl →
        ((∃ r ∈ s.records, r.live now = false) → s.revision.toNat + 1 < 2 ^ 64) →
        ∃ r, (s.report account profile now).1 = .ok r)) ∧
    (∀ op, s.revision.toNat ≤ (s.step sha256 op).2.revision.toNat ∧
      ((s.step sha256 op).2.records ≠ s.records →
        s.revision.toNat < (s.step sha256 op).2.revision.toNat)) ∧
    ((log.map (·.1.now)).Pairwise (· ≤ ·) → ∀ id,
      (∀ access browser batch now r, (.append access browser batch now, r) ∈ log →
        sha256 (bytes access.id) = sha256 (bytes id) → access.id = id) →
      ∀ w ∈ Windows.split minute (acceptedTimes (· = id) log), w.length ≤ 6) := by
  have hbounded := h.bounded
  refine ⟨⟨hbounded.length, hbounded.owner, hbounded.keys⟩, ?_, ?_, step_revision, ?_⟩
  · intro access browser batch now
    exact ⟨append_replay, fun r hr => append_others hbounded hr, fun f hf => append_fails hf⟩
  · intro account profile now
    exact ⟨fun r hr => report_events hr, report_returns⟩
  · intro hclock id hid w hw
    rw [← acceptedTimes_hashed hid] at hw
    exact (h.counted hclock _).windows w hw

/-! ### One page that reports again

Two events on the first and on the fourth day, and six batches around the end of a minute. -/

namespace RingExample

open State

/-- Stands for SHA-256 on the one short name that is hashed here. -/
def sha256 (b : List UInt8) : Digest := Vector.ofFn fun i => b.getD i.val 0

def access : Auth.SessionAccess := ⟨"login", 0, "csrf", "user", "", 0⟩

def event (sequence at_ : ℤ) : Event where
  sequence := sequence
  at_ := at_
  kind := .offline
  reason := .empty
  route := .empty
  code := 0
  attempt := 0
  retryMs := 0
  durationMs := 0
  line := 0
  column := 0
  online := false
  visible := true
  standalone := false

def batch (sequence at_ : ℤ) : Batch :=
  ⟨1, "00000000-0000-4000-8000-000000000000", "development", [event sequence at_]⟩

def append (sequence at_ now : ℤ) : Op := .append access "Firefox" (batch sequence at_) now

/-- The calls one after the other. -/
def play : List (Op × Except Fault Reply) × State → List Op →
    List (Op × Except Fault Reply) × State :=
  List.foldl fun (log, s) op => (log ++ [(op, (s.step sha256 op).1)], (s.step sha256 op).2)

/-- Valid calls may be appended to a run. -/
theorem run_play {log : List (Op × Except Fault Reply)} {s : State} {ops : List Op}
    (h : Run sha256 log s) (hops : ∀ op ∈ ops, op.Valid) :
    Run sha256 (play (log, s) ops).1 (play (log, s) ops).2 := by
  induction ops generalizing log s with
  | nil => exact h
  | cons op ops ih =>
    exact ih (h.step op (hops op List.mem_cons_self))
      fun op hop => hops op (List.mem_cons_of_mem _ hop)

/-- An instant so many seconds after 1970. -/
def seconds (n : ℤ) : ℤ := n * 1000000000

/-- A day, in seconds. -/
def day : ℤ := 86400

/-- One event on the first day and one on the fourth. -/
def twoDays : List Op := [append 1 0 0, append 2 (3 * day * 1000) (seconds (3 * day))]

/-- A batch at the start of a minute, five at its end and six when it is over. -/
def minutes : List Op :=
  [append 1 0 0] ++ List.replicate 5 (append 1 0 (seconds 59)) ++
    List.replicate 6 (append 1 0 (seconds 60))

/-- The calls of an example are valid by evaluation. -/
theorem valid_of_all {ops : List Op}
    (h : ops.all (fun | .append _ _ b now => b.valid now | _ => true) = true) :
    ∀ op ∈ ops, op.Valid := by
  intro op hop
  have hone := List.all_eq_true.mp h op hop
  cases op with
  | append access browser batch now => exact hone
  | prune now => trivial
  | report account profile now => trivial

/-- The first example is a run. -/
theorem run_twoDays :
    Run sha256 (play ([], .new [] false) twoDays).1 (play ([], .new [] false) twoDays).2 :=
  run_play .new (valid_of_all (by decide))

/-- The second example is a run. -/
theorem run_minutes :
    Run sha256 (play ([], .new [] false) minutes).1 (play ([], .new [] false) minutes).2 :=
  run_play .new (valid_of_all (by decide))

/-- A batch the ring has may be sent when another record expires, and a login whose window ends
    may send six batches within a second of the last five. -/
theorem replay_expires_and_minute_exceeded :
    (∃ log s, Run sha256 log s ∧ ∃ access browser batch now, batch.valid now = true ∧
      (∀ record ∈ incoming access browser batch now, ∃ r ∈ s.records, r.key = record.key) ∧
      (s.append sha256 access browser batch now).2.records ≠ s.records) ∧
    ∃ log s, Run sha256 log s ∧ (log.map (·.1.now)).Pairwise (· ≤ ·) ∧ ∃ id,
      ∃ first ∈ acceptedTimes (· = id) log,
        6 < (acceptedTimes (· = id) log).countP fun t => first ≤ t && t < first + minute := by
  constructor
  · refine ⟨_, _, run_twoDays, access, "Firefox", batch 2 (3 * day * 1000), seconds (7 * day), ?_⟩
    decide
  · refine ⟨_, _, run_minutes, ?_, "login", seconds 59, ?_, ?_⟩
    · decide
    · decide
    · decide

/-- The facts about a run that has two records. -/
theorem ring_twoDays :
    ((play ([], .new [] false) twoDays).2.records.map Record.key).Nodup ∧
      (play ([], .new [] false) twoDays).2.records.length = 2 :=
  ⟨(ring_runs sha256 run_twoDays).1.2.2, by decide⟩

end RingExample

end Hmux.Diagnostics
