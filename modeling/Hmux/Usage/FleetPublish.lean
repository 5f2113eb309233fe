import Hmux.Usage.SourcesPublish

namespace Hmux.Usage

open Lib Pb

/-!
# The fleet and `/v1/usage`

The two sources that build a snapshot of their own.  Both leave nothing unchecked: whatever they
return passes `transport::validate`.

* `fleet_valid`, `usage_valid` — a snapshot of `parse_fleet` or of `parse_usage` can be published;
* `sources_publishable` — the four sources together.
-/

/-! ### The fleet

What was gathered is followed through the loop over the rows, and the summary is made of it. -/

namespace CodexPool

section

variable {S : Serde} {parseTime : String → Option DateTime} {ofRat : ℚ → F64} {now : ℤ}

/-- A measure that can be shown. -/
def Measure.Ok (m : Measure) : Prop := (0 ≤ m.used ∧ m.used ≤ 1) ∧ ∀ t ∈ m.reset, InRange t

/-- A reset that is read is in range. -/
theorem resetTime_inRange (hparse : ParsesInRange parseTime) {raw : Option String}
    {reset : Option DateTime} (h : resetTime parseTime raw now = some reset) :
    ∀ t ∈ reset, InRange t := by
  unfold resetTime at h
  cases raw with
  | none => cases h; nofun
  | some raw =>
    dsimp only at h
    cases htime : parseTime raw with
    | none => rw [htime] at h; cases h
    | some u =>
      rw [htime] at h
      dsimp only at h
      split at h
      · cases h
        rintro t ⟨⟩
        exact hparse _ _ htime
      · cases h

/-- Every measure of a row is as it should be. -/
theorem measure_ok (hparse : ParsesInRange parseTime) {window : FleetWindow}
    {capacity credits : Option F64} {plan : String} {weekly : Bool} {m : Measure}
    (h : measure parseTime window capacity credits plan weekly now = some m) : m.Ok := by
  unfold measure at h
  by_cases hminutes : window.windowMinutes ≠ some (if weekly then 10080 else 300)
  · rw [if_pos hminutes] at h
    cases h
  rw [if_neg hminutes] at h
  obtain ⟨reset, hreset, h⟩ := Option.bind_eq_some_iff.mp h
  -- the rest is the same whether the capacity was reported or is estimated from the plan
  have hrest : ∀ size : ℚ, (if size ≤ 0 ∨ 1000000000000 < size then none
      else do
        let left ← fraction window size credits capacity.isNone
        if left < 0 ∨ 1 < left then none
        else return (⟨1 - left, size, reset, capacity.isNone⟩ : Measure)) = some m → m.Ok := by
    intro size h
    split at h
    · cases h
    · obtain ⟨left, -, h⟩ := Option.bind_eq_some_iff.mp h
      split at h
      · cases h
      · rename_i hleft
        obtain ⟨h0, h1⟩ := not_or.mp hleft
        cases h
        refine ⟨⟨?_, ?_⟩, resetTime_inRange hparse hreset⟩
        · exact sub_nonneg.mpr (not_lt.mp h1)
        · exact sub_le_self _ (not_lt.mp h0)
  cases capacity with
  | none =>
    obtain ⟨size, -, h⟩ := Option.bind_eq_some_iff.mp h
    exact hrest size h
  | some capacity =>
    obtain ⟨size, -, h⟩ := Option.bind_eq_some_iff.mp h
    exact hrest size h

/-- The window of a measure is published. -/
theorem publicWindow_ok (hunit : RoundsUnit ofRat) {m : Option Measure} (h : ∀ x ∈ m, x.Ok) :
    accountWindow (publicWindow ofRat m) = true := by
  cases m with
  | none => rfl
  | some m =>
    obtain ⟨⟨h0, h1⟩, hreset⟩ := h m rfl
    exact accountWindow_some (hunit _ h0 h1) (timestampLen_map hreset)

/-- The name of a row that is shown is clean. -/
theorem displayName_clean (row : Row) {index : ℕ} (h : index < maxAccounts) :
    displayName row index = safeLabel (displayName row index) := by
  have hclean : ∀ name : Option String, ∀ label ∈ (name.map safeLabel).filter (· ≠ ""),
      label = safeLabel label := by
    intro name label hlabel
    obtain ⟨hmem, -⟩ := Option.mem_filter_iff.mp hlabel
    obtain ⟨raw, -, rfl⟩ := Option.map_eq_some_iff.mp hmem
    exact (safeLabel_safeLabel raw).symm
  have hindex :
    safeLabel (Cswap.numbered ((index : ℤ) + 1)) = Cswap.numbered ((index : ℤ) + 1) := by
    have hnumber := safeLabel_numbered (n := index + 1) (by
      have hbound : maxAccounts = 128 := rfl
      omega)
    rwa [Nat.cast_add, Nat.cast_one] at hnumber
  unfold displayName
  dsimp only
  split
  · rename_i label hlabel
    exact hclean _ label hlabel
  · exact hindex.symm

/-- The end of a window is the earliest of its accounts. -/
def Aggregate.Ok (a : Aggregate) : Prop := ∀ t ∈ a.reset, InRange t

/-- A sum of measures stays as it should be. -/
theorem Aggregate.Ok.add {a : Aggregate} (h : a.Ok) {m : Option Measure} (hm : ∀ x ∈ m, x.Ok) :
    (a.add m).Ok := by
  cases m with
  | none => exact h
  | some m =>
    have hreset := (hm m rfl).2
    unfold Aggregate.Ok Aggregate.add
    dsimp only
    cases hat : m.reset with
    | none => exact h
    | some t =>
      have ht := hreset t hat
      rintro u ⟨⟩
      cases hold : a.reset with
      | none => exact ht
      | some old => exact inRange_min (h old hold) ht

/-- The window of a sum of measures is published. -/
theorem Aggregate.Ok.window (hunit : RoundsUnit ofRat) (hnow : Current now) {a : Aggregate}
    (h : a.Ok) : ∀ w ∈ a.window ofRat now, Usage.window w = true := by
  intro w hw
  unfold Aggregate.window at hw
  split at hw
  · cases hw
    unfold Usage.window
    dsimp only
    rw [ratio_clamp hunit, timestampLen_map h, decide_eq_true (remaining_nonneg h hnow)]
    rfl
  · cases hw

/-- What holds of what was gathered from the first rows. -/
structure Gathered.Ok (g : Gathered) (index : ℕ) : Prop where
  weekly : g.weekly.Ok
  primary : g.primary.Ok
  oldest : InRange g.oldest
  numbers : g.accounts.map Account.number = (List.range index).map fun i => Int64.ofNat (i + 1)
  alone : ∀ a ∈ g.accounts, Alone .codex a

/-- One more row. -/
theorem Gathered.Ok.parseRow (hunit : RoundsUnit ofRat) (hparse : ParsesInRange parseTime)
    {g : Gathered} {index : ℕ} (h : g.Ok index) (hindex : index < maxAccounts) (row : Row) :
    (parseRow parseTime ofRat now g index row).Ok (index + 1) := by
  have hobserved : ∀ t ∈ row.usageRefreshedAt.bind parseTime, InRange t := by
    intro t ht
    obtain ⟨raw, -, ht⟩ := Option.bind_eq_some_iff.mp ht
    exact hparse _ _ ht
  -- a measure that is not fresh is not there
  have hmeasure : ∀ (fresh : Bool) window capacity credits plan weekly,
      ∀ m ∈ (if fresh then measure parseTime window capacity credits plan weekly now else none),
        m.Ok := by
    intro fresh window capacity credits plan weekly m hm
    split at hm
    · exact measure_ok hparse hm
    · cases hm
  have hname := displayName_clean row hindex
  have hplan := (normalizePlan_normalizePlan row.planType).symm
  have hempty : "" = safeLabel "" := by decide
  have hpositive : (0 : Int64) < Int64.ofNat (index + 1) := by
    have hbound : maxAccounts = 128 := rfl
    rw [Int64.lt_iff_toInt_lt, Int64.toInt_ofNat_of_lt (by omega)]
    show (0 : ℤ) < ((index + 1 : ℕ) : ℤ)
    omega
  -- a status is one of those that are known, or unavailable
  have hstatus : len (if row.status = "active" then "ok"
      else if ["active", "rate_limited", "quota_exceeded"].contains row.status ||
        ["paused", "disabled", "deactivated", "reauth_required"].contains row.status then row.status
      else "unavailable") ≤ 64 := by
    split
    · exact Cswap.len_ok
    · split
      · rename_i hknown
        simp only [List.contains_iff_mem, Bool.or_eq_true, List.mem_cons, List.not_mem_nil,
          or_false] at hknown
        rcases hknown with (h | h | h) | h | h | h | h <;> rw [h] <;> decide
      · exact Cswap.len_unavailable
  unfold CodexPool.parseRow
  dsimp only
  generalize hfresh : (row.usageRefreshedAt.bind parseTime).any _ = fresh
  have hweek := hmeasure fresh row.secondary row.capacityCreditsSecondary
    row.remainingCreditsSecondary (normalizePlan row.planType) true
  have hshort := hmeasure fresh row.primary row.capacityCreditsPrimary
    row.remainingCreditsPrimary (normalizePlan row.planType) false
  generalize (if fresh then measure parseTime row.secondary _ _ _ _ _ else none) = week at hweek ⊢
  generalize (if fresh then measure parseTime row.primary _ _ _ _ _ else none) = short at hshort ⊢
  generalize row.usageRefreshedAt.bind parseTime = observed at hobserved ⊢
  -- the account of the row stands alone
  generalize hacc : Account.mk _ _ _ _ _ _ _ _ _ _ _ _ = a
  have hnumber : a.number = Int64.ofNat (index + 1) := by rw [← hacc]
  have halone : Alone .codex a := by
    rw [alone_iff, ← hacc]
    dsimp only
    exact ⟨hpositive, fun h => h.2 rfl, hempty, hname, hstatus, publicWindow_ok hunit hshort,
      publicWindow_ok hunit hweek, (fun x hx => by cases hx), (fun x hx => by cases hx), rfl,
      timestampLen_map hobserved, hplan⟩
  have hnumbers : (g.accounts ++ [a]).map Account.number
      = (List.range (index + 1)).map fun i => Int64.ofNat (i + 1) := by
    rw [List.map_append, h.numbers, List.range_succ, List.map_append, List.map_singleton,
      List.map_singleton, hnumber]
  have hall : ∀ b ∈ g.accounts ++ [a], Alone .codex b := by
    intro b hb
    rcases List.mem_append.mp hb with hb | hb
    · exact h.alone b hb
    · rw [List.mem_singleton.mp hb]
      exact halone
  -- it counts for the sums if it is fresh
  split
  · refine ⟨h.weekly.add hweek, h.primary.add hshort, ?_, hnumbers, hall⟩
    dsimp only
    cases observed with
    | none => exact h.oldest
    | some t => exact inRange_min h.oldest (hobserved t rfl)
  · split
    · exact ⟨h.weekly, h.primary, h.oldest, hnumbers, hall⟩
    · exact ⟨h.weekly, h.primary, h.oldest, hnumbers, hall⟩

/-- The whole loop, by induction over the rows. -/
theorem Gathered.Ok.parseRows (hunit : RoundsUnit ofRat) (hparse : ParsesInRange parseTime)
    {rows : List Row} {seen : List String} {index : ℕ} {g g' : Gathered} (h : g.Ok index)
    (hlength : index + rows.length ≤ maxAccounts)
    (hrun : parseRows parseTime ofRat now seen index g rows = .ok g') :
    g'.Ok (index + rows.length) := by
  induction rows generalizing seen index g with
  | nil =>
    cases hrun
    exact h
  | cons row rows ih =>
    rw [CodexPool.parseRows] at hrun
    rw [List.length_cons] at hlength ⊢
    split at hrun
    · cases hrun
    · have hnext := ih (h.parseRow hunit hparse (by omega) row) (by omega) hrun
      rwa [Nat.add_right_comm, Nat.add_assoc] at hnext

/-- The numbers of the accounts are distinct. -/
theorem Gathered.Ok.nodup {g : Gathered} {index : ℕ} (h : g.Ok index)
    (hindex : index ≤ maxAccounts) :
    (g.accounts.map Account.number).Nodup := by
  have hbound : maxAccounts = 128 := rfl
  rw [h.numbers]
  refine List.Nodup.map_on ?_ List.nodup_range
  intro i hi j hj heq
  have hi := List.mem_range.mp hi
  have hj := List.mem_range.mp hj
  have hints := congrArg Int64.toInt heq
  rw [Int64.toInt_ofNat_of_lt (by omega), Int64.toInt_ofNat_of_lt (by omega)] at hints
  omega

/-- What was gathered makes a snapshot that can be published. -/
theorem summary_valid (hunit : RoundsUnit ofRat) (hnow : Current now) {seq : Int64} (hseq : 0 ≤ seq)
    {g : Gathered} {index : ℕ} (h : g.Ok index) (hindex : index ≤ maxAccounts) :
    validate parseTime (summary ofRat seq now g) = .ok () := by
  -- the base has no window; every part that is set over it is checked on its own
  have hbase : Publishable (Snapshot.degraded .codex seq now "ok") :=
    publishable_degraded hseq hnow ⟨by decide, Cswap.len_ok⟩
  have hwindow : ∀ a : Aggregate, a.Ok → window ((a.window ofRat now).getD default) = true := by
    intro a ha
    cases hw : a.window ofRat now with
    | none => exact window_default
    | some w => exact ha.window hunit hnow w hw
  have hweighting : ∀ (stale estimated : Bool), validQuotaWeighting (if stale then ""
      else if estimated then "plan_estimate" else "reported_capacity") = true := by
    decide
  have hobserved : ∀ stale : Bool,
      timestampLen (if stale then none else some (formatDateTime g.oldest)) = true := by
    intro stale
    cases stale with
    | true => rfl
    | false =>
      have hlen : timestampLen ((some g.oldest).map formatDateTime) = true := by
        refine timestampLen_map ?_
        rintro t ⟨⟩
        exact h.oldest
      exact hlen
  have hupdated : timestampLen (some (formatTime now)) = true := by
    show decide (len (formatTime now) ≤ 128) = true
    rw [decide_eq_true_eq]
    exact (formatTime_len hnow.fourDigitYear).2
  have hlength : g.accounts.length ≤ maxAccounts := by
    have hmap := congrArg List.length h.numbers
    rw [List.length_map, List.length_map, List.length_range] at hmap
    omega
  -- so the summary is publishable, up to the names of its accounts
  have hpub : Publishable (summary ofRat seq now g) := { hbase with
    rolling := hwindow _ h.primary
    weekly := hwindow _ h.weekly
    weighting := hweighting _ _
    quotaSource := show len "codex_lb" ≤ 128 by decide
    observed := hobserved _
    updated := hupdated
    length := hlength }
  rw [hpub.validate_iff (show (g.accounts.map Account.number).Nodup from h.nodup hindex)]
  exact h.alone

/-- The fleet has as many rows as may be published, at most. -/
theorem readFleet_length {raw : List UInt8} {rows : List Row}
    (h : (S.fromSlice raw).bind (fleetCodec S.ofInt).read = some rows) :
    rows.length ≤ maxAccounts := by
  obtain ⟨j, -, h⟩ := Option.bind_eq_some_iff.mp h
  obtain ⟨slots, h⟩ := Codec.openObject_get h
  rcases Fields.slot_get_some h with ⟨j, hread⟩ | hread | hread
  · exact Codec.bounded_read_length hread
  · cases hread
  · cases hread

/-- **The fleet.**  Every snapshot of `parse_fleet` can be published. -/
theorem fleet_valid (hunit : RoundsUnit ofRat) (hparse : ParsesInRange parseTime)
    (hnow : Current now) {seq : Int64} (hseq : 0 ≤ seq) {raw : List UInt8} {s : Snapshot}
    (h : parseFleet S parseTime ofRat raw seq now = .ok s) : validate parseTime s = .ok () := by
  unfold parseFleet at h
  split at h
  · cases h
  cases hrows : (S.fromSlice raw).bind (fleetCodec S.ofInt).read with
  | none => rw [hrows] at h; cases h
  | some rows =>
    rw [hrows] at h
    obtain ⟨g, hg, h⟩ := bind_ok h
    have hstart : Gathered.Ok ⟨.empty, .empty, .ofNanos now, []⟩ 0 :=
      ⟨nofun, nofun, Cswap.inRange_now hnow, rfl, nofun⟩
    have hlength := readFleet_length hrows
    have hend := hstart.parseRows hunit hparse (by omega) hg
    rw [← Except.ok.inj h]
    exact summary_valid hunit hnow hseq hend (by omega)

end

end CodexPool

/-! ### `/v1/usage`

A limit gives a window or nothing, and the pool takes the place of the windows when there is one.
-/

namespace CodexLb

section

variable {S : Serde} {parseTime : String → Option DateTime} {ofRat : ℚ → F64} {now : ℤ}

/-- A snapshot of Codex without accounts that can be published. -/
structure NoAccounts (s : Snapshot) : Prop where
  publishable : Publishable s
  accounts : s.accounts = []

/-- A limit adds no accounts. -/
theorem parseLimit_ok (hunit : RoundsUnit ofRat) (hparse : ParsesInRange parseTime)
    {s t : Snapshot × Bool} {l : Limit} (hs : NoAccounts s.1)
    (h : parseLimit parseTime ofRat now s l = .ok t) : NoAccounts t.1 := by
  unfold parseLimit at h
  split at h
  · cases h
    exact hs
  · obtain ⟨⟨⟩, -, h⟩ := bind_ok h
    obtain ⟨⟨⟩, -, h⟩ := bind_ok h
    dsimp only at h
    have hwindow : window
        { usedPct := ofRat (clamp (toRat l.currentValue / toRat l.maxValue))
          remainingSeconds := untilReset (timestamp parseTime l.resetAt) now
          resetsAt := (timestamp parseTime l.resetAt).map formatDateTime } = true := by
      unfold window
      dsimp only
      rw [ratio_clamp hunit, timestampLen_map fun t ht => timestamp_inRange hparse ht,
        decide_eq_true (untilReset_nonneg _ _)]
      rfl
    split at h
    · cases h
      exact ⟨{ hs.publishable with rolling := hwindow }, hs.accounts⟩
    · cases h
      exact ⟨{ hs.publishable with weekly := hwindow }, hs.accounts⟩
    · cases h
      exact hs

/-- The window of a pool is published. -/
theorem poolWindow_ok (hunit : RoundsUnit ofRat) {left : Option F64} {w : Option Window}
    (h : poolWindow ofRat left = .ok w) : window (w.getD default) = true := by
  unfold poolWindow at h
  cases left with
  | none =>
    cases h
    exact window_default
  | some left =>
    dsimp only at h
    split at h
    · cases h
      unfold window
      dsimp only [Option.getD_some]
      rw [ratio_clamp hunit]
      rfl
    · cases h

/-- A pool adds no accounts. -/
theorem parsePool_ok (hunit : RoundsUnit ofRat) {s t : Snapshot × Bool} {pool : Option Pool}
    (hs : NoAccounts s.1) (h : parsePool ofRat s pool = .ok t) : NoAccounts t.1 := by
  unfold parsePool at h
  cases pool with
  | none =>
    cases h
    exact hs
  | some pool =>
    obtain ⟨primary, hprimary, h⟩ := bind_ok h
    obtain ⟨secondary, hsecondary, h⟩ := bind_ok h
    cases h
    exact ⟨{ hs.publishable with
      rolling := poolWindow_ok hunit hprimary
      weekly := poolWindow_ok hunit hsecondary }, hs.accounts⟩

/-- Limits add no accounts. -/
theorem parseLimits_ok (hunit : RoundsUnit ofRat) (hparse : ParsesInRange parseTime)
    {limits : List Limit} {s t : Snapshot × Bool} (hs : NoAccounts s.1)
    (h : limits.foldlM (parseLimit parseTime ofRat now) s = .ok t) : NoAccounts t.1 := by
  induction limits generalizing s with
  | nil =>
    cases h
    exact hs
  | cons l limits ih =>
    rw [List.foldlM_cons] at h
    obtain ⟨u, hu, h⟩ := bind_ok h
    exact ih (parseLimit_ok hunit hparse hs hu) h

/-- **`/v1/usage`.**  Every snapshot of `parse_usage` can be published. -/
theorem usage_valid (hunit : RoundsUnit ofRat) (hparse : ParsesInRange parseTime)
    (hnow : Current now) {seq : Int64} (hseq : 0 ≤ seq) {raw : List UInt8} {s : Snapshot}
    (h : parseUsage S parseTime ofRat raw seq now = .ok s) : validate parseTime s = .ok () := by
  unfold parseUsage at h
  split at h
  · cases h
  split at h
  · cases h
  cases hresponse : (S.fromSlice raw).bind (Response.codec S.ofInt).read with
  | none => rw [hresponse] at h; cases h
  | some response =>
    rw [hresponse] at h
    -- the reading goes part by part over a base that is publishable and has no accounts
    have hbase : Publishable (Snapshot.degraded .codex seq now "ok") :=
      publishable_degraded hseq hnow ⟨by decide, Cswap.len_ok⟩
    have haccounts : (Snapshot.degraded .codex seq now "ok").accounts = [] := rfl
    dsimp only at h
    generalize Snapshot.degraded .codex seq now "ok" = snapshot at h hbase haccounts
    obtain ⟨limits, hlimits, h⟩ := bind_ok h
    obtain ⟨pooled, hpooled, h⟩ := bind_ok h
    obtain ⟨⟨⟩, -, h⟩ := bind_ok h
    have hsource : len "codex_lb" ≤ 128 := by decide
    have hstart : NoAccounts { snapshot with
        status := { snapshot.status with stale := false, quotaSource := "codex_lb" } } :=
      ⟨{ hbase with quotaSource := hsource }, haccounts⟩
    have hlimited := parseLimits_ok hunit hparse hstart hlimits
    obtain ⟨hpub, haccounts⟩ := parsePool_ok hunit hlimited hpooled
    have hobserved : timestampLen (some (formatTime now)) = true := by
      show decide (len (formatTime now) ≤ 128) = true
      rw [decide_eq_true_eq]
      exact (formatTime_len hnow.fourDigitYear).2
    rw [← Except.ok.inj h]
    generalize pooled.1 = snapshot at hpub haccounts
    -- the date is set last
    have hfinal : Publishable { snapshot with
        status := { snapshot.status with quotaObservedAt := some (formatTime now) } } :=
      { hpub with observed := hobserved }
    rw [hfinal.validate_iff (by dsimp only; rw [haccounts]; exact List.nodup_nil)]
    dsimp only
    rw [haccounts]
    nofun

end

end CodexLb

/-! ### The four sources

The condition under which each of them can be published; for the last two there is none. -/

section

variable {S : Serde} {parseTime : String → Option DateTime} {ofRat : ℚ → F64}

/-- No status of the command is longer than a status may be. -/
def Cswap.ShortStatuses (S : Serde) (raw : List UInt8) : Prop :=
  ∀ list ∈ Cswap.readList S raw, ∀ row ∈ list.accounts, len (Cswap.status row) ≤ 64

/-- No token count of the export is negative. -/
def CodexAccounts.Counts (S : Serde) (raw : List UInt8) : Prop :=
  ∀ source ∈ CodexAccounts.readExport S raw, ∀ rows ∈ source.accounts, ∀ row ∈ rows, row.counts

/-- **When the optional sources can be published.**  What `parse_fleet` and `parse_usage` return
    always can.  The accounts of `parse_command` can exactly if every status is short, and those of
    `parse_account_export` exactly if no token count is negative; nothing else in the output of the
    four tools matters. -/
theorem sources_publishable (hunit : RoundsUnit ofRat) (hparse : ParsesInRange parseTime) {now : ℤ}
    (hnow : Current now) (raw : List UInt8) :
    (∀ p, Cswap.parseCommand S parseTime ofRat raw now = .ok p →
      ∀ cli, cli.provider = .claude → validate parseTime cli = .ok () →
        ((∃ s, claudeSwap parseTime cli p now = .ok s) ↔ Cswap.ShortStatuses S raw)) ∧
    (∀ mtime e, InRange mtime →
      CodexAccounts.parseAccountExport S parseTime ofRat raw now mtime = .ok e →
      ∀ snap, snap.provider = .codex → snap.status.quotaSource = "codex_lb" →
        validate parseTime snap = .ok () →
        (validate parseTime { snap with accounts := e.accounts, accountsUpdatedAt := e.updatedAt }
          = .ok () ↔ CodexAccounts.Counts S raw)) ∧
    (∀ seq s, 0 ≤ seq → CodexPool.parseFleet S parseTime ofRat raw seq now = .ok s →
      validate parseTime s = .ok ()) ∧
    ∀ seq s, 0 ≤ seq → CodexLb.parseUsage S parseTime ofRat raw seq now = .ok s →
      validate parseTime s = .ok () := by
  refine ⟨?_, ?_, ?_, ?_⟩
  · intro p hp cli hclaude hcli
    obtain ⟨list, hlist, hparsed, halone⟩ := Cswap.parseCommand_spec hunit hparse hnow hp
    rw [Cswap.claudeSwap_ok_iff hparse hnow hcli hclaude hparsed, halone]
    unfold Cswap.ShortStatuses
    rw [hlist]
    exact ⟨fun h other hother => Option.some.inj hother ▸ h, fun h => h list rfl⟩
  · intro mtime e hmtime he snap _ _ hsnap
    obtain ⟨source, rows, hsource, hrows, hvalid⟩ :=
      CodexAccounts.parseAccountExport_spec hunit hparse hnow hmtime he hsnap
    rw [hvalid]
    unfold CodexAccounts.Counts
    rw [hsource]
    constructor
    · rintro h _ ⟨⟩ others hothers
      rw [hrows] at hothers
      cases hothers
      exact h
    · exact fun h => h source rfl rows hrows
  · exact fun seq s hseq h => CodexPool.fleet_valid hunit hparse hnow hseq h
  · exact fun seq s hseq h => CodexLb.usage_valid hunit hparse hnow hseq h

end

namespace SourcesExample

/-- Zero and one, the only results of the texts below. -/
def ofRat (q : ℚ) : F64 := if q ≤ 0 then ⟨0⟩ else ⟨0x3FF0000000000000⟩

/-- None of the texts below has a time. -/
def parseTime (_ : String) : Option DateTime := none

/-- The rounding of the example stays within the unit. -/
theorem roundsUnit : RoundsUnit ofRat := by
  intro q _ _
  unfold ofRat
  split <;> decide

/-- Its times are in range: there are none. -/
theorem parsesInRange : ParsesInRange parseTime := nofun

/-- One account with a status of `n` letters. -/
def command (n : ℕ) : List UInt8 :=
  bytes "\x7b\"schemaVersion\":1,\"accounts\":[\x7b\"number\":1,\"usageStatus\":\"" ++
    List.replicate n 97 ++ bytes "\"\x7d]\x7d"

/-- What the CLI says at the epoch. -/
def cli : Snapshot := .degraded .claude 0 0 "ok"

/-- The epoch is a time that the clock may have. -/
theorem current_epoch : Current 0 := by
  unfold Current
  decide

/-- The snapshot of the CLI is valid. -/
theorem cli_valid : validate parseTime cli = .ok () := by
  have hpub : Publishable cli :=
    publishable_degraded (Int64.le_refl 0) current_epoch ⟨by decide, Cswap.len_ok⟩
  rw [hpub.validate_iff List.nodup_nil]
  nofun

/-- The command output with a status of `n` letters is parsed. -/
def parses (n : ℕ) : Bool :=
  match Cswap.parseCommand Json.Compact.serde parseTime ofRat (command n) 0 with
  | .ok p => p.accounts.map (fun a => len a.status) == [n]
  | .error _ => false

/-- What is evaluated, as a statement. -/
theorem of_parses {n : ℕ} (h : parses n = true) :
    ∃ p, Cswap.parseCommand Json.Compact.serde parseTime ofRat (command n) 0 = .ok p := by
  unfold parses at h
  cases hp : Cswap.parseCommand Json.Compact.serde parseTime ofRat (command n) 0 with
  | error e => rw [hp] at h; cases h
  | ok p => exact ⟨p, rfl⟩

/-- An export with one account and one token count. -/
def accountExport : List UInt8 :=
  bytes "\x7b\"schemaVersion\":1,\"accounts\":[\x7b\"number\":1,\"totalTokens\":3\x7d]\x7d"

/-- A fleet of one account that used up its first window. -/
def fleet : List UInt8 :=
  bytes ("\x7b\"accounts\":[\x7b\"accountId\":\"a\",\"displayName\":\"A\",\"email\":\"a@b\"," ++
    "\"planType\":\"plus\",\"status\":\"active\"," ++
    "\"primary\":\x7b\"remainingPercent\":0\x7d\x7d]\x7d")

/-- A pool that is used up. -/
def usage : List UInt8 := bytes "\x7b\"account_pool_usage\":\x7b\"primary\":0\x7d\x7d"

/-- A call that is accepted returns something. -/
theorem of_isOk {ε α : Type} {r : Except ε α} (h : r.isOk = true) : ∃ v, r = .ok v := by
  cases r with
  | error e => cases h
  | ok v => exact ⟨v, rfl⟩

/-- The statuses are short if all of them are when they are read. -/
theorem short_statuses {n : ℕ}
    (hall : ((Cswap.readList Json.Compact.serde (command n)).all fun list =>
      list.accounts.all fun row => decide (len (Cswap.status row) ≤ 64)) = true) :
    Cswap.ShortStatuses Json.Compact.serde (command n) := by
  intro list hlist row hrow
  rw [Option.all_eq_true] at hall
  exact of_decide_eq_true (List.all_eq_true.mp (hall list hlist) row hrow)

/-- The export has no negative count. -/
theorem export_counts : CodexAccounts.Counts Json.Compact.serde accountExport := by
  have hall : ((CodexAccounts.readExport Json.Compact.serde accountExport).all fun source =>
      source.accounts.all fun rows => rows.all fun row =>
        row.tokensPerHour.isNone && row.totalTokens.all fun n => decide (0 ≤ n)) = true := by
    decide +kernel
  intro source hsource rows hrows row hrow
  rw [Option.all_eq_true] at hall
  have hrows' := hall source hsource
  rw [Option.all_eq_true] at hrows'
  have hrow' := List.all_eq_true.mp (hrows' rows hrows) row hrow
  rw [Bool.and_eq_true, Option.isNone_iff_eq_none, Option.all_eq_true] at hrow'
  constructor
  · rw [hrow'.1]
    nofun
  · exact fun n hn => of_decide_eq_true (hrow'.2 n hn)

/-- All four sources at once: a status of two letters, an export beside the pool it belongs to, and
    a fleet. -/
theorem short_status_published :
    (∃ p s, Cswap.parseCommand Json.Compact.serde parseTime ofRat (command 2) 0 = .ok p ∧
      claudeSwap parseTime cli p 0 = .ok s) ∧
    (∃ s e, CodexLb.parseUsage Json.Compact.serde parseTime ofRat usage 0 0 = .ok s ∧
      validate parseTime s = .ok () ∧
      CodexAccounts.parseAccountExport Json.Compact.serde parseTime ofRat accountExport 0
        (.ofNanos 0) = .ok e ∧
      validate parseTime { s with accounts := e.accounts, accountsUpdatedAt := e.updatedAt } =
        .ok ()) ∧
    ∃ s, CodexPool.parseFleet Json.Compact.serde parseTime ofRat fleet 0 0 = .ok s ∧
      validate parseTime s = .ok () := by
  have hall := sources_publishable (S := Json.Compact.serde) roundsUnit parsesInRange current_epoch
  refine ⟨?_, ?_, ?_⟩
  · obtain ⟨p, hp⟩ := of_parses (show parses 2 = true by decide)
    obtain ⟨s, hs⟩ := ((hall (command 2)).1 p hp cli rfl cli_valid).mpr
      (short_statuses (by decide))
    exact ⟨p, s, hp, hs⟩
  · obtain ⟨s, hs, hcodex, hlb⟩ : ∃ s,
        CodexLb.parseUsage Json.Compact.serde parseTime ofRat usage 0 0 = .ok s ∧
        s.provider = .codex ∧ s.status.quotaSource = "codex_lb" := by
      have h : (match CodexLb.parseUsage Json.Compact.serde parseTime ofRat usage 0 0 with
        | .ok s => decide (s.provider = .codex ∧ s.status.quotaSource = "codex_lb")
        | .error _ => false) = true := by decide +kernel
      split at h
      · next s hs => exact ⟨s, hs, of_decide_eq_true h⟩
      · cases h
    have hvalid := (hall usage).2.2.2 0 s (Int64.le_refl 0) hs
    obtain ⟨e, he⟩ := of_isOk (r := CodexAccounts.parseAccountExport Json.Compact.serde parseTime
      ofRat accountExport 0 (.ofNanos 0)) (by decide +kernel)
    have hmtime := Cswap.inRange_now current_epoch
    exact ⟨s, e, hs, hvalid, he,
      ((hall accountExport).2.1 _ e hmtime he s hcodex hlb hvalid).mpr export_counts⟩
  · obtain ⟨s, hs⟩ := of_isOk (r := CodexPool.parseFleet Json.Compact.serde parseTime ofRat
      fleet 0 0) (by decide +kernel)
    exact ⟨s, hs, (hall fleet).2.2.1 0 s (Int64.le_refl 0) hs⟩

/-- **A status of 65 letters withdraws the usage.**  The command output is parsed, but
    `claude_swap` rejects what was parsed. -/
theorem long_status_rejected :
    RoundsUnit ofRat ∧ ParsesInRange parseTime ∧ Current 0 ∧ cli.provider = .claude ∧
      validate parseTime cli = .ok () ∧
      ∃ p, Cswap.parseCommand Json.Compact.serde parseTime ofRat (command 65) 0 = .ok p ∧
        ¬ ∃ s, claudeSwap parseTime cli p 0 = .ok s := by
  obtain ⟨p, hp⟩ := of_parses (show parses 65 = true by decide +kernel)
  refine ⟨roundsUnit, parsesInRange, current_epoch, rfl, cli_valid, p, hp, ?_⟩
  obtain ⟨list, hlist, hparsed, halone⟩ :=
    Cswap.parseCommand_spec roundsUnit parsesInRange current_epoch hp
  rw [Cswap.claudeSwap_ok_iff parsesInRange current_epoch cli_valid rfl hparsed, halone]
  have hlong : ((Cswap.readList Json.Compact.serde (command 65)).any fun list =>
      list.accounts.any fun row => decide (64 < len (Cswap.status row))) = true := by
    decide +kernel
  rw [hlist, Option.any_some, List.any_eq_true] at hlong
  obtain ⟨row, hrow, hlen⟩ := hlong
  have hlen := of_decide_eq_true hlen
  intro hall
  have := hall row hrow
  omega

end SourcesExample

end Hmux.Usage
