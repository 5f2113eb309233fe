import Hmux.Lib.Check
import Hmux.Lib.Chrono
import Hmux.Model.Session
import Hmux.Protocol.Scan
import Hmux.Usage.Model

namespace Hmux.Protocol

open Lib Pb Usage

/-!
# Snapshots: what a catalog and a usage report must satisfy

The checks that `snapshots.rs` makes of a decoded catalog or usage snapshot, in the order in
which it makes them.  `parseTime` stands for `chrono`'s RFC 3339 parser.  Doubles are only
compared with constants, which can be read off their bits.

* `usageChecks_ok`, `usageSource_ok` — what the checks of a usage snapshot decide.
-/

/-- `snapshots::Error`. -/
inductive SnapshotError
  | limit | invalid
  deriving DecidableEq

/-! ### Catalogs

Text by text and list by list, each within its limit; and a budget for what the whole catalog takes
when it is decoded. -/

/-- `snapshots::text`. -/
def checkText (s : String) (max : ℕ) : Except SnapshotError Unit :=
  require ((Hmux.bytes s).length ≤ max) .limit

/-- `snapshots::strings`. -/
def checkStrings (xs : List String) (max : ℕ) : Except SnapshotError Unit :=
  allOk (require (xs.length ≤ max) .limit :: xs.map fun x => checkText x maxCatalogText)

/-- `snapshots::identity`: a null session is the zero value. -/
def checkIdentity (v : Pb.Session) : Except SnapshotError Unit :=
  if v.id = "" ∧ v.createdAt = 0 then .ok ()
  else allOk [require (validateSessionId v.id) .invalid, require (0 < v.createdAt) .invalid]

/-- The checks of one workflow node. -/
def checkNode (n : CatalogWorkflowNode) : Except SnapshotError Unit :=
  allOk ([n.id, n.parentId, n.nodeType, n.provider, n.status].map fun x =>
    checkText x maxCatalogText)

/-- The checks of one workflow. -/
def checkWorkflow (w : CatalogWorkflow) : Except SnapshotError Unit :=
  allOk (([w.id, w.source, w.sessionId, w.turnId, w.status, w.model].map fun x =>
      checkText x maxCatalogText) ++
    match w.nodes with
    | none => []
    | some ns => require (ns.items.length ≤ maxWorkflowNodes) .limit :: ns.items.map checkNode)

/-- The texts of a session. -/
def sessionTexts (s : CatalogSession) : List String :=
  [s.name, s.alias, s.activeWindow, s.currentPath, s.currentCommand, s.profile, s.label, s.kind,
    s.runtime, s.model, s.state, s.process]

/-- The checks of one session. -/
def checkSession (s : CatalogSession) : Except SnapshotError Unit :=
  match s.identity with
  | none => .error .invalid
  | some identity =>
    allOk (checkIdentity identity :: (s.restoredFrom.toList.map checkIdentity ++
      ((sessionTexts s).map fun x => checkText x maxCatalogText) ++
      (s.windowNames.toList.map fun xs => checkStrings xs.items maxCatalogWindows) ++
      (s.tags.toList.map fun xs => checkStrings xs.items maxCatalogTags) ++
      match s.workflows with
      | none => []
      | some ws => require (ws.items.length ≤ maxWorkflows) .limit :: ws.items.map checkWorkflow))

section

variable (parseTime : String → Option DateTime)

/-- `check_proto_catalog`. -/
def checkProtoCatalog (c : CatalogSnapshot) : Except SnapshotError Unit :=
  allOk (checkText c.generatedAt 128 ::
    require (c.generatedAt = "" || (parseTime c.generatedAt).isSome) .invalid ::
    match c.sessions with
    | none => []
    | some sessions =>
      require (sessions.items.length ≤ maxCatalogSessions) .limit ::
        sessions.items.map checkSession)

variable (L : Layout)

/-- `TreeBudget`: the charges one after the other, as long as the sum stays within bounds. -/
def treeBudget : ℕ → List ℕ → Except SnapshotError Unit
  | _, [] => .ok ()
  | used, n :: charges =>
    if maxDecodedSnapshotBytes < used + n then .error .limit else treeBudget (used + n) charges

/-- `TreeBudget::text`. -/
def textCharge (s : String) : ℕ := (Hmux.bytes s).length

/-- `TreeBudget::strings`. -/
def stringCharges (xs : List String) : List ℕ :=
  xs.length * (2 * L.sizeOfString) :: xs.map textCharge

/-- The charges of a workflow. -/
def workflowCharges (w : CatalogWorkflow) : List ℕ :=
  ([w.id, w.source, w.sessionId, w.turnId, w.status, w.model].map textCharge) ++
    match w.nodes with
    | none => []
    | some ns => ns.items.length * (2 * L.sizeOf .catalogWorkflowNode) ::
        ns.items.flatMap fun n =>
          [n.id, n.parentId, n.nodeType, n.provider, n.status].map textCharge

/-- The charges of a session. -/
def sessionCharges (s : CatalogSession) : List ℕ :=
  (s.identity.toList.map fun id => textCharge id.id) ++ (sessionTexts s).map textCharge ++
    (match s.restoredFrom with
      | none => []
      | some x => [2 * L.sizeOf .session, textCharge x.id]) ++
    (s.windowNames.toList.flatMap fun xs => stringCharges L xs.items) ++
    (s.tags.toList.flatMap fun xs => stringCharges L xs.items) ++
    (s.workflow.toList.map fun _ => 2 * L.sizeOf .catalogWorkflowSummary) ++
    match s.workflows with
    | none => []
    | some ws => ws.items.length * (2 * L.sizeOf .catalogWorkflow) ::
        ws.items.flatMap (workflowCharges L)

/-- `budget_proto_catalog`.  Every session has an identity: that was checked before. -/
def budgetProtoCatalog (c : CatalogSnapshot) : Except SnapshotError Unit :=
  treeBudget (L.sizeOf .catalogSnapshot) (textCharge c.generatedAt ::
    ((match c.hostMetrics with
      | none => []
      | some metrics => [2 * L.sizeOf .catalogHostMetrics, textCharge metrics.observedAt]) ++
    match c.sessions with
    | none => []
    | some sessions => sessions.items.length * (2 * L.sizeOf .catalogSession) ::
        sessions.items.flatMap (sessionCharges L)))

/-- `encoded_len` of a message that consists of these fields. -/
def encodedLen (w : Lib.Proto.Wire) : ℕ := (Lib.Proto.encodeWire w).length

/-- How deep the generated decoder nests. -/
def recursionLimit : ℕ := 100

/-- `validate_catalog`. -/
def validateCatalog (c : CatalogSnapshot) : Except SnapshotError Unit :=
  allOk [checkProtoCatalog parseTime c, budgetProtoCatalog L c,
    require (encodedLen ((CatalogSnapshot.part recursionLimit).put c) ≤ maxCatalogBytes) .limit]

end

/-! ### Usage

A snapshot is checked field by field; its accounts and its sources are checked against those before
them, since no two may have the same number or name. -/

/-- `usage_provider_from`. -/
def usageProviderFrom (n : Int32) : Except SnapshotError Provider :=
  if n = 1 then .ok .claude else if n = 2 then .ok .codex else .error .invalid

/-- `usage_ratio`. -/
def usageRatio (x : F64) : Bool := x.isFinite && x.inUnit

/-- `usage_timestamp`. -/
def usageTimestamp (x : Option String) : Bool := x.all fun s => (Hmux.bytes s).length ≤ 128

/-- `usage_window`. -/
def usageWindow (w : UsageWindow) : Bool :=
  usageRatio w.usedPct && 0 ≤ w.remainingSeconds && usageTimestamp w.resetsAt

/-- `usage_account_window`. -/
def usageAccountWindow (w : Option UsageAccountWindow) : Bool :=
  w.all fun x => usageRatio x.usedPct && usageTimestamp x.resetsAt

section

variable (parseTime : String → Option DateTime)

/-- `usage_retry`: a retry time belongs to a limited or stale snapshot and lies within a day
    after it. -/
def usageRetry (s : UsageSnapshot) (status : UsageStatus) : Bool :=
  match status.retryAt with
  | none => true
  | some raw =>
    if 128 < (Hmux.bytes raw).length ||
        !(status.state == "rateLimited" || (status.state == "ok" && status.stale)) then false
    else
      match parseTime raw, parseTime s.generatedAtUtc with
      | some reset, some generated =>
        (reset.signedDurationSince generated).numNanoseconds.any fun ns =>
          0 < ns && ns ≤ 24 * 60 * 60 * 1000000000
      | _, _ => false

/-- The checks of a snapshot's own fields. -/
def usageFields (s : UsageSnapshot) (rolling weekly : UsageWindow) (status : UsageStatus) : Bool :=
  s.schema == 1 && 0 ≤ s.seq && s.generatedAtUtc != "" &&
    (Hmux.bytes s.generatedAtUtc).length ≤ 128 && (Hmux.bytes s.burnState).length ≤ 32 &&
    s.burnRatePerMin.isFinite && !s.burnRatePerMin.isNegative && 0 ≤ s.todayTotalTokens &&
    0 ≤ s.todaySessions && s.planType == normalizePlan s.planType && usageWindow rolling &&
    usageWindow weekly && status.state != "" && (Hmux.bytes status.state).length ≤ 64 &&
    validQuotaWeighting status.quotaWeighting && (Hmux.bytes status.dataSource).length ≤ 128 &&
    (Hmux.bytes status.quotaSource).length ≤ 128 && usageTimestamp status.quotaObservedAt &&
    usageRetry parseTime s status && usageTimestamp s.accountsUpdatedAt

/-- The checks of one account after those in `before`. -/
def usageAccount (provider : Provider) (before : List UsageAccount) (a : UsageAccount) : Bool :=
  0 < a.number && !(before.any fun prev => prev.number == a.number) &&
    !(provider == .codex && a.email != "") && a.email == safeLabel a.email &&
    a.displayName == safeLabel a.displayName && (Hmux.bytes a.status).length ≤ 64 &&
    usageAccountWindow a.fiveHour && usageAccountWindow a.sevenDay &&
    (a.tokensPerHour.all fun n => n.isFinite && !n.isNegative) &&
    (a.totalTokens.all fun n => 0 ≤ n) && usageTimestamp a.lastRefreshAt &&
    usageTimestamp a.quotaObservedAt && a.planType == normalizePlan a.planType

/-- The names a source may have, by provider and by where the quota comes from. -/
def sourceAllowed (provider : Provider) (name quota : String) : Bool :=
  (name == "cli" && (quota == "oauth_api" || quota == "none")) ||
    (provider == .claude && name == "cswap" && quota == "claude_swap") ||
    (provider == .codex && name == "codex-lb" && quota == "codex_lb")

/-- The checks of one source after those in `before`; `inner` checks its snapshot. -/
def usageSource (inner : UsageSnapshot → Except SnapshotError Unit) (s : UsageSnapshot)
    (provider : Provider) (before : List UsageSource) (source : UsageSource) :
    Except SnapshotError Unit :=
  allOk [checkText source.name 16,
    require (!(before.any fun prior => prior.name == source.name)) .invalid,
    match source.snapshot with
    | none => .error .invalid
    | some nested =>
      match nested.status with
      | none => .error .invalid
      | some status =>
        allOk [require (sourceAllowed provider source.name status.quotaSource &&
            nested.provider == s.provider) .invalid, inner nested]]

/-- `validate_usage_inner`, with the check of a nested snapshot given. -/
def usageChecks (inner : UsageSnapshot → Except SnapshotError Unit) (s : UsageSnapshot)
    (child : Bool) : Except SnapshotError Unit :=
  if child && !s.sources.isEmpty then .error .invalid
  else if 2 < s.sources.length || Usage.maxAccounts < s.accounts.length then .error .limit
  else
    match usageProviderFrom s.provider with
    | .error e => .error e
    | .ok provider =>
      match s.rolling5h, s.weekly, s.status with
      | some rolling, some weekly, some status =>
        allOk (require (usageFields parseTime s rolling weekly status) .invalid ::
          ((s.accounts.zipIdx.map fun p =>
              require (usageAccount provider (s.accounts.take p.2) p.1) .invalid) ++
            s.sources.zipIdx.map fun p =>
              usageSource inner s provider (s.sources.take p.2) p.1))
      | _, _, _ => .error .invalid

/-- `validate_usage_inner` of a child, which has no sources and so no nested snapshot. -/
def validateUsageChild (s : UsageSnapshot) : Except SnapshotError Unit :=
  usageChecks parseTime (fun _ => .ok ()) s true

/-- `validate_usage`. -/
def validateUsage (s : UsageSnapshot) : Except SnapshotError Unit :=
  allOk [usageChecks parseTime (validateUsageChild parseTime) s false,
    require (encodedLen ((UsageSnapshot.part recursionLimit).put s) ≤ maxUsageBytes) .limit]

end

section

variable {parseTime : String → Option DateTime}

/-- **What `validate_usage_inner` decides.** -/
theorem usageChecks_ok {inner : UsageSnapshot → Except SnapshotError Unit} {s : UsageSnapshot}
    {child : Bool} :
    usageChecks parseTime inner s child = .ok () ↔
      (child = true → s.sources = []) ∧ s.sources.length ≤ 2 ∧
      s.accounts.length ≤ Usage.maxAccounts ∧
      ∃ provider rolling weekly status, usageProviderFrom s.provider = .ok provider ∧
        s.rolling5h = some rolling ∧ s.weekly = some weekly ∧ s.status = some status ∧
        usageFields parseTime s rolling weekly status = true ∧
        (∀ p ∈ s.accounts.zipIdx, usageAccount provider (s.accounts.take p.2) p.1 = true) ∧
        ∀ p ∈ s.sources.zipIdx, usageSource inner s provider (s.sources.take p.2) p.1 = .ok () := by
  unfold usageChecks
  constructor
  -- what the checks that were passed say, in the order of the source
  · intro h
    split at h
    · cases h
    · rename_i hchild
      split at h
      · cases h
      · rename_i hsize
        split at h
        · cases h
        · rename_i provider hprovider
          split at h
          · rename_i rolling weekly status hrolling hweekly hstatus
            rw [allOk_ok] at h
            simp only [List.mem_cons, List.mem_append, List.mem_map] at h
            simp only [Bool.or_eq_true, decide_eq_true_eq, not_or, Nat.not_lt] at hsize
            refine ⟨fun hc => ?_, hsize.1, hsize.2, provider, rolling, weekly, status, hprovider,
              hrolling, hweekly, hstatus, require_ok.mp (h _ (.inl rfl)),
              fun p hp => require_ok.mp (h _ (.inr (.inl ⟨p, hp, rfl⟩))),
              fun p hp => h _ (.inr (.inr ⟨p, hp, rfl⟩))⟩
            simpa [hc] using hchild
          · cases h
  · rintro ⟨hchild, hsources, haccounts, provider, rolling, weekly, status, hprovider, hrolling,
      hweekly, hstatus, hfields, hall, hsource⟩
    -- and none of them fails
    have hnot : ¬(child && !s.sources.isEmpty) = true := by
      cases child with
      | false => simp
      | true => simp [hchild rfl]
    have hsize : ¬(decide (2 < s.sources.length) || decide
      (Usage.maxAccounts < s.accounts.length)) = true := by
      simp only [Bool.or_eq_true, decide_eq_true_eq, not_or, Nat.not_lt]
      exact ⟨hsources, haccounts⟩
    rw [if_neg hnot, if_neg hsize, hprovider, hrolling, hweekly, hstatus]
    dsimp only
    rw [allOk_ok]
    intro c hc
    simp only [List.mem_cons, List.mem_append, List.mem_map] at hc
    rcases hc with rfl | ⟨p, hp, rfl⟩ | ⟨p, hp, rfl⟩
    · exact require_ok.mpr hfields
    · exact require_ok.mpr (hall p hp)
    · exact hsource p hp

/-- What the checks of a source decide. -/
theorem usageSource_ok {inner : UsageSnapshot → Except SnapshotError Unit} {s : UsageSnapshot}
    {provider : Provider} {before : List UsageSource} {source : UsageSource} :
    usageSource inner s provider before source = .ok () ↔
      checkText source.name 16 = .ok () ∧ (before.any fun prior => prior.name ==
      source.name) = false ∧
      ∃ nested status, source.snapshot = some nested ∧ nested.status = some status ∧
        (sourceAllowed provider source.name status.quotaSource && nested.provider == s.provider)
          = true ∧ inner nested = .ok () := by
  unfold usageSource
  rw [allOk_ok]
  simp only [List.mem_cons, List.not_mem_nil, or_false, forall_eq_or_imp, forall_eq, require_ok,
    Bool.not_eq_true']
  refine and_congr_right fun _ => and_congr_right fun _ => ?_
  cases source.snapshot with
  | none => simp
  | some nested =>
    cases hstatus : nested.status with
    | none => simp [hstatus]
    | some status => simp [allOk_ok, require_ok, hstatus]

end

end Hmux.Protocol
