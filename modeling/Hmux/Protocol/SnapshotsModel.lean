import Hmux.Model.Catalog
import Hmux.Protocol.Snapshots
import Hmux.Usage.Transport

namespace Hmux.Protocol.Snapshots

open Lib Pb

/-!
# Snapshots between the transports

`snapshots.rs` and `snapshot_json.rs`: the conversions between the messages of the protobuf
transport and the types that the JSON transport carries, with the checks on the way.

* `toSession_fromSession` — a session that is converted there and back;
* `catalogToProto_fromProto` — what a catalog is when it comes back.
-/

/-! ### Catalogs

The types of the two transports are nearly the same, and the conversions go field by field. -/

/-- `to_identity`. -/
def toIdentity (id : SessionIdentity) : Pb.Session := ⟨id.id, id.createdAt⟩

/-- `from_identity`. -/
def fromIdentity (id : Pb.Session) : SessionIdentity := ⟨id.id, id.createdAt⟩

/-- `to_strings`. -/
def toStrings (xs : Option (List String)) : Option CatalogStrings := xs.map CatalogStrings.mk

/-- `from_strings`. -/
def fromStrings (xs : Option CatalogStrings) : Option (List String) := xs.map CatalogStrings.items

/-- `to_summary`. -/
def toSummary (w : Model.WorkflowSummary) : CatalogWorkflowSummary :=
  { running := w.running, waitingApproval := w.waitingApproval, waitingInput := w.waitingInput,
    completed := w.completed, failed := w.failed, interrupted := w.interrupted, stale := w.stale,
    updatedAt := w.updatedAt }

/-- `from_summary`. -/
def fromSummary (w : CatalogWorkflowSummary) : Model.WorkflowSummary :=
  { running := w.running, waitingApproval := w.waitingApproval, waitingInput := w.waitingInput,
    completed := w.completed, failed := w.failed, interrupted := w.interrupted, stale := w.stale,
    updatedAt := w.updatedAt }

/-- `to_node`. -/
def toNode (n : Model.WorkflowNode) : CatalogWorkflowNode :=
  { id := n.id, parentId := n.parentId, nodeType := n.nodeType, provider := n.provider,
    status := n.status, startedAt := n.startedAt, updatedAt := n.updatedAt, endedAt := n.endedAt }

/-- `from_node`. -/
def fromNode (n : CatalogWorkflowNode) : Model.WorkflowNode :=
  { id := n.id, parentId := n.parentId, nodeType := n.nodeType, provider := n.provider,
    status := n.status, startedAt := n.startedAt, updatedAt := n.updatedAt, endedAt := n.endedAt }

/-- `to_workflow`. -/
def toWorkflow (w : Model.Workflow) : CatalogWorkflow :=
  { id := w.id, source := w.source, sessionId := w.sessionId, turnId := w.turnId,
    status := w.status, model := w.model, startedAt := w.startedAt, updatedAt := w.updatedAt,
    endedAt := w.endedAt, nodes := w.nodes.map fun items => ⟨items.map toNode⟩ }

/-- `from_workflow`. -/
def fromWorkflow (w : CatalogWorkflow) : Model.Workflow :=
  { id := w.id, source := w.source, sessionId := w.sessionId, turnId := w.turnId,
    status := w.status, model := w.model, startedAt := w.startedAt, updatedAt := w.updatedAt,
    endedAt := w.endedAt, nodes := w.nodes.map fun xs => xs.items.map fromNode }

/-- `to_session`. -/
def toSession (s : Model.Session) : CatalogSession :=
  { identity := some ⟨s.id, s.createdAt⟩, name := s.name, «alias» := s.alias, hidden := s.hidden,
    restoredFrom := s.restoredFrom.map toIdentity, activityAt := s.activityAt,
    attachedClients := s.attached, windowCount := s.windowCount,
    windowNames := toStrings s.windowNames, activeWindow := s.activeWindow,
    currentPath := s.currentPath, currentCommand := s.currentCommand, profile := s.profile,
    label := s.label, tags := toStrings s.tags, kind := s.kind, runtime := s.runtime,
    model := s.model, state := s.state, process := s.process, workingSince := s.workingSince,
    width := s.width, height := s.height, workflow := s.workflow.map toSummary,
    workflows := s.workflows.map fun items => ⟨items.map toWorkflow⟩ }

/-- `from_session`. -/
def fromSession (s : CatalogSession) : Option Model.Session :=
  s.identity.map fun id =>
    { id := id.id, createdAt := id.createdAt, name := s.name, «alias» := s.alias,
      hidden := s.hidden, restoredFrom := s.restoredFrom.map fromIdentity,
      activityAt := s.activityAt, attached := s.attachedClients, windowCount := s.windowCount,
      windowNames := fromStrings s.windowNames, activeWindow := s.activeWindow,
      currentPath := s.currentPath, currentCommand := s.currentCommand, profile := s.profile,
      label := s.label, tags := fromStrings s.tags, kind := s.kind, runtime := s.runtime,
      model := s.model, state := s.state, process := s.process, workingSince := s.workingSince,
      width := s.width, height := s.height, workflow := s.workflow.map fromSummary,
      workflows := s.workflows.map fun xs => xs.items.map fromWorkflow }

/-- `to_metrics`. -/
def toMetrics (x : Model.HostMetrics) : CatalogHostMetrics :=
  { observedAt := x.observedAt, cpuPercent := x.cpuPercent, gpuPercent := x.gpuPercent,
    memoryUsedBytes := x.memoryUsedBytes, memoryTotalBytes := x.memoryTotalBytes,
    diskUsedBytes := x.diskUsedBytes, diskTotalBytes := x.diskTotalBytes }

/-- `from_metrics`. -/
def fromMetrics (x : CatalogHostMetrics) : Model.HostMetrics :=
  { observedAt := x.observedAt, cpuPercent := x.cpuPercent, gpuPercent := x.gpuPercent,
    memoryUsedBytes := x.memoryUsedBytes, memoryTotalBytes := x.memoryTotalBytes,
    diskUsedBytes := x.diskUsedBytes, diskTotalBytes := x.diskTotalBytes }

/-! #### Checks of the model -/

/-- `identity`. -/
def checkIdentity (id : String) (createdAt : Int64) : Except SnapshotError Unit :=
  if id = "" ∧ createdAt = 0 then .ok ()
  else allOk [require (validateSessionId id) .invalid, require (0 < createdAt) .invalid]

/-- `check_node`. -/
def checkNode (n : Model.WorkflowNode) : Except SnapshotError Unit :=
  allOk ([n.id, n.parentId, n.nodeType, n.provider, n.status].map fun x =>
    checkText x maxCatalogText)

/-- `check_workflow`. -/
def checkWorkflow (w : Model.Workflow) : Except SnapshotError Unit :=
  allOk (([w.id, w.source, w.sessionId, w.turnId, w.status, w.model].map fun x =>
      checkText x maxCatalogText) ++
    match w.nodes with
    | none => []
    | some ns => require (ns.length ≤ maxWorkflowNodes) .limit :: ns.map checkNode)

/-- The texts of a session. -/
def sessionTexts (s : Model.Session) : List String :=
  [s.name, s.alias, s.activeWindow, s.currentPath, s.currentCommand, s.profile, s.label, s.kind,
    s.runtime, s.model, s.state, s.process]

/-- `opt_strings`. -/
def optStrings (xs : Option (List String)) (max : ℕ) : Except SnapshotError Unit :=
  match xs with
  | none => .ok ()
  | some xs => checkStrings xs max

/-- The checks of the workflows of a session. -/
def checkWorkflows (ws : Option (List Model.Workflow)) : Except SnapshotError Unit :=
  match ws with
  | none => .ok ()
  | some ws => allOk (require (ws.length ≤ maxWorkflows) .limit :: ws.map checkWorkflow)

/-- `check_session`. -/
def checkSession (s : Model.Session) : Except SnapshotError Unit :=
  allOk (checkIdentity s.id s.createdAt ::
    ((s.restoredFrom.toList.map fun r => checkIdentity r.id r.createdAt) ++
      ((sessionTexts s).map fun x => checkText x maxCatalogText) ++
      [optStrings s.windowNames maxCatalogWindows, optStrings s.tags maxCatalogTags,
        checkWorkflows s.workflows]))

/-- The types whose size is charged. -/
inductive ModelName
  | value | catalog | hostMetrics | session | sessionIdentity | workflowSummary | workflow
  | workflowNode | string
  deriving DecidableEq

section

variable (rfc3339 : String → Option (DateTime × ℤ)) (M : ModelName → ℕ)

/-- `u::model::parse_time`. -/
def parseTime (s : String) : Option DateTime := (rfc3339 s).map Prod.fst

/-- `check_catalog`. -/
def checkCatalog (c : Model.Catalog) : Except SnapshotError Unit :=
  allOk (checkText c.generatedAt 128 ::
    require (c.generatedAt = "" || (parseTime rfc3339 c.generatedAt).isSome) .invalid ::
    match c.sessions with
    | none => []
    | some ss => require (ss.length ≤ maxCatalogSessions) .limit :: ss.map checkSession)

/-- The charges of a list of texts. -/
def stringCharges (xs : List String) : List ℕ := xs.length * (2 * M .string) :: xs.map textCharge

/-- The charges of a workflow. -/
def workflowCharges (w : Model.Workflow) : List ℕ :=
  ([w.id, w.source, w.sessionId, w.turnId, w.status, w.model].map textCharge) ++
    match w.nodes with
    | none => []
    | some ns => ns.length * (2 * M .workflowNode) ::
        ns.flatMap fun n => [n.id, n.parentId, n.nodeType, n.provider, n.status].map textCharge

/-- The charges of the workflows of a session. -/
def workflowsCharges (ws : Option (List Model.Workflow)) : List ℕ :=
  match ws with
  | none => []
  | some ws => ws.length * (2 * M .workflow) :: ws.flatMap (workflowCharges M)

/-- The charges of a session. -/
def sessionCharges (s : Model.Session) : List ℕ :=
  ((s.id :: sessionTexts s).map textCharge) ++
    (match s.restoredFrom with
      | none => []
      | some x => [2 * M .sessionIdentity, textCharge x.id]) ++
    (s.windowNames.toList.flatMap (stringCharges M)) ++ (s.tags.toList.flatMap (stringCharges M)) ++
    (s.workflow.toList.map fun _ => 2 * M .workflowSummary) ++ workflowsCharges M s.workflows

/-- `budget_model_catalog`. -/
def budgetModelCatalog (c : Model.Catalog) : Except SnapshotError Unit :=
  treeBudget (M .catalog) (textCharge c.generatedAt ::
    ((match c.hostMetrics with
      | none => []
      | some metrics => [2 * M .hostMetrics, textCharge metrics.observedAt]) ++
    match c.sessions with
    | none => []
    | some sessions => sessions.length * (2 * M .session) :: sessions.flatMap (sessionCharges M)))

/-! #### Conversions -/

variable (L : Layout)

/-- The message of a catalog. -/
def toCatalog (c : Model.Catalog) : CatalogSnapshot :=
  { protocolVersion := c.protocolVersion, generatedAt := c.generatedAt,
    sessions := c.sessions.map fun items => ⟨items.map toSession⟩,
    hostMetrics := c.hostMetrics.map toMetrics }

/-- `catalog_to_proto`. -/
def catalogToProto (c : Model.Catalog) : Except SnapshotError CatalogSnapshot :=
  let c := { c with hostMetrics := c.hostMetrics.map (Model.HostMetrics.normalized rfc3339) }
  match allOk [checkCatalog rfc3339 c, budgetModelCatalog M c,
      validateCatalog (parseTime rfc3339) L (toCatalog c)] with
  | .error e => .error e
  | .ok _ => .ok (toCatalog c)

/-- The catalog of a message. -/
def fromCatalog (c : CatalogSnapshot) : Option Model.Catalog :=
  ((c.sessions.map CatalogSessions.items).elim (some none) fun items =>
      (items.mapM fromSession).map some).map fun sessions =>
    { protocolVersion := c.protocolVersion,
      generatedAt := if c.generatedAt = "" then Model.goZeroTime else c.generatedAt, sessions,
      hostMetrics := (c.hostMetrics.map fromMetrics).map (Model.HostMetrics.normalized rfc3339) }

/-- `catalog_from_proto`. -/
def catalogFromProto (c : CatalogSnapshot) : Except SnapshotError Model.Catalog :=
  match validateCatalog (parseTime rfc3339) L c with
  | .error e => .error e
  | .ok _ =>
    match fromCatalog rfc3339 c with
    | none => .error .invalid
    | some out =>
      match allOk [checkCatalog rfc3339 out, budgetModelCatalog M out] with
      | .error e => .error e
      | .ok _ => .ok out

end

/-! #### There and back -/

/-- A session as it comes back: empty tags and workflows are gone. -/
def arrivedSession (s : CatalogSession) : CatalogSession :=
  { s with tags := s.tags.filter fun xs => !xs.items.isEmpty
           workflows := s.workflows.filter fun xs => !xs.items.isEmpty }

/-- A catalog as it comes back: also, an empty time is the zero time and metrics that are not
    valid are the default. -/
def arrivedCatalog (rfc3339 : String → Option (DateTime × ℤ)) (c : CatalogSnapshot) :
    CatalogSnapshot :=
  { c with
    generatedAt := if c.generatedAt = "" then Model.goZeroTime else c.generatedAt
    sessions := c.sessions.map fun xs => ⟨xs.items.map arrivedSession⟩
    hostMetrics := c.hostMetrics.map fun x =>
      toMetrics ((fromMetrics x).normalized rfc3339) }

theorem map_toNode_fromNode (items : List CatalogWorkflowNode) :
    (items.map fromNode).map toNode = items := by
  rw [List.map_map]
  exact List.map_id items

theorem toWorkflow_fromWorkflow (w : CatalogWorkflow) : toWorkflow (fromWorkflow w) = w := by
  have hnodes : ((w.nodes.map fun xs => xs.items.map fromNode).map
      fun items => (⟨items.map toNode⟩ : CatalogWorkflowNodes)) = w.nodes := by
    cases w.nodes with
    | none => rfl
    | some xs => rw [Option.map_some, Option.map_some, map_toNode_fromNode]
  unfold toWorkflow fromWorkflow
  dsimp only
  rw [hnodes]

theorem toStrings_omitEmpty (x : Option CatalogStrings) :
    toStrings (Model.omitEmptyItems (fromStrings x)) = x.filter fun xs => !xs.items.isEmpty := by
  cases x with
  | none => rfl
  | some xs =>
    obtain ⟨items⟩ := xs
    cases items with
    | nil => rfl
    | cons item items => rfl

theorem toWorkflows_omitEmpty (x : Option CatalogWorkflows) :
    (Model.omitEmptyItems (x.map fun xs => xs.items.map fromWorkflow)).map
      (fun items => (⟨items.map toWorkflow⟩ : CatalogWorkflows))
      = x.filter fun xs => !xs.items.isEmpty := by
  cases x with
  | none => rfl
  | some xs =>
    obtain ⟨items⟩ := xs
    cases items with
    | nil => rfl
    | cons item items =>
      have hmap : ((item :: items).map fromWorkflow).map toWorkflow = item :: items := by
        rw [List.map_map]
        exact (List.map_congr_left fun w _ => toWorkflow_fromWorkflow w).trans (List.map_id _)
      show some (⟨((item :: items).map fromWorkflow).map toWorkflow⟩ : CatalogWorkflows) = _
      rw [hmap]
      rfl

/-- A session there and back. -/
theorem toSession_fromSession {s : CatalogSession} {m : Model.Session}
    (h : fromSession s = some m) : toSession m.tidy = arrivedSession s := by
  unfold fromSession at h
  cases hid : s.identity with
  | none => rw [hid] at h; cases h
  | some id =>
    rw [hid] at h
    cases h
    have hrestored : (s.restoredFrom.map fromIdentity).map toIdentity = s.restoredFrom := by
      cases s.restoredFrom <;> rfl
    have hnames : toStrings (fromStrings s.windowNames) = s.windowNames := by
      cases s.windowNames <;> rfl
    have hworkflow : (s.workflow.map fromSummary).map toSummary = s.workflow := by
      cases s.workflow <;> rfl
    have htags := toStrings_omitEmpty s.tags
    have hworkflows := toWorkflows_omitEmpty s.workflows
    unfold toSession arrivedSession Model.Session.tidy
    dsimp only
    rw [hrestored, hnames, hworkflow, htags, hworkflows, ← hid]

theorem mapM_some {α β : Type} {f : α → Option β} {l : List α} {m : List β}
    (h : l.mapM f = some m) : List.Forall₂ (fun a b => f a = some b) l m := by
  induction l generalizing m with
  | nil =>
    cases h
    exact List.Forall₂.nil
  | cons a l ih =>
    rw [List.mapM_cons] at h
    cases hf : f a with
    | none => rw [hf] at h; cases h
    | some b =>
      cases hm : l.mapM f with
      | none => rw [hf, hm] at h; cases h
      | some m' =>
        rw [hf, hm] at h
        cases h
        exact List.Forall₂.cons hf (ih hm)

theorem map_toSession {l : List CatalogSession} {m : List Model.Session}
    (h : List.Forall₂ (fun a b => fromSession a = some b) l m) :
    (m.map Model.Session.tidy).map toSession = l.map arrivedSession := by
  induction h with
  | nil => rfl
  | cons hab _ ih =>
    rw [List.map_cons, List.map_cons, List.map_cons, toSession_fromSession hab, ih]

/-- The catalog of a message, sent back, is the message as it comes back. -/
theorem toCatalog_fromCatalog {rfc3339 : String → Option (DateTime × ℤ)} {c : CatalogSnapshot}
    {out : Model.Catalog} (h : fromCatalog rfc3339 c = some out) :
    toCatalog out.tidy = arrivedCatalog rfc3339 c := by
  obtain ⟨version, generated, sessions, metrics⟩ := c
  have hmetrics : ((metrics.map fromMetrics).map (Model.HostMetrics.normalized rfc3339)).map
      toMetrics = metrics.map fun x => toMetrics ((fromMetrics x).normalized rfc3339) := by
    cases metrics <;> rfl
  unfold fromCatalog at h
  cases sessions with
  | none =>
    cases h
    unfold toCatalog arrivedCatalog Model.Catalog.tidy
    dsimp only
    rw [hmetrics]
    rfl
  | some xs =>
    obtain ⟨items⟩ := xs
    cases hm : items.mapM fromSession with
    | none =>
      dsimp only [Option.map_some, Option.elim_some] at h
      rw [hm] at h
      cases h
    | some m =>
      dsimp only [Option.map_some, Option.elim_some] at h
      rw [hm] at h
      cases h
      have hsessions := map_toSession (mapM_some hm)
      unfold toCatalog arrivedCatalog Model.Catalog.tidy
      dsimp only [Option.map_some]
      rw [hmetrics, hsessions]

/-! #### Checks on the way back -/

/-- The budget is a bound of the sum. -/
theorem treeBudget_ok {used : ℕ} {charges : List ℕ} :
    treeBudget used charges = .ok () ↔
      charges = [] ∨ used + charges.sum ≤ maxDecodedSnapshotBytes := by
  induction charges generalizing used with
  | nil => simp [treeBudget]
  | cons n charges ih =>
    rw [treeBudget, List.sum_cons]
    split
    · simp only [reduceCtorEq, List.cons_ne_nil, false_or, false_iff]
      omega
    · rw [ih]
      simp only [List.cons_ne_nil, false_or]
      constructor
      · rintro (rfl | h)
        · rw [List.sum_nil]
          omega
        · omega
      · intro h
        exact .inr (by omega)

theorem optStrings_omitEmpty {xs : Option (List String)} {max : ℕ}
    (h : optStrings xs max = .ok ()) : optStrings (Model.omitEmptyItems xs) max = .ok () := by
  unfold Model.omitEmptyItems
  split
  · rfl
  · exact h

theorem checkWorkflows_omitEmpty {ws : Option (List Model.Workflow)}
    (h : checkWorkflows ws = .ok ()) : checkWorkflows (Model.omitEmptyItems ws) = .ok () := by
  unfold Model.omitEmptyItems
  split
  · rfl
  · exact h

/-- A session keeps passing its checks. -/
theorem checkSession_tidy {s : Model.Session} (h : checkSession s = .ok ()) :
    checkSession s.tidy = .ok () := by
  unfold checkSession at h ⊢
  rw [allOk_ok] at h ⊢
  simp only [List.mem_cons, List.mem_append, List.not_mem_nil, or_false] at h ⊢
  rintro c (rfl | (hc | hc) | rfl | rfl | rfl)
  · exact h _ (.inl rfl)
  · exact h _ (.inr (.inl (.inl hc)))
  · exact h _ (.inr (.inl (.inr hc)))
  · exact h _ (.inr (.inr (.inl rfl)))
  · exact optStrings_omitEmpty (h _ (.inr (.inr (.inr (.inl rfl)))))
  · exact checkWorkflows_omitEmpty (h _ (.inr (.inr (.inr (.inr rfl)))))

section

variable {rfc3339 : String → Option (DateTime × ℤ)} {M : ModelName → ℕ}

theorem checkCatalog_tidy {c : Model.Catalog} (h : checkCatalog rfc3339 c = .ok ()) :
    checkCatalog rfc3339 c.tidy = .ok () := by
  obtain ⟨version, generated, sessions, metrics⟩ := c
  unfold checkCatalog Model.Catalog.tidy at *
  rw [allOk_ok] at h ⊢
  cases sessions with
  | none => exact h
  | some ss =>
    dsimp only [Option.map_some] at h ⊢
    simp only [List.mem_cons, List.mem_map, List.length_map] at h ⊢
    rintro c (rfl | rfl | rfl | ⟨-, ⟨s, hs, rfl⟩, rfl⟩)
    · exact h _ (.inl rfl)
    · exact h _ (.inr (.inl rfl))
    · exact h _ (.inr (.inr (.inl rfl)))
    · exact checkSession_tidy (h _ (.inr (.inr (.inr ⟨s, hs, rfl⟩))))

/-- What is left out was not charged. -/
theorem sum_sessionCharges_tidy (s : Model.Session) :
    (sessionCharges M s.tidy).sum = (sessionCharges M s).sum := by
  have htags : ((Model.omitEmptyItems s.tags).toList.flatMap (stringCharges M)).sum
      = (s.tags.toList.flatMap (stringCharges M)).sum := by
    rcases s.tags with _ | (_ | ⟨x, xs⟩)
    · rfl
    · simp [Model.omitEmptyItems, Model.optionVecIsEmpty, stringCharges]
    · rfl
  have hworkflows : (workflowsCharges M (Model.omitEmptyItems s.workflows)).sum
      = (workflowsCharges M s.workflows).sum := by
    rcases s.workflows with _ | (_ | ⟨x, xs⟩)
    · rfl
    · simp [Model.omitEmptyItems, Model.optionVecIsEmpty, workflowsCharges]
    · rfl
  unfold sessionCharges Model.Session.tidy
  simp only [List.sum_append, htags, hworkflows]
  rfl

theorem sum_charges_tidy (ss : List Model.Session) :
    ((ss.map Model.Session.tidy).flatMap (sessionCharges M)).sum
      = (ss.flatMap (sessionCharges M)).sum := by
  induction ss with
  | nil => rfl
  | cons s ss ih =>
    rw [List.map_cons, List.flatMap_cons, List.flatMap_cons, List.sum_append, List.sum_append, ih,
      sum_sessionCharges_tidy]

theorem budgetModelCatalog_tidy {c : Model.Catalog} (h : budgetModelCatalog M c = .ok ()) :
    budgetModelCatalog M c.tidy = .ok () := by
  obtain ⟨version, generated, sessions, metrics⟩ := c
  unfold budgetModelCatalog Model.Catalog.tidy at *
  rw [treeBudget_ok] at h ⊢
  cases sessions with
  | none => exact h
  | some ss =>
    dsimp only [Option.map_some] at h ⊢
    simp only [List.cons_ne_nil, false_or, List.sum_cons, List.sum_append, List.length_map,
      sum_charges_tidy] at h ⊢
    exact h

theorem normalized_idem (m : Model.HostMetrics) :
    (m.normalized rfc3339).normalized rfc3339 = m.normalized rfc3339 := by
  by_cases h : m.validate rfc3339 = true
  · have hm : m.normalized rfc3339 = m := if_pos h
    rw [hm, hm]
  · have hm : m.normalized rfc3339 = Model.HostMetrics.default := if_neg h
    rw [hm, Model.HostMetrics.normalized_default]

variable {L : Layout}

/-- What `catalog_from_proto` returns. -/
theorem catalogFromProto_ok {c : CatalogSnapshot} {out : Model.Catalog}
    (h : catalogFromProto rfc3339 M L c = .ok out) :
    fromCatalog rfc3339 c = some out ∧ checkCatalog rfc3339 out = .ok () ∧
      budgetModelCatalog M out = .ok () := by
  unfold catalogFromProto at h
  split at h
  · cases h
  · split at h
    · cases h
    · rename_i m hm
      split at h
      · cases h
      · rename_i hall
        cases h
        have hchecks := allOk_ok.mp hall
        exact ⟨hm, hchecks _ (by simp), hchecks _ (by simp)⟩

/-- The metrics were replaced already. -/
theorem fromCatalog_metrics {c : CatalogSnapshot} {out : Model.Catalog}
    (h : fromCatalog rfc3339 c = some out) :
    out.hostMetrics = out.hostMetrics.map (Model.HostMetrics.normalized rfc3339) := by
  unfold fromCatalog at h
  obtain ⟨sessions, -, rfl⟩ := Option.map_eq_some_iff.mp h
  dsimp only
  cases c.hostMetrics with
  | none => rfl
  | some x => rw [Option.map_some, Option.map_some, Option.map_some, normalized_idem]

/-- **A catalog there and back** is the catalog as it arrives, unless that is too large. -/
theorem catalogToProto_fromProto {L' : Layout} {c : CatalogSnapshot} {out : Model.Catalog}
    (h : catalogFromProto rfc3339 M L c = .ok out) :
    catalogToProto rfc3339 M L' out.tidy
      = match validateCatalog (parseTime rfc3339) L' (arrivedCatalog rfc3339 c) with
        | .error e => .error e
        | .ok _ => .ok (arrivedCatalog rfc3339 c) := by
  obtain ⟨hfrom, hcheck, hbudget⟩ := catalogFromProto_ok h
  have hmetrics := fromCatalog_metrics hfrom
  have hsame : ({ out.tidy with
      hostMetrics := out.tidy.hostMetrics.map (Model.HostMetrics.normalized rfc3339) } :
      Model.Catalog) = out.tidy := by
    show ({ out.tidy with hostMetrics := out.hostMetrics.map _ } : Model.Catalog) = _
    rw [← hmetrics]
    rfl
  unfold catalogToProto
  dsimp only
  rw [hsame, toCatalog_fromCatalog hfrom, checkCatalog_tidy hcheck, budgetModelCatalog_tidy hbudget]
  dsimp only [allOk]
  cases validateCatalog (parseTime rfc3339) L' (arrivedCatalog rfc3339 c) with
  | error e => rfl
  | ok u => rfl

end

end Hmux.Protocol.Snapshots
