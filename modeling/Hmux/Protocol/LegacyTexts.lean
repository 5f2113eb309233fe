import Hmux.Lib.Json.Free
import Hmux.Protocol.Legacy

namespace Hmux.Protocol

open Lib Pb Json

/-!
# The texts of a body

The texts that Home puts into the body of a frame, and what they decide: the payload of the frame
is free exactly when none of the texts has a special character.

* `bodyTexts` — the texts of a body that goes to the gateway;
* `profiles_free`, `catalog_free`, `usage_free` and their like — the payload of a response, a
  catalog and a usage snapshot.
-/

/-- None of the texts has a special character. -/
def AllFree (l : List String) : Prop := ∀ s ∈ l, htmlFree s = true

instance (l : List String) : Decidable (AllFree l) := List.decidableBAll _ l

/-- Some texts are free. -/
@[simp] theorem forall_htmlFree {l : List String} : (∀ s ∈ l, htmlFree s = true) ↔ AllFree l :=
  Iff.rfl

@[simp] theorem allFree_nil : AllFree [] ↔ True := by simp [AllFree]

@[simp] theorem allFree_cons {s : String} {l : List String} :
    AllFree (s :: l) ↔ htmlFree s = true ∧ AllFree l := List.forall_mem_cons

@[simp] theorem allFree_append {l m : List String} : AllFree (l ++ m) ↔ AllFree l ∧ AllFree m :=
  List.forall_mem_append

/-- The texts of all parts are free when those of every part are. -/
@[simp] theorem allFree_flatMap {α : Type} {l : List α} {f : α → List String} :
    AllFree (l.flatMap f) ↔ ∀ a ∈ l, AllFree (f a) := by
  unfold AllFree
  simp only [List.mem_flatMap, forall_exists_index, and_imp]
  exact ⟨fun h a ha s => h s a ha, fun h s a ha => h a ha s⟩

@[simp] theorem allFree_map {α : Type} {l : List α} {f : α → String} :
    AllFree (l.map f) ↔ ∀ a ∈ l, htmlFree (f a) = true := by
  unfold AllFree
  simp

/-- A text that may be missing. -/
@[simp] theorem allFree_toList {x : Option String} :
    AllFree x.toList ↔ ∀ s ∈ x, htmlFree s = true := by
  unfold AllFree
  simp

/-- Their order does not matter. -/
theorem AllFree.perm {l m : List String} (h : l.Perm m) : AllFree l ↔ AllFree m :=
  ⟨fun hl s hs => hl s (h.mem_iff.mpr hs), fun hm s hs => hm s (h.mem_iff.mp hs)⟩

/-! ### The texts

Each kind of body with the texts that Home puts into it; texts of a fixed set, such as the names of
states that the code writes itself, are not among them. -/

/-- The texts of a result. -/
def resultTexts : ResponseResult → List String
  | .profiles x => x.items.flatMap fun v => [v.id, v.label]
  | .created x => [x.id]
  | .ok _ => []
  | .conversation x =>
    [x.provider, x.sessionId, x.status] ++
      x.messages.toList.flatMap fun v => v.items.flatMap fun m => [m.id, m.role, m.text]
  | .workspace x =>
    x.conflict :: (x.applied ++ x.tabs.map Pb.Session.id ++ x.selected.toList.map Pb.Session.id)
  | .providers x =>
    (x.providers.toList.flatMap fun v =>
      v.items.flatMap fun p => [p.id, p.label, p.auth, p.version, p.keyHint, p.profileId]) ++
    (x.job.toList.flatMap fun j => j.state :: j.url :: j.code :: j.log) ++ x.error.toList
  | .staged x =>
    [x.requestId, x.stageId] ++ x.session.toList.map Pb.Session.id ++
      x.files.flatMap fun f => [f.path, f.sha256]

/-- The texts of a response. -/
def responseTexts (v : Response) : List String :=
  v.id :: v.error :: v.result.toList.flatMap resultTexts

/-- The texts of a workflow. -/
def workflowTexts (w : CatalogWorkflow) : List String :=
  [w.id, w.source, w.sessionId, w.turnId, w.status, w.model] ++
    w.nodes.toList.flatMap fun v =>
      v.items.flatMap fun n => [n.id, n.parentId, n.nodeType, n.provider, n.status]

/-- The texts of a session of the catalog. -/
def catalogSessionTexts (s : CatalogSession) : List String :=
  s.identity.toList.map Pb.Session.id ++ [s.name, s.«alias»] ++
    s.restoredFrom.toList.map Pb.Session.id ++
    s.windowNames.toList.flatMap CatalogStrings.items ++
    [s.activeWindow, s.currentPath, s.currentCommand, s.profile, s.label] ++
    s.tags.toList.flatMap CatalogStrings.items ++
    [s.kind, s.runtime, s.model, s.state, s.process] ++
    s.workflows.toList.flatMap fun v => v.items.flatMap workflowTexts

/-- The texts of a usage snapshot, without its sources. -/
def ownTexts (s : UsageSnapshot) : List String :=
  [s.generatedAtUtc, s.planType, s.burnState] ++
    (s.rolling5h.toList.flatMap fun w => w.resetsAt.toList) ++
    (s.weekly.toList.flatMap fun w => w.resetsAt.toList) ++
    (s.status.toList.flatMap fun v =>
      [v.quotaWeighting, v.state, v.dataSource, v.quotaSource] ++ v.quotaObservedAt.toList ++
        v.retryAt.toList) ++
    (s.accounts.flatMap fun a =>
      [a.email, a.displayName, a.status] ++
        (a.fiveHour.toList.flatMap fun w => w.resetsAt.toList) ++
        (a.sevenDay.toList.flatMap fun w => w.resetsAt.toList) ++
        a.lastRefreshAt.toList ++ a.quotaObservedAt.toList ++ [a.planType]) ++
    s.accountsUpdatedAt.toList

/-- The texts of a usage snapshot; a source has no sources. -/
def usageTexts (s : UsageSnapshot) : List String :=
  ownTexts s ++ s.sources.flatMap fun x => x.name :: x.snapshot.toList.flatMap ownTexts

section

variable (rfc3339 : String → Option (DateTime × ℤ))

/-- The texts of a catalog; metrics that are not valid are replaced by the default. -/
def catalogTexts (c : CatalogSnapshot) : List String :=
  c.generatedAt :: ((c.sessions.toList.flatMap fun v => v.items.flatMap catalogSessionTexts) ++
    c.hostMetrics.toList.map fun x =>
      ((Snapshots.fromMetrics x).normalized rfc3339).observedAt)

/-- The texts of a body that goes to the gateway. -/
def bodyTexts : EnvelopeBody → List String
  | .hello v => v.capabilities
  | .response v | .terminalExit v | .refreshResult v | .uploadComplete v | .uploadError v =>
    responseTexts v
  | .terminalOutput v => [v.id]
  | .catalog v => catalogTexts rfc3339 v
  | .usage v => usageTexts v
  | .taskComplete v => v.id :: v.completedAt :: v.session.toList.map Pb.Session.id
  | .uploadReady v => [v.id]
  | .uploadAck v => [v.id]
  | _ => []

end

/-! ### Results

Every result has a codec, and its simp set takes it apart into the texts. -/

/-- An identity has one text. -/
@[simp] theorem identity_free {v : SessionIdentity} :
    Model.identityCodec.Free v ↔ htmlFree v.id = true := by
  unfold Model.identityCodec
  rw [Codec.objectOrNull_free rfl]
  simp [Model.identityFields]

/-- A message has three texts. -/
@[simp] theorem message_free {m : Model.ConversationMessage} :
    Model.ConversationMessage.codec.Free m ↔
    htmlFree m.id = true ∧ htmlFree m.role = true ∧ htmlFree m.text = true := by
  unfold Model.ConversationMessage.codec
  rw [Codec.objectOrNull_free rfl]
  simp [Model.ConversationMessage.fields]

/-- The JSON of a conversation is free when its texts are. -/
theorem conversation_free (x : ConversationResult) :
    Model.Conversation.codec.Free (conversationFromProto x) ↔
      AllFree (resultTexts (.conversation x)) := by
  unfold Model.Conversation.codec
  rw [Codec.objectOrNull_free rfl]
  simp [Model.Conversation.fields, conversationFromProto, resultTexts]

/-- A profile has two texts. -/
@[simp] theorem profile_free {v : Profile} :
    profileCodec.Free v ↔ htmlFree v.id = true ∧ htmlFree v.label = true := by
  unfold profileCodec
  rw [Codec.object_free rfl]
  simp

/-- The JSON of the profiles is free when their texts are. -/
theorem profiles_free (x : ProfilesResult) :
    profileCodec.list.Free x.items ↔ AllFree (resultTexts (.profiles x)) := by
  simp [resultTexts]

/-- The JSON of a new session is free when its texts are. -/
theorem created_free (x : CreatedResult) :
    createdCodec.Free x ↔ AllFree (resultTexts (.created x)) := by
  unfold createdCodec
  rw [Codec.object_free rfl]
  simp [resultTexts]

/-- The JSON of a workspace is free when its texts are. -/
theorem workspace_free {x : WorkspaceSnapshot} {v : Workspace.Snapshot}
    (h : workspaceFromProto x = .ok v) :
    snapshotCodec.Free v ↔ AllFree (resultTexts (.workspace x)) := by
  unfold workspaceFromProto at h
  dsimp only at h
  split at h
  · cases h
    have hconflict : (Fields.skipped "conflict" (.nullDefault .string "") "" (· == "")).Free
        x.conflict ↔ htmlFree x.conflict = true := by
      rw [Fields.skipped_free_of, Codec.nullDefault_free, Codec.string_free]
      intro hs
      rw [beq_iff_eq.mp hs, Codec.nullDefault_free, Codec.string_free, htmlFree_empty]
    have happlied : (Fields.skipped "applied" (.nullDefault Codec.string.list []) []
        List.isEmpty).Free x.applied ↔ AllFree x.applied := by
      rw [Fields.skipped_free_of, Codec.nullDefault_free, Codec.list_free]
      · simp only [Codec.string_free]
        rfl
      · intro hs
        rw [List.isEmpty_iff.mp hs, Codec.nullDefault_free, Codec.list_free]
        intro a ha
        cases ha
    unfold snapshotCodec
    rw [Codec.objectOrNull_free rfl]
    simp [snapshotFields, resultTexts, fromSession, hconflict, happlied]
  · cases h

/-- The status of a provider has six texts. -/
@[simp] theorem providerStatus_free {v : ProviderStatus} : providerStatusCodec.Free v ↔
    htmlFree v.id = true ∧ htmlFree v.label = true ∧ htmlFree v.auth = true ∧
      htmlFree v.version = true ∧ htmlFree v.keyHint = true ∧ htmlFree v.profileId = true := by
  unfold providerStatusCodec
  rw [Codec.object_free rfl]
  simp

/-- A job has three texts and those of its log. -/
@[simp] theorem job_free {v : ProviderJobStatus} : jobCodec.Free v ↔
    htmlFree v.state = true ∧ htmlFree v.url = true ∧ htmlFree v.code = true ∧ AllFree v.log := by
  unfold jobCodec
  rw [Codec.object_free rfl]
  simp

/-- The JSON of the providers is free when their texts are. -/
theorem providers_free (x : ProviderResult) :
    providerCodec.Free x ↔ AllFree (resultTexts (.providers x)) := by
  unfold providerCodec
  rw [Codec.object_free rfl]
  simp [resultTexts]

/-- A file of a stage has two texts. -/
@[simp] theorem stageFile_free {v : StageFile} :
    stageFileCodec.Free v ↔ htmlFree v.path = true ∧ htmlFree v.sha256 = true := by
  unfold stageFileCodec
  rw [Codec.object_free rfl]
  simp

/-- The JSON of a stage is free when its texts are. -/
theorem stage_free {x : StageResult} {v : Stage} (h : stageToJson x = .ok v) :
    stageCodec.Free v ↔ AllFree (resultTexts (.staged x)) := by
  unfold stageToJson at h
  cases hsession : x.session with
  | none =>
    rw [hsession] at h
    cases h
  | some session =>
    rw [hsession] at h
    cases h
    unfold stageCodec
    rw [Codec.object_free rfl]
    simp [resultTexts, hsession, fromSession]

/-! ### Catalogs

What is not written does not count: empty lists are left out and metrics that are not valid are
replaced. -/

/-- A node has five texts. -/
@[simp] theorem node_free {n : Model.WorkflowNode} : Model.WorkflowNode.codec.Free n ↔
    htmlFree n.id = true ∧ htmlFree n.parentId = true ∧ htmlFree n.nodeType = true ∧
      htmlFree n.provider = true ∧ htmlFree n.status = true := by
  unfold Model.WorkflowNode.codec
  rw [Codec.objectOrNull_free rfl]
  simp [Model.WorkflowNode.fields]

/-- A summary has numbers only. -/
@[simp] theorem summary_free {w : Model.WorkflowSummary} :
    Model.WorkflowSummary.codec.Free w ↔ True := by
  unfold Model.WorkflowSummary.codec
  rw [Codec.objectOrNull_free rfl]
  simp [Model.WorkflowSummary.fields]

/-- The JSON of a workflow is free when its texts are. -/
@[simp] theorem workflow_free {w : CatalogWorkflow} :
    Model.Workflow.codec.Free (Snapshots.fromWorkflow w) ↔ AllFree (workflowTexts w) := by
  unfold Model.Workflow.codec
  rw [Codec.objectOrNull_free rfl]
  simp [Model.Workflow.fields, Snapshots.fromWorkflow, Snapshots.fromNode, workflowTexts]

/-- A list that is left out when it has no items. -/
theorem omitNoItems_free {α : Type} {key : String} {c : Codec α} {x : Option (List α)} :
    (Model.omitNoItems key c).Free x ↔ ∀ l ∈ x, ∀ a ∈ l, c.Free a := by
  rw [Model.omitNoItems, Fields.skipped_free_of, Codec.option_free]
  · simp only [Codec.list_free]
  · intro hskip
    rw [Codec.option_free]
    intro l hl
    rw [Option.mem_def.mp hl] at hskip
    rw [Codec.list_free, List.isEmpty_iff.mp hskip]
    intro a ha
    cases ha

/-- The JSON of a session is free when its texts are. -/
theorem catalogSession_free {s : CatalogSession} {m : Model.Session}
    (h : Snapshots.fromSession s = some m) :
    Model.Session.codec.Free m ↔ AllFree (catalogSessionTexts s) := by
  unfold Snapshots.fromSession at h
  obtain ⟨identity, hidentity, rfl⟩ := Option.map_eq_some_iff.mp h
  unfold Model.Session.codec
  rw [Codec.objectOrNull_free rfl]
  simp [Model.Session.fields, omitNoItems_free, catalogSessionTexts, hidentity,
    Snapshots.fromIdentity, Snapshots.fromStrings]

/-- The JSON of some sessions is free when the texts of each are. -/
theorem catalogSessions_free {l : List CatalogSession} {items : List Model.Session}
    (h : List.Forall₂ (fun s m => Snapshots.fromSession s = some m) l items) :
    (∀ m ∈ items, Model.Session.codec.Free m) ↔ ∀ s ∈ l, AllFree (catalogSessionTexts s) := by
  induction h with
  | nil =>
    exact iff_of_true (fun m hm => absurd hm List.not_mem_nil)
      (fun s hs => absurd hs List.not_mem_nil)
  | cons hs _ ih => rw [List.forall_mem_cons, List.forall_mem_cons, ih, catalogSession_free hs]

@[simp] theorem f64_free {ofInt : ℤ → UInt64} {x : F64} : (F64.codec ofInt).Free x ↔ True := by
  unfold F64.codec
  rw [Codec.map_free, Codec.double_free]

/-- The metrics have one text, the time of the observation. -/
theorem metrics_free {rfc3339 : String → Option (DateTime × ℤ)} {ofInt : ℤ → UInt64}
    {m : Model.HostMetrics} :
    (Model.HostMetrics.codec rfc3339 ofInt).Free m ↔ htmlFree m.observedAt = true := by
  have htime : ∀ s, (Model.goTime rfc3339).Free s ↔ htmlFree s = true := fun s => Codec.string_free
  unfold Model.HostMetrics.codec
  rw [Codec.objectOrNull_free rfl]
  simp [Model.HostMetrics.fields, htime]

/-- **The payload of a catalog.** -/
theorem catalog_free {rfc3339 : String → Option (DateTime × ℤ)} {ofInt : ℤ → UInt64}
    {c : CatalogSnapshot} {out : Model.Catalog} (h : Snapshots.fromCatalog rfc3339 c = some out) :
    (Model.Catalog.codec rfc3339 ofInt).Free out ↔ AllFree (catalogTexts rfc3339 c) := by
  have htime : ∀ s, (Model.goTime rfc3339).Free s ↔ htmlFree s = true := fun s => Codec.string_free
  have hzero : htmlFree Model.goZeroTime = true := by decide
  have hgenerated :
    htmlFree (if c.generatedAt = "" then Model.goZeroTime else c.generatedAt) = true ↔
      htmlFree c.generatedAt = true := by
    split
    · next hempty => simp [hempty, hzero]
    · rfl
  have hmetrics : ∀ x : Option Model.HostMetrics, (Fields.skipped "host_metrics"
      (Model.optionalMetrics rfc3339 ofInt) none Option.isNone).Free x ↔
        ∀ m ∈ x, htmlFree m.observedAt = true := by
    intro x
    rw [Fields.skipped_free]
    cases x with
    | none => simp
    | some m =>
      have hsome : (Model.optionalMetrics rfc3339 ofInt).Free (some m) ↔ _ := metrics_free
      simp [hsome]
  unfold Snapshots.fromCatalog at h
  obtain ⟨sessions, hsessions, rfl⟩ := Option.map_eq_some_iff.mp h
  unfold Model.Catalog.codec
  rw [Codec.objectOrNull_free rfl]
  cases hc : c.sessions with
  | none =>
    rw [hc] at hsessions
    cases hsessions
    simp [Model.Catalog.fields, htime, hmetrics, hgenerated, catalogTexts, hc]
  | some v =>
    rw [hc] at hsessions
    obtain ⟨items, hitems, rfl⟩ := Option.map_eq_some_iff.mp hsessions
    have hall := catalogSessions_free (Snapshots.mapM_some hitems)
    simp [Model.Catalog.fields, htime, hmetrics, hgenerated, catalogTexts, hc, hall]

/-! ### Usage

A snapshot may have sources, whose texts count as well. -/

section

variable {ofInt : ℤ → UInt64}

@[simp] theorem provider_free {p : Usage.Provider} : Usage.Provider.codec.Free p ↔ True := by
  have hnames : htmlFree "claude" = true ∧ htmlFree "codex" = true := by decide
  cases p with
  | claude =>
    show Codec.string.Free "claude" ↔ True
    rw [Codec.string_free]
    exact iff_of_true hnames.1 trivial
  | codex =>
    show Codec.string.Free "codex" ↔ True
    rw [Codec.string_free]
    exact iff_of_true hnames.2 trivial

/-- A window has one text at most. -/
@[simp] theorem window_free {w : Usage.Window} :
    (Usage.Window.codec ofInt).Free w ↔ AllFree w.resetsAt.toList := by
  unfold Usage.Window.codec
  rw [Codec.object_free rfl]
  simp [Usage.Window.fields]

/-- The window of an account has one text at most. -/
@[simp] theorem accountWindow_free {w : Usage.AccountWindow} :
    (Usage.AccountWindow.codec ofInt).Free w ↔ AllFree w.resetsAt.toList := by
  unfold Usage.AccountWindow.codec
  rw [Codec.object_free rfl]
  simp [Usage.AccountWindow.fields]

/-- A status has four texts and two that may be missing. -/
@[simp] theorem status_free {v : Usage.Status} : Usage.Status.codec.Free v ↔
    AllFree ([v.quotaWeighting, v.state, v.dataSource, v.quotaSource] ++ v.quotaObservedAt.toList ++
      v.retryAt.toList) := by
  unfold Usage.Status.codec
  rw [Codec.object_free rfl]
  simp [Usage.Status.fields]

/-- An account has the texts of its windows and its own. -/
@[simp] theorem account_free {a : Usage.Account} : (Usage.Account.codec ofInt).Free a ↔
    AllFree ([a.email, a.displayName, a.status] ++
      (a.fiveHour.toList.flatMap fun w => w.resetsAt.toList) ++
      (a.sevenDay.toList.flatMap fun w => w.resetsAt.toList) ++
      a.lastRefreshAt.toList ++ a.quotaObservedAt.toList ++ [a.planType]) := by
  unfold Usage.Account.codec
  rw [Codec.object_free rfl]
  simp [Usage.Account.fields]

/-- A snapshot with its sources as given. -/
theorem wire_free {s : Usage.Snapshot} {sources : List (String × Json)} :
    (Usage.WireSnapshot.codec ofInt).Free (s.wire sources) ↔
      AllFree (ownTexts (Snapshots.toUsage s)) ∧
        ∀ e ∈ sources, htmlFree e.1 = true ∧ free e.2 = true := by
  have haccounts : (Fields.skipped "accounts" (Usage.accountsCodec ofInt) [] List.isEmpty).Free
      s.accounts ↔ ∀ a ∈ s.accounts, (Usage.Account.codec ofInt).Free a :=
    @Fields.omitNil_free _ (Usage.Account.codec ofInt) "accounts" _
  have hsources : (Fields.skipped "sources" Usage.sourcesCodec [] List.isEmpty).Free sources ↔
      ∀ e ∈ sources, htmlFree e.1 = true ∧ free e.2 = true := by
    rw [Fields.skipped_free_of]
    · show free (.obj sources) = true ↔ _
      rw [free, freeFields_iff]
    · intro hnil
      rw [List.isEmpty_iff.mp hnil]
      rfl
  unfold Usage.WireSnapshot.codec
  rw [Codec.object_free rfl, Snapshots.toUsage_eq]
  simp [Usage.WireSnapshot.fields, Usage.Snapshot.wire, haccounts, hsources, ownTexts,
    Snapshots.toUsageWith, Snapshots.toWindow, Snapshots.toStatus, Snapshots.toAccount,
    Snapshots.toAccountWindow, and_assoc]

/-- A snapshot whose sources have no sources. -/
theorem snapshot_free {s : Usage.Snapshot} (h : ∀ e ∈ s.sources, e.2.sources = []) :
    free (s.json ofInt) = true ↔ AllFree (usageTexts (Snapshots.toUsage s)) := by
  have hchild : ∀ e ∈ s.sources, free (e.2.json ofInt) = true ↔
      AllFree (ownTexts (Snapshots.toUsage e.2)) := by
    intro e he
    have hnil : Usage.sourcesJson ofInt e.2.sources = [] := by
      rw [h e he, Usage.sourcesJson]
    have hwire : (Usage.WireSnapshot.codec ofInt).Free (e.2.wire []) ↔ _ := wire_free
    rw [Usage.Snapshot.json_eq, hnil]
    show (Usage.WireSnapshot.codec ofInt).Free (e.2.wire []) ↔ _
    rw [hwire]
    exact and_iff_left fun e he => absurd he List.not_mem_nil
  have hsources : (Snapshots.toUsage s).sources = Snapshots.toSources s.sources := by
    rw [Snapshots.toUsage_eq]
    rfl
  have hwire : (Usage.WireSnapshot.codec ofInt).Free
      (s.wire (Usage.sourcesJson ofInt s.sources)) ↔ _ := wire_free
  rw [Usage.Snapshot.json_eq]
  show (Usage.WireSnapshot.codec ofInt).Free (s.wire (Usage.sourcesJson ofInt s.sources)) ↔ _
  rw [hwire, usageTexts, allFree_append, hsources, Snapshots.toSources_eq, Usage.sourcesJson_eq]
  refine and_congr_right fun _ => ?_
  simp only [allFree_flatMap, List.forall_mem_map, allFree_cons, Option.toList_some,
    List.forall_mem_singleton]
  exact forall₂_congr fun e he => and_congr_right fun _ => hchild e he

end

/-- **The payload of a usage snapshot.** -/
theorem usage_free {parseTime : String → Option DateTime} {ofInt : ℤ → UInt64} {s : UsageSnapshot}
    {out : Usage.Snapshot} (h : Snapshots.usageFromProto parseTime s = .ok out) :
    free (out.json ofInt) = true ↔ AllFree (usageTexts s) := by
  unfold Snapshots.usageFromProto at h
  split at h
  · cases h
  · rename_i hvalid
    split at h
    · cases h
    · rename_i m hm
      split at h
      · cases h
      · rename_i hout
        cases h
        obtain ⟨-, hsources, -⟩ := Usage.checks_ok.mp hout
        have hflat : ∀ e ∈ out.sources, e.2.sources = [] := by
          intro e he
          have hsource := (hsources e he).1
          unfold Usage.source at hsource
          rw [Bool.and_eq_true] at hsource
          exact List.isEmpty_iff.mp hsource.2
        have hperm : (usageTexts (Snapshots.sortedUsage s)).Perm (usageTexts s) := by
          obtain ⟨-, -, -, _, _, _, _, -, -, -, -, -, -, hnames⟩ :=
            usageChecks_ok.mp (Snapshots.validateUsage_checks hvalid)
          have hsort := Snapshots.sortSources_perm (Snapshots.nodup_of_checks hnames)
          exact (hsort.flatMap_right _).append_left _
        rw [snapshot_free hflat, (Snapshots.toUsage_fromUsage hm).1]
        exact AllFree.perm hperm

end Hmux.Protocol
