import Hmux.Lib.Chrono
import Hmux.Model.F64
import Hmux.Model.Session

namespace Hmux.Model

open Lib Pb

/-!
# Catalogs and conversations as the model has them

The types of `hmux-model` that cross the JSON transport, with the JSON form that their
attributes give them.  Every structure is an object, and a null is its default.  `rfc3339`
stands for `chrono`'s parser: the instant and the offset in seconds.

* `HostMetrics.validate` — metrics that do not pass are replaced by the default;
* `Catalog.codec_reads` — a catalog is read back from its JSON form, except that empty tags
  and workflows are left out.

The catalog is what Home tells about its sessions.  It passes the protobuf transport as a message
and the JSON transport as this type; what one of them leaves out, an empty list or metrics that are
not valid, is a question of the JSON form here.
-/

/-- `go_zero_time`. -/
def goZeroTime : String := "0001-01-01T00:00:00Z"

/-! ### Types

The fields are those of the source, in its order; a field that may be missing is an option. -/

/-- `HostMetrics`. -/
structure HostMetrics where
  observedAt : String
  cpuPercent : Option F64
  gpuPercent : Option F64
  memoryUsedBytes : Option UInt64
  memoryTotalBytes : Option UInt64
  diskUsedBytes : Option UInt64
  diskTotalBytes : Option UInt64
  deriving DecidableEq

/-- `HostMetrics::default`. -/
def HostMetrics.default : HostMetrics :=
  { observedAt := goZeroTime, cpuPercent := none, gpuPercent := none, memoryUsedBytes := none,
    memoryTotalBytes := none, diskUsedBytes := none, diskTotalBytes := none }

/-- `WorkflowSummary`. -/
structure WorkflowSummary where
  running : Int64
  waitingApproval : Int64
  waitingInput : Int64
  completed : Int64
  failed : Int64
  interrupted : Int64
  stale : Int64
  updatedAt : Int64
  deriving DecidableEq, Inhabited

/-- `WorkflowNode`. -/
structure WorkflowNode where
  id : String
  parentId : String
  nodeType : String
  provider : String
  status : String
  startedAt : Int64
  updatedAt : Int64
  endedAt : Int64
  deriving DecidableEq, Inhabited

/-- `Workflow`. -/
structure Workflow where
  id : String
  source : String
  sessionId : String
  turnId : String
  status : String
  model : String
  startedAt : Int64
  updatedAt : Int64
  endedAt : Int64
  nodes : Option (List WorkflowNode)
  deriving DecidableEq, Inhabited

/-- `Session`, without the process id that never leaves the process. -/
structure Session where
  id : String
  name : String
  «alias» : String
  hidden : Bool
  createdAt : Int64
  restoredFrom : Option SessionIdentity
  activityAt : Int64
  attached : Int64
  windowCount : Int64
  windowNames : Option (List String)
  activeWindow : String
  currentPath : String
  currentCommand : String
  profile : String
  label : String
  tags : Option (List String)
  kind : String
  runtime : String
  model : String
  state : String
  process : String
  workingSince : Int64
  width : Int64
  height : Int64
  workflow : Option WorkflowSummary
  workflows : Option (List Workflow)
  deriving DecidableEq, Inhabited

/-- `Catalog`. -/
structure Catalog where
  protocolVersion : Int64
  generatedAt : String
  sessions : Option (List Session)
  hostMetrics : Option HostMetrics

/-- `Catalog::default`. -/
def Catalog.default : Catalog :=
  { protocolVersion := 0, generatedAt := goZeroTime, sessions := none, hostMetrics := none }

/-- `ConversationMessage`. -/
structure ConversationMessage where
  id : String
  role : String
  text : String
  deriving DecidableEq, Inhabited

/-- `Conversation`. -/
structure Conversation where
  provider : String
  sessionId : String
  createdAt : Int64
  status : String
  messages : Option (List ConversationMessage)
  truncated : Bool
  deriving DecidableEq, Inhabited

/-! ### Host metrics

Percentages, pairs of byte counts and a time, each with its own check; one that fails costs the
metrics as a whole. -/

section

variable (rfc3339 : String → Option (DateTime × ℤ))

/-- `(0.0..=100.0).contains(&x)` of a finite double. -/
def percent (x : F64) : Bool := x.bits.toNat ≤ 0x4059000000000000 || x.bits.toNat = 2 ^ 63

/-- A pair of byte counts: both or none, and the first within the second. -/
def byteFields (used total : Option UInt64) (max : ℕ) : Bool :=
  match used, total with
  | none, none => true
  | some used, some total => 0 < total && total.toNat ≤ max && used ≤ total
  | _, _ => false

/-- The first instant of the year one. -/
def zeroInstant : DateTime := ⟨-719162, 0, 0, by decide, by decide⟩

/-- `HostMetrics::validate(..).is_ok()`. -/
def HostMetrics.validate (m : HostMetrics) : Bool :=
  match rfc3339 m.observedAt with
  | none => false
  | some (observed, offset) =>
    !(observed = zeroInstant || offset ≠ 0) &&
      (m.cpuPercent.isSome || m.gpuPercent.isSome || m.memoryUsedBytes.isSome ||
        m.memoryTotalBytes.isSome || m.diskUsedBytes.isSome || m.diskTotalBytes.isSome) &&
      (m.cpuPercent.all fun x => x.isFinite && percent x) &&
      (m.gpuPercent.all fun x => x.isFinite && percent x) &&
      byteFields m.memoryUsedBytes m.memoryTotalBytes (2 ^ 60) &&
      byteFields m.diskUsedBytes m.diskTotalBytes (2 ^ 53)

/-- `normalized_metrics` of what is there. -/
def HostMetrics.normalized (m : HostMetrics) : HostMetrics :=
  if m.validate rfc3339 then m else HostMetrics.default

end

/-! ### JSON forms

One codec for every type, field by field, with the attributes of the source. -/

section

variable (rfc3339 : String → Option (DateTime × ℤ)) (ofInt : ℤ → UInt64)

/-- `decode_go_time`. -/
def goTime : Codec String where
  write s := .str s
  read
    | .null => some goZeroTime
    | .str s => if (rfc3339 s).isSome then some s else none
    | _ => none

/-- The fields of `HostMetrics`. -/
def HostMetrics.fields : Fields HostMetrics :=
  Fields.map
    (Fields.and (.defaulted "observed_at" (goTime rfc3339) goZeroTime) <|
     Fields.and (.omitNone "cpu_percent" (F64.codec ofInt)) <|
     Fields.and (.omitNone "gpu_percent" (F64.codec ofInt)) <|
     Fields.and (.omitNone "memory_used_bytes" .uint64) <|
     Fields.and (.omitNone "memory_total_bytes" .uint64) <|
     Fields.and (.omitNone "disk_used_bytes" .uint64) <| .omitNone "disk_total_bytes" .uint64)
    (fun (observedAt, cpuPercent, gpuPercent, memoryUsedBytes, memoryTotalBytes, diskUsedBytes,
      diskTotalBytes) => ⟨observedAt, cpuPercent, gpuPercent, memoryUsedBytes, memoryTotalBytes,
      diskUsedBytes, diskTotalBytes⟩)
    (fun m => (m.observedAt, m.cpuPercent, m.gpuPercent, m.memoryUsedBytes, m.memoryTotalBytes,
      m.diskUsedBytes, m.diskTotalBytes))

/-- `HostMetrics`. -/
def HostMetrics.codec : Codec HostMetrics :=
  .objectOrNull (HostMetrics.fields rfc3339 ofInt) HostMetrics.default

/-- `serde_json::Value` keeps the last value of a key. -/
def lastWins (fields : List (String × Json)) : List (String × Json) :=
  fields.foldl (fun kept e => kept.filter (fun old => old.1 != e.1) ++ [e]) []

/-- `decode_optional_metrics`: whatever is not valid is the default. -/
def optionalMetrics : Codec (Option HostMetrics) where
  write
    | none => .null
    | some m => (HostMetrics.codec rfc3339 ofInt).write m
  read
    | .null => some none
    | .obj fields =>
      let m := (HostMetrics.codec rfc3339 ofInt).read (.obj (lastWins fields))
      some (some ((m.getD HostMetrics.default).normalized rfc3339))
    | _ => some (some HostMetrics.default)

end

/-- The fields of `WorkflowSummary`. -/
def WorkflowSummary.fields : Fields WorkflowSummary :=
  Fields.map
    (Fields.and (.number "running") <| Fields.and (.number "waiting_approval") <|
     Fields.and (.number "waiting_input") <| Fields.and (.number "completed") <|
     Fields.and (.number "failed") <| Fields.and (.number "interrupted") <|
     Fields.and (.number "stale") <| .number "updated_at")
    (fun (running, waitingApproval, waitingInput, completed, failed, interrupted, stale,
      updatedAt) => ⟨running, waitingApproval, waitingInput, completed, failed, interrupted,
      stale, updatedAt⟩)
    (fun m => (m.running, m.waitingApproval, m.waitingInput, m.completed, m.failed,
      m.interrupted, m.stale, m.updatedAt))

/-- `WorkflowSummary`. -/
def WorkflowSummary.codec : Codec WorkflowSummary := .objectOrNull fields default

/-- The fields of `WorkflowNode`. -/
def WorkflowNode.fields : Fields WorkflowNode :=
  Fields.map
    (Fields.and (.text "id") <| Fields.and (.omitEmpty "parent_id") <|
     Fields.and (.text "type") <| Fields.and (.text "provider") <| Fields.and (.text "status") <|
     Fields.and (.number "started_at") <| Fields.and (.number "updated_at") <|
     .omitZero "ended_at")
    (fun (id, parentId, nodeType, provider, status, startedAt, updatedAt, endedAt) => ⟨id,
      parentId, nodeType, provider, status, startedAt, updatedAt, endedAt⟩)
    (fun m => (m.id, m.parentId, m.nodeType, m.provider, m.status, m.startedAt, m.updatedAt,
      m.endedAt))

/-- `WorkflowNode`. -/
def WorkflowNode.codec : Codec WorkflowNode := .objectOrNull fields default

/-- The fields of `Workflow`. -/
def Workflow.fields : Fields Workflow :=
  Fields.map
    (Fields.and (.text "id") <| Fields.and (.text "source") <|
     Fields.and (.omitEmpty "session_id") <| Fields.and (.omitEmpty "turn_id") <|
     Fields.and (.text "status") <| Fields.and (.omitEmpty "model") <|
     Fields.and (.number "started_at") <| Fields.and (.number "updated_at") <|
     Fields.and (.omitZero "ended_at") <|
     .defaulted "nodes" (WorkflowNode.codec.list).option none)
    (fun (id, source, sessionId, turnId, status, model, startedAt, updatedAt, endedAt, nodes) =>
      ⟨id, source, sessionId, turnId, status, model, startedAt, updatedAt, endedAt, nodes⟩)
    (fun m => (m.id, m.source, m.sessionId, m.turnId, m.status, m.model, m.startedAt,
      m.updatedAt, m.endedAt, m.nodes))

/-- `Workflow`. -/
def Workflow.codec : Codec Workflow := .objectOrNull fields default

/-- The fields of `SessionIdentity`. -/
def identityFields : Fields SessionIdentity :=
  Fields.map
    (Fields.and (.text "id") <| .number "created_at")
    (fun (id, createdAt) => ⟨id, createdAt⟩) (fun m => (m.id, m.createdAt))

/-- `SessionIdentity`. -/
def identityCodec : Codec SessionIdentity := .objectOrNull identityFields default

/-- `option_vec_is_empty`. -/
def optionVecIsEmpty {α : Type} (value : Option (List α)) : Bool := value.all List.isEmpty

/-- An optional list that is left out when it is missing or empty. -/
def omitNoItems {α : Type} (key : String) (c : Codec α) : Fields (Option (List α)) :=
  .skipped key c.list.option none optionVecIsEmpty

/-- The fields of `Session`. -/
def Session.fields : Fields Session :=
  Fields.map
    (Fields.and (.text "id") <| Fields.and (.text "name") <| Fields.and (.omitEmpty "alias") <|
     Fields.and (.omitFalse "hidden") <| Fields.and (.number "created_at") <|
     Fields.and (.omitNone "restored_from" identityCodec) <|
     Fields.and (.number "activity_at") <| Fields.and (.number "attached_clients") <|
     Fields.and (.number "window_count") <|
     Fields.and (.defaulted "window_names" (Codec.string.list).option none) <|
     Fields.and (.text "active_window") <| Fields.and (.text "current_path") <|
     Fields.and (.text "current_command") <| Fields.and (.omitEmpty "profile") <|
     Fields.and (.omitEmpty "label") <| Fields.and (omitNoItems "tags" .string) <|
     Fields.and (.omitEmpty "kind") <| Fields.and (.omitEmpty "runtime") <|
     Fields.and (.omitEmpty "model") <| Fields.and (.omitEmpty "state") <|
     Fields.and (.omitEmpty "process") <| Fields.and (.omitZero "working_since") <|
     Fields.and (.omitZero "width") <| Fields.and (.omitZero "height") <|
     Fields.and (.omitNone "workflow" WorkflowSummary.codec) <|
     omitNoItems "workflows" Workflow.codec)
    (fun (id, name, «alias», hidden, createdAt, restoredFrom, activityAt, attached, windowCount,
      windowNames, activeWindow, currentPath, currentCommand, profile, label, tags, kind, runtime,
      model, state, process, workingSince, width, height, workflow, workflows) => ⟨id, name,
      «alias», hidden, createdAt, restoredFrom, activityAt, attached, windowCount, windowNames,
      activeWindow, currentPath, currentCommand, profile, label, tags, kind, runtime, model,
      state, process, workingSince, width, height, workflow, workflows⟩)
    (fun m => (m.id, m.name, m.«alias», m.hidden, m.createdAt, m.restoredFrom, m.activityAt,
      m.attached, m.windowCount, m.windowNames, m.activeWindow, m.currentPath, m.currentCommand,
      m.profile, m.label, m.tags, m.kind, m.runtime, m.model, m.state, m.process, m.workingSince,
      m.width, m.height, m.workflow, m.workflows))

/-- `Session`. -/
def Session.codec : Codec Session := .objectOrNull fields default

section

variable (rfc3339 : String → Option (DateTime × ℤ)) (ofInt : ℤ → UInt64)

/-- The fields of `Catalog`. -/
def Catalog.fields : Fields Catalog :=
  Fields.map
    (Fields.and (.number "protocol_version") <|
     Fields.and (.defaulted "generated_at" (goTime rfc3339) goZeroTime) <|
     Fields.and (.defaulted "sessions" (Session.codec.list).option none) <|
     .skipped "host_metrics" (optionalMetrics rfc3339 ofInt) none Option.isNone)
    (fun (protocolVersion, generatedAt, sessions, hostMetrics) => ⟨protocolVersion, generatedAt,
      sessions, hostMetrics⟩)
    (fun m => (m.protocolVersion, m.generatedAt, m.sessions, m.hostMetrics))

/-- `Catalog`. -/
def Catalog.codec : Codec Catalog := .objectOrNull (Catalog.fields rfc3339 ofInt) Catalog.default

end

/-- The fields of `ConversationMessage`. -/
def ConversationMessage.fields : Fields ConversationMessage :=
  Fields.map
    (Fields.and (.text "id") <| Fields.and (.text "role") <| .text "text")
    (fun (id, role, text) => ⟨id, role, text⟩) (fun m => (m.id, m.role, m.text))

/-- `ConversationMessage`. -/
def ConversationMessage.codec : Codec ConversationMessage := .objectOrNull fields default

/-- The fields of `Conversation`. -/
def Conversation.fields : Fields Conversation :=
  Fields.map
    (Fields.and (.omitEmpty "provider") <| Fields.and (.text "session_id") <|
     Fields.and (.number "created_at") <| Fields.and (.text "status") <|
     Fields.and (.defaulted "messages" (ConversationMessage.codec.list).option none) <|
     .flag "truncated")
    (fun (provider, sessionId, createdAt, status, messages, truncated) => ⟨provider, sessionId,
      createdAt, status, messages, truncated⟩)
    (fun m => (m.provider, m.sessionId, m.createdAt, m.status, m.messages, m.truncated))

/-- `Conversation`. -/
def Conversation.codec : Codec Conversation := .objectOrNull fields default

/-! ### Reading back

What is written of a valid value is read as that value, with the exceptions that the codec itself
names. -/

section

variable {rfc3339 : String → Option (DateTime × ℤ)} {ofInt : ℤ → UInt64}

/-- A time that can be parsed is read back. -/
theorem goTime_reads {s : String} (h : (rfc3339 s).isSome = true) : (goTime rfc3339).Reads s := by
  show (if (rfc3339 s).isSome = true then some s else none) = some s
  rw [if_pos h]

theorem uint64_option_reads (x : Option UInt64) : Codec.uint64.option.Reads x :=
  Codec.option_reads (fun _ => by simp) Codec.uint64_reads x

theorem HostMetrics.nodup_keys : (HostMetrics.fields rfc3339 ofInt).keys.Nodup := by
  show ["observed_at", "cpu_percent", "gpu_percent", "memory_used_bytes", "memory_total_bytes",
    "disk_used_bytes", "disk_total_bytes"].Nodup
  decide

/-- Valid metrics have a time, and finite numbers where they have any. -/
theorem HostMetrics.validate_parts {m : HostMetrics} (h : m.validate rfc3339 = true) :
    (rfc3339 m.observedAt).isSome = true ∧
      (∀ x, m.cpuPercent = some x → x.isFinite = true) ∧
      ∀ x, m.gpuPercent = some x → x.isFinite = true := by
  unfold HostMetrics.validate at h
  split at h
  · cases h
  · rename_i observed offset hparse
    simp only [Bool.and_eq_true] at h
    obtain ⟨⟨⟨⟨_, hcpu⟩, hgpu⟩, _⟩, _⟩ := h
    refine ⟨by rw [hparse]; rfl, fun x hx => ?_, fun x hx => ?_⟩
    · rw [hx] at hcpu
      exact (Bool.and_eq_true _ _ |>.mp hcpu).1
    · rw [hx] at hgpu
      exact (Bool.and_eq_true _ _ |>.mp hgpu).1

/-- Such metrics are read back. -/
theorem HostMetrics.codec_reads {m : HostMetrics} (htime : (rfc3339 m.observedAt).isSome = true)
    (hcpu : ∀ x, m.cpuPercent = some x → x.isFinite = true)
    (hgpu : ∀ x, m.gpuPercent = some x → x.isFinite = true) :
    (HostMetrics.codec rfc3339 ofInt).Reads m := by
  unfold HostMetrics.codec
  rw [Codec.objectOrNull_reads HostMetrics.nodup_keys]
  refine Fields.map_reads rfl ?_
  simp only [Fields.and_reads, Fields.defaulted_reads, Fields.omitNone_reads, uint64_option_reads,
    and_true]
  exact ⟨goTime_reads htime, F64.option_reads hcpu, F64.option_reads hgpu⟩

/-- The default is read as the default, or not at all. -/
theorem HostMetrics.read_default :
    ((HostMetrics.codec rfc3339 ofInt).read
      ((HostMetrics.codec rfc3339 ofInt).write HostMetrics.default)).getD HostMetrics.default
      = HostMetrics.default := by
  by_cases htime : (rfc3339 goZeroTime).isSome = true
  · have hreads : (HostMetrics.codec rfc3339 ofInt).Reads HostMetrics.default :=
      HostMetrics.codec_reads htime (fun _ h => nomatch h) (fun _ h => nomatch h)
    rw [show (HostMetrics.codec rfc3339 ofInt).read _ = some HostMetrics.default from hreads]
    rfl
  · have hread : (HostMetrics.codec rfc3339 ofInt).read
        ((HostMetrics.codec rfc3339 ofInt).write HostMetrics.default) = none := by
      refine (Codec.readFields_pairs HostMetrics.nodup_keys HostMetrics.default).trans ?_
      show Option.map _ (Fields.get (Fields.and (.defaulted "observed_at" (goTime rfc3339)
        goZeroTime) _) _) = none
      rw [Fields.and_get_eq_none (if_neg htime), Option.map_none]
    rw [hread]
    rfl

/-- Without metrics there is nothing to normalize. -/
theorem HostMetrics.normalized_default :
    HostMetrics.default.normalized rfc3339 = HostMetrics.default := by
  unfold HostMetrics.normalized
  split <;> rfl

/-- Distinct keys stay as they are. -/
theorem lastWins_of_nodup {fields : List (String × Json)} (h : (fields.map Prod.fst).Nodup) :
    lastWins fields = fields := by
  have hfold : ∀ kept : List (String × Json), ((kept ++ fields).map Prod.fst).Nodup →
      fields.foldl (fun kept e => kept.filter (fun old => old.1 != e.1) ++ [e]) kept
        = kept ++ fields := by
    clear h
    induction fields with
    | nil => intro kept _; simp
    | cons e fields ih =>
      intro kept hkept
      have hne : kept.filter (fun old => old.1 != e.1) = kept := by
        rw [List.filter_eq_self]
        intro old hold
        rw [bne_iff_ne]
        intro heq
        rw [List.map_append, List.nodup_append] at hkept
        exact hkept.2.2 _ (List.mem_map_of_mem hold) _ (List.mem_map_of_mem List.mem_cons_self) heq
      rw [List.foldl_cons, hne, ih]
      · rw [List.append_assoc, List.singleton_append]
      · rwa [List.append_assoc, List.singleton_append]
  exact hfold [] h

/-- Metrics that went through `normalized_metrics` arrive as they are. -/
theorem optionalMetrics_reads (m : HostMetrics) :
    (optionalMetrics rfc3339 ofInt).Reads (some (m.normalized rfc3339)) := by
  have hread : ∀ x : HostMetrics, (optionalMetrics rfc3339 ofInt).read
      ((optionalMetrics rfc3339 ofInt).write (some x))
      = some (some ((((HostMetrics.codec rfc3339 ofInt).read
        ((HostMetrics.codec rfc3339 ofInt).write x)).getD HostMetrics.default).normalized
          rfc3339)) := by
    intro x
    have hnodup : ((Fields.pairs (HostMetrics.fields rfc3339 ofInt).keys
        ((HostMetrics.fields rfc3339 ofInt).put x)).map Prod.fst).Nodup :=
      HostMetrics.nodup_keys.sublist (Fields.pairs_keys _ _)
    show some (some ((((HostMetrics.codec rfc3339 ofInt).read (.obj (lastWins
      (Fields.pairs _ ((HostMetrics.fields rfc3339 ofInt).put x))))).getD
        HostMetrics.default).normalized rfc3339)) = _
    rw [lastWins_of_nodup hnodup]
    rfl
  unfold Codec.Reads
  rw [hread]
  by_cases hvalid : m.validate rfc3339 = true
  · have hm : m.normalized rfc3339 = m := if_pos hvalid
    obtain ⟨htime, hcpu, hgpu⟩ := HostMetrics.validate_parts hvalid
    have hreads : (HostMetrics.codec rfc3339 ofInt).read
        ((HostMetrics.codec rfc3339 ofInt).write m) = some m :=
      HostMetrics.codec_reads htime hcpu hgpu
    rw [hm, hreads, Option.getD_some, hm]
  · have hm : m.normalized rfc3339 = HostMetrics.default := if_neg hvalid
    rw [hm, HostMetrics.read_default, HostMetrics.normalized_default]

/-- A summary is read back. -/
@[simp] theorem WorkflowSummary.codec_reads (m : WorkflowSummary) :
    WorkflowSummary.codec.Reads m := by
  unfold WorkflowSummary.codec
  rw [Codec.objectOrNull_reads (by decide)]
  refine Fields.map_reads rfl ?_
  simp

/-- A node is read back. -/
@[simp] theorem WorkflowNode.codec_reads (m : WorkflowNode) : WorkflowNode.codec.Reads m := by
  unfold WorkflowNode.codec
  rw [Codec.objectOrNull_reads (by decide)]
  refine Fields.map_reads rfl ?_
  simp

/-- An optional list of readable items. -/
theorem option_list_reads {α : Type} {c : Codec α} (h : ∀ a, c.Reads a) (x : Option (List α)) :
    c.list.option.Reads x :=
  Codec.option_reads (fun _ => by simp) (fun _ => Codec.list_reads fun a _ => h a) x

/-- A workflow is read back. -/
@[simp] theorem Workflow.codec_reads (m : Workflow) : Workflow.codec.Reads m := by
  unfold Workflow.codec
  rw [Codec.objectOrNull_reads (by decide)]
  refine Fields.map_reads rfl ?_
  simp [option_list_reads]

/-- An identity is read back. -/
@[simp] theorem identityCodec_reads (m : SessionIdentity) : identityCodec.Reads m := by
  unfold identityCodec
  rw [Codec.objectOrNull_reads (by decide)]
  refine Fields.map_reads rfl ?_
  simp

/-- An identity is never written as `null`. -/
theorem identityCodec_write_ne (m : SessionIdentity) : identityCodec.write m ≠ .null :=
  Json.noConfusion

/-- An identity that may be missing is read back. -/
theorem identity_option_reads (x : Option SessionIdentity) : identityCodec.option.Reads x :=
  Codec.option_reads identityCodec_write_ne identityCodec_reads x

/-- A summary may be missing as well. -/
theorem summary_option_reads (x : Option WorkflowSummary) : WorkflowSummary.codec.option.Reads x :=
  Codec.option_reads (fun _ => Json.noConfusion) WorkflowSummary.codec_reads x

/-- An empty list is left out like a missing one. -/
def omitEmptyItems {α : Type} (x : Option (List α)) : Option (List α) :=
  if optionVecIsEmpty x then none else x

/-- A session as it arrives: empty tags and workflows are gone. -/
def Session.tidy (s : Session) : Session :=
  { s with tags := omitEmptyItems s.tags, workflows := omitEmptyItems s.workflows }

/-- A list without items is read back as a list that is missing. -/
theorem omitNoItems_reads {α : Type} {key : String} {c : Codec α} (h : ∀ a, c.Reads a)
    (x : Option (List α)) : (omitNoItems key c).Reads (omitEmptyItems x) := by
  unfold omitNoItems omitEmptyItems
  rw [Fields.skipped_reads]
  cases hx : optionVecIsEmpty x with
  | true => rfl
  | false =>
    rw [if_neg Bool.false_ne_true, if_neg (by rw [hx]; exact Bool.false_ne_true)]
    exact option_list_reads h x

/-- Both are written in the same way. -/
theorem omitNoItems_put {α : Type} {key : String} {c : Codec α} (x : Option (List α)) :
    (omitNoItems key c).put (omitEmptyItems x) = (omitNoItems key c).put x := by
  unfold omitEmptyItems
  cases hx : optionVecIsEmpty x with
  | true =>
    show [if optionVecIsEmpty (none : Option (List α)) = true then none else _] =
      [if _ then _ else _]
    rw [if_pos hx]
    rfl
  | false => rfl

/-- A session is written as it arrives. -/
theorem Session.write_tidy (s : Session) : Session.codec.write s.tidy = Session.codec.write s := by
  have hput : Session.fields.put s.tidy = Session.fields.put s := by
    simp only [Session.fields, Fields.map, Fields.and, Session.tidy, omitNoItems_put]
  show Json.obj (Fields.pairs _ _) = Json.obj (Fields.pairs _ _)
  rw [hput]

/-- A session is read back as its tidy form. -/
theorem Session.codec_reads (s : Session) : Session.codec.Reads s.tidy := by
  unfold Session.codec
  rw [Codec.objectOrNull_reads (by decide)]
  refine Fields.map_reads rfl ?_
  simp [option_list_reads, identity_option_reads, summary_option_reads, Session.tidy,
    omitNoItems_reads]

/-- A catalog as it arrives. -/
def Catalog.tidy (c : Catalog) : Catalog :=
  { c with sessions := c.sessions.map fun l => l.map Session.tidy }

/-- A catalog and its tidy form are written in the same way. -/
theorem Catalog.write_tidy (c : Catalog) :
    (Catalog.codec rfc3339 ofInt).write c.tidy = (Catalog.codec rfc3339 ofInt).write c := by
  have hsessions : Session.codec.list.option.write (c.sessions.map fun l => l.map Session.tidy)
      = Session.codec.list.option.write c.sessions := by
    cases c.sessions with
    | none => rfl
    | some l =>
      show Json.arr ((l.map Session.tidy).map Session.codec.write) = Json.arr (l.map _)
      rw [List.map_map]
      exact congrArg Json.arr (List.map_congr_left fun s _ => Session.write_tidy s)
  have hput : (Catalog.fields rfc3339 ofInt).put c.tidy = (Catalog.fields rfc3339 ofInt).put c := by
    simp only [Catalog.fields, Fields.map, Fields.and, Catalog.tidy, Fields.defaulted, Fields.slot,
      hsessions]
  show Json.obj (Fields.pairs _ _) = Json.obj (Fields.pairs _ _)
  rw [hput]

/-- **A catalog is read back** as it was written, empty tags and workflows aside. -/
theorem Catalog.codec_reads {c : Catalog} (htime : (rfc3339 c.generatedAt).isSome = true)
    (hmetrics : c.hostMetrics = c.hostMetrics.map (HostMetrics.normalized rfc3339)) :
    (Catalog.codec rfc3339 ofInt).Reads c.tidy := by
  have hsessions : Session.codec.list.option.Reads
      (c.sessions.map fun l => l.map Session.tidy) := by
    cases c.sessions with
    | none => exact Codec.option_reads_none
    | some l =>
      refine (Codec.option_reads_some _).mpr ⟨by simp, Codec.list_reads fun s hs => ?_⟩
      obtain ⟨s, -, rfl⟩ := List.mem_map.mp hs
      exact Session.codec_reads s
  have hread : (Fields.skipped "host_metrics" (optionalMetrics rfc3339 ofInt) none
      Option.isNone).Reads c.hostMetrics := by
    rw [Fields.skipped_reads, hmetrics]
    cases c.hostMetrics with
    | none => rfl
    | some m => exact optionalMetrics_reads m
  unfold Catalog.codec
  rw [Codec.objectOrNull_reads (by
    show ["protocol_version", "generated_at", "sessions", "host_metrics"].Nodup
    decide)]
  refine Fields.map_reads rfl ?_
  simp only [Fields.and_reads, Fields.number_reads, Fields.defaulted_reads, true_and]
  exact ⟨goTime_reads htime, hsessions, hread⟩

/-- A message is read back. -/
@[simp] theorem ConversationMessage.codec_reads (m : ConversationMessage) :
    ConversationMessage.codec.Reads m := by
  unfold ConversationMessage.codec
  rw [Codec.objectOrNull_reads (by decide)]
  refine Fields.map_reads rfl ?_
  simp

/-- A conversation is read back. -/
theorem Conversation.codec_reads (m : Conversation) : Conversation.codec.Reads m := by
  unfold Conversation.codec
  rw [Codec.objectOrNull_reads (by decide)]
  refine Fields.map_reads rfl ?_
  simp [option_list_reads]

end

end Hmux.Model
