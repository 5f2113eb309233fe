import Hmux.Lib.Proto.Part
import Hmux.Protocol.Types

namespace Hmux.Pb

open Lib.Proto Lib.Proto.Part

/-!
# The messages on the wire

The descriptor of `hmux.v2.proto` as the generated code has it (`rows`: tag, kind and label of
every field), and for each message how it is read from and written to its fields (`part`), in
the order of the tags.  Only usage snapshots hold doubles without presence, so only they have
a `posZero` that is not the identity.

* `Envelope.part` — the message of the Home connection;
* `UsageSnapshot.posZero`, `Envelope.posZero` — negative zeros as they arrive.
-/

/-! ### Descriptors

The table that the schema of the repository gives, row by row. -/

/-- The messages. -/
inductive Name
  | envelope | empty | session | hello | reference | data | ack | resize | terminalOpen
  | request | response | createRequest | aliasRequest | hiddenRequest | workspaceRequest
  | workspaceChange | providerKeyRequest | providerJobRequest | profile | profilesResult
  | createdResult | conversationResult | conversationMessages | conversationMessage
  | workspaceSnapshot | providerResult | providerStatuses | providerStatus | providerJobStatus
  | stageResult | stageFile | completion | uploadStart | uploadHeader | fileHeader
  | catalogSnapshot | catalogSessions | catalogStrings | catalogWorkflows
  | catalogWorkflowNodes | catalogHostMetrics | catalogSession | catalogWorkflowSummary
  | catalogWorkflow | catalogWorkflowNode | usageSnapshot | usageWindow | usageAccountWindow
  | usageStatus | usageAccount | usageSource
  deriving DecidableEq

/-- The fields of each message. -/
def rows : Name → List (ℕ × FieldDesc Name)
  | .envelope => [(1, .implicit .uint32), (10, .oneof (.message .hello)),
      (11, .oneof (.message .request)), (12, .oneof (.message .response)),
      (13, .oneof (.message .terminalOpen)), (14, .oneof (.message .data)),
      (15, .oneof (.message .data)), (16, .oneof (.message .resize)),
      (17, .oneof (.message .reference)), (18, .oneof (.message .reference)),
      (19, .oneof (.message .ack)), (20, .oneof (.message .response)),
      (21, .oneof (.message .reference)), (22, .oneof (.message .response)),
      (25, .oneof (.message .empty)), (26, .oneof (.message .completion)),
      (27, .oneof (.message .uploadStart)), (28, .oneof (.message .data)),
      (29, .oneof (.message .reference)), (30, .oneof (.message .reference)),
      (31, .oneof (.message .reference)), (32, .oneof (.message .ack)),
      (33, .oneof (.message .response)), (34, .oneof (.message .response)),
      (35, .oneof (.message .catalogSnapshot)), (36, .oneof (.message .usageSnapshot))]
  | .empty => []
  | .session => [(1, .implicit .text), (2, .implicit .int64)]
  | .hello => [(1, .repeated .text)]
  | .reference => [(1, .implicit .text)]
  | .data => [(1, .implicit .text), (2, .implicit .blob)]
  | .ack => [(1, .implicit .text), (2, .implicit .int64)]
  | .resize => [(1, .implicit .text), (2, .implicit .uint32), (3, .implicit .uint32)]
  | .terminalOpen => [(1, .implicit .text), (2, .optional (.message .session)),
      (3, .implicit .uint32), (4, .implicit .uint32), (5, .repeated .text)]
  | .request => [(1, .implicit .text), (2, .implicit .enum), (3, .optional (.message .session)),
      (10, .oneof (.message .empty)), (11, .oneof (.message .createRequest)),
      (12, .oneof (.message .aliasRequest)), (13, .oneof (.message .hiddenRequest)),
      (14, .oneof (.message .workspaceRequest)), (15, .oneof (.message .providerKeyRequest)),
      (16, .oneof (.message .providerJobRequest))]
  | .response => [(1, .implicit .text), (3, .implicit .text),
      (10, .oneof (.message .profilesResult)), (11, .oneof (.message .createdResult)),
      (12, .oneof (.message .empty)), (13, .oneof (.message .conversationResult)),
      (14, .oneof (.message .workspaceSnapshot)), (15, .oneof (.message .providerResult)),
      (16, .oneof (.message .stageResult))]
  | .createRequest => [(1, .optional .text), (2, .optional .text), (3, .optional .bool)]
  | .aliasRequest => [(1, .optional .text)]
  | .hiddenRequest => [(1, .implicit .bool)]
  | .workspaceRequest => [(1, .optional (.message .workspaceChange))]
  | .workspaceChange => [(1, .implicit .text), (2, .implicit .uint64),
      (3, .repeated (.message .session)), (4, .repeated (.message .session)),
      (5, .optional (.message .session))]
  | .providerKeyRequest => [(1, .implicit .text), (2, .implicit .text)]
  | .providerJobRequest => [(1, .implicit .text), (2, .implicit .text), (3, .implicit .text)]
  | .profile => [(1, .implicit .text), (2, .implicit .text)]
  | .profilesResult => [(1, .repeated (.message .profile))]
  | .createdResult => [(1, .implicit .text), (2, .implicit .int64), (3, .implicit .bool)]
  | .conversationResult => [(1, .implicit .text), (2, .implicit .text), (3, .implicit .int64),
      (4, .implicit .text), (5, .optional (.message .conversationMessages)),
      (6, .implicit .bool)]
  | .conversationMessages => [(1, .repeated (.message .conversationMessage))]
  | .conversationMessage => [(1, .implicit .text), (2, .implicit .text), (3, .implicit .text)]
  | .workspaceSnapshot => [(1, .implicit .text), (2, .repeated .text), (3, .implicit .int64),
      (4, .implicit .bool), (5, .implicit .uint64), (6, .repeated (.message .session)),
      (7, .optional (.message .session))]
  | .providerResult => [(1, .optional (.message .providerStatuses)),
      (2, .optional (.message .providerJobStatus)), (3, .optional .text)]
  | .providerStatuses => [(1, .repeated (.message .providerStatus))]
  | .providerStatus => [(1, .implicit .text), (2, .implicit .text), (3, .implicit .bool),
      (4, .implicit .text), (5, .implicit .bool), (6, .implicit .text), (7, .implicit .text),
      (8, .implicit .text)]
  | .providerJobStatus => [(1, .implicit .text), (2, .implicit .text), (3, .implicit .text),
      (4, .implicit .bool), (5, .repeated .text)]
  | .stageResult => [(1, .implicit .uint32), (2, .implicit .text), (3, .implicit .text),
      (4, .optional (.message .session)), (5, .implicit .int64),
      (6, .repeated (.message .stageFile))]
  | .stageFile => [(1, .implicit .uint32), (2, .implicit .text), (3, .implicit .int64),
      (4, .implicit .text)]
  | .completion => [(1, .implicit .text), (2, .optional (.message .session)),
      (3, .implicit .text)]
  | .uploadStart => [(1, .implicit .text), (2, .optional (.message .uploadHeader))]
  | .uploadHeader => [(1, .implicit .uint32), (2, .implicit .text),
      (3, .optional (.message .session)), (4, .implicit .uint32), (5, .implicit .int64),
      (6, .repeated (.message .fileHeader))]
  | .fileHeader => [(1, .implicit .uint32), (2, .implicit .int64), (3, .implicit .text)]
  | .catalogSnapshot => [(1, .implicit .int64), (2, .implicit .text),
      (3, .optional (.message .catalogSessions)), (4, .optional (.message .catalogHostMetrics))]
  | .catalogSessions => [(1, .repeated (.message .catalogSession))]
  | .catalogStrings => [(1, .repeated .text)]
  | .catalogWorkflows => [(1, .repeated (.message .catalogWorkflow))]
  | .catalogWorkflowNodes => [(1, .repeated (.message .catalogWorkflowNode))]
  | .catalogHostMetrics => [(1, .implicit .text), (2, .optional .double),
      (3, .optional .double), (4, .optional .uint64), (5, .optional .uint64),
      (6, .optional .uint64), (7, .optional .uint64)]
  | .catalogSession => [(1, .optional (.message .session)), (2, .implicit .text),
      (3, .implicit .text), (4, .implicit .bool), (5, .optional (.message .session)),
      (6, .implicit .int64), (7, .implicit .int64), (8, .implicit .int64),
      (9, .optional (.message .catalogStrings)), (10, .implicit .text), (11, .implicit .text),
      (12, .implicit .text), (13, .implicit .text), (14, .implicit .text),
      (15, .optional (.message .catalogStrings)), (16, .implicit .text), (17, .implicit .text),
      (18, .implicit .text), (19, .implicit .text), (20, .implicit .text),
      (21, .implicit .int64), (22, .implicit .int64), (23, .implicit .int64),
      (24, .optional (.message .catalogWorkflowSummary)),
      (25, .optional (.message .catalogWorkflows))]
  | .catalogWorkflowSummary => [(1, .implicit .int64), (2, .implicit .int64),
      (3, .implicit .int64), (4, .implicit .int64), (5, .implicit .int64),
      (6, .implicit .int64), (7, .implicit .int64), (8, .implicit .int64)]
  | .catalogWorkflow => [(1, .implicit .text), (2, .implicit .text), (3, .implicit .text),
      (4, .implicit .text), (5, .implicit .text), (6, .implicit .text), (7, .implicit .int64),
      (8, .implicit .int64), (9, .implicit .int64),
      (10, .optional (.message .catalogWorkflowNodes))]
  | .catalogWorkflowNode => [(1, .implicit .text), (2, .implicit .text), (3, .implicit .text),
      (4, .implicit .text), (5, .implicit .text), (6, .implicit .int64), (7, .implicit .int64),
      (8, .implicit .int64)]
  | .usageSnapshot => [(1, .implicit .int64), (2, .implicit .int64), (3, .implicit .text),
      (4, .implicit .enum), (5, .implicit .text), (6, .implicit .double), (7, .implicit .text),
      (8, .implicit .int64), (9, .implicit .int64), (10, .optional (.message .usageWindow)),
      (11, .optional (.message .usageWindow)), (12, .implicit .bool), (13, .implicit .bool),
      (14, .optional (.message .usageStatus)), (15, .repeated (.message .usageAccount)),
      (16, .optional .text), (17, .repeated (.message .usageSource))]
  | .usageWindow => [(1, .implicit .double), (2, .implicit .int64), (3, .optional .text)]
  | .usageAccountWindow => [(1, .implicit .double), (2, .optional .text)]
  | .usageStatus => [(1, .implicit .text), (2, .implicit .text), (3, .implicit .text),
      (4, .implicit .bool), (5, .optional .text), (6, .optional .text), (7, .implicit .text)]
  | .usageAccount => [(1, .implicit .int64), (2, .implicit .text), (3, .implicit .text),
      (4, .implicit .bool), (5, .implicit .text), (6, .optional (.message .usageAccountWindow)),
      (7, .optional (.message .usageAccountWindow)), (8, .optional .double),
      (9, .optional .int64), (10, .optional .text), (11, .implicit .text),
      (12, .optional .text)]
  | .usageSource => [(1, .implicit .text), (2, .optional (.message .usageSnapshot))]

/-- The descriptor of the generated code. -/
def descriptor : Table Name := fun name tag => (rows name).lookup tag

section

variable {k : ℕ} {name inner : Name} {α : Type}

/-- A message that has all the tags of its descriptor. -/
theorem covers_rows {p : Part descriptor k name α}
    (h : ((rows name).all fun row => p.tags.contains row.1) = true) : p.Covers := by
  intro t d hd
  obtain ⟨before, after, hrows, -⟩ := List.lookup_eq_some_iff.mp hd
  have hmem : (t, d) ∈ rows name := by
    rw [hrows]
    exact List.mem_append_right _ List.mem_cons_self
  exact List.contains_iff_mem.mp (List.all_eq_true.mp h (t, d) hmem)

/-- A nested message. -/
def nested (p : Part descriptor k inner α) (tag : ℕ)
    (hp : ((rows inner).all fun row => p.tags.contains row.1) = true := by rfl)
    (hz : p.zero = id := by rfl)
    (hd : descriptor name tag = some ⟨.message inner, .optional⟩ := by rfl) :
    Part descriptor k name (Option α) :=
  (messageSucc p (covers_rows hp) id (fun a => by rw [hz, Option.map_id]) tag hd).lower
    (Nat.le_succ k)

/-- A nested message with doubles. -/
def nestedZ (p : Part descriptor k inner α) (z : α → α) (tag : ℕ)
    (hp : ((rows inner).all fun row => p.tags.contains row.1) = true := by rfl)
    (hz : p.zero = z := by rfl)
    (hd : descriptor name tag = some ⟨.message inner, .optional⟩ := by rfl) :
    Part descriptor k name (Option α) :=
  (messageSucc p (covers_rows hp) (Option.map z) (fun a => by rw [hz]) tag hd).lower
    (Nat.le_succ k)

/-- A list of nested messages. -/
def list (p : Part descriptor k inner α) (tag : ℕ)
    (hp : ((rows inner).all fun row => p.tags.contains row.1) = true := by rfl)
    (hz : p.zero = id := by rfl)
    (hd : descriptor name tag = some ⟨.message inner, .repeated⟩ := by rfl) :
    Part descriptor k name (List α) :=
  messages p (covers_rows hp) id (fun a => by rw [hz, List.map_id]; rfl) tag hd

/-- A list of nested messages with doubles. -/
def listZ (p : Part descriptor k inner α) (z : α → α) (tag : ℕ)
    (hp : ((rows inner).all fun row => p.tags.contains row.1) = true := by rfl)
    (hz : p.zero = z := by rfl)
    (hd : descriptor name tag = some ⟨.message inner, .repeated⟩ := by rfl) :
    Part descriptor k name (List α) :=
  messages p (covers_rows hp) (List.map z) (fun a => by rw [hz]) tag hd

/-- The zero that arrives for a zero. -/
def F64.posZero (x : F64) : F64 := if x.bits = Scalar.negativeZero then ⟨0⟩ else x

/-- A double without presence. -/
def double (tag : ℕ) (hd : descriptor name tag = some ⟨.double, .implicit⟩ := by rfl) :
    Part descriptor k name F64 :=
  Lib.Proto.Part.map (implicit .double tag hd) F64.mk F64.bits F64.posZero (fun _ => rfl)
    (fun x => by
    change F64.mk (if x.bits = Scalar.negativeZero then 0 else x.bits) = F64.posZero x
    rw [F64.posZero]
    split <;> rfl)

/-- A double with presence. -/
def optDouble (tag : ℕ) (hd : descriptor name tag = some ⟨.double, .optional⟩ := by rfl) :
    Part descriptor k name (Option F64) :=
  Lib.Proto.Part.map (optional .double tag hd) (Option.map F64.mk) (Option.map F64.bits) id
    (fun a => by cases a <;> rfl) (fun a => by cases a <;> rfl)

end

/-! ### Messages

For every message the part that reads and writes it, and that it covers all of its rows. -/

def Hello.part (k : ℕ) : Part descriptor k .hello Hello :=
  Lib.Proto.Part.map (repeated .text 1)
    (fun capabilities => { capabilities }) (fun m => m.capabilities) (fun m => m)

def Session.part (k : ℕ) : Part descriptor k .session Session :=
  Lib.Proto.Part.map
    (Part.and (implicit .text 1) <| implicit .int64 2)
    (fun (id, createdAt) => { id, createdAt }) (fun m => (m.id, m.createdAt)) (fun m => m)

def Empty.part (k : ℕ) : Part descriptor k .empty Empty :=
  Lib.Proto.Part.map Lib.Proto.Part.none (fun _ => {}) (fun _ => ()) (fun m => m)

def CreateRequest.part (k : ℕ) : Part descriptor k .createRequest CreateRequest :=
  Lib.Proto.Part.map
    (Part.and (optional .text 1) <| Part.and (optional .text 2) <| optional .bool 3)
    (fun (profile, name, createDirectory) => { profile, name, createDirectory })
    (fun m => (m.profile, m.name, m.createDirectory)) (fun m => m)

def AliasRequest.part (k : ℕ) : Part descriptor k .aliasRequest AliasRequest :=
  Lib.Proto.Part.map (optional .text 1)
    (fun «alias» => { «alias» }) (fun m => m.«alias») (fun m => m)

def HiddenRequest.part (k : ℕ) : Part descriptor k .hiddenRequest HiddenRequest :=
  Lib.Proto.Part.map (implicit .bool 1)
    (fun hidden => { hidden }) (fun m => m.hidden) (fun m => m)

def WorkspaceChange.part (k : ℕ) : Part descriptor k .workspaceChange WorkspaceChange :=
  Lib.Proto.Part.map
    (Part.and (implicit .text 1) <| Part.and (implicit .uint64 2) <|
     Part.and (list (Session.part k) 3) <| Part.and (list (Session.part k) 4) <|
     nested (Session.part k) 5)
    (fun (operationId, revision, base, tabs, selected) =>
      { operationId, revision, base, tabs, selected })
    (fun m => (m.operationId, m.revision, m.base, m.tabs, m.selected)) (fun m => m)

def WorkspaceRequest.part (k : ℕ) : Part descriptor k .workspaceRequest WorkspaceRequest :=
  Lib.Proto.Part.map (nested (WorkspaceChange.part k) 1)
    (fun change => { change }) (fun m => m.change) (fun m => m)

def ProviderKeyRequest.part (k : ℕ) : Part descriptor k .providerKeyRequest ProviderKeyRequest :=
  Lib.Proto.Part.map
    (Part.and (implicit .text 1) <| implicit .text 2)
    (fun (provider, key) => { provider, key }) (fun m => (m.provider, m.key)) (fun m => m)

def ProviderJobRequest.part (k : ℕ) : Part descriptor k .providerJobRequest ProviderJobRequest :=
  Lib.Proto.Part.map
    (Part.and (implicit .text 1) <| Part.and (implicit .text 2) <| implicit .text 3)
    (fun (provider, action, text) => { provider, action, text })
    (fun m => (m.provider, m.action, m.text)) (fun m => m)

/-- `request::Payload`. -/
def RequestPayload.choice (k : ℕ) : Part.Choice descriptor k .request RequestPayload where
  tags := [10, 11, 12, 13, 14, 15, 16]
  read t w :=
    match t with
    | 10 => some (.empty ((Empty.part k).get w))
    | 11 => some (.create ((CreateRequest.part k).get w))
    | 12 => some (.«alias» ((AliasRequest.part k).get w))
    | 13 => some (.hidden ((HiddenRequest.part k).get w))
    | 14 => some (.workspace ((WorkspaceRequest.part k).get w))
    | 15 => some (.providerKey ((ProviderKeyRequest.part k).get w))
    | 16 => some (.providerJob ((ProviderJobRequest.part k).get w))
    | _ => none
  write
    | .empty m => (10, (Empty.part k).put m)
    | .create m => (11, (CreateRequest.part k).put m)
    | .«alias» m => (12, (AliasRequest.part k).put m)
    | .hidden m => (13, (HiddenRequest.part k).put m)
    | .workspace m => (14, (WorkspaceRequest.part k).put m)
    | .providerKey m => (15, (ProviderKeyRequest.part k).put m)
    | .providerJob m => (16, (ProviderJobRequest.part k).put m)
  zero a := a
  write_tag a := by cases a <;> simp
  read_write a := by cases a <;> simp only [get_put] <;> rfl
  write_zero a := rfl
  normal t ht := by
    simp only [List.mem_cons, List.not_mem_nil, or_false] at ht
    rcases ht with rfl | rfl | rfl | rfl | rfl | rfl | rfl
    all_goals
      refine ⟨_, rfl, fun w => ⟨_, rfl, rfl, fun n hn h => ?_⟩⟩
      dsimp only
      refine Covers.normal (covers_rows ?_) hn h
      rfl

def Request.part (k : ℕ) : Part descriptor k .request Request :=
  Lib.Proto.Part.map
    (Part.and (implicit .text 1) <| Part.and (implicit .enum 2) <|
     Part.and (nested (Session.part k) 3) <|
     oneof (RequestPayload.choice k) (fun m => m) (fun m => by cases m <;> rfl))
    (fun (id, operation, session, payload) => { id, operation, session, payload })
    (fun m => (m.id, m.operation, m.session, m.payload)) (fun m => m)

def Profile.part (k : ℕ) : Part descriptor k .profile Profile :=
  Lib.Proto.Part.map
    (Part.and (implicit .text 1) <| implicit .text 2)
    (fun (id, label) => { id, label }) (fun m => (m.id, m.label)) (fun m => m)

def ProfilesResult.part (k : ℕ) : Part descriptor k .profilesResult ProfilesResult :=
  Lib.Proto.Part.map (list (Profile.part k) 1)
    (fun items => { items }) (fun m => m.items) (fun m => m)

def CreatedResult.part (k : ℕ) : Part descriptor k .createdResult CreatedResult :=
  Lib.Proto.Part.map
    (Part.and (implicit .text 1) <| Part.and (implicit .int64 2) <| implicit .bool 3)
    (fun (id, createdAt, reused) => { id, createdAt, reused })
    (fun m => (m.id, m.createdAt, m.reused)) (fun m => m)

def ConversationMessage.part (k : ℕ) :
    Part descriptor k .conversationMessage ConversationMessage :=
  Lib.Proto.Part.map
    (Part.and (implicit .text 1) <| Part.and (implicit .text 2) <| implicit .text 3)
    (fun (id, role, text) => { id, role, text }) (fun m => (m.id, m.role, m.text)) (fun m => m)

def ConversationMessages.part (k : ℕ) :
    Part descriptor k .conversationMessages ConversationMessages :=
  Lib.Proto.Part.map (list (ConversationMessage.part k) 1)
    (fun items => { items }) (fun m => m.items) (fun m => m)

def ConversationResult.part (k : ℕ) : Part descriptor k .conversationResult ConversationResult :=
  Lib.Proto.Part.map
    (Part.and (implicit .text 1) <| Part.and (implicit .text 2) <|
     Part.and (implicit .int64 3) <| Part.and (implicit .text 4) <|
     Part.and (nested (ConversationMessages.part k) 5) <| implicit .bool 6)
    (fun (provider, sessionId, createdAt, status, messages, truncated) =>
      { provider, sessionId, createdAt, status, messages, truncated })
    (fun m => (m.provider, m.sessionId, m.createdAt, m.status, m.messages, m.truncated))
      (fun m => m)

def WorkspaceSnapshot.part (k : ℕ) : Part descriptor k .workspaceSnapshot WorkspaceSnapshot :=
  Lib.Proto.Part.map
    (Part.and (implicit .text 1) <| Part.and (repeated .text 2) <|
     Part.and (implicit .int64 3) <| Part.and (implicit .bool 4) <|
     Part.and (implicit .uint64 5) <| Part.and (list (Session.part k) 6) <|
     nested (Session.part k) 7)
    (fun (conflict, applied, version, initialized, revision, tabs, selected) =>
      { conflict, applied, version, initialized, revision, tabs, selected })
    (fun m => (m.conflict, m.applied, m.version, m.initialized, m.revision, m.tabs, m.selected))
      (fun m => m)

def ProviderStatus.part (k : ℕ) : Part descriptor k .providerStatus ProviderStatus :=
  Lib.Proto.Part.map
    (Part.and (implicit .text 1) <| Part.and (implicit .text 2) <|
     Part.and (implicit .bool 3) <| Part.and (implicit .text 4) <|
     Part.and (implicit .bool 5) <| Part.and (implicit .text 6) <|
     Part.and (implicit .text 7) <| implicit .text 8)
    (fun (id, label, installed, auth, profile, version, keyHint, profileId) =>
      { id, label, installed, auth, profile, version, keyHint, profileId })
    (fun m => (m.id, m.label, m.installed, m.auth, m.profile, m.version, m.keyHint, m.profileId))
      (fun m => m)

def ProviderStatuses.part (k : ℕ) : Part descriptor k .providerStatuses ProviderStatuses :=
  Lib.Proto.Part.map (list (ProviderStatus.part k) 1)
    (fun items => { items }) (fun m => m.items) (fun m => m)

def ProviderJobStatus.part (k : ℕ) : Part descriptor k .providerJobStatus ProviderJobStatus :=
  Lib.Proto.Part.map
    (Part.and (implicit .text 1) <| Part.and (implicit .text 2) <|
     Part.and (implicit .text 3) <| Part.and (implicit .bool 4) <| repeated .text 5)
    (fun (state, url, code, needsInput, log) => { state, url, code, needsInput, log })
    (fun m => (m.state, m.url, m.code, m.needsInput, m.log)) (fun m => m)

def ProviderResult.part (k : ℕ) : Part descriptor k .providerResult ProviderResult :=
  Lib.Proto.Part.map
    (Part.and (nested (ProviderStatuses.part k) 1) <|
     Part.and (nested (ProviderJobStatus.part k) 2) <| optional .text 3)
    (fun (providers, job, error) => { providers, job, error })
    (fun m => (m.providers, m.job, m.error)) (fun m => m)

def StageFile.part (k : ℕ) : Part descriptor k .stageFile StageFile :=
  Lib.Proto.Part.map
    (Part.and (implicit .uint32 1) <| Part.and (implicit .text 2) <|
     Part.and (implicit .int64 3) <| implicit .text 4)
    (fun (index, path, size, sha256) => { index, path, size, sha256 })
    (fun m => (m.index, m.path, m.size, m.sha256)) (fun m => m)

def StageResult.part (k : ℕ) : Part descriptor k .stageResult StageResult :=
  Lib.Proto.Part.map
    (Part.and (implicit .uint32 1) <| Part.and (implicit .text 2) <|
     Part.and (implicit .text 3) <| Part.and (nested (Session.part k) 4) <|
     Part.and (implicit .int64 5) <| list (StageFile.part k) 6)
    (fun (protocolVersion, requestId, stageId, session, expiresAtUnix, files) =>
      { protocolVersion, requestId, stageId, session, expiresAtUnix, files })
    (fun m => (m.protocolVersion, m.requestId, m.stageId, m.session, m.expiresAtUnix, m.files))
      (fun m => m)

/-- `response::Result`. -/
def ResponseResult.choice (k : ℕ) : Part.Choice descriptor k .response ResponseResult where
  tags := [10, 11, 12, 13, 14, 15, 16]
  read t w :=
    match t with
    | 10 => some (.profiles ((ProfilesResult.part k).get w))
    | 11 => some (.created ((CreatedResult.part k).get w))
    | 12 => some (.ok ((Empty.part k).get w))
    | 13 => some (.conversation ((ConversationResult.part k).get w))
    | 14 => some (.workspace ((WorkspaceSnapshot.part k).get w))
    | 15 => some (.providers ((ProviderResult.part k).get w))
    | 16 => some (.staged ((StageResult.part k).get w))
    | _ => none
  write
    | .profiles m => (10, (ProfilesResult.part k).put m)
    | .created m => (11, (CreatedResult.part k).put m)
    | .ok m => (12, (Empty.part k).put m)
    | .conversation m => (13, (ConversationResult.part k).put m)
    | .workspace m => (14, (WorkspaceSnapshot.part k).put m)
    | .providers m => (15, (ProviderResult.part k).put m)
    | .staged m => (16, (StageResult.part k).put m)
  zero a := a
  write_tag a := by cases a <;> simp
  read_write a := by cases a <;> simp only [get_put] <;> rfl
  write_zero a := rfl
  normal t ht := by
    simp only [List.mem_cons, List.not_mem_nil, or_false] at ht
    rcases ht with rfl | rfl | rfl | rfl | rfl | rfl | rfl
    all_goals
      refine ⟨_, rfl, fun w => ⟨_, rfl, rfl, fun n hn h => ?_⟩⟩
      dsimp only
      refine Covers.normal (covers_rows ?_) hn h
      rfl

def Response.part (k : ℕ) : Part descriptor k .response Response :=
  Lib.Proto.Part.map
    (Part.and (implicit .text 1) <| Part.and (implicit .text 3) <|
     oneof (ResponseResult.choice k) (fun m => m) (fun m => by cases m <;> rfl))
    (fun (id, error, result) => { id, error, result })
    (fun m => (m.id, m.error, m.result)) (fun m => m)

def TerminalOpen.part (k : ℕ) : Part descriptor k .terminalOpen TerminalOpen :=
  Lib.Proto.Part.map
    (Part.and (implicit .text 1) <| Part.and (nested (Session.part k) 2) <|
     Part.and (implicit .uint32 3) <| Part.and (implicit .uint32 4) <| repeated .text 5)
    (fun (id, session, cols, rows, capabilities) => { id, session, cols, rows, capabilities })
    (fun m => (m.id, m.session, m.cols, m.rows, m.capabilities)) (fun m => m)

def Data.part (k : ℕ) : Part descriptor k .data Data :=
  Lib.Proto.Part.map
    (Part.and (implicit .text 1) <| implicit .blob 2)
    (fun (id, data) => { id, data }) (fun m => (m.id, m.data)) (fun m => m)

def Resize.part (k : ℕ) : Part descriptor k .resize Resize :=
  Lib.Proto.Part.map
    (Part.and (implicit .text 1) <| Part.and (implicit .uint32 2) <| implicit .uint32 3)
    (fun (id, cols, rows) => { id, cols, rows }) (fun m => (m.id, m.cols, m.rows)) (fun m => m)

def Reference.part (k : ℕ) : Part descriptor k .reference Reference :=
  Lib.Proto.Part.map (implicit .text 1)
    (fun id => { id }) (fun m => m.id) (fun m => m)

def Ack.part (k : ℕ) : Part descriptor k .ack Ack :=
  Lib.Proto.Part.map
    (Part.and (implicit .text 1) <| implicit .int64 2)
    (fun (id, received) => { id, received }) (fun m => (m.id, m.received)) (fun m => m)

def CatalogStrings.part (k : ℕ) : Part descriptor k .catalogStrings CatalogStrings :=
  Lib.Proto.Part.map (repeated .text 1)
    (fun items => { items }) (fun m => m.items) (fun m => m)

def CatalogWorkflowSummary.part (k : ℕ) :
    Part descriptor k .catalogWorkflowSummary CatalogWorkflowSummary :=
  Lib.Proto.Part.map
    (Part.and (implicit .int64 1) <| Part.and (implicit .int64 2) <|
     Part.and (implicit .int64 3) <| Part.and (implicit .int64 4) <|
     Part.and (implicit .int64 5) <| Part.and (implicit .int64 6) <|
     Part.and (implicit .int64 7) <| implicit .int64 8)
    (fun (running, waitingApproval, waitingInput, completed, failed, interrupted, stale,
          updatedAt) =>
      { running, waitingApproval, waitingInput, completed, failed, interrupted, stale, updatedAt })
    (fun m => (m.running, m.waitingApproval, m.waitingInput, m.completed, m.failed,
                 m.interrupted, m.stale, m.updatedAt)) (fun m => m)

def CatalogWorkflowNode.part (k : ℕ) :
    Part descriptor k .catalogWorkflowNode CatalogWorkflowNode :=
  Lib.Proto.Part.map
    (Part.and (implicit .text 1) <| Part.and (implicit .text 2) <|
     Part.and (implicit .text 3) <| Part.and (implicit .text 4) <|
     Part.and (implicit .text 5) <| Part.and (implicit .int64 6) <|
     Part.and (implicit .int64 7) <| implicit .int64 8)
    (fun (id, parentId, nodeType, provider, status, startedAt, updatedAt, endedAt) =>
      { id, parentId, nodeType, provider, status, startedAt, updatedAt, endedAt })
    (fun m => (m.id, m.parentId, m.nodeType, m.provider, m.status, m.startedAt, m.updatedAt,
                 m.endedAt)) (fun m => m)

def CatalogWorkflowNodes.part (k : ℕ) :
    Part descriptor k .catalogWorkflowNodes CatalogWorkflowNodes :=
  Lib.Proto.Part.map (list (CatalogWorkflowNode.part k) 1)
    (fun items => { items }) (fun m => m.items) (fun m => m)

def CatalogWorkflow.part (k : ℕ) : Part descriptor k .catalogWorkflow CatalogWorkflow :=
  Lib.Proto.Part.map
    (Part.and (implicit .text 1) <| Part.and (implicit .text 2) <|
     Part.and (implicit .text 3) <| Part.and (implicit .text 4) <|
     Part.and (implicit .text 5) <| Part.and (implicit .text 6) <|
     Part.and (implicit .int64 7) <| Part.and (implicit .int64 8) <|
     Part.and (implicit .int64 9) <| nested (CatalogWorkflowNodes.part k) 10)
    (fun (id, source, sessionId, turnId, status, model, startedAt, updatedAt, endedAt, nodes) =>
      { id, source, sessionId, turnId, status, model, startedAt, updatedAt, endedAt, nodes })
    (fun m => (m.id, m.source, m.sessionId, m.turnId, m.status, m.model, m.startedAt,
                 m.updatedAt, m.endedAt, m.nodes)) (fun m => m)

def CatalogWorkflows.part (k : ℕ) : Part descriptor k .catalogWorkflows CatalogWorkflows :=
  Lib.Proto.Part.map (list (CatalogWorkflow.part k) 1)
    (fun items => { items }) (fun m => m.items) (fun m => m)

def CatalogSession.part (k : ℕ) : Part descriptor k .catalogSession CatalogSession :=
  Lib.Proto.Part.map
    (Part.and (nested (Session.part k) 1) <| Part.and (implicit .text 2) <|
     Part.and (implicit .text 3) <| Part.and (implicit .bool 4) <|
     Part.and (nested (Session.part k) 5) <| Part.and (implicit .int64 6) <|
     Part.and (implicit .int64 7) <| Part.and (implicit .int64 8) <|
     Part.and (nested (CatalogStrings.part k) 9) <| Part.and (implicit .text 10) <|
     Part.and (implicit .text 11) <| Part.and (implicit .text 12) <|
     Part.and (implicit .text 13) <| Part.and (implicit .text 14) <|
     Part.and (nested (CatalogStrings.part k) 15) <| Part.and (implicit .text 16) <|
     Part.and (implicit .text 17) <| Part.and (implicit .text 18) <|
     Part.and (implicit .text 19) <| Part.and (implicit .text 20) <|
     Part.and (implicit .int64 21) <| Part.and (implicit .int64 22) <|
     Part.and (implicit .int64 23) <| Part.and (nested (CatalogWorkflowSummary.part k) 24) <|
     nested (CatalogWorkflows.part k) 25)
    (fun (identity, name, «alias», hidden, restoredFrom, activityAt, attachedClients,
          windowCount, windowNames, activeWindow, currentPath, currentCommand, profile, label,
          tags, kind, runtime, model, state, process, workingSince, width, height, workflow,
          workflows) =>
      { identity, name, «alias», hidden, restoredFrom, activityAt, attachedClients, windowCount,
        windowNames, activeWindow, currentPath, currentCommand, profile, label, tags, kind,
        runtime, model, state, process, workingSince, width, height, workflow, workflows })
    (fun m => (m.identity, m.name, m.«alias», m.hidden, m.restoredFrom, m.activityAt,
                 m.attachedClients, m.windowCount, m.windowNames, m.activeWindow, m.currentPath,
                 m.currentCommand, m.profile, m.label, m.tags, m.kind, m.runtime, m.model,
                 m.state, m.process, m.workingSince, m.width, m.height, m.workflow, m.workflows))
                 (fun m => m)

def CatalogSessions.part (k : ℕ) : Part descriptor k .catalogSessions CatalogSessions :=
  Lib.Proto.Part.map (list (CatalogSession.part k) 1)
    (fun items => { items }) (fun m => m.items) (fun m => m)

def CatalogHostMetrics.part (k : ℕ) : Part descriptor k .catalogHostMetrics CatalogHostMetrics :=
  Lib.Proto.Part.map
    (Part.and (implicit .text 1) <| Part.and (optDouble 2) <| Part.and (optDouble 3) <|
     Part.and (optional .uint64 4) <| Part.and (optional .uint64 5) <|
     Part.and (optional .uint64 6) <| optional .uint64 7)
    (fun (observedAt, cpuPercent, gpuPercent, memoryUsedBytes, memoryTotalBytes, diskUsedBytes,
          diskTotalBytes) =>
      { observedAt, cpuPercent, gpuPercent, memoryUsedBytes, memoryTotalBytes, diskUsedBytes,
        diskTotalBytes })
    (fun m => (m.observedAt, m.cpuPercent, m.gpuPercent, m.memoryUsedBytes, m.memoryTotalBytes,
                 m.diskUsedBytes, m.diskTotalBytes)) (fun m => m)

def CatalogSnapshot.part (k : ℕ) : Part descriptor k .catalogSnapshot CatalogSnapshot :=
  Lib.Proto.Part.map
    (Part.and (implicit .int64 1) <| Part.and (implicit .text 2) <|
     Part.and (nested (CatalogSessions.part k) 3) <| nested (CatalogHostMetrics.part k) 4)
    (fun (protocolVersion, generatedAt, sessions, hostMetrics) =>
      { protocolVersion, generatedAt, sessions, hostMetrics })
    (fun m => (m.protocolVersion, m.generatedAt, m.sessions, m.hostMetrics)) (fun m => m)

/-- A window as it arrives. -/
def UsageWindow.posZero (w : UsageWindow) : UsageWindow :=
  { w with usedPct := w.usedPct.posZero }

def UsageWindow.part (k : ℕ) : Part descriptor k .usageWindow UsageWindow :=
  Lib.Proto.Part.map
    (Part.and (double 1) <| Part.and (implicit .int64 2) <| optional .text 3)
    (fun (usedPct, remainingSeconds, resetsAt) => { usedPct, remainingSeconds, resetsAt })
    (fun m => (m.usedPct, m.remainingSeconds, m.resetsAt)) UsageWindow.posZero

def UsageStatus.part (k : ℕ) : Part descriptor k .usageStatus UsageStatus :=
  Lib.Proto.Part.map
    (Part.and (implicit .text 1) <| Part.and (implicit .text 2) <|
     Part.and (implicit .text 3) <| Part.and (implicit .bool 4) <|
     Part.and (optional .text 5) <| Part.and (optional .text 6) <| implicit .text 7)
    (fun (state, dataSource, quotaSource, stale, quotaObservedAt, retryAt, quotaWeighting) =>
      { state, dataSource, quotaSource, stale, quotaObservedAt, retryAt, quotaWeighting })
    (fun m => (m.state, m.dataSource, m.quotaSource, m.stale, m.quotaObservedAt, m.retryAt,
                 m.quotaWeighting)) (fun m => m)

/-- A window as it arrives. -/
def UsageAccountWindow.posZero (w : UsageAccountWindow) : UsageAccountWindow :=
  { w with usedPct := w.usedPct.posZero }

def UsageAccountWindow.part (k : ℕ) : Part descriptor k .usageAccountWindow UsageAccountWindow :=
  Lib.Proto.Part.map
    (Part.and (double 1) <| optional .text 2)
    (fun (usedPct, resetsAt) => { usedPct, resetsAt })
    (fun m => (m.usedPct, m.resetsAt)) UsageAccountWindow.posZero

/-- An account as it arrives. -/
def UsageAccount.posZero (a : UsageAccount) : UsageAccount :=
  { a with fiveHour := a.fiveHour.map UsageAccountWindow.posZero
           sevenDay := a.sevenDay.map UsageAccountWindow.posZero }

def UsageAccount.part (k : ℕ) : Part descriptor k .usageAccount UsageAccount :=
  Lib.Proto.Part.map
    (Part.and (implicit .int64 1) <| Part.and (implicit .text 2) <|
     Part.and (implicit .text 3) <| Part.and (implicit .bool 4) <|
     Part.and (implicit .text 5) <|
     Part.and (nestedZ (UsageAccountWindow.part k) UsageAccountWindow.posZero 6) <|
     Part.and (nestedZ (UsageAccountWindow.part k) UsageAccountWindow.posZero 7) <|
     Part.and (optDouble 8) <| Part.and (optional .int64 9) <| Part.and (optional .text 10) <|
     Part.and (implicit .text 11) <| optional .text 12)
    (fun (number, email, displayName, active, status, fiveHour, sevenDay, tokensPerHour,
          totalTokens, lastRefreshAt, planType, quotaObservedAt) =>
      { number, email, displayName, active, status, fiveHour, sevenDay, tokensPerHour,
        totalTokens, lastRefreshAt, planType, quotaObservedAt })
    (fun m => (m.number, m.email, m.displayName, m.active, m.status, m.fiveHour, m.sevenDay,
                 m.tokensPerHour, m.totalTokens, m.lastRefreshAt, m.planType, m.quotaObservedAt))
                 UsageAccount.posZero

def Completion.part (k : ℕ) : Part descriptor k .completion Completion :=
  Lib.Proto.Part.map
    (Part.and (implicit .text 1) <| Part.and (nested (Session.part k) 2) <| implicit .text 3)
    (fun (id, session, completedAt) => { id, session, completedAt })
    (fun m => (m.id, m.session, m.completedAt)) (fun m => m)

def FileHeader.part (k : ℕ) : Part descriptor k .fileHeader FileHeader :=
  Lib.Proto.Part.map
    (Part.and (implicit .uint32 1) <| Part.and (implicit .int64 2) <| implicit .text 3)
    (fun (index, size, extension) => { index, size, extension })
    (fun m => (m.index, m.size, m.extension)) (fun m => m)

def UploadHeader.part (k : ℕ) : Part descriptor k .uploadHeader UploadHeader :=
  Lib.Proto.Part.map
    (Part.and (implicit .uint32 1) <| Part.and (implicit .text 2) <|
     Part.and (nested (Session.part k) 3) <| Part.and (implicit .uint32 4) <|
     Part.and (implicit .int64 5) <| list (FileHeader.part k) 6)
    (fun (protocolVersion, requestId, session, fileCount, totalBytes, files) =>
      { protocolVersion, requestId, session, fileCount, totalBytes, files })
    (fun m => (m.protocolVersion, m.requestId, m.session, m.fileCount, m.totalBytes, m.files))
      (fun m => m)

def UploadStart.part (k : ℕ) : Part descriptor k .uploadStart UploadStart :=
  Lib.Proto.Part.map
    (Part.and (implicit .text 1) <| nested (UploadHeader.part k) 2)
    (fun (id, header) => { id, header }) (fun m => (m.id, m.header)) (fun m => m)

/-- A source; its snapshot is one level down. -/
def UsageSource.part {k : ℕ} (p : Part descriptor k .usageSnapshot UsageSnapshot)
    (hp : p.Covers) : Part descriptor (k + 1) .usageSource UsageSource :=
  Lib.Proto.Part.map (Part.and (implicit .text 1) <| messageSucc p hp (Option.map p.zero)
    (fun _ => rfl) 2)
    (fun (name, snapshot) => { name, snapshot }) (fun m => (m.name, m.snapshot))
    (fun m => { m with snapshot := m.snapshot.map p.zero })

/-- A snapshot as it arrives, its sources aside. -/
def UsageSnapshot.posZeroFlat (s : UsageSnapshot) : UsageSnapshot :=
  { s with burnRatePerMin := s.burnRatePerMin.posZero
           rolling5h := s.rolling5h.map UsageWindow.posZero
           weekly := s.weekly.map UsageWindow.posZero
           accounts := s.accounts.map UsageAccount.posZero }

/-- A snapshot with the given sources. -/
def UsageSnapshot.partOf {k : ℕ} (source : Part descriptor k .usageSource UsageSource)
    (hsource : source.Covers) : Part descriptor k .usageSnapshot UsageSnapshot :=
  Lib.Proto.Part.map
    (Part.and (implicit .int64 1) <| Part.and (implicit .int64 2) <|
     Part.and (implicit .text 3) <| Part.and (implicit .enum 4) <|
     Part.and (implicit .text 5) <| Part.and (double 6) <| Part.and (implicit .text 7) <|
     Part.and (implicit .int64 8) <| Part.and (implicit .int64 9) <|
     Part.and (nestedZ (UsageWindow.part k) UsageWindow.posZero 10) <|
     Part.and (nestedZ (UsageWindow.part k) UsageWindow.posZero 11) <|
     Part.and (implicit .bool 12) <| Part.and (implicit .bool 13) <|
     Part.and (nested (UsageStatus.part k) 14) <|
     Part.and (listZ (UsageAccount.part k) UsageAccount.posZero 15) <|
     Part.and (optional .text 16) <|
     messages source hsource (List.map source.zero) (fun _ => rfl) 17)
    (fun (schema, seq, generatedAtUtc, provider, planType, burnRatePerMin, burnState,
          todayTotalTokens, todaySessions, rolling5h, weekly, rolling5hObserved, weeklyObserved,
          status, accounts, accountsUpdatedAt, sources) =>
      { schema, seq, generatedAtUtc, provider, planType, burnRatePerMin, burnState,
        todayTotalTokens, todaySessions, rolling5h, weekly, rolling5hObserved, weeklyObserved,
        status, accounts, accountsUpdatedAt, sources })
    (fun m => (m.schema, m.seq, m.generatedAtUtc, m.provider, m.planType, m.burnRatePerMin,
               m.burnState, m.todayTotalTokens, m.todaySessions, m.rolling5h, m.weekly,
               m.rolling5hObserved, m.weeklyObserved, m.status, m.accounts, m.accountsUpdatedAt,
               m.sources))
    (fun m => { m.posZeroFlat with sources := m.sources.map source.zero })
    (fun _ => rfl) (fun ⟨_, _, _, _, _, _, _, _, _, _, _, _, _, _, _, _, _⟩ => rfl)

/-- A snapshot; `k` levels are looked into, and the reader allows no more than a hundred. -/
def UsageSnapshot.message :
    (k : ℕ) → { p : Part descriptor k .usageSnapshot UsageSnapshot // p.Covers }
  | 0 => ⟨cut ((rows .usageSnapshot).map Prod.fst) default, covers_rows rfl⟩
  | k + 1 =>
    ⟨UsageSnapshot.partOf (UsageSource.part (message k).1 (message k).2) (covers_rows rfl),
      covers_rows rfl⟩

/-- A snapshot. -/
def UsageSnapshot.part (k : ℕ) : Part descriptor k .usageSnapshot UsageSnapshot := (message k).1

/-- A snapshot as it arrives.  Sources are one level deep in a valid snapshot. -/
def UsageSnapshot.posZero (s : UsageSnapshot) : UsageSnapshot :=
  { s.posZeroFlat with
    sources := s.sources.map fun source =>
      { source with snapshot := source.snapshot.map posZeroFlat } }

/-- Without sources below its sources, a snapshot has no other zeros. -/
theorem UsageSnapshot.part_zero {s : UsageSnapshot}
    (h : ∀ source ∈ s.sources, ∀ c, source.snapshot = some c → c.sources = []) (k : ℕ) :
    (part (k + 2)).zero s = s.posZero := by
  have hchild : ∀ c : UsageSnapshot, c.sources = [] → (part (k + 1)).zero c = c.posZeroFlat := by
    rintro ⟨⟩ hc
    dsimp only at hc
    subst hc
    rfl
  have hsources : s.sources.map (fun source =>
        ({ source with snapshot := source.snapshot.map (part (k + 1)).zero } : UsageSource))
      = s.sources.map fun source =>
        { source with snapshot := source.snapshot.map posZeroFlat } := by
    refine List.map_congr_left fun source hsource => ?_
    cases hs : source.snapshot with
    | none => rfl
    | some c => rw [Option.map_some, Option.map_some, hchild c (h source hsource c hs)]
  exact congrArg (fun l => ({ s.posZeroFlat with sources := l } : UsageSnapshot)) hsources

/-- A body as it arrives. -/
def EnvelopeBody.zero (k : ℕ) : EnvelopeBody → EnvelopeBody
  | .usage m => .usage ((UsageSnapshot.part k).zero m)
  | body => body

/-- `envelope::Body`. -/
def EnvelopeBody.choice (k : ℕ) : Part.Choice descriptor k .envelope EnvelopeBody where
  tags := [10, 11, 12, 13, 14, 15, 16, 17, 18, 19, 20, 21, 22, 25, 26, 27, 28, 29, 30, 31, 32,
           33, 34, 35, 36]
  read t w :=
    match t with
    | 10 => some (.hello ((Hello.part k).get w))
    | 11 => some (.request ((Request.part k).get w))
    | 12 => some (.response ((Response.part k).get w))
    | 13 => some (.terminalOpen ((TerminalOpen.part k).get w))
    | 14 => some (.terminalInput ((Data.part k).get w))
    | 15 => some (.terminalOutput ((Data.part k).get w))
    | 16 => some (.resize ((Resize.part k).get w))
    | 17 => some (.close ((Reference.part k).get w))
    | 18 => some (.cancel ((Reference.part k).get w))
    | 19 => some (.outputAck ((Ack.part k).get w))
    | 20 => some (.terminalExit ((Response.part k).get w))
    | 21 => some (.refresh ((Reference.part k).get w))
    | 22 => some (.refreshResult ((Response.part k).get w))
    | 25 => some (.usageUnavailable ((Empty.part k).get w))
    | 26 => some (.taskComplete ((Completion.part k).get w))
    | 27 => some (.uploadStart ((UploadStart.part k).get w))
    | 28 => some (.uploadData ((Data.part k).get w))
    | 29 => some (.uploadFinish ((Reference.part k).get w))
    | 30 => some (.uploadCancel ((Reference.part k).get w))
    | 31 => some (.uploadReady ((Reference.part k).get w))
    | 32 => some (.uploadAck ((Ack.part k).get w))
    | 33 => some (.uploadComplete ((Response.part k).get w))
    | 34 => some (.uploadError ((Response.part k).get w))
    | 35 => some (.catalog ((CatalogSnapshot.part k).get w))
    | 36 => some (.usage ((UsageSnapshot.part k).get w))
    | _ => none
  write
    | .hello m => (10, (Hello.part k).put m)
    | .request m => (11, (Request.part k).put m)
    | .response m => (12, (Response.part k).put m)
    | .terminalOpen m => (13, (TerminalOpen.part k).put m)
    | .terminalInput m => (14, (Data.part k).put m)
    | .terminalOutput m => (15, (Data.part k).put m)
    | .resize m => (16, (Resize.part k).put m)
    | .close m => (17, (Reference.part k).put m)
    | .cancel m => (18, (Reference.part k).put m)
    | .outputAck m => (19, (Ack.part k).put m)
    | .terminalExit m => (20, (Response.part k).put m)
    | .refresh m => (21, (Reference.part k).put m)
    | .refreshResult m => (22, (Response.part k).put m)
    | .usageUnavailable m => (25, (Empty.part k).put m)
    | .taskComplete m => (26, (Completion.part k).put m)
    | .uploadStart m => (27, (UploadStart.part k).put m)
    | .uploadData m => (28, (Data.part k).put m)
    | .uploadFinish m => (29, (Reference.part k).put m)
    | .uploadCancel m => (30, (Reference.part k).put m)
    | .uploadReady m => (31, (Reference.part k).put m)
    | .uploadAck m => (32, (Ack.part k).put m)
    | .uploadComplete m => (33, (Response.part k).put m)
    | .uploadError m => (34, (Response.part k).put m)
    | .catalog m => (35, (CatalogSnapshot.part k).put m)
    | .usage m => (36, (UsageSnapshot.part k).put m)
  zero := EnvelopeBody.zero k
  write_tag a := by cases a <;> simp
  read_write a := by cases a <;> simp only [get_put] <;> rfl
  write_zero a := by
    cases a with
    | usage m => exact congrArg (Prod.mk 36) ((UsageSnapshot.part k).put_zero m)
    | _ => rfl
  normal t ht := by
    simp only [List.mem_cons, List.not_mem_nil, or_false] at ht
    rcases ht with rfl | rfl | rfl | rfl | rfl | rfl | rfl | rfl | rfl | rfl | rfl | rfl |
      rfl | rfl | rfl | rfl | rfl | rfl | rfl | rfl | rfl | rfl | rfl | rfl | rfl
    all_goals
      refine ⟨_, rfl, fun w => ⟨_, rfl, rfl, fun n hn h => ?_⟩⟩
      dsimp only
      first
        | exact (UsageSnapshot.message k).2.normal hn h
        | refine Covers.normal (covers_rows ?_) hn h
          rfl

/-- A message of the Home connection. -/
def Envelope.part (k : ℕ) : Part descriptor k .envelope Envelope :=
  Lib.Proto.Part.map (Part.and (implicit .uint32 1) <|
      oneof (EnvelopeBody.choice k) (Option.map (EnvelopeBody.zero k)) (fun _ => rfl))
    (fun (version, body) => { version, body }) (fun m => (m.version, m.body))
    (fun m => { m with body := m.body.map (EnvelopeBody.zero k) })

/-- A body as it arrives. -/
def EnvelopeBody.posZero : EnvelopeBody → EnvelopeBody
  | .usage m => .usage m.posZero
  | body => body

/-- A message as it arrives: the negative zeros that are not sent arrive as zeros. -/
def Envelope.posZero (m : Envelope) : Envelope := { m with body := m.body.map EnvelopeBody.posZero }

theorem Envelope.covers (k : ℕ) : (part k).Covers := covers_rows rfl

end Hmux.Pb
