import Hmux.Protocol.Flow
import Hmux.Protocol.Messages
import Hmux.Usage.Model

namespace Hmux.Protocol

open Lib.Proto Pb

/-!
# The preflight of a frame

Before a frame of the protobuf transport is handed to the generated decoder, and again after
it was encoded, `scan` walks over its bytes with a table of its own (`field`): every tag must
be known, repeat at most as often as the table says and be of the expected wire type, numbers
must be in range, texts valid and within their limit, and the tree that the decoder would
build must fit a budget.
-/

/-! ### Limits

The constants of the source, and what only a compiler and an allocator know. -/

/-- `wire::MAX_MESSAGE`. -/
def maxMessage : ℕ := 4194304

/-- `wire::MAX_DATA`. -/
def maxData : ℕ := 32768

/-- `wire::MAX_UPLOAD_CHUNK`. -/
def maxUploadChunk : ℕ := 262144

/-- `snapshots::MAX_CATALOG_SESSIONS`. -/
def maxCatalogSessions : ℕ := 10000

/-- `snapshots::MAX_CATALOG_WINDOWS`. -/
def maxCatalogWindows : ℕ := 100000

/-- `snapshots::MAX_CATALOG_TAGS`. -/
def maxCatalogTags : ℕ := 64

/-- `snapshots::MAX_WORKFLOWS`. -/
def maxWorkflows : ℕ := 1024

/-- `snapshots::MAX_WORKFLOW_NODES`. -/
def maxWorkflowNodes : ℕ := 128

/-- `snapshots::MAX_DECODED_SNAPSHOT_BYTES`. -/
def maxDecodedSnapshotBytes : ℕ := 16777216

/-- `snapshots::MAX_CATALOG_TEXT`. -/
def maxCatalogText : ℕ := 4096

/-- `snapshots::MAX_CATALOG_BYTES`. -/
def maxCatalogBytes : ℕ := 4194304

/-- `snapshots::MAX_USAGE_BYTES`. -/
def maxUsageBytes : ℕ := 1048576

/-- `protobuf::Error`. -/
inductive Error
  | size | malformed | unsupported | direction | fields
  deriving DecidableEq

/-- What the compiler and the allocator decide: the size of a message type and of a `String`,
    and the capacity of a text or list of a given length that was just decoded. -/
structure Layout where
  sizeOf : Name → ℕ
  sizeOfString : ℕ
  stringCapacity : ℕ → ℕ
  vecCapacity : ℕ → ℕ

/-! ### The table

The same message may appear under several schemas, when its place decides how long it may be. -/

/-- The messages, some with the limits of their place. -/
inductive Schema
  | envelope | hello | request | response | «open» | data (max : ℕ) | resize | reference | ack
  | catalog | catalogSessions | catalogSession | catalogStrings (max : ℕ) | catalogMetrics
  | workflowSummary | workflows | workflow | workflowNodes | workflowNode
  | usage (child : Bool) | usageSource | usageWindow | usageAccountWindow | usageStatus
  | usageAccount | empty | completion | uploadStart | uploadHeader | file | session
  | createRequest | aliasRequest | hiddenRequest | workspaceRequest | workspaceChange
  | providerKeyRequest | providerJobRequest | profile | profilesResult | createdResult
  | conversationResult | conversationMessages | conversationMessage | workspaceSnapshot
  | providerResult | providerStatuses | providerStatus | providerJobStatus | stageResult
  | stageFile
  deriving DecidableEq

/-- What a field may hold. -/
inductive Field
  | uint32 | uint64 | bool | double | int64 | enum
  | text (max : ℕ)
  | blob (max : ℕ)
  | nested (schema : Schema)

/-- The fields of an envelope. -/
def envelopeField : ℕ → Option (Field × ℕ)
  | 1 => some (.uint32, 1)
  | 10 => some (.nested .hello, 1)
  | 11 => some (.nested .request, 1)
  | 12 | 20 | 22 | 33 | 34 => some (.nested .response, 1)
  | 13 => some (.nested .open, 1)
  | 14 => some (.nested (.data maxData), 1)
  | 15 => some (.nested (.data Flow.chunk), 1)
  | 16 => some (.nested .resize, 1)
  | 17 | 18 | 21 | 29 | 30 | 31 => some (.nested .reference, 1)
  | 19 | 32 => some (.nested .ack, 1)
  | 25 => some (.nested .empty, 1)
  | 26 => some (.nested .completion, 1)
  | 27 => some (.nested .uploadStart, 1)
  | 28 => some (.nested (.data maxUploadChunk), 1)
  | 35 => some (.nested .catalog, 1)
  | 36 => some (.nested (.usage false), 1)
  | _ => none

/-- The fields of a usage snapshot; a child has no sources. -/
def usageField (child : Bool) : ℕ → Option (Field × ℕ)
  | 1 | 2 | 8 | 9 => some (.int64, 1)
  | 3 | 16 => some (.text 128, 1)
  | 4 => some (.enum, 1)
  | 5 | 7 => some (.text 32, 1)
  | 6 => some (.double, 1)
  | 10 | 11 => some (.nested .usageWindow, 1)
  | 12 | 13 => some (.bool, 1)
  | 14 => some (.nested .usageStatus, 1)
  | 15 => some (.nested .usageAccount, Usage.maxAccounts)
  | 17 => if child then none else some (.nested .usageSource, 2)
  | _ => none

/-- `field`: the kind of a field and how often it may occur, one message at a time. -/
def field (schema : Schema) (tag : ℕ) : Option (Field × ℕ) :=
  match schema with
  | .envelope => envelopeField tag
  | .hello =>
    match tag with
    | 1 => some (.text 64, 16)
    | _ => none
  | .request =>
    match tag with
    | 1 => some (.text 64, 1)
    | 2 => some (.enum, 1)
    | 3 => some (.nested .session, 1)
    | 10 => some (.nested .empty, 1)
    | 11 => some (.nested .createRequest, 1)
    | 12 => some (.nested .aliasRequest, 1)
    | 13 => some (.nested .hiddenRequest, 1)
    | 14 => some (.nested .workspaceRequest, 1)
    | 15 => some (.nested .providerKeyRequest, 1)
    | 16 => some (.nested .providerJobRequest, 1)
    | _ => none
  | .response =>
    match tag with
    | 1 => some (.text 64, 1)
    | 3 => some (.text 128, 1)
    | 10 => some (.nested .profilesResult, 1)
    | 11 => some (.nested .createdResult, 1)
    | 12 => some (.nested .empty, 1)
    | 13 => some (.nested .conversationResult, 1)
    | 14 => some (.nested .workspaceSnapshot, 1)
    | 15 => some (.nested .providerResult, 1)
    | 16 => some (.nested .stageResult, 1)
    | _ => none
  | .open =>
    match tag with
    | 1 => some (.text 64, 1)
    | 2 => some (.nested .session, 1)
    | 3 | 4 => some (.uint32, 1)
    | 5 => some (.text 64, 16)
    | _ => none
  | .data max =>
    match tag with
    | 1 => some (.text 64, 1)
    | 2 => some (.blob max, 1)
    | _ => none
  | .resize =>
    match tag with
    | 1 => some (.text 64, 1)
    | 2 | 3 => some (.uint32, 1)
    | _ => none
  | .reference =>
    match tag with
    | 1 => some (.text 64, 1)
    | _ => none
  | .ack =>
    match tag with
    | 1 => some (.text 64, 1)
    | 2 => some (.int64, 1)
    | _ => none
  | .session =>
    match tag with
    | 1 => some (.text 64, 1)
    | 2 => some (.int64, 1)
    | _ => none
  | .completion =>
    match tag with
    | 1 => some (.text 64, 1)
    | 2 => some (.nested .session, 1)
    | 3 => some (.text 64, 1)
    | _ => none
  | .uploadStart =>
    match tag with
    | 1 => some (.text 64, 1)
    | 2 => some (.nested .uploadHeader, 1)
    | _ => none
  | .createRequest =>
    match tag with
    | 1 | 2 => some (.text 16384, 1)
    | 3 => some (.bool, 1)
    | _ => none
  | .aliasRequest =>
    match tag with
    | 1 => some (.text 16384, 1)
    | _ => none
  | .hiddenRequest =>
    match tag with
    | 1 => some (.bool, 1)
    | _ => none
  | .workspaceRequest =>
    match tag with
    | 1 => some (.nested .workspaceChange, 1)
    | _ => none
  | .workspaceChange =>
    match tag with
    | 1 => some (.text 80, 1)
    | 2 => some (.uint64, 1)
    | 3 | 4 => some (.nested .session, 32)
    | 5 => some (.nested .session, 1)
    | _ => none
  | .providerKeyRequest =>
    match tag with
    | 1 => some (.text 64, 1)
    | 2 => some (.text 16384, 1)
    | _ => none
  | .providerJobRequest =>
    match tag with
    | 1 | 2 => some (.text 64, 1)
    | 3 => some (.text 16384, 1)
    | _ => none
  | .profile =>
    match tag with
    | 1 | 2 => some (.text 256, 1)
    | _ => none
  | .profilesResult =>
    match tag with
    | 1 => some (.nested .profile, (maxMessage - 512) / 19)
    | _ => none
  | .createdResult =>
    match tag with
    | 1 => some (.text 64, 1)
    | 2 => some (.int64, 1)
    | 3 => some (.bool, 1)
    | _ => none
  | .conversationResult =>
    match tag with
    | 1 | 2 | 4 => some (.text 64, 1)
    | 3 => some (.int64, 1)
    | 5 => some (.nested .conversationMessages, 1)
    | 6 => some (.bool, 1)
    | _ => none
  | .conversationMessages =>
    match tag with
    | 1 => some (.nested .conversationMessage, 200)
    | _ => none
  | .conversationMessage =>
    match tag with
    | 1 | 2 => some (.text 128, 1)
    | 3 => some (.text 524288, 1)
    | _ => none
  | .workspaceSnapshot =>
    match tag with
    | 1 => some (.text 32, 1)
    | 2 => some (.text 80, 64)
    | 3 => some (.int64, 1)
    | 4 => some (.bool, 1)
    | 5 => some (.uint64, 1)
    | 6 => some (.nested .session, 32)
    | 7 => some (.nested .session, 1)
    | _ => none
  | .providerResult =>
    match tag with
    | 1 => some (.nested .providerStatuses, 1)
    | 2 => some (.nested .providerJobStatus, 1)
    | 3 => some (.text 128, 1)
    | _ => none
  | .providerStatuses =>
    match tag with
    | 1 => some (.nested .providerStatus, 16)
    | _ => none
  | .providerStatus =>
    match tag with
    | 1 | 2 | 4 | 6 | 7 | 8 => some (.text 256, 1)
    | 3 | 5 => some (.bool, 1)
    | _ => none
  | .providerJobStatus =>
    match tag with
    | 1 => some (.text 64, 1)
    | 2 | 3 => some (.text 1024, 1)
    | 4 => some (.bool, 1)
    | 5 => some (.text 1024, 12)
    | _ => none
  | .stageResult =>
    match tag with
    | 1 => some (.uint32, 1)
    | 2 | 3 => some (.text 64, 1)
    | 4 => some (.nested .session, 1)
    | 5 => some (.int64, 1)
    | 6 => some (.nested .stageFile, 16)
    | _ => none
  | .stageFile =>
    match tag with
    | 1 => some (.uint32, 1)
    | 2 => some (.text 4096, 1)
    | 3 => some (.int64, 1)
    | 4 => some (.text 64, 1)
    | _ => none
  | .uploadHeader =>
    match tag with
    | 1 | 4 => some (.uint32, 1)
    | 2 => some (.text 32, 1)
    | 3 => some (.nested .session, 1)
    | 5 => some (.int64, 1)
    | 6 => some (.nested .file, 16)
    | _ => none
  | .file =>
    match tag with
    | 1 => some (.uint32, 1)
    | 2 => some (.int64, 1)
    | 3 => some (.text 16, 1)
    | _ => none
  | .catalog =>
    match tag with
    | 1 => some (.int64, 1)
    | 2 => some (.text 128, 1)
    | 3 => some (.nested .catalogSessions, 1)
    | 4 => some (.nested .catalogMetrics, 1)
    | _ => none
  | .catalogMetrics =>
    match tag with
    | 1 => some (.text maxCatalogBytes, 1)
    | 2 | 3 => some (.double, 1)
    | 4 | 5 | 6 | 7 => some (.uint64, 1)
    | _ => none
  | .catalogSessions =>
    match tag with
    | 1 => some (.nested .catalogSession, maxCatalogSessions)
    | _ => none
  | .catalogSession =>
    match tag with
    | 1 | 5 => some (.nested .session, 1)
    | 4 => some (.bool, 1)
    | 6 | 7 | 8 | 21 | 22 | 23 => some (.int64, 1)
    | 9 => some (.nested (.catalogStrings maxCatalogWindows), 1)
    | 15 => some (.nested (.catalogStrings maxCatalogTags), 1)
    | 24 => some (.nested .workflowSummary, 1)
    | 25 => some (.nested .workflows, 1)
    | 2 | 3 | 10 | 11 | 12 | 13 | 14 | 16 | 17 | 18 | 19 | 20 => some (.text maxCatalogText, 1)
    | _ => none
  | .catalogStrings max =>
    match tag with
    | 1 => some (.text maxCatalogText, max)
    | _ => none
  | .workflowSummary =>
    match tag with
    | 1 | 2 | 3 | 4 | 5 | 6 | 7 | 8 => some (.int64, 1)
    | _ => none
  | .workflows =>
    match tag with
    | 1 => some (.nested .workflow, maxWorkflows)
    | _ => none
  | .workflow =>
    match tag with
    | 1 | 2 | 3 | 4 | 5 | 6 => some (.text maxCatalogText, 1)
    | 7 | 8 | 9 => some (.int64, 1)
    | 10 => some (.nested .workflowNodes, 1)
    | _ => none
  | .workflowNodes =>
    match tag with
    | 1 => some (.nested .workflowNode, maxWorkflowNodes)
    | _ => none
  | .workflowNode =>
    match tag with
    | 1 | 2 | 3 | 4 | 5 => some (.text maxCatalogText, 1)
    | 6 | 7 | 8 => some (.int64, 1)
    | _ => none
  | .usage child => usageField child tag
  | .usageSource =>
    match tag with
    | 1 => some (.text 16, 1)
    | 2 => some (.nested (.usage true), 1)
    | _ => none
  | .usageWindow =>
    match tag with
    | 1 => some (.double, 1)
    | 2 => some (.int64, 1)
    | 3 => some (.text 128, 1)
    | _ => none
  | .usageAccountWindow =>
    match tag with
    | 1 => some (.double, 1)
    | 2 => some (.text 128, 1)
    | _ => none
  | .usageStatus =>
    match tag with
    | 1 => some (.text 64, 1)
    | 2 | 3 | 5 | 6 => some (.text 128, 1)
    | 4 => some (.bool, 1)
    | 7 => some (.text 32, 1)
    | _ => none
  | .usageAccount =>
    match tag with
    | 1 | 9 => some (.int64, 1)
    | 2 | 3 => some (.text 256, 1)
    | 4 => some (.bool, 1)
    | 5 => some (.text 64, 1)
    | 6 | 7 => some (.nested .usageAccountWindow, 1)
    | 8 => some (.double, 1)
    | 10 | 12 => some (.text 128, 1)
    | 11 => some (.text 32, 1)
    | _ => none
  | .empty => none

/-! ### The walk

The walk counts every tag of the current message and charges what the decoder would allocate; it
goes down one level at a time. -/

section

variable (L : Layout)

/-- `tree_cost`: what the decoder allocates for a message of the larger trees. -/
def treeCost : Schema → ℕ
  | .catalog => L.sizeOf .catalogSnapshot
  | .catalogSessions => L.sizeOf .catalogSessions
  | .catalogSession => L.sizeOf .catalogSession
  | .catalogStrings _ => L.sizeOf .catalogStrings
  | .catalogMetrics => L.sizeOf .catalogHostMetrics
  | .workflowSummary => L.sizeOf .catalogWorkflowSummary
  | .workflows => L.sizeOf .catalogWorkflows
  | .workflow => L.sizeOf .catalogWorkflow
  | .workflowNodes => L.sizeOf .catalogWorkflowNodes
  | .workflowNode => L.sizeOf .catalogWorkflowNode
  | .usage _ => L.sizeOf .usageSnapshot
  | .usageSource => L.sizeOf .usageSource
  | .usageWindow => L.sizeOf .usageWindow
  | .usageAccountWindow => L.sizeOf .usageAccountWindow
  | .usageStatus => L.sizeOf .usageStatus
  | .usageAccount => L.sizeOf .usageAccount
  | .profilesResult => L.sizeOf .profilesResult
  | .profile => L.sizeOf .profile
  | .conversationResult => L.sizeOf .conversationResult
  | .conversationMessages => L.sizeOf .conversationMessages
  | .conversationMessage => L.sizeOf .conversationMessage
  | .workspaceSnapshot => L.sizeOf .workspaceSnapshot
  | .workspaceChange => L.sizeOf .workspaceChange
  | .providerResult => L.sizeOf .providerResult
  | .providerStatuses => L.sizeOf .providerStatuses
  | .providerStatus => L.sizeOf .providerStatus
  | .providerJobStatus => L.sizeOf .providerJobStatus
  | .stageResult => L.sizeOf .stageResult
  | .stageFile => L.sizeOf .stageFile
  | _ => 0

/-- `charge`. -/
def charge (budget bytes : ℕ) : Except Error ℕ :=
  if budget < bytes then .error .size else .ok (budget - bytes)

/-- `counts`, `bodies` and `oneof`: what was seen of the current message. -/
structure Seen where
  counts : ℕ → ℕ
  bodies : ℕ
  oneof : ℕ

/-- Nothing was seen. -/
def Seen.empty : Seen := { counts := fun _ => 0, bodies := 0, oneof := 0 }

/-- Count one more field. -/
def Seen.next (seen : Seen) (schema : Schema) (tag limit : ℕ) : Except Error Seen :=
  if 37 ≤ tag then .error .fields
  else if limit < seen.counts tag + 1 then .error .fields
  else if schema = .envelope ∧ 10 ≤ tag ∧ 1 < seen.bodies + 1 then .error .fields
  else if (schema = .request ∨ schema = .response) ∧ 10 ≤ tag ∧ 1 < seen.oneof + 1 then
    .error .fields
  else
    .ok { counts := Function.update seen.counts tag (seen.counts tag + 1)
          bodies := if schema = .envelope ∧ 10 ≤ tag then seen.bodies + 1 else seen.bodies
          oneof := if (schema = .request ∨ schema = .response) ∧ 10 ≤ tag then seen.oneof + 1
            else seen.oneof }

/-- A number of a field is in the range of its type. -/
def Field.holds : Field → ℕ → Bool
  | .uint32, value => value < 2 ^ 32
  | .enum, value => value < 2 ^ 31
  | .bool, value => value < 2
  | _, _ => true

/-- The value of one field; what is left of the input and of the budget. -/
def scanValue (scan : Schema → List UInt8 → ℕ → Except Error ℕ) (kind : Field) (limit : ℕ)
    (wire : WireType) (raw : List UInt8) (budget : ℕ) : Except Error (List UInt8 × ℕ) :=
  match kind with
  | .uint32 | .uint64 | .int64 | .enum | .bool =>
    if wire ≠ .varint then .error .malformed
    else
      match decodeVarint raw with
      | none => .error .malformed
      | some (value, rest) => if kind.holds value then .ok (rest, budget) else .error .fields
  | .double =>
    if wire ≠ .sixtyFourBit ∨ raw.length < 8 then .error .malformed
    else .ok (raw.drop 8, budget)
  | .text max =>
    if wire ≠ .lengthDelimited then .error .malformed
    else
      match readBytes raw with
      | none => .error .malformed
      | some (part, rest) =>
        match charge budget (part.length + if 1 < limit then 2 * L.sizeOfString else 0) with
        | .error e => .error e
        | .ok budget =>
          if max < part.length ∨ (utf8 part).isNone then .error .fields else .ok (rest, budget)
  | .blob max =>
    if wire ≠ .lengthDelimited then .error .malformed
    else
      match readBytes raw with
      | none => .error .malformed
      | some (part, rest) => if max < part.length then .error .size else .ok (rest, budget)
  | .nested schema =>
    if wire ≠ .lengthDelimited then .error .malformed
    else
      match readBytes raw with
      | none => .error .malformed
      | some (part, rest) =>
        match scan schema part budget with
        | .error e => .error e
        | .ok budget => .ok (rest, budget)

/-- The fields of one message.  Each takes a byte at least, so `fuel` need not exceed the length
    of the input. -/
def scanFields (scan : Schema → List UInt8 → ℕ → Except Error ℕ) (schema : Schema) :
    ℕ → Seen → List UInt8 → ℕ → Except Error ℕ
  | _, _, [], budget => .ok budget
  | 0, _, _ :: _, _ => .error .malformed
  | fuel + 1, seen, b :: raw, budget =>
    match decodeKey (b :: raw) with
    | none => .error .malformed
    | some (tag, wire, rest) =>
      match field schema tag with
      | none => .error .unsupported
      | some (kind, limit) =>
        match seen.next schema tag limit with
        | .error e => .error e
        | .ok seen =>
          match scanValue L scan kind limit wire rest budget with
          | .error e => .error e
          | .ok (rest, budget) => scanFields scan schema fuel seen rest budget

/-- The longest encoding of a message, where it has a limit of its own. -/
def Schema.maxBytes : Schema → Option ℕ
  | .catalog => some maxCatalogBytes
  | .usage _ => some maxUsageBytes
  | _ => none

/-- What is charged for a message itself. -/
def Schema.charge (schema : Schema) : ℕ := min (2 * treeCost L schema) (2 ^ 64 - 1)

/-- `scan` with `levels` levels left, the message itself included. -/
def scanLevels : ℕ → Schema → List UInt8 → ℕ → Except Error ℕ
  | 0, _, _, _ => .error .fields
  | levels + 1, schema, raw, budget =>
    if schema.maxBytes.any (· < raw.length) then .error .size
    else
      match Protocol.charge budget (schema.charge L) with
      | .error e => .error e
      | .ok budget => scanFields L (scanLevels levels) schema raw.length .empty raw budget

/-- `scan`: depths 0 to 12 are allowed. -/
def scan (raw : List UInt8) (schema : Schema) (depth budget : ℕ) : Except Error ℕ :=
  scanLevels L (13 - depth) schema raw budget

end

end Hmux.Protocol
