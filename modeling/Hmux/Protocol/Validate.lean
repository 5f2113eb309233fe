import Hmux.Protocol.Snapshots
import Hmux.Workspace.Snapshot

namespace Hmux.Protocol

open Lib Pb

/-!
# What a message must satisfy

`protobuf::validate` and the checks of actions and their results that it uses: every message
of either transport passes it when it arrives and before it is sent.
-/

/-! ### Limits

The limits of the kinds of payloads, in bytes. -/

/-- `actions::ACTION_MAX`. -/
def actionMax : ℕ := 16384

/-- `actions::CONVERSATION_MAX`. -/
def conversationMax : ℕ := 2097152

/-- `actions::STAGE_MAX`. -/
def stageMax : ℕ := 65536

/-- `actions::PROFILES_MAX`. -/
def profilesMax : ℕ := maxMessage - 512

/-- `actions::MAX_PROFILE_ITEMS`. -/
def maxProfileItems : ℕ := profilesMax / 19

/-! ### Requests

The payload must be that of the operation, its texts are bounded, and an edit of the tabs must be
one that can be merged. -/

/-- `to_session`. -/
def toSession (v : SessionIdentity) : Pb.Session := ⟨v.id, v.createdAt⟩

/-- `from_session`. -/
def fromSession (v : Pb.Session) : SessionIdentity := ⟨v.id, v.createdAt⟩

/-- `workspace_change_from_proto`. -/
def workspaceChangeFromProto (v : Pb.WorkspaceChange) : Except Error Workspace.Change :=
  let change : Workspace.Change :=
    { operationId := v.operationId, revision := v.revision, base := v.base.map fromSession,
      tabs := v.tabs.map fromSession, selected := v.selected.map fromSession }
  if change.valid then .ok change else .error .fields

/-- The payload is the one of the operation. -/
def payloadMatches : Operation → Option RequestPayload → Bool
  | .profiles, some (.empty _) => true
  | .conversation, some (.empty _) => true
  | .providers, some (.empty _) => true
  | .create, some (.create _) => true
  | .«alias», some (.«alias» _) => true
  | .hidden, some (.hidden _) => true
  | .workspace, some (.workspace _) => true
  | .providerKey, some (.providerKey _) => true
  | .providerJobStart, some (.providerJob _) => true
  | .providerJob, some (.providerJob _) => true
  | .providerJobInput, some (.providerJob _) => true
  | .providerJobCancel, some (.providerJob _) => true
  | _, _ => false

/-- The payload is not too large, and an edit of the tabs is valid. -/
def payloadLimits : RequestPayload → Except Error Unit
  | .create x => require ((x.profile.map len).getD 0 +
      (x.name.map len).getD 0 ≤ actionMax - 32) .size
  | .«alias» x => require (x.«alias».all fun s => len s ≤ actionMax - 16) .size
  | .workspace x => require (x.change.all fun c => (workspaceChangeFromProto c).isOk) .fields
  | .providerKey x => require (len x.provider + len x.key ≤ actionMax) .size
  | .providerJob x => require (len x.provider + len x.action + len x.text ≤ actionMax) .size
  | .empty _ | .hidden _ => .ok ()

/-- `validate_request`. -/
def validateRequest (v : Request) : Except Error Unit :=
  match Operation.ofInt32 v.operation with
  | none => .error .unsupported
  | some op =>
    if !payloadMatches op v.payload then .error .fields
    else if (op = .«alias» ∨ op = .hidden ∨ op = .conversation) ∧ v.session = none then
      .error .fields
    else
      match v.payload with
      | none => .error .fields
      | some payload => payloadLimits payload

/-- What a request that passes has. -/
theorem validateRequest_ok {v : Request} (h : validateRequest v = .ok ()) :
    ∃ op payload, Operation.ofInt32 v.operation = some op ∧ v.payload = some payload ∧
      payloadMatches op (some payload) = true ∧ (op = .conversation → v.session ≠ none) ∧
      payloadLimits payload = .ok () := by
  unfold validateRequest at h
  cases hop : Operation.ofInt32 v.operation with
  | none => rw [hop] at h; cases h
  | some op =>
    rw [hop] at h
    dsimp only at h
    split at h
    · cases h
    · rename_i hmatches
      split at h
      · cases h
      · rename_i hsession
        cases hpayload : v.payload with
        | none => rw [hpayload] at h; cases h
        | some payload =>
          rw [hpayload] at h hmatches
          rw [Bool.not_eq_true', Bool.not_eq_false] at hmatches
          exact ⟨op, payload, rfl, rfl, hmatches, fun heq hnone =>
            hsession ⟨.inr (.inr heq), hnone⟩, h⟩

/-! ### Responses

A response has a result or an error; what it keeps in memory is computed from the capacities of its
parts. -/

/-- `workspace_from_proto`. -/
def workspaceFromProto (v : Pb.WorkspaceSnapshot) : Except Error Workspace.Snapshot :=
  let snapshot : Workspace.Snapshot :=
    { conflict := v.conflict, applied := v.applied, version := v.version,
      initialized := v.initialized, revision := v.revision, tabs := v.tabs.map fromSession,
      selected := v.selected.map fromSession }
  if snapshot.valid then .ok snapshot else .error .fields

section

variable (L : Layout)

/-- The capacity of a text. -/
def textCapacity (s : String) : ℕ := L.stringCapacity (len s)

/-- What a list of these entries keeps, the texts of its entries included. -/
def listCapacity {α : Type} (size : ℕ) (texts : α → List String) (items : List α) : ℕ :=
  L.vecCapacity items.length * size + (items.map fun i => ((texts i).map (textCapacity L)).sum).sum

/-- What a session keeps. -/
def sessionCapacity (s : Pb.Session) : ℕ := L.sizeOf .session + textCapacity L s.id

/-- What a result keeps. -/
def resultRetainedBytes : ResponseResult → ℕ
  | .profiles x => listCapacity L (L.sizeOf .profile) (fun i => [i.id, i.label]) x.items
  | .created x => textCapacity L x.id
  | .ok _ => 0
  | .conversation x =>
    L.sizeOf .conversationResult +
      ([x.provider, x.sessionId, x.status].map (textCapacity L)).sum +
      (x.messages.map fun m => L.sizeOf .conversationMessages +
        listCapacity L (L.sizeOf .conversationMessage) (fun i => [i.id, i.role, i.text])
          m.items).getD 0
  | .workspace x =>
    L.sizeOf .workspaceSnapshot + textCapacity L x.conflict +
      listCapacity L L.sizeOfString (fun i => [i]) x.applied +
      listCapacity L (L.sizeOf .session) (fun i => [i.id]) x.tabs +
      (x.selected.map (sessionCapacity L)).getD 0
  | .providers x =>
    L.sizeOf .providerResult +
      (x.providers.map fun p => L.sizeOf .providerStatuses +
        listCapacity L (L.sizeOf .providerStatus)
          (fun i => [i.id, i.label, i.auth, i.version, i.keyHint, i.profileId]) p.items).getD 0 +
      (x.job.map fun j => L.sizeOf .providerJobStatus +
        ([j.state, j.url, j.code].map (textCapacity L)).sum +
        listCapacity L L.sizeOfString (fun i => [i]) j.log).getD 0 +
      (x.error.map (textCapacity L)).getD 0
  | .staged x =>
    L.sizeOf .stageResult + ([x.requestId, x.stageId].map (textCapacity L)).sum +
      listCapacity L (L.sizeOf .stageFile) (fun i => [i.path, i.sha256]) x.files +
      (x.session.map (sessionCapacity L)).getD 0

/-- `response_retained_bytes`. -/
def responseRetainedBytes (v : Response) : ℕ :=
  L.sizeOf .response + textCapacity L v.id + textCapacity L v.error +
    (v.result.map (resultRetainedBytes L)).getD 0

/-- The checks of one staged file. -/
def stagedFile (i : ℕ) (f : StageFile) : Bool :=
  f.index.toNat = i && 0 < f.size && f.size ≤ 33554432 && len f.path ≤ 4096 && len f.sha256 = 64

/-- The checks of a result; `retained` is what its response keeps. -/
def resultValid (retained : ℕ) : ResponseResult → Bool
  | .ok _ => true
  | .profiles x =>
    x.items.length ≤ maxProfileItems && (x.items.all fun p => len p.id ≤ 63 && len p.label ≤ 256) &&
      retained ≤ maxDecodedSnapshotBytes
  | .created x => 0 < x.createdAt && validateSessionId x.id
  | .conversation x =>
    (x.messages.all fun m =>
      m.items.length ≤ 200 && (m.items.map fun i => len i.text).sum ≤ 524288) &&
      retained ≤ conversationMax
  | .workspace x => (workspaceFromProto x).isOk
  | .providers x =>
    (x.providers.all fun p => p.items.length ≤ 16) && (x.job.all fun j => j.log.length ≤ 12) &&
      retained ≤ actionMax * 2
  | .staged x =>
    x.protocolVersion == 1 && (x.session.any fun s => validateSessionId s.id && 0 < s.createdAt) &&
      x.files.length ≤ 16 && (x.files.zipIdx.all fun p => stagedFile p.2 p.1) &&
      retained ≤ stageMax * 2

/-- `validate_response`. -/
def validateResponse (v : Response) : Except Error Unit :=
  if v.error ≠ "" then require v.result.isNone .fields
  else require (v.result.all (resultValid (responseRetainedBytes L v))) .fields

end

/-! ### Messages

Ids, identities and geometries, and for every body the direction it may go in. -/

/-- `protobuf::Direction`. -/
inductive Direction
  | toHome | toGateway
  deriving DecidableEq, Repr

/-- `VERSION`. -/
def version : UInt32 := 2

/-- `protobuf::id`. -/
def validId (value : String) : Bool := value ≠ "" && len value ≤ 64

/-- A dollar sign and at least one and at most `digits` digits, with a creation time. -/
def validSession (digits : ℕ) (value : Option Pb.Session) : Bool :=
  value.any fun s =>
    (0 : Int64) < s.createdAt && (Hmux.bytes s.id).head? == some 36 &&
      1 ≤ (Hmux.bytes s.id).tail.length && (Hmux.bytes s.id).tail.length ≤ digits &&
      (Hmux.bytes s.id).tail.all isAsciiDigit

/-- `protobuf::session`. -/
def session (value : Option Pb.Session) : Bool := validSession 12 value

/-- `protobuf::geometry`. -/
def geometry (cols rows : UInt32) : Bool := 2 ≤ cols && cols ≤ 500 && 2 ≤ rows && rows ≤ 250

/-- `protobuf::caps`. -/
def caps (values : List String) : Bool :=
  values.length ≤ 16 && values.all fun s => s ≠ "" && len s ≤ 64

/-- `i64::checked_add`. -/
def checkedAdd (a b : Int64) : Option Int64 :=
  if -2 ^ 63 ≤ a.toInt + b.toInt ∧ a.toInt + b.toInt < 2 ^ 63 then some (a + b) else none

/-- The checks of one file of an upload. -/
def fileHeader (i : ℕ) (f : FileHeader) : Bool :=
  f.index.toNat = i && 1 ≤ f.size && f.size ≤ 33554432 && len f.extension ≤ 16 &&
    (Hmux.bytes f.extension).all fun b => isAsciiLowercase b || isAsciiDigit b

/-- `valid_upload_header`. -/
def validUploadHeader (h : UploadHeader) : Bool :=
  h.protocolVersion == 1 && len h.requestId = 32 &&
    ((Hmux.bytes h.requestId).all fun b => isAsciiDigit b || (97 ≤ b && b ≤ 102)) &&
    validSession 31 h.session && 1 ≤ h.fileCount && h.fileCount ≤ 16 &&
    h.fileCount.toNat = h.files.length && 1 ≤ h.totalBytes && h.totalBytes ≤ 134217728 &&
    (h.files.zipIdx.all fun p => fileHeader p.2 p.1) &&
    h.files.foldlM (fun sum f => checkedAdd sum f.size) 0 = some h.totalBytes

/-- Which way a body goes. -/
def toGateway : EnvelopeBody → Bool
  | .hello _ | .response _ | .terminalOutput _ | .terminalExit _ | .refreshResult _ | .catalog _
  | .usage _ | .usageUnavailable _ | .taskComplete _ | .uploadReady _ | .uploadAck _
  | .uploadComplete _ | .uploadError _ => true
  | _ => false

section

variable (L : Layout) (parseTime : String → Option DateTime)

/-- The checks of each body. -/
def validBody : EnvelopeBody → Bool
  | .hello v => caps v.capabilities
  | .request v =>
    validId v.id && ((Operation.ofInt32 v.operation).any fun o => o ≠ .unspecified) &&
      (v.session = none || session v.session) && (validateRequest v).isOk
  | .response v => validId v.id && len v.error ≤ 128 && (validateResponse L v).isOk
  | .terminalExit v | .refreshResult v =>
    validId v.id && len v.error ≤ 128 && v.result = none && (validateResponse L v).isOk
  | .uploadComplete v =>
    validId v.id && v.error = "" && (v.result.any fun | .staged _ => true | _ => false) &&
      (validateResponse L v).isOk
  | .uploadError v => validId v.id && v.error ≠ "" && len v.error ≤ 128 && v.result = none
  | .terminalOpen v =>
    validId v.id && session v.session && geometry v.cols v.rows && caps v.capabilities
  | .terminalInput v => validId v.id && v.data ≠ [] && v.data.length ≤ maxData
  | .terminalOutput v => validId v.id && v.data ≠ [] && v.data.length ≤ Flow.chunk
  | .uploadData v => validId v.id && v.data ≠ [] && v.data.length ≤ maxUploadChunk
  | .resize v => validId v.id && geometry v.cols v.rows
  | .close v | .cancel v | .refresh v | .uploadFinish v | .uploadCancel v | .uploadReady v =>
    validId v.id
  | .outputAck v => validId v.id && 0 < v.received && v.received ≤ Int64.ofNat Flow.chunk
  | .uploadAck v => validId v.id && 0 ≤ v.received && v.received ≤ 134217728
  | .catalog v => (validateCatalog parseTime L v).isOk
  | .usage v => (validateUsage parseTime v).isOk
  | .usageUnavailable _ => true
  | .taskComplete v =>
    validId v.id && session v.session && v.completedAt ≠ "" && len v.completedAt ≤ 64
  | .uploadStart v =>
    validId v.id && v.header.any fun h => validUploadHeader h && h.requestId = v.id

/-- `validate`. -/
def validate (message : Envelope) (direction : Direction) : Except Error Unit :=
  if message.version ≠ version then .error .unsupported
  else
    match message.body with
    | none => .error .fields
    | some body =>
      if toGateway body ≠ decide (direction = .toGateway) then .error .direction
      else require (validBody L parseTime body) .fields

end

end Hmux.Protocol
