import Hmux.Protocol.ActionsJson

namespace Hmux.Protocol

open Lib Pb

/-!
# Responses as JSON

`actions::response_payload`: the result of a response that goes to a peer of the first protocol.
Every kind of result has its codec and its limit.
-/

/-! ### The results

The codecs of the results, each with the attributes of the type it stands for. -/

/-- `Profile`. -/
def profileCodec : Codec Profile :=
  .object <| Fields.map (Fields.and (.required "id" .string) <| .required "label" .string)
    (fun (id, label) => ⟨id, label⟩) (fun v => (v.id, v.label))

/-- `Created`. -/
def createdCodec : Codec CreatedResult :=
  .object <| Fields.map
    (Fields.and (.required "id" .string) <| Fields.and (.required "created_at" .int64) <|
     .required "reused" .bool)
    (fun (id, createdAt, reused) => ⟨id, createdAt, reused⟩)
    (fun v => (v.id, v.createdAt, v.reused))

/-- `conversation_from_proto`. -/
def conversationFromProto (v : ConversationResult) : Model.Conversation :=
  { provider := v.provider, sessionId := v.sessionId, createdAt := v.createdAt, status := v.status,
    messages := v.messages.map fun v => v.items.map fun m => ⟨m.id, m.role, m.text⟩,
    truncated := v.truncated }

/-- The fields of `workspace::Snapshot`. -/
def snapshotFields : Fields Workspace.Snapshot :=
  Fields.map
    (Fields.and (.skipped "conflict" (.nullDefault .string "") "" (· == "")) <|
     Fields.and (.skipped "applied" (.nullDefault Codec.string.list []) [] List.isEmpty) <|
     Fields.and (.defaulted "version" (.nullDefault .int64 0) 0) <|
     Fields.and (.defaulted "initialized" (.nullDefault .bool false) false) <|
     Fields.and (.defaulted "revision" (.nullDefault .uint64 0) 0) <|
     Fields.and (.defaulted "tabs" (.nullDefault Model.identityCodec.list []) []) <|
     .omitNone "selected" Model.identityCodec)
    (fun (conflict, applied, version, initialized, revision, tabs, selected) =>
      ⟨conflict, applied, version, initialized, revision, tabs, selected⟩)
    (fun v => (v.conflict, v.applied, v.version, v.initialized, v.revision, v.tabs, v.selected))

/-- `workspace::Snapshot`. -/
def snapshotCodec : Codec Workspace.Snapshot :=
  .objectOrNull snapshotFields ⟨"", [], 0, false, 0, [], none⟩

/-- `ProviderStatus`. -/
def providerStatusCodec : Codec ProviderStatus :=
  .object <| Fields.map
    (Fields.and (.required "id" .string) <| Fields.and (.required "label" .string) <|
     Fields.and (.required "installed" .bool) <| Fields.and (.required "auth" .string) <|
     Fields.and (.required "profile" .bool) <| Fields.and (.omitEmpty "version") <|
     Fields.and (.omitEmpty "key_hint") <| .omitEmpty "profile_id")
    (fun (id, label, installed, auth, profile, version, keyHint, profileId) =>
      ⟨id, label, installed, auth, profile, version, keyHint, profileId⟩)
    (fun v => (v.id, v.label, v.installed, v.auth, v.profile, v.version, v.keyHint, v.profileId))

/-- `Job`. -/
def jobCodec : Codec ProviderJobStatus :=
  .object <| Fields.map
    (Fields.and (.required "state" .string) <| Fields.and (.omitEmpty "url") <|
     Fields.and (.omitEmpty "code") <| Fields.and (.omitFalse "needs_input") <|
     .omitNil "log" .string)
    (fun (state, url, code, needsInput, log) => ⟨state, url, code, needsInput, log⟩)
    (fun v => (v.state, v.url, v.code, v.needsInput, v.log))

/-- `ProviderResult`, with the statuses of `provider_to_json`. -/
def providerCodec : Codec ProviderResult :=
  .object <| Fields.map
    (Fields.and (.omitNone "providers" providerStatusCodec.list) <|
     Fields.and (.omitNone "job" jobCodec) <| .omitNone "error" .string)
    (fun (providers, job, error) => ⟨providers.map ProviderStatuses.mk, job, error⟩)
    (fun v => (v.providers.map ProviderStatuses.items, v.job, v.error))

/-- `StageFile`. -/
def stageFileCodec : Codec StageFile :=
  .object <| Fields.map
    (Fields.and (.required "index" .uint32) <| Fields.and (.required "path" .string) <|
     Fields.and (.required "size" .int64) <| .required "sha256" .string)
    (fun (index, path, size, sha256) => ⟨index, path, size, sha256⟩)
    (fun v => (v.index, v.path, v.size, v.sha256))

/-- `Stage`. -/
structure Stage where
  protocolVersion : UInt32
  requestId : String
  stageId : String
  session : SessionIdentity
  expiresAtUnix : Int64
  files : List StageFile

def stageCodec : Codec Stage :=
  .object <| Fields.map
    (Fields.and (.required "protocol_version" .uint32) <|
     Fields.and (.required "request_id" .string) <| Fields.and (.required "stage_id" .string) <|
     Fields.and (.required "session" Model.identityCodec) <|
     Fields.and (.required "expires_at_unix" .int64) <| .required "files" stageFileCodec.list)
    (fun (protocolVersion, requestId, stageId, session, expiresAtUnix, files) =>
      ⟨protocolVersion, requestId, stageId, session, expiresAtUnix, files⟩)
    (fun v => (v.protocolVersion, v.requestId, v.stageId, v.session, v.expiresAtUnix, v.files))

/-- `stage_to_json`. -/
def stageToJson (v : StageResult) : Except Error Stage := do
  let session ← okOr v.session .fields
  return ⟨v.protocolVersion, v.requestId, v.stageId, fromSession session, v.expiresAtUnix, v.files⟩

/-! ### The payload

A result is written into a buffer with the limit of its kind. -/

section

variable (L : Layout) (S : Serde)

/-- `response_payload_unchecked`. -/
def responsePayloadUnchecked (v : Response) : Except Error (List UInt8) :=
  match v.result with
  | none => .ok []
  | some (.profiles x) => encodeJson S profileCodec.list x.items profilesMax
  | some (.created x) => encodeJson S createdCodec x actionMax
  | some (.ok _) => .ok (S.text (.obj [("ok", .bool true)]))
  | some (.conversation x) =>
    encodeJson S Model.Conversation.codec (conversationFromProto x) (conversationMax - 4096)
  | some (.workspace x) => do
    let snapshot ← workspaceFromProto x
    encodeJson S snapshotCodec snapshot workspaceMaxBytes
  | some (.providers x) => encodeJson S providerCodec x actionMax
  | some (.staged x) => do
    let stage ← stageToJson x
    encodeJson S stageCodec stage stageMax

/-- `response_payload`. -/
def responsePayload (v : Response) : Except Error (List UInt8) := do
  validateResponse L v
  responsePayloadUnchecked S v

end

end Hmux.Protocol
