import Hmux.Lib.Base64
import Hmux.Protocol.BoundedJson
import Hmux.Protocol.ResponseJson
import Hmux.Protocol.SnapshotsModel
import Hmux.Protocol.UsageModel

namespace Hmux.Protocol

open Lib Pb

/-!
# Frames of the first protocol

The frame of `wire.rs` with its writer, and `legacy::to_json`, which makes the frame of a body.  The
payload of a frame is the text of a value that was written before; the frame holds it as it is.

* `Wire.Message` — a frame, its text and its `encode`;
* `toJson` — the frame of each body.
-/

namespace Wire

/-! ### Frames

A frame has a kind, an id and a payload, and a few fields that single kinds use. -/

/-- `FileHeader`. -/
structure FileHeader where
  index : Int64
  size : Int64
  extension : String

/-- `UploadHeader`. -/
structure UploadHeader where
  protocolVersion : Int64
  requestId : String
  session : SessionIdentity
  fileCount : Int64
  totalBytes : Int64
  files : Option (List FileHeader)

/-- `Message`; the payload is the text of a `RawValue`. -/
structure Message where
  kind : String
  id : String
  operation : String
  session : SessionIdentity
  payload : Option (List UInt8)
  data : List UInt8
  cols : UInt16
  rows : UInt16
  error : String
  header : Option UploadHeader
  received : Int64
  capabilities : List String

/-- `Message::default`. -/
def Message.default : Message where
  kind := ""
  id := ""
  operation := ""
  session := ⟨"", 0⟩
  payload := none
  data := []
  cols := 0
  rows := 0
  error := ""
  header := none
  received := 0
  capabilities := []

/-! ### The text of a frame

The fields are written in their order, without those that are empty; the payload is put in as the
text it is. -/

def fileHeaderCodec : Codec FileHeader :=
  .object <| Fields.map
    (Fields.and (.number "index") <| Fields.and (.number "size") <| .omitEmpty "extension")
    (fun (index, size, extension) => ⟨index, size, extension⟩)
    (fun v => (v.index, v.size, v.extension))

def uploadHeaderCodec : Codec UploadHeader :=
  .object <| Fields.map
    (Fields.and (.number "protocol_version") <| Fields.and (.text "request_id") <|
     Fields.and (.defaulted "session" Model.identityCodec ⟨"", 0⟩) <|
     Fields.and (.number "file_count") <| Fields.and (.number "total_bytes") <|
     .defaulted "files" fileHeaderCodec.list.option none)
    (fun (protocolVersion, requestId, session, fileCount, totalBytes, files) =>
      ⟨protocolVersion, requestId, session, fileCount, totalBytes, files⟩)
    (fun v => (v.protocolVersion, v.requestId, v.session, v.fileCount, v.totalBytes, v.files))

/-- A field that is left out in some cases. -/
def optionalField (key : String) (skip : Bool) (raw : List UInt8) : List (String × List UInt8) :=
  if skip then [] else [(key, raw)]

/-- The fields after the first. -/
def moreFields : List (String × List UInt8) → List UInt8
  | [] => []
  | (key, raw) :: fields => 44 :: (Json.quote key ++ 58 :: (raw ++ moreFields fields))

/-- The fields of an object, with commas between them. -/
def joinFields : List (String × List UInt8) → List UInt8
  | [] => []
  | (key, raw) :: fields => Json.quote key ++ 58 :: (raw ++ moreFields fields)

namespace Message

section

variable (S : Serde)

/-- The fields of a frame. -/
def fields (m : Message) : List (String × List UInt8) :=
  [("type", Json.quote m.kind)] ++
  optionalField "id" (m.id == "") (Json.quote m.id) ++
  optionalField "operation" (m.operation == "") (Json.quote m.operation) ++
  -- Go omitempty does not omit a non-pointer struct, even when it is zero.
  [("session", S.text (Model.identityCodec.write m.session))] ++
  optionalField "payload" m.payload.isNone (m.payload.getD []) ++
  optionalField "data" m.data.isEmpty
    (Json.quote (String.ofList (Base64.encode Base64.standard true m.data))) ++
  optionalField "cols" (m.cols == 0) (Json.decimal m.cols.toNat) ++
  optionalField "rows" (m.rows == 0) (Json.decimal m.rows.toNat) ++
  optionalField "error" (m.error == "") (Json.quote m.error) ++
  optionalField "header" m.header.isNone (S.text (uploadHeaderCodec.option.write m.header)) ++
  optionalField "received" (m.received == 0) (Json.decimal m.received.toInt) ++
  optionalField "capabilities" m.capabilities.isEmpty
    (S.text (Codec.string.list.write m.capabilities))

/-- `serde_json::to_vec`. -/
def text (m : Message) : List UInt8 := 123 :: (joinFields (m.fields S) ++ [125])

end

/-! ### The writer

The checks of the source come first, then the text goes through the writer of web frames. -/

/-- `CodecError`. -/
inductive CodecError
  | messageLimit | invalidJson | fieldLimit
  deriving DecidableEq

/-- `validate_fields`. -/
def validateFields (m : Message) : Except CodecError Unit :=
  let limit := if m.kind = "upload-data" then maxUploadChunk else maxData
  if limit < m.data.length ∨ 64 < len m.id ∨ 128 < len m.error ∨ 16 < m.capabilities.length ∨
      (m.capabilities.any fun c => c = "" || 64 < len c) then .error .fieldLimit
  else .ok ()

/-- `Message::encode`; `split` is how the JSON library cuts what it writes into pieces. -/
def encode (S : Serde) (split : List UInt8 → List (List UInt8)) (m : Message) :
    Except CodecError (List UInt8) := do
  m.validateFields
  if m.payload.any fun raw => maxMessage < raw.length then .error .messageLimit
  else
    match stream (split (m.text S)) with
    | .ok raw => .ok raw
    | .error w => .error (if w.full then .messageLimit else .invalidJson)

end Message

end Wire

/-! ### From a body to its frame

One arm for every body that this protocol has, with the payload that each of them carries. -/

section

variable (S : Serde)

/-- White space around a text is dropped. -/
def trimBlanks (raw : List UInt8) : List UInt8 :=
  ((raw.dropWhile Serde.isBlank).reverse.dropWhile Serde.isBlank).reverse

/-- `RawValue::from_string`: the text of one value, without the white space around it. -/
def rawValue (raw : List UInt8) : Except Error (List UInt8) :=
  if (S.fromSlice raw).isSome then .ok (trimBlanks raw) else .error .fields

/-- `old_payload`. -/
def oldPayload (raw : List UInt8) : Except Error (Option (List UInt8)) :=
  if raw = [] then .ok none
  else
    match utf8 raw with
    | none => .error .fields
    | some _ => (rawValue S raw).map some

/-- `old_session`. -/
def oldSession (value : Option Pb.Session) : SessionIdentity :=
  (value.map fromSession).getD ⟨"", 0⟩

/-- `operation_name`. -/
def operationName (value : Int32) : Except Error String :=
  match Operation.ofInt32 value with
  | some .profiles => .ok "profiles"
  | some .create => .ok "create"
  | some .«alias» => .ok "alias"
  | some .hidden => .ok "hidden"
  | some .conversation => .ok "conversation"
  | some .workspace => .ok "workspace"
  | some .providers => .ok "providers"
  | some .providerKey => .ok "provider-key"
  | some .providerJobStart => .ok "provider-job-start"
  | some .providerJob => .ok "provider-job"
  | some .providerJobInput => .ok "provider-job-input"
  | some .providerJobCancel => .ok "provider-job-cancel"
  | some .unspecified | none => .error .unsupported

/-- The type of the frame of a body. -/
def kindOf : EnvelopeBody → String
  | .hello _ => "hello"
  | .request _ => "request"
  | .response _ => "response"
  | .terminalOpen _ => "open"
  | .terminalInput _ => "input"
  | .terminalOutput _ => "data"
  | .resize _ => "resize"
  | .close _ => "close"
  | .cancel _ => "cancel"
  | .outputAck _ => "output-ack"
  | .terminalExit _ => "exit"
  | .refresh _ => "refresh"
  | .refreshResult _ => "refresh-result"
  | .catalog _ => "catalog"
  | .usage _ => "usage"
  | .usageUnavailable _ => "usage-unavailable"
  | .taskComplete _ => "task-complete"
  | .uploadStart _ => "upload-start"
  | .uploadData _ => "upload-data"
  | .uploadFinish _ => "upload-finish"
  | .uploadCancel _ => "upload-cancel"
  | .uploadReady _ => "upload-ready"
  | .uploadAck _ => "upload-ack"
  | .uploadComplete _ => "upload-complete"
  | .uploadError _ => "upload-error"

variable (L : Layout) (M : Snapshots.ModelName → ℕ) (rfc3339 : String → Option (DateTime × ℤ))

/-- `catalog_payload`. -/
def catalogPayload (value : CatalogSnapshot) : Except Error (List UInt8) :=
  match Snapshots.catalogFromProto rfc3339 M L value with
  | .error _ => .error .fields
  | .ok catalog => encodeJson S (Model.Catalog.codec rfc3339 S.ofInt) catalog maxCatalogBytes

/-- `usage_payload`. -/
def usagePayload (value : UsageSnapshot) : Except Error (List UInt8) :=
  match Snapshots.usageFromProto (Snapshots.parseTime rfc3339) value with
  | .error _ => .error .fields
  | .ok snapshot =>
    match Usage.encode (Snapshots.parseTime rfc3339) S snapshot with
    | .error _ => .error .size
    | .ok raw => .ok raw

/-- The header of an upload. -/
def oldHeader (h : UploadHeader) : Wire.UploadHeader where
  protocolVersion := Int64.ofNat h.protocolVersion.toNat
  requestId := h.requestId
  session := oldSession h.session
  fileCount := Int64.ofNat h.fileCount.toNat
  totalBytes := h.totalBytes
  files := some (h.files.map fun f => ⟨Int64.ofNat f.index.toNat, f.size, f.extension⟩)

/-- The frame of a response. -/
def responseFrame (kind : String) (v : Response) : Except Error Wire.Message := do
  let payload ← oldPayload S (← responsePayload L S v)
  return { Wire.Message.default with kind, payload, id := v.id, error := v.error }

/-- The `match` of `to_json` on the body. -/
def frameOf (body : EnvelopeBody) : Except Error Wire.Message :=
  let m := { Wire.Message.default with kind := kindOf body }
  match body with
  | .hello v => .ok { m with capabilities := v.capabilities }
  | .request v => do
    let payload ← oldPayload S (← requestPayload S v)
    let operation ← operationName v.operation
    return { m with payload, id := v.id, operation, session := oldSession v.session }
  | .response v | .terminalExit v | .refreshResult v | .uploadComplete v | .uploadError v =>
    responseFrame S L m.kind v
  | .terminalOpen v => .ok
    { m with
      id := v.id, session := oldSession v.session, cols := v.cols.toUInt16
      rows := v.rows.toUInt16, capabilities := v.capabilities }
  | .terminalInput v | .terminalOutput v | .uploadData v =>
    .ok { m with id := v.id, data := v.data }
  | .resize v => .ok { m with id := v.id, cols := v.cols.toUInt16, rows := v.rows.toUInt16 }
  | .close v | .cancel v | .refresh v | .uploadFinish v | .uploadCancel v | .uploadReady v =>
    .ok { m with id := v.id }
  | .outputAck v | .uploadAck v => .ok { m with id := v.id, received := v.received }
  | .catalog v => do
    let payload ← oldPayload S (← catalogPayload S L M rfc3339 v)
    return { m with payload }
  | .usage v => do
    let payload ← oldPayload S (← usagePayload S rfc3339 v)
    return { m with payload }
  | .usageUnavailable _ => .ok m
  | .taskComplete v => do
    let payload ← rawValue S (S.text (.obj [("completed_at", .str v.completedAt)]))
    return { m with id := v.id, session := oldSession v.session, payload := some payload }
  | .uploadStart v => do
    let h ← okOr v.header .fields
    return { m with id := v.id, header := some (oldHeader h) }

/-- `to_json`. -/
def toJson (envelope : Envelope) (direction : Direction) : Except Error Wire.Message := do
  validate L (Snapshots.parseTime rfc3339) envelope direction
  let body ← okOr envelope.body .fields
  frameOf S L M rfc3339 body

end

end Hmux.Protocol
