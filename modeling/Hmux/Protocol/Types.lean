import Mathlib.Data.List.Basic
import Mathlib.Tactic.Common

namespace Hmux.Pb

/-!
# Messages of the Home connection

The message types of `hmux.v2.proto` as the generated code has them: one structure per
message with its fields in tag order, one inductive type per `oneof`.  An enumeration field
is the `i32` that was on the wire, `bytes` is a list of bytes, and a double is its bit
pattern (`F64`), since the repository compares, checks and forwards doubles but never
computes with them on this path.

The structures are the vocabulary of the connection and have no invariant of their own: whatever
the wire can carry is a value here, and the checks that make it a valid message are elsewhere.
-/

/-- An IEEE 754 double, by its bits. -/
structure F64 where
  bits : UInt64
  deriving DecidableEq, Inhabited

/-- The first message of a connection: what the sender supports. -/
structure Hello where
  capabilities : List String
  deriving DecidableEq, Inhabited

/-- A session identity as it travels. -/
structure Session where
  id : String
  createdAt : Int64
  deriving DecidableEq, Inhabited

/-- The empty message. -/
structure Empty where
  deriving DecidableEq, Inhabited

/-- Create a session. -/
structure CreateRequest where
  profile : Option String
  name : Option String
  createDirectory : Option Bool
  deriving DecidableEq, Inhabited

/-- Rename a session. -/
structure AliasRequest where
  «alias» : Option String
  deriving DecidableEq, Inhabited

/-- Hide or show a session. -/
structure HiddenRequest where
  hidden : Bool
  deriving DecidableEq, Inhabited

/-- One edit of the shared tabs. -/
structure WorkspaceChange where
  operationId : String
  revision : UInt64
  base : List Session
  tabs : List Session
  selected : Option Session
  deriving DecidableEq, Inhabited

/-- Poll the shared workspace, with an optional edit. -/
structure WorkspaceRequest where
  change : Option WorkspaceChange
  deriving DecidableEq, Inhabited

/-- Store a provider key. -/
structure ProviderKeyRequest where
  provider : String
  key : String
  deriving DecidableEq, Inhabited

/-- Start, feed, poll or cancel a provider job. -/
structure ProviderJobRequest where
  provider : String
  action : String
  text : String
  deriving DecidableEq, Inhabited

/-- `request::Payload`. -/
inductive RequestPayload
  | empty (m : Empty)
  | create (m : CreateRequest)
  | «alias» (m : AliasRequest)
  | hidden (m : HiddenRequest)
  | workspace (m : WorkspaceRequest)
  | providerKey (m : ProviderKeyRequest)
  | providerJob (m : ProviderJobRequest)
  deriving DecidableEq

/-- An action for Home. -/
structure Request where
  id : String
  operation : Int32
  session : Option Session
  payload : Option RequestPayload
  deriving DecidableEq, Inhabited

/-- A launch profile. -/
structure Profile where
  id : String
  label : String
  deriving DecidableEq, Inhabited

/-- The launch profiles. -/
structure ProfilesResult where
  items : List Profile
  deriving DecidableEq, Inhabited

/-- A session that was created or reused. -/
structure CreatedResult where
  id : String
  createdAt : Int64
  reused : Bool
  deriving DecidableEq, Inhabited

/-- One message of a conversation. -/
structure ConversationMessage where
  id : String
  role : String
  text : String
  deriving DecidableEq, Inhabited

/-- A present, possibly empty, list of messages. -/
structure ConversationMessages where
  items : List ConversationMessage
  deriving DecidableEq, Inhabited

/-- The conversation of a session. -/
structure ConversationResult where
  provider : String
  sessionId : String
  createdAt : Int64
  status : String
  messages : Option ConversationMessages
  truncated : Bool
  deriving DecidableEq, Inhabited

/-- The shared tabs. -/
structure WorkspaceSnapshot where
  conflict : String
  applied : List String
  version : Int64
  initialized : Bool
  revision : UInt64
  tabs : List Session
  selected : Option Session
  deriving DecidableEq, Inhabited

/-- The state of one provider. -/
structure ProviderStatus where
  id : String
  label : String
  installed : Bool
  auth : String
  profile : Bool
  version : String
  keyHint : String
  profileId : String
  deriving DecidableEq, Inhabited

/-- A present, possibly empty, list of provider states. -/
structure ProviderStatuses where
  items : List ProviderStatus
  deriving DecidableEq, Inhabited

/-- The state of the running provider job. -/
structure ProviderJobStatus where
  state : String
  url : String
  code : String
  needsInput : Bool
  log : List String
  deriving DecidableEq, Inhabited

/-- Provider states and the running job. -/
structure ProviderResult where
  providers : Option ProviderStatuses
  job : Option ProviderJobStatus
  error : Option String
  deriving DecidableEq, Inhabited

/-- One staged file. -/
structure StageFile where
  index : UInt32
  path : String
  size : Int64
  sha256 : String
  deriving DecidableEq, Inhabited

/-- The files an upload left on Home. -/
structure StageResult where
  protocolVersion : UInt32
  requestId : String
  stageId : String
  session : Option Session
  expiresAtUnix : Int64
  files : List StageFile
  deriving DecidableEq, Inhabited

/-- `response::Result`. -/
inductive ResponseResult
  | profiles (m : ProfilesResult)
  | created (m : CreatedResult)
  | ok (m : Empty)
  | conversation (m : ConversationResult)
  | workspace (m : WorkspaceSnapshot)
  | providers (m : ProviderResult)
  | staged (m : StageResult)
  deriving DecidableEq

/-- The answer of Home to an action. -/
structure Response where
  id : String
  error : String
  result : Option ResponseResult
  deriving DecidableEq, Inhabited

/-- Open a view of a session. -/
structure TerminalOpen where
  id : String
  session : Option Session
  cols : UInt32
  rows : UInt32
  capabilities : List String
  deriving DecidableEq, Inhabited

/-- Terminal or upload bytes of one view or upload. -/
structure Data where
  id : String
  data : List UInt8
  deriving DecidableEq, Inhabited

/-- New geometry of a view. -/
structure Resize where
  id : String
  cols : UInt32
  rows : UInt32
  deriving DecidableEq, Inhabited

/-- A message that only names a view, upload or request. -/
structure Reference where
  id : String
  deriving DecidableEq, Inhabited

/-- Bytes received so far (uploads) or consumed (terminal output). -/
structure Ack where
  id : String
  received : Int64
  deriving DecidableEq, Inhabited

/-- A present, possibly empty, list of texts. -/
structure CatalogStrings where
  items : List String
  deriving DecidableEq, Inhabited

/-- Workflow counters of a session. -/
structure CatalogWorkflowSummary where
  running : Int64
  waitingApproval : Int64
  waitingInput : Int64
  completed : Int64
  failed : Int64
  interrupted : Int64
  stale : Int64
  updatedAt : Int64
  deriving DecidableEq, Inhabited

/-- One node of a workflow. -/
structure CatalogWorkflowNode where
  id : String
  parentId : String
  nodeType : String
  provider : String
  status : String
  startedAt : Int64
  updatedAt : Int64
  endedAt : Int64
  deriving DecidableEq, Inhabited

/-- A present, possibly empty, list of workflow nodes. -/
structure CatalogWorkflowNodes where
  items : List CatalogWorkflowNode
  deriving DecidableEq, Inhabited

/-- One workflow. -/
structure CatalogWorkflow where
  id : String
  source : String
  sessionId : String
  turnId : String
  status : String
  model : String
  startedAt : Int64
  updatedAt : Int64
  endedAt : Int64
  nodes : Option CatalogWorkflowNodes
  deriving DecidableEq, Inhabited

/-- A present, possibly empty, list of workflows. -/
structure CatalogWorkflows where
  items : List CatalogWorkflow
  deriving DecidableEq, Inhabited

/-- One session of the catalog. -/
structure CatalogSession where
  identity : Option Session
  name : String
  «alias» : String
  hidden : Bool
  restoredFrom : Option Session
  activityAt : Int64
  attachedClients : Int64
  windowCount : Int64
  windowNames : Option CatalogStrings
  activeWindow : String
  currentPath : String
  currentCommand : String
  profile : String
  label : String
  tags : Option CatalogStrings
  kind : String
  runtime : String
  model : String
  state : String
  process : String
  workingSince : Int64
  width : Int64
  height : Int64
  workflow : Option CatalogWorkflowSummary
  workflows : Option CatalogWorkflows
  deriving DecidableEq, Inhabited

/-- A present, possibly empty, list of sessions. -/
structure CatalogSessions where
  items : List CatalogSession
  deriving DecidableEq, Inhabited

/-- Load of the Home host. -/
structure CatalogHostMetrics where
  observedAt : String
  cpuPercent : Option F64
  gpuPercent : Option F64
  memoryUsedBytes : Option UInt64
  memoryTotalBytes : Option UInt64
  diskUsedBytes : Option UInt64
  diskTotalBytes : Option UInt64
  deriving DecidableEq, Inhabited

/-- The session catalog. -/
structure CatalogSnapshot where
  protocolVersion : Int64
  generatedAt : String
  sessions : Option CatalogSessions
  hostMetrics : Option CatalogHostMetrics
  deriving DecidableEq, Inhabited

/-- One rate-limit window of an account. -/
structure UsageAccountWindow where
  usedPct : F64
  resetsAt : Option String
  deriving DecidableEq, Inhabited

/-- One account of a provider. -/
structure UsageAccount where
  number : Int64
  email : String
  displayName : String
  active : Bool
  status : String
  fiveHour : Option UsageAccountWindow
  sevenDay : Option UsageAccountWindow
  tokensPerHour : Option F64
  totalTokens : Option Int64
  lastRefreshAt : Option String
  planType : String
  quotaObservedAt : Option String
  deriving DecidableEq, Inhabited

/-- How a usage snapshot was obtained. -/
structure UsageStatus where
  state : String
  dataSource : String
  quotaSource : String
  stale : Bool
  quotaObservedAt : Option String
  retryAt : Option String
  quotaWeighting : String
  deriving DecidableEq, Inhabited

/-- One rate-limit window. -/
structure UsageWindow where
  usedPct : F64
  remainingSeconds : Int64
  resetsAt : Option String
  deriving DecidableEq, Inhabited

mutual

/-- Usage of one provider; sources may hold a child snapshot. -/
structure UsageSnapshot where
  schema : Int64
  seq : Int64
  generatedAtUtc : String
  provider : Int32
  planType : String
  burnRatePerMin : F64
  burnState : String
  todayTotalTokens : Int64
  todaySessions : Int64
  rolling5h : Option UsageWindow
  weekly : Option UsageWindow
  rolling5hObserved : Bool
  weeklyObserved : Bool
  status : Option UsageStatus
  accounts : List UsageAccount
  accountsUpdatedAt : Option String
  sources : List UsageSource

/-- A named part of a usage snapshot. -/
structure UsageSource where
  name : String
  snapshot : Option UsageSnapshot

end

/-- A finished task, to be announced once. -/
structure Completion where
  id : String
  session : Option Session
  completedAt : String
  deriving DecidableEq, Inhabited

/-- One file of an upload. -/
structure FileHeader where
  index : UInt32
  size : Int64
  extension : String
  deriving DecidableEq, Inhabited

/-- What an upload will carry. -/
structure UploadHeader where
  protocolVersion : UInt32
  requestId : String
  session : Option Session
  fileCount : UInt32
  totalBytes : Int64
  files : List FileHeader
  deriving DecidableEq, Inhabited

/-- Start an upload. -/
structure UploadStart where
  id : String
  header : Option UploadHeader
  deriving DecidableEq, Inhabited

/-- `envelope::Body`. -/
inductive EnvelopeBody
  | hello (m : Hello)
  | request (m : Request)
  | response (m : Response)
  | terminalOpen (m : TerminalOpen)
  | terminalInput (m : Data)
  | terminalOutput (m : Data)
  | resize (m : Resize)
  | close (m : Reference)
  | cancel (m : Reference)
  | outputAck (m : Ack)
  | terminalExit (m : Response)
  | refresh (m : Reference)
  | refreshResult (m : Response)
  | catalog (m : CatalogSnapshot)
  | usage (m : UsageSnapshot)
  | usageUnavailable (m : Empty)
  | taskComplete (m : Completion)
  | uploadStart (m : UploadStart)
  | uploadData (m : Data)
  | uploadFinish (m : Reference)
  | uploadCancel (m : Reference)
  | uploadReady (m : Reference)
  | uploadAck (m : Ack)
  | uploadComplete (m : Response)
  | uploadError (m : Response)

/-- One message on the Home connection. -/
structure Envelope where
  version : UInt32
  body : Option EnvelopeBody

instance : Inhabited UsageSnapshot :=
  ⟨{ schema := 0, seq := 0, generatedAtUtc := "", provider := 0, planType := "",
     burnRatePerMin := default, burnState := "", todayTotalTokens := 0, todaySessions := 0,
     rolling5h := none, weekly := none, rolling5hObserved := false, weeklyObserved := false,
     status := none, accounts := [], accountsUpdatedAt := none, sources := [] }⟩

/-- The actions a `Request` can name. -/
inductive Operation
  | unspecified | profiles | create | «alias» | hidden | conversation | workspace | providers
  | providerKey | providerJobStart | providerJob | providerJobInput | providerJobCancel
  deriving DecidableEq, Inhabited

/-- `Operation::try_from(i32)`. -/
def Operation.ofInt32 (n : Int32) : Option Operation :=
  if n = 0 then some .unspecified
  else if n = 1 then some .profiles
  else if n = 2 then some .create
  else if n = 3 then some .«alias»
  else if n = 4 then some .hidden
  else if n = 5 then some .conversation
  else if n = 6 then some .workspace
  else if n = 7 then some .providers
  else if n = 8 then some .providerKey
  else if n = 9 then some .providerJobStart
  else if n = 10 then some .providerJob
  else if n = 11 then some .providerJobInput
  else if n = 12 then some .providerJobCancel
  else none

end Hmux.Pb
