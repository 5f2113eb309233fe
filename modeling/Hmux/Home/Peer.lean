import Hmux.Lib.Semaphore
import Hmux.Lib.Table
import Hmux.Protocol.Validate

namespace Hmux.Home

open Hmux.Lib Hmux.Pb Hmux.Protocol

/-!
# Home — the connected peer

`run_owned` reads the messages of one link and starts a job for every request, terminal and upload
it admits; a job it does not admit is answered by the loop itself.  A job sends its own answer, and
the loop joins it when it is over.

`State` has the loop, the jobs with what each of them holds, the maps of the loop and the
semaphores.  One `Event` is what happens between two points at which a task may be suspended: a
message arrives, a job is joined, a job goes on, a `send` returns.  What the process-wide
semaphores, the clocks and the services answer is part of the event.

The link is stopped once `stop` is cancelled; `requests`, `opens` and `sent` are the ids that
arrived and the responses that went out on it.
-/

/-- `peer::Error`. -/
inductive Error
  | config | catalog | encoding | protocol | transport | worker
  deriving DecidableEq, Repr

/-- `REQUEST_SLOTS`. -/
def requestSlots : ℕ := 8

/-- `CONVERSATION_WAITERS`. -/
def conversationWaiters : ℕ := 2

/-- `wire::MAX_TERMINALS`. -/
def maxTerminals : ℕ := 8

/-! ### Responses

The answers that Home gives without asking a service, and those it makes of what a service
returned. -/

/-- `UNAVAILABLE`. -/
def unavailable : String := "Home operation unavailable"

/-- `BUSY`. -/
def busy : String := "Home is busy"

/-- `TIMED_OUT`. -/
def timedOut : String := "Home operation timed out"

/-- `response`. -/
def response (id : String) (result : Option ResponseResult) (error : String) : Response :=
  { id, error, result }

/-- `unsupported`. -/
def unsupported (id : String) : Response := response id none unavailable

/-- `observation::Reason`. -/
inductive Reason
  | busy | requestSlotsBusy | inspectionSlotsBusy | conversationQueueBusy | requestAdmissionTimeout
  | inspectionAdmissionTimeout | cancelled | queryTimeout | queryFailure | parse | metadata
  | sessionChanged | permissionDenied | storageFailure | encoding | transport | worker | unavailable
  | slow | recovered | published | quarantined | probePane | probePrompt | probeStale | probeProcess
  | probeChanged | probeCooldown | probeSend | probeStatus | probeRecord | probeSave | probeInput
  | probeWidth | probeRestore
  deriving DecidableEq, Repr

/-- `inspection::Error`. -/
inductive InspectionError
  | invalid | unavailable | cancelled | busy | worker
  deriving DecidableEq, Repr

/-- `workspace::Error`. -/
inductive WorkspaceError
  | invalid | unavailable | cancelled | busy
  deriving DecidableEq, Repr

/-- `sessionstate::Error`, without the stage and the kind of a storage error. -/
inductive StateError
  | invalid | unavailable | cancelled | changed | busy | storage
  deriving DecidableEq, Repr

/-- `sessions::Error`. -/
inductive SessionsError
  | invalid | unavailable | cancelled | createdUnrecorded | worker
  | state (e : StateError)
  | catalog (reason : Reason)
  deriving DecidableEq, Repr

/-- `workspace_failure`. -/
def workspaceFailure (id : String) (e : WorkspaceError) (cancelled : Bool) : Response :=
  if e = .busy then response id none busy
  else if e = .cancelled ∧ !cancelled then response id none timedOut
  else unsupported id

/-- `session_failure`. -/
def sessionFailure (id : String) (e : SessionsError) (cancelled : Bool) : Response :=
  match e with
  | .state .busy | .catalog .busy => response id none busy
  | .cancelled | .state .cancelled | .catalog .cancelled | .catalog .queryTimeout =>
    if cancelled then unsupported id else response id none timedOut
  | .invalid => response id none "Invalid Home request"
  | .state .changed => response id none "Session identity changed"
  | .state .storage | .state .invalid | .state .unavailable | .catalog .parse
  | .catalog .queryFailure => response id none "Home metadata unavailable"
  | .createdUnrecorded => response id none "Session created; metadata unavailable"
  | _ => unsupported id

/-- The services that serve a request under one request permit. -/
inductive Work
  | providers | workspace | session
  deriving DecidableEq, Repr

/-- What such a service returns; of a provider error only whether it is `is_busy`. -/
inductive Outcome
  | providers (result : Except Bool ProviderResult)
  | workspace (result : Except WorkspaceError WorkspaceSnapshot)
  | session (result : Except SessionsError ResponseResult)

/-- The service that returned it. -/
def Outcome.work : Outcome → Work
  | .providers _ => .providers
  | .workspace _ => .workspace
  | .session _ => .session

/-- The answer of a job of a service. -/
def Outcome.reply (id : String) (cancelled : Bool) : Outcome → Response
  | .providers (.ok r) =>
    if cancelled then unsupported id else response id (some (.providers r)) ""
  | .providers (.error isBusy) => if isBusy then response id none busy else unsupported id
  | .workspace (.ok r) =>
    if cancelled then unsupported id else response id (some (.workspace r)) ""
  | .workspace (.error e) => workspaceFailure id e cancelled
  | .session (.ok r) => if cancelled then unsupported id else response id (some r) ""
  | .session (.error e) => sessionFailure id e cancelled

/-- The answer of a job that reads a conversation. -/
def conversationReply (id : String) (cancelled : Bool) :
    Except InspectionError ConversationResult → Response
  | .ok r => if cancelled then unsupported id else response id (some (.conversation r)) ""
  | .error e =>
    if e = .busy then response id none busy
    else if e = .cancelled ∧ !cancelled then response id none timedOut
    else unsupported id

/-- The answer of `serve_profiles` once its worker returned. -/
def profilesReply (id : String) (cancelled : Bool) : Except Error ProfilesResult → Response
  | .ok r => if cancelled then unsupported id else response id (some (.profiles r)) ""
  | .error _ => unsupported id

/-! ### Jobs

A job is a small machine that waits for a permit, a service or a `send`; what it holds is part of
its phase, so that it cannot be forgotten when the job ends. -/

/-- `ConversationAdmission`; a permit is `granted` while the semaphore has handed it to the waiting
    job and the job has not looked yet. -/
structure Admission where
  request : Bool
  granted : Bool
  scan : Bool
  queue : Bool
  deriving DecidableEq, Repr

/-- How far a job that answers a request is; only the profiles wait for their worker after the
    answer. -/
inductive Phase
  | working
  | replying (body : Response)
  | draining (sent : Except Error Unit)
  | finished (sent : Except Error Unit)
  | panicked

/-- How far a terminal job is. -/
inductive Stage
  | opening
  | refusing
  | answering
  | attached
  | leaving
  | finished (sent : Except Error Unit)
  | panicked

/-- `terminal::End`. -/
inductive End
  | closed | stalled | transport
  deriving DecidableEq, Repr

/-- What a job does, and what it holds. -/
inductive Task
  | action (work : Work) (phase : Phase)
  | conversation (admission : Admission) (admitted : Bool) (phase : Phase)
  | profiles (worker : Bool) (phase : Phase)
  | terminal (stage : Stage)
  | upload (phase : Phase)

/-- What may happen in a job. -/
inductive JobEvent
  | granted | look | scanned | enter | notice | expired
  | done (outcome : Outcome)
  | conversed (result : Except InspectionError ConversationResult)
  | profiled (result : Except Error ProfilesResult)
  | workerDone
  | drained
  | opened (ok : Bool)
  | closed (reason : End)
  | uploaded (result : Except Error Unit)
  | sent (result : Except Error Unit) (delivered : Bool)
  | panic

/-- What a job does in one step: where it is then, what it sent, and the permits it dropped. -/
structure Effect where
  task : Task
  sent : Option Response
  slots : ℕ
  waiters : ℕ
  profile : ℕ
  terminal : ℕ

/-- A step that sends nothing and drops nothing. -/
def Effect.quiet (task : Task) : Effect := ⟨task, none, 0, 0, 0, 0⟩

/-- The end of a `send`: what went out, and what it returned.  A failed one may have sent. -/
def delivery (stop : Bool) (body : Response) (result : Except Error Unit) (delivered : Bool) :
    Option Response × Except Error Unit :=
  if stop then (none, .ok ())
  else
    match result with
    | .ok () => (some body, .ok ())
    | .error e => (if delivered then some body else none, .error e)

/-- `wait_conversation_admission` and the answer if it fails; `cancelled` is the job's own token. -/
def Admission.step (a : Admission) (id : String) (cancelled : Bool) : JobEvent → Option Effect
  | .notice =>
    if cancelled then
      some { Effect.quiet (.conversation { a with granted := false } false
               (.replying (unsupported id))) with slots := a.granted.toNat }
    else none
  | .expired =>
    if a.request && a.scan then none
    else
      some { Effect.quiet (.conversation { a with granted := false } false
               (.replying (if cancelled then unsupported id else response id none busy))) with
             slots := a.granted.toNat }
  | .look =>
    if a.granted && !a.request && !cancelled then
      some (.quiet (.conversation { a with granted := false, request := true } false .working))
    else none
  | .scanned =>
    if a.request && !a.scan && !cancelled then
      some (.quiet (.conversation { a with scan := true } false .working))
    else none
  | .enter =>
    if a.request && a.scan then
      if cancelled then some (.quiet (.conversation a false (.replying (unsupported id))))
      else
        some { Effect.quiet (.conversation { a with scan := false, queue := false } true .working)
               with waiters := a.queue.toNat }
    else none
  | _ => none

/-- One step of a job that is not its panic; `stop` is the link's token and `cancelled` the job's
    own. -/
def Task.step (id : String) (stop cancelled : Bool) : Task → JobEvent → Option Effect
  | .action work .working, .done outcome =>
    if outcome.work = work then
      some (.quiet (.action work (.replying (outcome.reply id cancelled))))
    else none
  | .action work (.replying body), .sent result delivered =>
    let (sent, result) := delivery stop body result delivered
    some { Effect.quiet (.action work (.finished result)) with sent, slots := 1 }
  | .conversation a false .working, event => a.step id cancelled event
  | .conversation a true .working, .conversed result =>
    some (.quiet (.conversation a true (.replying (conversationReply id cancelled result))))
  | .conversation a admitted (.replying body), .sent result delivered =>
    let (sent, result) := delivery stop body result delivered
    some { Effect.quiet (.conversation a admitted (.finished result)) with
           sent, slots := a.request.toNat + a.granted.toNat, waiters := a.queue.toNat }
  | .profiles true phase, .workerDone =>
    some { Effect.quiet (.profiles false phase) with profile := 1 }
  | .profiles worker .working, .notice =>
    if stop then some (.quiet (.profiles worker (.draining (.ok ()))))
    else if cancelled then some (.quiet (.profiles worker (.replying (unsupported id))))
    else none
  | .profiles worker .working, .expired =>
    some (.quiet (.profiles worker
      (.replying (if cancelled then unsupported id else response id none timedOut))))
  | .profiles false .working, .profiled result =>
    some (.quiet (.profiles false (.replying (profilesReply id cancelled result))))
  | .profiles worker (.replying body), .sent result delivered =>
    let (sent, result) := delivery stop body result delivered
    some { Effect.quiet (.profiles worker (.draining result)) with sent }
  | .profiles false (.draining result), .drained =>
    some { Effect.quiet (.profiles false (.finished result)) with slots := 1 }
  | .terminal .opening, .opened ok =>
    some { Effect.quiet (.terminal (if ok then .answering else .refusing)) with terminal := 1 }
  | .terminal .refusing, .sent result delivered =>
    let (sent, result) := delivery cancelled (unsupported id) result delivered
    some { Effect.quiet (.terminal (.finished result)) with sent }
  | .terminal .answering, .sent result delivered =>
    let (sent, result) := delivery false (response id (some (.ok ⟨⟩)) "") result delivered
    let stage : Stage :=
      if cancelled then .leaving
      else match result with
        | .ok () => .attached
        | .error _ => .finished (.error .transport)
    some { Effect.quiet (.terminal stage) with sent }
  | .terminal .attached, .closed reason =>
    some (.quiet (.terminal
      (if reason = .transport then .finished (.error .transport) else .leaving)))
  | .terminal .leaving, .sent result _ =>
    some (.quiet (.terminal (.finished (if stop then .ok () else result))))
  | .upload .working, .uploaded result => some (.quiet (.upload (.finished result)))
  | _, _ => none

/-- The job is not over. -/
def Phase.live : Phase → Bool
  | .working | .replying _ | .draining _ => true
  | .finished _ | .panicked => false

/-- The request permits that a job holds. -/
def Task.slots : Task → ℕ
  | .action _ phase | .profiles _ phase => phase.live.toNat
  | .conversation a _ phase => if phase.live then a.request.toNat + a.granted.toNat else 0
  | .terminal _ | .upload _ => 0

/-- The permits of the conversation queue that a job holds. -/
def Task.waiters : Task → ℕ
  | .conversation a _ phase => if phase.live then a.queue.toNat else 0
  | _ => 0

/-- The profile permit belongs to the worker. -/
def Task.profile : Task → ℕ
  | .profiles worker _ => worker.toNat
  | _ => 0

/-- The startup permits of terminals that a job holds. -/
def Task.terminals : Task → ℕ
  | .terminal .opening => 1
  | _ => 0

/-- The job after a panic, which drops what the job itself holds. -/
def Task.panicked : Task → Task
  | .action work _ => .action work .panicked
  | .conversation a admitted _ => .conversation a admitted .panicked
  | .profiles worker _ => .profiles worker .panicked
  | .terminal _ => .terminal .panicked
  | .upload _ => .upload .panicked

/-- What the `JoinSet` returns of a job that is over: its result, or that it panicked. -/
def Task.over : Task → Option (Except Unit (Except Error Unit))
  | .action _ phase | .conversation _ _ phase | .profiles _ phase | .upload phase =>
    match phase with
    | .finished result => some (.ok result)
    | .panicked => some (.error ())
    | _ => none
  | .terminal stage =>
    match stage with
    | .finished result => some (.ok result)
    | .panicked => some (.error ())
    | _ => none

/-- One step of a job. -/
def Task.next (t : Task) (id : String) (stop cancelled : Bool) : JobEvent → Option Effect
  | .panic =>
    if t.over.isNone then
      some ⟨t.panicked, none, t.slots, t.waiters, 0, t.terminals⟩
    else none
  | event => t.step id stop cancelled event

/-- A job of the `JoinSet`. -/
structure Job where
  id : String
  token : ℕ
  task : Task

/-! ### The loop

The loop takes one message at a time and either spawns a job, hands the message to one, or answers
by itself; while it waits for its own `send` it reads nothing. -/

/-- Which optional services Home has. -/
structure Services where
  inspector : Bool
  providers : Bool
  workspace : Bool
  sessions : Bool
  uploads : Bool

/-- What the process-wide semaphores answer: `inspection::admit`, `sessions::admit` and
    `upload::admit`. -/
structure Slots where
  scan : Bool
  action : Bool
  upload : Bool

/-- What the peer uses of `wire::Message` and of `legacy`. -/
structure Legacy (μ : Type) where
  kind : μ → String
  id : μ → String
  operation : μ → String
  validateFields : μ → Bool
  fromJson : μ → Except Protocol.Error Envelope

/-- What the reader returns. -/
inductive Incoming (μ : Type)
  | protobuf (value : Envelope)
  | json (value : μ)
  | error (isProtocol : Bool)

/-- `Negotiated`. -/
inductive Negotiated
  | protobufV2 | jsonV1
  deriving DecidableEq, Repr

/-- The loop waits for the next event, or for a `send` of its own with the permits it holds
    meanwhile, or it is left. -/
inductive Loop
  | ready
  | sending (body : Option Response) (slots terminals : ℕ)
  | ended (result : Except Error Unit)

/-- What `run_owned` has while the link is up. -/
structure State where
  loop : Loop
  stop : Bool
  slots : Semaphore
  terminalSlots : Semaphore
  conversationWaiters : Semaphore
  profileSlot : Semaphore
  jobs : List Job
  pending : Table String ℕ
  terminals : Table String ℕ
  uploads : Table String ℕ
  cancelled : List ℕ
  tokens : ℕ
  requests : List String
  opens : List String
  sent : List Response

/-- The state in which the loop is entered. -/
def State.init : State :=
  { loop := .ready, stop := false, slots := ⟨requestSlots⟩, terminalSlots := ⟨maxTerminals⟩
    conversationWaiters := ⟨Home.conversationWaiters⟩, profileSlot := ⟨1⟩, jobs := []
    pending := .empty, terminals := .empty, uploads := .empty, cancelled := [], tokens := 0
    requests := [], opens := [], sent := [] }

/-- The loop is left and the link stopped. -/
def State.fail (s : State) (result : Except Error Unit) : State :=
  { s with loop := .ended result, stop := true }

/-- The loop answers by itself. -/
def State.answer (s : State) (body : Response) (slots : ℕ) : State :=
  { s with loop := .sending (some body) slots 0 }

/-- `pending.insert` and `jobs.spawn`. -/
def State.spawn (s : State) (id : String) (task : Task) : State :=
  { s with
    jobs := s.jobs ++ [⟨id, s.tokens, task⟩]
    pending := s.pending.insert id s.tokens
    tokens := s.tokens + 1 }

/-- `queued_conversation`. -/
def State.queuedConversation (s : State) (id : String) : State :=
  match s.conversationWaiters.tryAcquire 1 with
  | none => s.answer (response id none busy) 0
  | some conversationWaiters =>
    { s with conversationWaiters }.spawn id
      (.conversation ⟨false, false, false, true⟩ false .working)

/-- `conversation_admission` and the job or the answer it leads to. -/
def State.conversation (s : State) (id : String) (o : Slots) : State :=
  match s.slots.tryAcquire 1 with
  | none => s.queuedConversation id
  | some slots =>
    if o.scan then
      { s with slots }.spawn id (.conversation ⟨true, false, true, false⟩ false .working)
    else s.queuedConversation id

/-- `provider_operation`. -/
def providerOperation (op : Option Operation) : Bool :=
  [some Operation.providers, some .providerKey, some .providerJobStart, some .providerJob,
    some .providerJobInput, some .providerJobCancel].contains op

/-- `sessions::supported`. -/
def supported (op : Option Operation) : Bool :=
  [some Operation.create, some .«alias», some .hidden].contains op

/-- The requests that are served under a request permit; `s` has it already taken out of `slots`. -/
def State.permitted (s : State) (services : Services) (r : Request) (o : Slots) : State :=
  let op := Operation.ofInt32 r.operation
  if op = some .profiles then
    match s.profileSlot.tryAcquire 1 with
    | none => s.answer (response r.id none busy) 1
    | some profileSlot => { s with profileSlot }.spawn r.id (.profiles true .working)
  else if providerOperation op && services.providers then
    if r.payload.isNone then s.fail (.error .protocol)
    else s.spawn r.id (.action .providers .working)
  else if op = some .workspace && services.workspace then
    match r.payload with
    | some (.workspace payload) =>
      match payload.change.mapM workspaceChangeFromProto with
      | .ok _ => s.spawn r.id (.action .workspace .working)
      | .error _ => s.fail (.error .protocol)
    | _ => s.fail (.error .protocol)
  else if supported op && services.sessions then
    if o.action then s.spawn r.id (.action .session .working)
    else s.answer (response r.id none busy) 1
  else s.answer (unsupported r.id) 1

/-- The `Request` arm. -/
def State.request (s : State) (services : Services) (r : Request) (o : Slots) : State :=
  let s := { s with requests := s.requests ++ [r.id] }
  if s.pending.contains r.id then s.fail (.error .protocol)
  else if Operation.ofInt32 r.operation = some .conversation && services.inspector then
    if r.session.isNone then s.fail (.error .protocol) else s.conversation r.id o
  else
    match s.slots.tryAcquire 1 with
    | none => s.answer (response r.id none busy) 0
    | some slots => { s with slots }.permitted services r o

/-- The `TerminalOpen` arm; the wire decoder has checked the identity. -/
def State.terminalOpen (s : State) (open' : TerminalOpen) : State :=
  let s := { s with opens := s.opens ++ [open'.id] }
  if s.pending.contains open'.id then s.fail (.error .protocol)
  else
    match s.terminalSlots.tryAcquire 1 with
    | none => { s with loop := .sending (some (response open'.id none busy)) 0 0 }
    | some terminalSlots =>
      if maxTerminals ≤ s.terminals.entries.length then
        { s with terminalSlots, loop := .sending (some (response open'.id none busy)) 0 1 }
      else if open'.session.isNone then s.fail (.error .worker)
      else
        { s with terminalSlots, terminals := s.terminals.insert open'.id s.tokens }.spawn open'.id
          (.terminal .opening)

/-- The `UploadStart` arm. -/
def State.uploadStart (s : State) (services : Services) (start : UploadStart) (o : Slots) : State :=
  if s.pending.contains start.id then s.fail (.error .protocol)
  else if !(services.uploads && o.upload) then { s with loop := .sending none 0 0 }
  else if start.header.isNone then s.fail (.error .protocol)
  else
    { s with uploads := s.uploads.insert start.id s.tokens }.spawn start.id (.upload .working)

/-- `cancel` on a token that a map has under this id. -/
def State.cancel (s : State) (token : Option ℕ) : State :=
  match token with
  | none => s
  | some token => { s with cancelled := token :: s.cancelled }

/-- The handle of a terminal or an upload takes an input, or cancels its job. -/
def State.input (s : State) (token : Option ℕ) (refused : Bool) : State :=
  if refused then s.cancel token else s

/-- The arms of the loop for one message; `refused` is whether a handle refuses its input. -/
def State.body (s : State) (services : Services) (o : Slots) (refused : Bool) : EnvelopeBody → State
  | .request r => s.request services r o
  | .terminalOpen open' => s.terminalOpen open'
  | .uploadStart start => s.uploadStart services start o
  | .uploadData m => s.input (s.uploads.get? m.id) refused
  | .uploadFinish m => s.input (s.uploads.get? m.id) refused
  | .terminalInput m => s.input (s.terminals.get? m.id) refused
  | .resize m => s.input (s.terminals.get? m.id) refused
  | .refresh m => s.input (s.terminals.get? m.id) refused
  | .outputAck m => s.input (s.terminals.get? m.id) refused
  | .cancel m | .close m => s.cancel (s.pending.get? m.id)
  | .uploadCancel m => s.cancel (s.uploads.get? m.id)
  | _ => s.fail (.error .protocol)

/-- `legacy::operation`. -/
def legacyOperation (name : String) : Bool :=
  ["profiles", "create", "alias", "hidden", "conversation", "workspace", "providers",
    "provider-key", "provider-job-start", "provider-job", "provider-job-input",
    "provider-job-cancel"].contains name

section

variable {μ : Type} (services : Services) (legacy : Legacy μ) (protocol : Negotiated)

/-- `recoverable_legacy_action`. -/
def recoverableLegacyAction (value : μ) (duplicate : Bool) : Bool :=
  legacy.kind value == "request" && legacy.id value != "" && legacy.validateFields value &&
    legacyOperation (legacy.operation value) && !duplicate

/-- The envelope of a message. -/
def State.envelope (s : State) (o : Slots) (refused : Bool) (e : Envelope) : State :=
  match e.body with
  | none => s.fail (.error .protocol)
  | some body => s.body services o refused body

/-- The arm of the loop that receives a message. -/
def State.receive (s : State) (o : Slots) (refused : Bool) : Incoming μ → State
  | .protobuf value =>
    if protocol = .protobufV2 then s.envelope services o refused value
    else s.fail (.error .protocol)
  | .json value =>
    if protocol = .jsonV1 then
      match legacy.fromJson value with
      | .ok value => s.envelope services o refused value
      | .error e =>
        if (e = .fields ∨ e = .size) ∧
            recoverableLegacyAction legacy value (s.pending.contains (legacy.id value)) then
          { s with requests := s.requests ++ [legacy.id value] }.answer
            (unsupported (legacy.id value)) 0
        else s.fail (.error .protocol)
    else s.fail (.error .protocol)
  | .error isProtocol => s.fail (.error (if isProtocol then .protocol else .transport))

/-- What happens on the link. -/
inductive Event (μ : Type)
  | shutdown
  | collector (outcome : Except Error Unit)
  | receive (incoming : Incoming μ) (slots : Slots) (refused : Bool)
  | replied (result : Except Error Unit) (delivered : Bool)
  | join (index : ℕ)
  | job (index : ℕ) (event : JobEvent)

/-- The `send` of the loop returns. -/
def State.replied (s : State) (result : Except Error Unit) (delivered : Bool) : State :=
  match s.loop with
  | .sending body slots terminals =>
    let s := { s with slots := s.slots.release slots
                      terminalSlots := s.terminalSlots.release terminals }
    match result with
    | .ok () => { s with sent := s.sent ++ body.toList, loop := .ready }
    | .error e => { s with sent := s.sent ++ if delivered then body.toList else [] }.fail (.error e)
  | _ => s

/-- A job that is over is joined. -/
def State.join (s : State) (index : ℕ) : State :=
  match s.jobs[index]? with
  | none => s
  | some job =>
    match job.task.over with
    | none => s
    | some (.error _) => s.fail (.error .worker)
    | some (.ok result) =>
      let s := { s with
        jobs := s.jobs.eraseIdx index
        pending := s.pending.erase job.id
        terminals := s.terminals.erase job.id
        uploads := s.uploads.erase job.id }
      match result with
      | .ok () => s
      | .error e => s.fail (.error e)

/-- The semaphore of the requests hands a permit to a conversation that waits for one. -/
def State.grant (s : State) (index : ℕ) (job : Job) : State :=
  match job.task, s.slots.tryAcquire 1 with
  | .conversation a false .working, some slots =>
    if a.request || a.granted then s
    else
      { s with
        slots
        jobs := s.jobs.set index
          { job with task := .conversation { a with granted := true } false .working } }
  | _, _ => s

/-- A job goes on. -/
def State.advance (s : State) (index : ℕ) (event : JobEvent) : State :=
  match s.jobs[index]? with
  | none => s
  | some job =>
    match event with
    | .granted => s.grant index job
    | event =>
      match job.task.next job.id s.stop (s.stop || s.cancelled.contains job.token) event with
      | none => s
      | some e =>
        { s with
          jobs := s.jobs.set index { job with task := e.task }
          sent := s.sent ++ e.sent.toList
          slots := s.slots.release e.slots
          conversationWaiters := s.conversationWaiters.release e.waiters
          profileSlot := s.profileSlot.release e.profile
          terminalSlots := s.terminalSlots.release e.terminal }

/-- One step of the link; the arms of the loop need the loop to wait for them. -/
def State.step (s : State) (event : Event μ) : State :=
  match event, s.loop with
  | .shutdown, _ => { s with stop := true }
  | .collector outcome, .ready => s.fail outcome
  | .receive incoming o refused, .ready => s.receive services legacy protocol o refused incoming
  | .replied result delivered, _ => s.replied result delivered
  | .join index, .ready => s.join index
  | .job index event, _ => s.advance index event
  | _, _ => s

/-- Every interleaving is a list of events. -/
def run (events : List (Event μ)) : State :=
  events.foldl (State.step services legacy protocol) .init

end

end Hmux.Home
