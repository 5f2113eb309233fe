import Hmux.Gateway.Hub

namespace Hmux.Gateway

open Hmux.Lib Hmux.Protocol

/-!
# Gateway — dispatching the messages of Home

`dispatch` is called by the reader of a connection with the generation of that connection.  A
message is handled in one critical section (`dispatchLocked`, one `on…` function per arm of
the source), which may ask for a control frame to be sent to Home afterwards (`cleanup`).  An
error ends the connection.
-/

namespace Hub

/-! ### Retained bytes

A copy of what Home sent is charged before it is kept, and the charge may fail. -/

/-- `Hub::retain`: the bytes charged once a copy of `raw` is kept; `none` when they exceed the
    bound or cannot be allocated. -/
def retain (codec : Codec) (used : ℕ) (raw : List UInt8) : Option ℕ :=
  if raw.isEmpty then some used
  else if retainedPayloadBytes < used + raw.length then none
  else match codec.allocate raw.length with
    | none => none
    | some capacity =>
      if retainedPayloadBytes < used + max raw.length capacity then none
      else some (used + max raw.length capacity)

/-- `Hub::retain_response`. -/
def retainResponse (codec : Codec) (used : ℕ) (response : Pb.Response) : Option ℕ :=
  if retainedPayloadBytes < used + codec.responseRetainedBytes response then none
  else some (used + codec.responseRetainedBytes response)

/-! ### Snapshots

The old snapshot goes before the new one is charged, so a failed charge leaves none. -/

/-- The caches of the hub. -/
inductive Slot
  | catalog
  | claude
  | codex
  deriving DecidableEq

/-- One cache is replaced. -/
def setSlot (s : State) (slot : Slot) (value : Option (List UInt8)) : State :=
  match slot with
  | .catalog => { s with catalog := value }
  | .claude => { s with usage := (value, s.usage.2) }
  | .codex => { s with usage := (s.usage.1, value) }

/-- `Hub::cache_snapshot`: the old snapshot is dropped before the new one is charged. -/
def cacheSnapshot (codec : Codec) (h : Hub) (generation : UInt64) (slot : Slot)
    (raw : List UInt8) (moment : Moment) : Hub × Except HubError (Option Pb.EnvelopeBody) :=
  if h.state.generation? ≠ some generation then (h, .error .stale)
  else
    let cleared := setSlot h.state slot none
    let payloads := h.payloads - moment.freed
    match retain codec payloads raw with
    | none => ({ h with state := cleared, payloads }, .error .capacity)
    | some used =>
      let stored := setSlot cleared slot (some raw)
      let updated := if slot = .catalog then some moment.now else stored.updated
      ({ h with state := { stored with updated }, payloads := used }, .ok none)

/-! ### Answers

The request is forgotten first, so that no answer finds it a second time. -/

/-- A value is sent on the reply channel of a request. -/
def reply (h : Hub) (id : String) (result : Except HubError Pb.Response) : Hub :=
  { h with replies := h.replies ++ [(id, result)] }

/-- The `Response` arm: the request is found by its bare id and forgotten before anything else
    is checked. -/
def onResponse (codec : Codec) (h : Hub) (generation : UInt64) (response : Pb.Response) :
    Hub × Except HubError (Option Pb.EnvelopeBody) :=
  match h.state.pending[response.id]? with
  | none => (h, .ok none)
  | some pending =>
    let h : Hub :=
      { h with state := { h.state with pending := h.state.pending.erase response.id } }
    if pending.generation ≠ generation then (h, .ok none)
    else if !responseMatches response pending.context then
      (h.reply response.id (.error .invalid), .error .invalid)
    else match retainResponse codec h.payloads response with
      | none => (h.reply response.id (.error .capacity), .error .capacity)
      | some used => ({ h with payloads := used }.reply response.id (.ok response), .ok none)

/-! ### Views

The arms that end in the event queue of a view, which is closed when its queue is full. -/

/-- The view is closed for a full queue. -/
def closeFull (h : Hub) (id : String) (cell : ViewCell) : Hub :=
  { h with
    state := { h.state with views := h.state.views.erase id }
    viewCell := Function.update h.viewCell id { cell with closed := outputFull } }

/-- The bytes charged once an output frame is kept; only an admitted frame is charged. -/
def retainOutput (codec : Codec) (used : ℕ) (cell : ViewCell) (data : List UInt8) : Option ℕ :=
  if (cell.admitted data).isSome then retain codec used data else none

/-- The `TerminalOutput` arm. -/
def onTerminalOutput (codec : Codec) (h : Hub) (generation : UInt64) (data : Pb.Data) :
    Hub × Except HubError (Option Pb.EnvelopeBody) :=
  match h.state.views[data.id]? with
  | none => (h, .ok none)
  | some view =>
    if view.generation ≠ generation then (h, .ok none)
    else
      let cell := h.viewCell data.id
      let used := retainOutput codec h.payloads cell data.data
      let out := cell.output data.data used.isSome
      if out.2 then (h.closeFull data.id out.1, .ok (some (.close { id := data.id })))
      else
        ({ h with viewCell := Function.update h.viewCell data.id out.1
                  payloads := used.getD h.payloads }, .ok none)

/-- The `TerminalExit` arm. -/
def onTerminalExit (h : Hub) (response : Pb.Response) :
    Hub × Except HubError (Option Pb.EnvelopeBody) :=
  match h.state.views[response.id]? with
  | none => (h, .ok none)
  | some _ =>
    let cell := h.viewCell response.id
    match cell.push (.exit response.error) with
    | some cell =>
      ({ h with viewCell :=
          Function.update h.viewCell response.id { cell with closed := viewExited } }, .ok none)
    | none => (h.closeFull response.id cell, .ok none)

/-- The `RefreshResult` arm. -/
def onRefreshResult (h : Hub) (response : Pb.Response) :
    Hub × Except HubError (Option Pb.EnvelopeBody) :=
  match h.state.views[response.id]? with
  | none => (h, .ok none)
  | some _ =>
    let cell := h.viewCell response.id
    match cell.push (.refreshResult (response.error == "")) with
    | some cell => ({ h with viewCell := Function.update h.viewCell response.id cell }, .ok none)
    | none => (h.closeFull response.id cell, .ok (some (.close { id := response.id })))

/-! ### Uploads

Progress must leave a slot for the result, and of the results only the first is queued. -/

/-- The `UploadReady` and `UploadAck` arms: a progress event must leave a slot for the result;
    one that does not ends the upload. -/
def onUploadProgress (h : Hub) (id : String) (event : UploadEvent) :
    Hub × Except HubError (Option Pb.EnvelopeBody) :=
  match h.state.uploads[id]? with
  | none => (h, .ok none)
  | some upload =>
    if upload.terminal then (h, .ok none)
    else
      let queue := h.uploadQueue id
      match if queue.free ≤ 1 then none else queue.trySend event with
      | some queue =>
        ({ h with uploadQueue := Function.update h.uploadQueue id queue }, .ok none)
      | none =>
        ({ h with state := { h.state with uploads := h.state.uploads.erase id } },
          .ok (some (.uploadCancel { id })))

/-- The `UploadComplete` and `UploadError` arms: the first result is queued, later ones are
    ignored. -/
def onUploadResult (codec : Codec) (h : Hub) (response : Pb.Response)
    (event : Pb.Response → UploadEvent) : Hub × Except HubError (Option Pb.EnvelopeBody) :=
  match h.state.uploads[response.id]? with
  | none => (h, .ok none)
  | some upload =>
    if upload.terminal then (h, .ok none)
    else match retainResponse codec h.payloads response with
      | none => (h, .error .capacity)
      | some used =>
        let state := { h.state with
          uploads := h.state.uploads.insert response.id { upload with terminal := true } }
        match (h.uploadQueue response.id).trySend (event response) with
        | none => ({ h with state }, .error .capacity)
        | some queue =>
          ({ h with state, payloads := used
                    uploadQueue := Function.update h.uploadQueue response.id queue }, .ok none)

/-! ### Dispatch

The generation is checked under the lock, and a connection that is no longer served gets an error.
-/

/-- The `TaskComplete` arm. -/
def onTaskComplete (codec : Codec) (h : Hub) (completion : Pb.Completion) (moment : Moment) :
    Hub × Except HubError (Option Pb.EnvelopeBody) :=
  let r := h.state.completionAdmission.enqueue codec.parseTime completion h.completions
    moment.wall moment.now
  ({ h with state := { h.state with completionAdmission := r.1 }, completions := r.2 }, .ok none)

/-- The messages handled under the lock, once the generation was checked. -/
def onBody (codec : Codec) (h : Hub) (generation : UInt64) (body : Pb.EnvelopeBody)
    (moment : Moment) : Hub × Except HubError (Option Pb.EnvelopeBody) :=
  match body with
  | .hello hello =>
    ({ h with state := { h.state with
        outputCap := hello.capabilities.any (· == outputCapability)
        uploadCap := hello.capabilities.any (· == uploadCapability) } }, .ok none)
  | .usageUnavailable _ => ({ h with state := { h.state with usage := (none, none) } }, .ok none)
  | .response response => h.onResponse codec generation response
  | .terminalOutput data => h.onTerminalOutput codec generation data
  | .terminalExit response => h.onTerminalExit response
  | .refreshResult response => h.onRefreshResult response
  | .uploadReady reference => h.onUploadProgress reference.id .ready
  | .uploadAck ack => h.onUploadProgress ack.id (.ack ack.received)
  | .uploadComplete response => h.onUploadResult codec response .complete
  | .uploadError response => h.onUploadResult codec response .error
  | .taskComplete completion => h.onTaskComplete codec completion moment
  | _ => (h, .error .invalid)

/-- The cache a usage snapshot belongs to; `none` for an unknown provider. -/
def usageSlot (provider : Int32) : Option Slot :=
  if provider = 1 then some .claude else if provider = 2 then some .codex else none

/-- The critical section of `Hub::dispatch`, with the control frame it asks for. -/
def dispatchLocked (codec : Codec) (h : Hub) (generation : UInt64) (envelope : Pb.Envelope)
    (moment : Moment) : Hub × Except HubError (Option Pb.EnvelopeBody) :=
  match envelope.body with
  | none => (h, .error .invalid)
  | some (.catalog catalog) =>
    match codec.catalogPayload catalog with
    | none => (h, .error .invalid)
    | some raw => h.cacheSnapshot codec generation .catalog raw moment
  | some (.usage usage) =>
    match usageSlot usage.provider with
    | none => (h, .error .invalid)
    | some slot =>
      match codec.usagePayload usage with
      | none => (h, .error .invalid)
      | some raw => h.cacheSnapshot codec generation slot raw moment
  | some body =>
    if h.state.generation? ≠ some generation then (h, .error .stale)
    else h.onBody codec generation body moment

/-- `Hub::dispatch`. -/
def dispatch (codec : Codec) (h : Hub) (generation : UInt64) (envelope : Pb.Envelope)
    (moment : Moment) : Hub × Except HubError Unit :=
  match h.dispatchLocked codec generation envelope moment with
  | (h, .error e) => (h, .error e)
  | (h, .ok none) => (h, .ok ())
  | (h, .ok (some body)) => (h.cleanup codec generation body, .ok ())

/-- The v1 reader before it decodes: an answer gets the context of the request it names, if
    that waits on this connection, and is skipped otherwise. -/
def readContext (codec : Codec) (h : Hub) (generation : UInt64) (message : codec.Message) :
    Option (Option ResponseContext) :=
  if codec.kind message == "response" then
    match h.state.pending[codec.id message]? with
    | none => none
    | some pending =>
      if pending.generation = generation then some (some pending.context) else none
  else some none

/-! ### What a message leaves alone

Most messages have nothing to do with requests and uploads; the lemma says so once for all of them.
-/

/-- Requests and answers, uploads and their queues are left alone. -/
structure Aside (h h' : Hub) : Prop where
  pending : h'.state.pending = h.state.pending
  replies : h'.replies = h.replies
  uploads : h'.state.uploads = h.state.uploads
  uploadQueue : h'.uploadQueue = h.uploadQueue

variable (codec : Codec) (h : Hub) (generation : UInt64)

theorem aside_cacheSnapshot (slot : Slot) (raw : List UInt8) (moment : Moment) :
    Aside h (h.cacheSnapshot codec generation slot raw moment).1 := by
  rw [cacheSnapshot]
  split
  · exact ⟨rfl, rfl, rfl, rfl⟩
  · dsimp only
    split
    · cases slot <;> exact ⟨rfl, rfl, rfl, rfl⟩
    · cases slot <;> exact ⟨rfl, rfl, rfl, rfl⟩

theorem aside_onTerminalOutput (data : Pb.Data) :
    Aside h (h.onTerminalOutput codec generation data).1 := by
  rw [onTerminalOutput]
  split
  · exact ⟨rfl, rfl, rfl, rfl⟩
  · split
    · exact ⟨rfl, rfl, rfl, rfl⟩
    · dsimp only
      split <;> exact ⟨rfl, rfl, rfl, rfl⟩

theorem aside_onTerminalExit (response : Pb.Response) :
    Aside h (h.onTerminalExit response).1 := by
  rw [onTerminalExit]
  split
  · exact ⟨rfl, rfl, rfl, rfl⟩
  · dsimp only
    split <;> exact ⟨rfl, rfl, rfl, rfl⟩

theorem aside_onRefreshResult (response : Pb.Response) :
    Aside h (h.onRefreshResult response).1 := by
  rw [onRefreshResult]
  split
  · exact ⟨rfl, rfl, rfl, rfl⟩
  · dsimp only
    split <;> exact ⟨rfl, rfl, rfl, rfl⟩

/-- What a message is about, as far as requests and uploads go. -/
inductive Topic
  | answer (response : Pb.Response)
  | progress (id : String) (event : UploadEvent)
  | result (response : Pb.Response) (event : Pb.Response → UploadEvent)
  | other

/-- The topic of a message. -/
def topic (envelope : Pb.Envelope) : Topic :=
  match envelope.body with
  | some (.response response) => .answer response
  | some (.uploadReady reference) => .progress reference.id .ready
  | some (.uploadAck ack) => .progress ack.id (.ack ack.received)
  | some (.uploadComplete response) => .result response .complete
  | some (.uploadError response) => .result response .error
  | _ => .other

/-- **Step lemma.** A message on a connection that is not served is refused; a message about a
    request or an upload is handled by its arm; every other message leaves both alone. -/
theorem dispatchLocked_topic (envelope : Pb.Envelope) (moment : Moment) :
    match topic envelope with
    | .answer response => h.dispatchLocked codec generation envelope moment =
        if h.state.generation? ≠ some generation then (h, .error .stale)
        else h.onResponse codec generation response
    | .progress id event => h.dispatchLocked codec generation envelope moment =
        if h.state.generation? ≠ some generation then (h, .error .stale)
        else h.onUploadProgress id event
    | .result response event => h.dispatchLocked codec generation envelope moment =
        if h.state.generation? ≠ some generation then (h, .error .stale)
        else h.onUploadResult codec response event
    | .other => Aside h (h.dispatchLocked codec generation envelope moment).1 := by
  have hrefl : Aside h h := ⟨rfl, rfl, rfl, rfl⟩
  obtain ⟨version, body⟩ := envelope
  cases body with
  | none => exact hrefl
  | some body =>
    cases body with
    -- the bodies that have a topic go to their own handlers
    | response response => rfl
    | uploadReady reference => rfl
    | uploadAck ack => rfl
    | uploadComplete response => rfl
    | uploadError response => rfl
    -- the others leave requests and uploads alone
    | catalog catalog =>
      simp only [topic, dispatchLocked]
      split
      · exact hrefl
      · exact h.aside_cacheSnapshot codec generation _ _ _
    | usage usage =>
      simp only [topic, dispatchLocked]
      split
      · exact hrefl
      · split
        · exact hrefl
        · exact h.aside_cacheSnapshot codec generation _ _ _
    | terminalOutput data =>
      simp only [topic, dispatchLocked]
      split
      · exact hrefl
      · exact h.aside_onTerminalOutput codec generation data
    | terminalExit response =>
      simp only [topic, dispatchLocked]
      split
      · exact hrefl
      · exact h.aside_onTerminalExit response
    | refreshResult response =>
      simp only [topic, dispatchLocked]
      split
      · exact hrefl
      · exact h.aside_onRefreshResult response
    | _ =>
      simp only [topic, dispatchLocked]
      split <;> exact ⟨rfl, rfl, rfl, rfl⟩

end Hub

end Hmux.Gateway
