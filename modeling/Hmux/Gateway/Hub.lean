import Std.Data.ExtTreeMap
import Hmux.Gateway.Completions
import Hmux.Gateway.View
import Hmux.Lib.Machine
import Hmux.Protocol.Actions

namespace Hmux.Gateway

open Hmux.Lib Hmux.Protocol

/-!
# Gateway — the hub

One hub serves every browser from one Home connection.  It hands out ids for requests, views
and uploads, keeps what is open under the generation of the connection it was opened on, and
dispatches every message of Home to the owner it names.

The state behind the hub's lock is `State`.  What the hub shares with the owners of views and
uploads (queues, counters) is kept in `Hub` by the id of its owner, and so is what was sent on
the reply channels.  Each operation is one critical section of the source; where the source
gives up the lock in between, there are two.

`Codec` collects what the hub calls in other modules: the wire codecs, the size accounting of
answers and the allocator.
-/

/-! ### Errors and bounds

The errors of the hub and the numbers that bound it, as in the source. -/

/-- `hub::Error`. -/
inductive HubError
  | offline | stale | busy | capacity | unsupported | invalid | cancelled | transport
  | outputFull | remoteOperation
  deriving DecidableEq, Repr

/-- The most requests waiting for an answer. -/
def maxPending : ℕ := 16

/-- The most open views. -/
def maxViews : ℕ := 8

/-- The most open uploads. -/
def maxUploads : ℕ := 2

/-- The bytes of snapshots, answers and output the hub may hold. -/
def retainedPayloadBytes : ℕ := 8 * 1024 * 1024

/-- Two progress events of an upload and a reserved slot for its result. -/
def uploadEvents : ℕ := 3

/-- `COMPLETION_EVENTS`. -/
def completionEvents : ℕ := 64

/-- How long a catalog counts as fresh, in nanoseconds. -/
def catalogFresh : ℕ := seconds 40

/-- `flow::CAPABILITY`. -/
def outputCapability : String := "terminal-output-flow-v1"

/-- The upload capability. -/
def uploadCapability : String := "web-upload-v1"

/-! ### The outgoing side of a connection

A frame takes a slot and some bytes on its way to Home, and the hub is refused when either is used
up. -/

/-- `transport::Error`. -/
inductive TransportError
  | busy | size | cancelled | queueTimeout | writeTimeout | closed | transport | protocol
  deriving DecidableEq, Repr

/-- `map_transport`. -/
def mapTransport : TransportError → HubError
  | .busy => .busy
  | .cancelled => .cancelled
  | .size => .invalid
  | .protocol => .invalid
  | .closed => .offline
  | .queueTimeout => .transport
  | .writeTimeout => .transport
  | .transport => .transport

/-- The most frames on the way out of a connection. -/
def queuedFrames : ℕ := 16

/-- The sending half of a connection: the frames on their way out, each with the bytes
    reserved for it. -/
structure Sender where
  stopped : Bool
  byteLimit : ℕ
  jobs : List (ℕ × Pb.EnvelopeBody)

namespace Sender

/-- The bytes reserved by the frames on their way out. -/
def held (s : Sender) : ℕ := (s.jobs.map Prod.fst).sum

/-- `Sender::try_reserve`. -/
def tryReserve (s : Sender) (n : ℕ) : Except TransportError Unit :=
  if s.stopped then .error .closed
  else if n = 0 || s.byteLimit < n then .error .size
  else if queuedFrames ≤ s.jobs.length then .error .busy
  else if s.byteLimit < s.held + n then .error .busy
  else .ok ()

/-- A frame is put on its way with `n` bytes reserved for it. -/
def submit (s : Sender) (n : ℕ) (body : Pb.EnvelopeBody) : Sender :=
  { s with jobs := s.jobs ++ [(n, body)] }

/-- `Sender::close`. -/
def close (s : Sender) : Sender := { s with stopped := true }

end Sender

/-! ### State

What is behind the lock and what is shared with the owners of views and uploads. -/

/-- The Home connection being served. -/
structure Peer where
  generation : UInt64
  sender : Sender
  protocol : Negotiated

/-- A request that waits for its answer. -/
structure Pending where
  generation : UInt64
  context : ResponseContext
  deriving DecidableEq

/-- An open view. -/
structure ViewState where
  generation : UInt64
  deriving DecidableEq

/-- An open upload; `terminal` once its result is queued. -/
structure UploadState where
  generation : UInt64
  terminal : Bool
  deriving DecidableEq

/-- An event for the owner of an upload. -/
inductive UploadEvent
  | ready
  | ack (received : Int64)
  | complete (response : Pb.Response)
  | error (response : Pb.Response)
  deriving DecidableEq

/-- The event is the result of the upload. -/
def UploadEvent.isTerminal : UploadEvent → Bool
  | .complete _ => true
  | .error _ => true
  | _ => false

/-- The state behind the hub's lock. -/
structure State where
  nextGeneration : UInt64
  nextId : UInt64
  peer : Option Peer
  pending : Std.ExtTreeMap String Pending
  views : Std.ExtTreeMap String ViewState
  uploads : Std.ExtTreeMap String UploadState
  completionAdmission : CompletionAdmission
  catalog : Option (List UInt8)
  usage : Option (List UInt8) × Option (List UInt8)
  updated : Option ℕ
  outputCap : Bool
  uploadCap : Bool

/-- The generation being served. -/
def State.generation? (s : State) : Option UInt64 := s.peer.map Peer.generation

/-- The hub: its locked state, the notification queue, the bytes retained, what it shares with
    the owners of views and uploads, and what was sent on the reply channels. -/
structure Hub where
  state : State
  completions : Channel CompletionEvent
  payloads : ℕ
  viewCell : String → ViewCell
  uploadQueue : String → Channel UploadEvent
  replies : List (String × Except HubError Pb.Response)

/-- What the hub calls in other modules: `encode` of both transports with the encoded length
    used for admission, the JSON payloads kept for browsers, the v1 decoder, the bytes an
    answer retains with its owner, the allocator and the reader of RFC 3339 times. -/
structure Codec where
  encode : Negotiated → Pb.Envelope → Option (List UInt8)
  encodedLen : Pb.Envelope → ℕ
  catalogPayload : Pb.CatalogSnapshot → Option (List UInt8)
  usagePayload : Pb.UsageSnapshot → Option (List UInt8)
  Message : Type
  kind : Message → String
  id : Message → String
  fromJson : Message → Option ResponseContext → Option Pb.Envelope
  responseRetainedBytes : Pb.Response → ℕ
  allocate : ℕ → Option ℕ
  parseTime : String → Option DateTime

/-- The moment a message is dispatched: both clocks, and the bytes that are given back when
    the hub drops its own reference to the snapshot it replaces. -/
structure Moment where
  wall : DateTime
  now : ℕ
  freed : ℕ

namespace Hub

/-- `Hub::new`. -/
def new : Hub :=
  { state :=
      { nextGeneration := 0, nextId := 0, peer := none, pending := ∅, views := ∅, uploads := ∅
        completionAdmission := ⟨∅⟩, catalog := none, usage := (none, none), updated := none
        outputCap := false, uploadCap := false }
    completions := Channel.new completionEvents, payloads := 0
    viewCell := fun _ => ViewCell.new, uploadQueue := fun _ => Channel.new uploadEvents
    replies := [] }

/-! ### Connections

One connection is served at a time; a second one is refused, and one that goes takes everything
with it that was opened on it. -/

/-- `Hub::attach`: a connection is served if none is. -/
def attach (h : Hub) (sender : Sender) (protocol : Negotiated) : Hub × Except HubError UInt64 :=
  if h.state.peer.isSome then (h, .error .busy)
  else match checkedSucc h.state.nextGeneration with
    | none => (h, .error .capacity)
    | some next =>
      ({ h with state := { h.state with
          nextGeneration := next, peer := some { generation := next, sender, protocol } } },
        .ok next)

/-- `Hub::detach_with_reason`: everything opened on the connection ends. -/
def detachWithReason (h : Hub) (generation : UInt64) (reason : HubError) : Hub :=
  if h.state.generation? ≠ some generation then h
  else
    { h with
      state := { h.state with
        peer := none, pending := ∅, views := ∅, uploads := ∅, catalog := none
        usage := (none, none), updated := none, outputCap := false, uploadCap := false }
      viewCell := fun id =>
        if h.state.views.contains id then { h.viewCell id with closed := homeOffline }
        else h.viewCell id
      replies := h.replies ++ h.state.pending.keys.map fun id => (id, .error reason) }

/-- `Hub::peer`. -/
def peer (h : Hub) (generation : UInt64) : Except HubError Peer :=
  match h.state.peer with
  | none => .error .offline
  | some peer => if peer.generation ≠ generation then .error .stale else .ok peer

/-- What browsers see of the hub. -/
structure Snapshot where
  connected : Bool
  online : Bool
  generation : Option UInt64
  catalog : Option (List UInt8)
  claudeUsage : Option (List UInt8)
  codexUsage : Option (List UInt8)
  outputFlow : Bool
  upload : Bool

/-- `Hub::snapshot`. -/
def snapshot (h : Hub) (now : ℕ) : Snapshot :=
  { connected := h.state.peer.isSome
    online := h.state.peer.isSome && h.state.updated.any fun at_ => now - at_ < catalogFresh
    generation := h.state.generation?, catalog := h.state.catalog
    claudeUsage := h.state.usage.1, codexUsage := h.state.usage.2
    outputFlow := h.state.outputCap, upload := h.state.uploadCap }

/-! ### Ids

An id is the generation and a counter that never goes back, so no two ids of a gateway are the
same. -/

/-- `format!("{:016x}{:016x}", generation, next_id)`. -/
def idText (generation next : UInt64) : String :=
  String.ofList (hexText 16 generation.toNat ++ hexText 16 next.toNat)

/-- `Hub::next_id`. -/
def nextId (s : State) (generation : UInt64) : Option (String × State) :=
  (checkedSucc s.nextId).map fun next => (idText generation next, { s with nextId := next })

/-! ### Opening and closing

What is opened is registered under the lock before anything is sent. -/

/-- The first section of `request_observed`: the request gets an id and waits. -/
def requestStart (h : Hub) (generation : UInt64) (operation : Int32) :
    Hub × Except HubError String :=
  if h.state.generation? ≠ some generation then (h, .error .stale)
  else if maxPending ≤ h.state.pending.size then (h, .error .busy)
  else match nextId h.state generation with
    | none => (h, .error .capacity)
    | some (id, s) =>
      match Pb.Operation.ofInt32 operation with
      -- the id is spent although the request is refused
      | none => ({ h with state := s }, .error .invalid)
      | some op =>
        ({ h with state := { s with
            pending := s.pending.insert id { generation, context := .operation op } } }, .ok id)

/-- The first section of `open_view_observed`: a view and the request that opens it share one
    id; the answer says whether Home wants acknowledgements. -/
def openViewStart (h : Hub) (generation : UInt64) : Hub × Except HubError (String × Bool) :=
  if h.state.generation? ≠ some generation then (h, .error .stale)
  else if maxViews ≤ h.state.views.size then (h, .error .capacity)
  else if maxPending ≤ h.state.pending.size then (h, .error .busy)
  else match nextId h.state generation with
    | none => (h, .error .capacity)
    | some (id, s) =>
      ({ h with
          state := { s with
            views := s.views.insert id { generation }
            pending := s.pending.insert id { generation, context := .terminalOpen } }
          viewCell := Function.update h.viewCell id ViewCell.new },
        .ok (id, s.outputCap))

/-- The first section of `open_upload`. -/
def openUploadStart (h : Hub) (generation : UInt64) : Hub × Except HubError String :=
  if h.state.generation? ≠ some generation then (h, .error .stale)
  else if !h.state.uploadCap then (h, .error .unsupported)
  else if maxUploads ≤ h.state.uploads.size then (h, .error .capacity)
  else match nextId h.state generation with
    | none => (h, .error .capacity)
    | some (id, s) =>
      ({ h with
          state := { s with uploads := s.uploads.insert id { generation, terminal := false } }
          uploadQueue := Function.update h.uploadQueue id (Channel.new uploadEvents) },
        .ok id)

/-- `Hub::ensure_view`. -/
def ensureView (h : Hub) (generation : UInt64) (id : String) : Except HubError Unit :=
  if h.state.generation? ≠ some generation then .error .stale
  else if !(h.state.views[id]?.any fun view => view.generation == generation) then .error .stale
  else .ok ()

/-- `Hub::check_upload`. -/
def checkUpload (h : Hub) (generation : UInt64) (id : String) (allowTerminal : Bool) :
    Except HubError Unit :=
  if h.state.generation? ≠ some generation then .error .stale
  else if !(h.state.uploads[id]?.any fun upload =>
      upload.generation == generation && (allowTerminal || !upload.terminal)) then .error .stale
  else .ok ()

/-- `Hub::remove_pending`. -/
def removePending (h : Hub) (generation : UInt64) (id : String) : Hub :=
  if h.state.pending[id]?.any fun pending => pending.generation == generation then
    { h with state := { h.state with pending := h.state.pending.erase id } }
  else h

/-- The locked part of `Hub::remove_view`, with the answer whether a view was removed. -/
def removeView (h : Hub) (generation : UInt64) (id : String) (code : UInt16) : Hub × Bool :=
  if h.state.views[id]?.any fun view => view.generation == generation then
    ({ h with
        state := { h.state with views := h.state.views.erase id }
        viewCell := Function.update h.viewCell id { h.viewCell id with closed := code } }, true)
  else (h, false)

/-- The locked part of `Hub::remove_upload`, with the answer whether Home must be told. -/
def removeUpload (h : Hub) (generation : UInt64) (id : String) : Hub × Bool :=
  match h.state.uploads[id]? with
  | none => (h, false)
  | some upload =>
    if upload.generation == generation then
      ({ h with state := { h.state with uploads := h.state.uploads.erase id } }, !upload.terminal)
    else (h, false)

/-! ### Sending

A frame that cannot be queued is an error for the caller; a control frame that cannot be queued
closes the connection. -/

/-- The sender of the peer is replaced. -/
def withSender (h : Hub) (peer : Peer) (sender : Sender) : Hub :=
  { h with state := { h.state with peer := some { peer with sender } } }

/-- `Hub::cleanup`: a control frame for Home; if it cannot be queued the connection is
    closed, so that Home's side cannot stay open unnoticed. -/
def cleanup (codec : Codec) (h : Hub) (generation : UInt64) (body : Pb.EnvelopeBody) : Hub :=
  match h.peer generation with
  | .error _ => h
  | .ok peer =>
    match codec.encode peer.protocol { version := 2, body := some body } with
    | none => h.withSender peer peer.sender.close
    | some raw =>
      match peer.sender.tryReserve raw.length with
      | .error _ => h.withSender peer peer.sender.close
      | .ok _ => h.withSender peer (peer.sender.submit raw.length body)

/-- The bytes `Hub::submit` reserves before it encodes. -/
def estimate (codec : Codec) (protocol : Negotiated) (envelope : Pb.Envelope) : ℕ :=
  match protocol with
  | .protobufV2 => codec.encodedLen envelope
  | .jsonV1 => min (codec.encodedLen envelope * 6 + 4096) (4 * 1024 * 1024)

/-- `Hub::submit`. -/
def submit (codec : Codec) (h : Hub) (generation : UInt64) (body : Pb.EnvelopeBody) :
    Hub × Except HubError Unit :=
  match h.peer generation with
  | .error e => (h, .error e)
  | .ok peer =>
    let envelope : Pb.Envelope := { version := 2, body := some body }
    let size := estimate codec peer.protocol envelope
    match peer.sender.tryReserve size with
    | .error e => (h, .error (mapTransport e))
    | .ok _ =>
      match codec.encode peer.protocol envelope with
      | none => (h, .error .invalid)
      | some raw =>
        if size < raw.length then
          match peer.sender.tryReserve raw.length with
          | .error e => (h, .error (mapTransport e))
          | .ok _ => (h.withSender peer (peer.sender.submit raw.length body), .ok ())
        else if raw = [] then (h, .error (mapTransport .size))
        -- what the estimate takes beyond the frame is given back when the frame is queued
        else (h.withSender peer (peer.sender.submit raw.length body), .ok ())

/-- `PendingGuard::drop`. -/
def dropPending (codec : Codec) (h : Hub) (generation : UInt64) (id : String)
    (sent cancelOnDrop : Bool) : Hub :=
  let h := h.removePending generation id
  if sent && cancelOnDrop then h.cleanup codec generation (.cancel { id }) else h

/-- `Hub::remove_view`, as `ViewLease::drop` and the lease's refusals call it. -/
def dropView (codec : Codec) (h : Hub) (generation : UInt64) (id : String) (code : UInt16)
    (cleanup : Bool) : Hub :=
  let r := h.removeView generation id code
  if r.2 && cleanup then r.1.cleanup codec generation (.close { id }) else r.1

/-- `Hub::remove_upload`, as `UploadLease::drop` calls it. -/
def dropUpload (codec : Codec) (h : Hub) (generation : UInt64) (id : String) (cleanup : Bool) :
    Hub :=
  let r := h.removeUpload generation id
  if r.2 && cleanup then r.1.cleanup codec generation (.uploadCancel { id }) else r.1

end Hub

end Hmux.Gateway
