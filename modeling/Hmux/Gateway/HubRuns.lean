import Hmux.Gateway.Dispatch

namespace Hmux.Gateway

open Hmux.Lib Hmux.Protocol

/-!
# Gateway — runs of the hub

Everything that can happen around one hub, one critical section at a time: connections come
and go, browsers open, use and drop requests, views and uploads, readers dispatch what Home
sends, on the connection they were started for.  Nothing is assumed about who calls: any
generation, past, present or never used, and any id may be named at any time.

Next to the hub a `World` keeps what the callers hold (the v1 readers between lookup and
dispatch, the upload leases) and a record of the run: the ids handed out, the requests
registered, the answers received and the upload events queued.

The actions are the critical sections and not the calls, so that a call which gives up the lock in
the middle appears as two actions with anything in between.
-/

/-- The owner's end of an upload: what `receive` has taken from the queue and not returned
    yet, and what it has returned. -/
structure UploadLease where
  generation : UInt64
  terminal : Bool
  held : Option UploadEvent
  returned : List UploadEvent

/-- The hub with its callers and the record of the run. -/
structure World (codec : Codec) where
  hub : Hub
  readers : UInt64 → Option (codec.Message × Option ResponseContext)
  leases : String → Option UploadLease
  issued : List String
  registered : List (String × Pending)
  received : List (UInt64 × Pb.Response)
  queued : String → List UploadEvent

/-- One critical section. -/
inductive Action (codec : Codec)
  | attach (sender : Sender) (protocol : Negotiated)
  | detach (generation : UInt64) (reason : HubError)
  | request (generation : UInt64) (operation : Int32)
  | openView (generation : UInt64)
  | openUpload (generation : UInt64)
  /-- A request was answered or given up. -/
  | removePending (generation : UInt64) (id : String)
  /-- A view was dropped or refused a frame. -/
  | removeView (generation : UInt64) (id : String) (code : UInt16)
  | removeUpload (generation : UInt64) (id : String)
  /-- An upload lease is dropped: its entry first, then its queue. -/
  | dropLease (id : String)
  | submit (generation : UInt64) (body : Pb.EnvelopeBody)
  | cleanup (generation : UInt64) (body : Pb.EnvelopeBody)
  /-- The writer of the served connection is done with its oldest frame. -/
  | written
  /-- Retained bytes are given back by their last owner. -/
  | release (n : ℕ)
  /-- The consumer of completions takes one. -/
  | consume
  /-- A view's lease takes an event, or lowers the count of data frames. -/
  | popView (id : String)
  | uncountView (id : String)
  /-- A message of Home is dispatched. -/
  | dispatch (generation : UInt64) (envelope : Pb.Envelope) (moment : Moment)
  /-- A v1 reader looks up the context of a message. -/
  | readJson (generation : UInt64) (message : codec.Message)
  /-- A v1 reader decodes the message it holds and dispatches it. -/
  | dispatchJson (generation : UInt64) (moment : Moment)
  /-- `UploadLease::receive` takes an event from its queue. -/
  | receive (id : String)
  /-- `UploadLease::receive` checks the generation again and returns the event. -/
  | take (id : String)

/-- The generation a call carries. -/
def Action.generation? {codec : Codec} : Action codec → Option UInt64
  | .detach generation _ => some generation
  | .request generation _ => some generation
  | .openView generation => some generation
  | .openUpload generation => some generation
  | .removePending generation _ => some generation
  | .removeView generation _ _ => some generation
  | .removeUpload generation _ => some generation
  | .submit generation _ => some generation
  | .cleanup generation _ => some generation
  | .dispatch generation _ _ => some generation
  | .readJson generation _ => some generation
  | .dispatchJson generation _ => some generation
  | _ => none

namespace World

variable {codec : Codec}

/-- A fresh Gateway. -/
def init (codec : Codec) : World codec :=
  { hub := Hub.new, readers := fun _ => none, leases := fun _ => none, issued := []
    registered := [], received := [], queued := fun _ => [] }

/-- The next hub, with the record of the events it queued for uploads. -/
def withHub (w : World codec) (hub : Hub) : World codec :=
  { w with
    hub
    queued := fun id =>
      w.queued id ++ (hub.uploadQueue id).queue.drop (w.hub.uploadQueue id).queue.length }

/-- The record of an id that was handed out, with the request registered under it. -/
def issue (w : World codec) (id : String) (pending : Option Pending) : World codec :=
  { w with
    issued := w.issued ++ [id]
    registered := w.registered ++ pending.toList.map fun p => (id, p) }

/-- The answer a message carries. -/
def responseOf (envelope : Pb.Envelope) : Option Pb.Response :=
  match Hub.topic envelope with
  | .answer response => some response
  | _ => none

/-- A message is dispatched. -/
def dispatch (w : World codec) (generation : UInt64) (envelope : Pb.Envelope) (moment : Moment) :
    World codec :=
  { w.withHub (w.hub.dispatchLocked codec generation envelope moment).1 with
    received := w.received ++ (responseOf envelope).toList.map fun r => (generation, r) }

/-- The request with the given operation is registered, or its id is spent for nothing. -/
def request (w : World codec) (generation : UInt64) (operation : Int32) : World codec :=
  match w.hub.requestStart generation operation with
  | (hub, .ok id) =>
    { w with hub }.issue id ((Pb.Operation.ofInt32 operation).map fun op =>
      { generation, context := .operation op })
  | (hub, .error _) => { w with hub }

/-- A view is opened. -/
def openView (w : World codec) (generation : UInt64) : World codec :=
  match w.hub.openViewStart generation with
  | (hub, .ok r) => { w with hub }.issue r.1 (some { generation, context := .terminalOpen })
  | (hub, .error _) => { w with hub }

/-- An upload is opened; its caller gets the lease. -/
def openUpload (w : World codec) (generation : UInt64) : World codec :=
  match w.hub.openUploadStart generation with
  | (hub, .ok id) =>
    { w with
      hub
      leases := Function.update w.leases id
        (some { generation, terminal := false, held := none, returned := [] })
      queued := Function.update w.queued id [] }.issue id none
  | (hub, .error _) => { w with hub }

/-- An upload lease is dropped. -/
def dropLease (w : World codec) (id : String) : World codec :=
  match w.leases id with
  | none => w
  | some lease =>
    let hub := (w.hub.removeUpload lease.generation id).1
    { w with
      hub := { hub with
        uploadQueue := Function.update hub.uploadQueue id (hub.uploadQueue id).close }
      leases := Function.update w.leases id none }

/-- The first half of `UploadLease::receive`. -/
def receive (w : World codec) (id : String) : World codec :=
  match w.leases id with
  | none => w
  | some lease =>
    if lease.terminal || lease.held.isSome then w
    else match w.hub.peer lease.generation, (w.hub.uploadQueue id).recv with
      | .ok _, some (event, queue) =>
        { w with
          hub := { w.hub with uploadQueue := Function.update w.hub.uploadQueue id queue }
          leases := Function.update w.leases id (some { lease with held := some event }) }
      | _, _ => w

/-- The second half of `UploadLease::receive`: an event of a connection that is gone is
    dropped. -/
def take (w : World codec) (id : String) : World codec :=
  match w.leases id with
  | none => w
  | some lease =>
    match lease.held with
    | none => w
    | some event =>
      match w.hub.peer lease.generation with
      | .error _ =>
        { w with leases := Function.update w.leases id (some { lease with held := none }) }
      | .ok _ =>
        { w with
          leases := Function.update w.leases id
            (some { lease with
              held := none
              terminal := lease.terminal || event.isTerminal
              returned := lease.returned ++ [event] }) }

/-- One critical section. -/
def step (w : World codec) : Action codec → World codec
  | .attach sender protocol => { w with hub := (w.hub.attach sender protocol).1 }
  | .detach generation reason => { w with hub := w.hub.detachWithReason generation reason }
  | .request generation operation => w.request generation operation
  | .openView generation => w.openView generation
  | .openUpload generation => w.openUpload generation
  | .removePending generation id => { w with hub := w.hub.removePending generation id }
  | .removeView generation id code => { w with hub := (w.hub.removeView generation id code).1 }
  | .removeUpload generation id => { w with hub := (w.hub.removeUpload generation id).1 }
  | .dropLease id => w.dropLease id
  | .submit generation body => { w with hub := (w.hub.submit codec generation body).1 }
  | .cleanup generation body => { w with hub := w.hub.cleanup codec generation body }
  | .written =>
    match w.hub.state.peer with
    | none => w
    | some peer =>
      { w with hub := w.hub.withSender peer { peer.sender with jobs := peer.sender.jobs.tail } }
  | .release n => { w with hub := { w.hub with payloads := w.hub.payloads - n } }
  | .consume =>
    match w.hub.completions.recv with
    | none => w
    | some r => { w with hub := { w.hub with completions := r.2 } }
  | .popView id =>
    match (w.hub.viewCell id).pop with
    | none => w
    | some r => { w with hub := { w.hub with viewCell := Function.update w.hub.viewCell id r.2 } }
  | .uncountView id =>
    { w with hub := { w.hub with
        viewCell := Function.update w.hub.viewCell id (w.hub.viewCell id).uncount } }
  | .dispatch generation envelope moment => w.dispatch generation envelope moment
  | .readJson generation message =>
    match w.hub.readContext codec generation message with
    | none => w
    | some context =>
      { w with readers := Function.update w.readers generation (some (message, context)) }
  | .dispatchJson generation moment =>
    match w.readers generation with
    | none => w
    | some (message, context) =>
      let idle := { w with readers := Function.update w.readers generation none }
      match codec.fromJson message context with
      | none => idle
      | some envelope => idle.dispatch generation envelope moment
  | .receive id => w.receive id
  | .take id => w.take id

/-- A whole run. -/
def run (w : World codec) (actions : List (Action codec)) : World codec := actions.foldl step w

end World

end Hmux.Gateway
