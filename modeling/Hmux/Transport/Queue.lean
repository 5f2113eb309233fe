import Hmux.Lib.Channel
import Hmux.Lib.Semaphore
import Hmux.Lib.Text
import Hmux.Protocol.Actions
import Hmux.Protocol.Scan

namespace Hmux.Transport

open Hmux.Lib Hmux.Protocol

/-!
# The outbound frame queue

One I/O task owns the socket of a connection, and everybody else hands it frames.  A producer
first gets a `Reservation` (one of 16 slots and the bytes it may need), then turns it into a
`Job` that keeps the slot and the bytes it really uses, and the job goes through a bounded channel
to the writer.  Cancellation tokens, receipts, deadlines and the connection's end act on jobs at any
moment in between.

* `tryReserve`, `reserve`, `pollReserve` — admission, at once or by waiting;
* `check`, `submitData`, `enqueue`, `closeWith` — from a reservation to a queued job;
* `take`, `finishWrite`, `leave`, `dropQueue`, `exit` — the writer, one move between two of its
  suspension points;
* `step` — everything that can happen to the connection.

Heartbeats are frames of the writer's own and touch neither permits nor jobs: only their failure
is here, as a reason to leave the loop.  Instants are nanoseconds of the link's own clock.
-/

def queuedFrames : ℕ := 16
def queuedBytes : ℕ := maxMessage
def queueDeadline : ℕ := 5 * 10 ^ 9

inductive Error
  | busy
  | size
  | cancelled
  | queueTimeout
  | writeTimeout
  | closed
  | transport
  | protocol
  deriving DecidableEq, Repr

/-- The WebSocket messages a job can carry. -/
inductive Message
  | text (text : String)
  | binary (data : List UInt8)
  | close (code : UInt16) (reason : String)
  deriving DecidableEq

/-- The message closes the connection. -/
def Message.closing : Message → Bool
  | .close _ _ => true
  | _ => false

/-- A suspended `reserve`: whether it has its slot, and how many of the bytes it wants. -/
structure Waiter where
  want : ℕ
  slot : Bool
  got : ℕ
  token : ℕ
  deadline : ℕ
  deriving DecidableEq, Repr

/-- An admitted frame that is not encoded yet; it holds one slot. -/
structure Reservation where
  bytes : ℕ
  admitted : ℕ
  deriving DecidableEq, Repr

/-- A queued frame; it holds one slot.  `id` is its place in the order of submissions, which is
    also the name of its receipt if it has one. -/
structure Job where
  id : ℕ
  message : Message
  bytes : ℕ
  /-- The token that cancels it; a job of `close_with` has one that nobody else knows. -/
  cancelled : Option ℕ
  expires : ℕ
  /-- Somebody waits for the outcome; a detached job has no receipt. -/
  reply : Bool
  deriving DecidableEq

/-- The outcome of a job reaches its receipt, if it has one that its holder did not drop. -/
def answer (dropped : List ℕ) (replies : List (ℕ × Except Error Unit)) (job : Job)
    (result : Except Error Unit) : List (ℕ × Except Error Unit) :=
  if job.reply ∧ job.id ∉ dropped then replies ++ [(job.id, result)] else replies

/-- Where the writer stands. -/
inductive Writer
  /-- In its loop, waiting for something to do. -/
  | waiting
  /-- Writing a frame. -/
  | writing (job : Job)
  /-- Out of its loop; the channel is still open. -/
  | left
  /-- The channel and the sink are dropped. -/
  | dropped
  /-- Ended, with the connection stopped. -/
  | ended
  deriving DecidableEq

/-- The job in the writer's hands. -/
def Writer.jobs : Writer → List Job
  | .writing job => [job]
  | _ => []

/-- The writer has left its loop for good. -/
def Writer.gone : Writer → Bool
  | .waiting => false
  | .writing _ => false
  | _ => true

/-- A connection, its callers' futures and what happened on it so far. -/
structure Link where
  byteLimit : ℕ
  protocol : Negotiated
  slots : Semaphore
  bytes : Semaphore
  waiting : List Waiter
  reservations : List Reservation
  queue : Channel Job
  writer : Writer
  stopped : Bool
  clock : ℕ
  /-- The tokens that were cancelled. -/
  cancelled : List ℕ
  /-- The receipts that calls of `close_with` wait for. -/
  closing : List ℕ
  /-- Every job that ever entered the channel, in order. -/
  accepted : List Job
  /-- The receipts that were dropped by their holder. -/
  dropped : List ℕ
  /-- What the receipts resolved to. -/
  replies : List (ℕ × Except Error Unit)
  /-- The jobs whose write was started, in order: only their bytes are on the socket. -/
  started : List Job
  /-- The jobs whose frame was written as a whole. -/
  written : List Job

/-- `start_with_limit`, for a socket with the right configuration. -/
def start (protocol : Negotiated) (byteLimit : ℕ) : Except Error Link :=
  if byteLimit = 0 ∨ queuedBytes < byteLimit then .error .size
  else .ok
    { byteLimit, protocol
      slots := ⟨queuedFrames⟩, bytes := ⟨byteLimit⟩
      waiting := [], reservations := [], queue := .new queuedFrames
      writer := .waiting, stopped := false, clock := 0, cancelled := [], closing := []
      accepted := [], dropped := [], replies := [], started := [], written := [] }

namespace Link

/-- Permits are dropped. -/
def giveBack (w : Link) (slots bytes : ℕ) : Link :=
  { w with slots := w.slots.release slots, bytes := w.bytes.release bytes }

/-- `Sender::close`, and every other place that cancels the `stopped` token. -/
def close (w : Link) : Link := { w with stopped := true }

/-! ### Admission

A producer that does not wait gets both permits or none; one that waits collects them, the slot
first. -/

/-- `Sender::try_reserve`.  A slot taken before the bytes turn out short is dropped again. -/
def tryReserve (w : Link) (maxEncodedBytes : ℕ) : Except Error (Reservation × Link) :=
  if w.stopped then .error .closed
  else if maxEncodedBytes = 0 ∨ w.byteLimit < maxEncodedBytes then .error .size
  else
    match w.slots.tryAcquire 1 with
    | none => .error .busy
    | some slots =>
      match w.bytes.tryAcquire maxEncodedBytes with
      | none => .error .busy
      | some bytes =>
        .ok ({ bytes := maxEncodedBytes, admitted := w.clock }, { w with slots, bytes })

/-- `Sender::reserve`, up to its first suspension. -/
def reserve (w : Link) (maxEncodedBytes token : ℕ) : Link :=
  match w.tryReserve maxEncodedBytes with
  | .ok (r, w) => { w with reservations := w.reservations ++ [r] }
  | .error .busy =>
    { w with
      waiting := w.waiting ++
        [{ want := maxEncodedBytes, slot := false, got := 0, token
           deadline := w.clock + queueDeadline }] }
  | .error _ => w

/-- The semaphore gives the slot to a waiting `reserve`. -/
def grantSlot (w : Link) (i : ℕ) : Option Link := do
  let waiter ← w.waiting[i]?
  guard (waiter.slot = false)
  let slots ← w.slots.tryAcquire 1
  pure { w with slots, waiting := w.waiting.set i { waiter with slot := true } }

/-- The semaphore gives a waiting `reserve` `n` of the bytes it still needs: a waiter collects
    permits as they come back. -/
def grantBytes (w : Link) (i n : ℕ) : Option Link := do
  let waiter ← w.waiting[i]?
  guard (waiter.slot ∧ waiter.got + n ≤ waiter.want)
  let bytes ← w.bytes.tryAcquire n
  pure { w with bytes, waiting := w.waiting.set i { waiter with got := waiter.got + n } }

/-- The permits that a waiting `reserve` collected are dropped with its future. -/
def dropWaiter (w : Link) (i : ℕ) (waiter : Waiter) : Link :=
  { w with waiting := w.waiting.eraseIdx i }.giveBack waiter.slot.toNat waiter.got

/-- A poll of the `select!` in `Sender::reserve`. -/
def pollReserve (w : Link) (i : ℕ) : Option Link := do
  let waiter ← w.waiting[i]?
  if w.stopped then w.dropWaiter i waiter
  else if waiter.token ∈ w.cancelled then w.dropWaiter i waiter
  else if waiter.slot ∧ waiter.got = waiter.want then
    pure
      { w with
        waiting := w.waiting.eraseIdx i
        reservations := w.reservations ++ [{ bytes := waiter.got, admitted := w.clock }] }
  else if waiter.deadline ≤ w.clock then w.dropWaiter i waiter
  else w

/-! ### From a reservation to a job

A reservation is consumed by these calls, whatever their result. -/

/-- The token is cancelled; a token that nobody else knows never is. -/
def isCancelled (w : Link) (token : Option ℕ) : Bool := token.any (· ∈ w.cancelled)

/-- `Reservation::check`. -/
def check (w : Link) (r : Reservation) (size : ℕ) (cancelled : Option ℕ) : Except Error Unit :=
  if w.stopped then .error .closed
  else if w.isCancelled cancelled then .error .cancelled
  else if queueDeadline ≤ w.clock - r.admitted then .error .queueTimeout
  else if size = 0 ∨ r.bytes < size then .error .size
  else .ok ()

/-- `Reservation::enqueue`; the reservation is consumed, so what it held comes back on every
    error. -/
def enqueue (w : Link) (r : Reservation) (message : Message) (size : ℕ) (cancelled : Option ℕ)
    (reply : Bool) : Except Error Unit × Link :=
  match w.check r size cancelled with
  | .error e => (.error e, w.giveBack 1 r.bytes)
  | .ok () =>
    -- Keep the exact retained payload charge through the entire write.
    let unused := r.bytes - size
    let w := w.giveBack 0 unused
    let job : Job :=
      { id := w.accepted.length, message, bytes := r.bytes - unused, cancelled
        expires := r.admitted + queueDeadline, reply }
    match w.queue.trySend job with
    | some queue => (.ok (), { w with queue, accepted := w.accepted ++ [job] })
    | none => (.error (if w.queue.closed then .closed else .busy), w.giveBack 1 job.bytes)

/-- `Reservation::submit_data`. -/
def submitData (w : Link) (r : Reservation) (raw : List UInt8) (binary : Bool)
    (cancelled : Option ℕ) (reply : Bool) : Except Error Unit × Link :=
  match w.check r raw.length cancelled with
  | .error e => (.error e, w.giveBack 1 r.bytes)
  | .ok () =>
    if binary then w.enqueue r (.binary raw) raw.length cancelled reply
    else
      match utf8 raw with
      | some text => w.enqueue r (.text text) raw.length cancelled reply
      | none => (.error .protocol, w.giveBack 1 r.bytes)

/-- `Reservation::submit_inner`: `submit` with a receipt, `submit_detached` without one. -/
def submitInner (w : Link) (r : Reservation) (raw : List UInt8) (cancelled : ℕ) (reply : Bool) :
    Except Error Unit × Link :=
  w.submitData r raw (w.protocol = .protobufV2) (some cancelled) reply

/-- `FrameSender::send`, up to the wait for its receipt. -/
def send (w : Link) (binary : Bool) (raw : List UInt8) : Link :=
  match w.tryReserve raw.length with
  | .error _ => w
  | .ok (r, w) => (w.submitData r raw binary none true).2

/-- `Sender::close_with`, up to the wait for its receipt; `allowed` is `CloseCode::is_allowed`
    of the code. -/
def closeWith (w : Link) (code : UInt16) (allowed : Bool) (reason : String) : Link :=
  let size := reason.utf8ByteSize + 2
  if allowed ∧ reason.utf8ByteSize ≤ 123 then
    match w.tryReserve size with
    | .error _ => w.close
    | .ok (r, w') =>
      match w'.enqueue r (.close code reason) size none true with
      | (.ok (), w'') => { w'' with closing := w''.closing ++ [w'.accepted.length] }
      | (.error _, w'') => w''.close
  else w.close

/-- A `close_with` stops waiting: its receipt resolved, its two seconds are over or its future
    was dropped.  Its receipt goes, and the connection is stopped. -/
def closeEnds (w : Link) (i : ℕ) : Option Link := do
  let id ← w.closing[i]?
  pure { w with closing := w.closing.eraseIdx i, dropped := id :: w.dropped, stopped := true }

/-! ### The writer

The writer has at most one job in its hands, and looks at its token and its deadline before it
writes. -/

/-- A job's receipt resolves. -/
def resolve (w : Link) (job : Job) (result : Except Error Unit) : Link :=
  { w with replies := answer w.dropped w.replies job result }

/-- A job is over: its permits are dropped and its receipt resolves.  A reply that is dropped
    unsent resolves the receipt to `Closed`. -/
def finish (w : Link) (job : Job) (result : Except Error Unit) : Link :=
  (w.giveBack 1 job.bytes).resolve job result

/-- Why the writer leaves its loop while it has no job. -/
inductive Halt
  /-- The `stopped` token is cancelled. -/
  | stopped
  /-- A missed or unsent heartbeat, or a failed flush. -/
  | heartbeat
  /-- Every sender is dropped and the channel is empty. -/
  | drained
  deriving DecidableEq, Repr

/-- `break` at the writer's `select!`. -/
def halt (w : Link) (reason : Halt) : Option Link :=
  if w.writer = .waiting then
    match reason with
    | .stopped => if w.stopped then some { w with writer := .left } else none
    | .heartbeat => some { w with writer := .left }
    | .drained =>
      if w.queue.queue = [] ∧ w.reservations = [] ∧ w.waiting = [] then
        some { w with writer := .left }
      else none
  else none

/-- The job is not to be written any more because its caller gave it up. -/
def givenUp (w : Link) (job : Job) : Bool :=
  w.isCancelled job.cancelled || (job.reply && decide (job.id ∈ w.dropped))

/-- The writer receives a job and decides about it.  The `stopped` token was polled before the
    channel, so it may have been cancelled meanwhile. -/
def take (w : Link) : Option Link :=
  if w.writer = .waiting then
    match w.queue.recv with
    | none => none
    | some (job, queue) =>
      let w := { w with queue }
      if w.givenUp job then
        some { w.finish job (.error .cancelled) with
               writer := if job.reply then .waiting else .left }
      else if job.expires ≤ w.clock then
        some { w.finish job (.error .queueTimeout) with
               writer := if job.reply then .waiting else .left }
      else some { w with writer := .writing job, started := w.started ++ [job] }
  else none

/-- How a write ends. -/
inductive WriteEnd
  | sent
  | failed
  /-- The write or the heartbeat ran out of time. -/
  | late
  | stopped
  deriving DecidableEq, Repr

/-- The result of `write_with_deadlines`. -/
def WriteEnd.result : WriteEnd → Except Error Unit
  | .sent => .ok ()
  | .failed => .error .transport
  | .late => .error .writeTimeout
  | .stopped => .error .closed

/-- A write ends. -/
def finishWrite (w : Link) (how : WriteEnd) : Option Link :=
  match w.writer with
  | .writing job =>
    let w := if how = .sent then { w with written := w.written ++ [job] } else w
    some { w.finish job how.result with
           writer := if how ≠ .sent ∨ job.message.closing then .left else .waiting }
  | _ => none

/-- The I/O task is aborted: whatever it holds is dropped. -/
def abort (w : Link) : Option Link :=
  match w.writer with
  | .waiting => some { w with writer := .left }
  | .writing job => some { w.finish job (.error .closed) with writer := .left }
  | _ => none

/-- `drop(jobs); drop(sink)`. -/
def dropQueue (w : Link) : Option Link :=
  if w.writer = .left then
    some
      { w.queue.queue.foldl (fun w job => w.finish job (.error .closed)) w with
        queue := w.queue.close, writer := .dropped }
  else none

/-- The writer ends and its `StopOnExit` is dropped. -/
def exit (w : Link) : Option Link :=
  if w.writer = .dropped then some { w with writer := .ended, stopped := true } else none

end Link

/-! ### Everything that can happen

The moves of all parties, as one type. -/

inductive Op
  | tryReserve (maxEncodedBytes : ℕ)
  | reserve (maxEncodedBytes token : ℕ)
  | grantSlot (i : ℕ)
  | grantBytes (i n : ℕ)
  | pollReserve (i : ℕ)
  | dropReserve (i : ℕ)
  | dropReservation (i : ℕ)
  | submit (i : ℕ) (raw : List UInt8) (token : ℕ)
  | submitDetached (i : ℕ) (raw : List UInt8) (token : ℕ)
  | send (binary : Bool) (raw : List UInt8)
  | closeWith (code : UInt16) (allowed : Bool) (reason : String)
  | closeEnds (i : ℕ)
  | close
  | cancel (token : ℕ)
  | dropReceipt (id : ℕ)
  | tick (elapsed : ℕ)
  | halt (reason : Link.Halt)
  | take
  | finishWrite (how : Link.WriteEnd)
  | abort
  | dropQueue
  | exit

/-- A reservation leaves its owner's hands. -/
def Link.withReservation (w : Link) (i : ℕ) (f : Link → Reservation → Link) : Option Link := do
  let r ← w.reservations[i]?
  pure (f { w with reservations := w.reservations.eraseIdx i } r)

/-- One move; `none` is a move that cannot happen now. -/
def step (w : Link) : Op → Option Link
  | .tryReserve max =>
    match w.tryReserve max with
    | .ok (r, w) => some { w with reservations := w.reservations ++ [r] }
    | .error _ => some w
  | .reserve max token => some (w.reserve max token)
  | .grantSlot i => w.grantSlot i
  | .grantBytes i n => w.grantBytes i n
  | .pollReserve i => w.pollReserve i
  | .dropReserve i => w.waiting[i]?.map (w.dropWaiter i)
  | .dropReservation i => w.withReservation i fun w r => w.giveBack 1 r.bytes
  | .submit i raw token => w.withReservation i fun w r => (w.submitInner r raw token true).2
  | .submitDetached i raw token => w.withReservation i fun w r =>
      (w.submitInner r raw token false).2
  | .send binary raw => some (w.send binary raw)
  | .closeWith code allowed reason => some (w.closeWith code allowed reason)
  | .closeEnds i => w.closeEnds i
  | .close => some w.close
  | .cancel token => some { w with cancelled := token :: w.cancelled }
  | .dropReceipt id =>
    if w.accepted.any fun job => job.id = id && job.reply then
      some { w with dropped := id :: w.dropped }
    else none
  | .tick elapsed => some { w with clock := w.clock + elapsed }
  | .halt reason => w.halt reason
  | .take => w.take
  | .finishWrite how => w.finishWrite how
  | .abort => w.abort
  | .dropQueue => w.dropQueue
  | .exit => w.exit

end Hmux.Transport
