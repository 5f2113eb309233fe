import Hmux.Lib.Channel
import Hmux.Protocol.Flow

namespace Hmux.Gateway

open Hmux.Lib

/-!
# Gateway — one terminal view

What the hub and the browser's lease share of one view: the bounded event queue, the reason
the view was closed for, and the count of data frames on the queue.  The hub fills the queue
from the Home reader and never waits for it; the lease drains it.

The hub works under its lock, the lease does not, so the operations of both are given in the
pieces between which the other side can run.
-/

/-- An event for the browser of a view. -/
inductive ViewEvent
  | data (data : List UInt8)
  | exit (error : String)
  | refreshResult (ok : Bool)
  deriving DecidableEq, Repr

/-- The event is a data frame. -/
def ViewEvent.isData : ViewEvent → Bool
  | .data _ => true
  | _ => false

/-- The slots of the event queue: twice the frames of a credit window, so that control events
    fit when Home has sent all it may. -/
def viewFrames : ℕ := 2 * Flow.frames

/-- `wire::HOME_OFFLINE`. -/
def homeOffline : UInt16 := 4001

/-- `wire::OUTPUT_FULL`. -/
def outputFull : UInt16 := 4002

/-- `wire::VIEW_EXITED`. -/
def viewExited : UInt16 := 4003

/-- The state the hub shares with the lease of one view. -/
structure ViewCell where
  events : Channel ViewEvent
  closed : UInt16
  queuedData : ℕ
  deriving DecidableEq, Repr

namespace ViewCell

/-- A fresh view. -/
def new : ViewCell := { events := Channel.new viewFrames, closed := 0, queuedData := 0 }

/-- The admission of an output frame: a legal chunk, and fewer than 32 data frames counted;
    the frame is counted at once. -/
def admitted (c : ViewCell) (data : List UInt8) : Option ViewCell :=
  if data ≠ [] ∧ data.length ≤ Flow.chunk ∧ c.queuedData < Flow.frames then
    some { c with queuedData := c.queuedData + 1 }
  else none

/-- An event is put on the queue; `none` when there is no room. -/
def push (c : ViewCell) (e : ViewEvent) : Option ViewCell :=
  (c.events.trySend e).map fun events => { c with events }

/-- An admitted frame whose bytes could be retained is put on the queue. -/
def pushData (c : ViewCell) (data : List UInt8) (retained : Bool) : Option ViewCell :=
  if retained then c.push (.data data) else none

/-- `queued_data.fetch_sub(1)`. -/
def uncount (c : ViewCell) : ViewCell := { c with queuedData := c.queuedData - 1 }

/-- The `TerminalOutput` arm of the hub on the view it names: the next state, and whether the
    frame was refused (the view is then closed). -/
def output (c : ViewCell) (data : List UInt8) (retained : Bool) : ViewCell × Bool :=
  match c.admitted data with
  | none => ({ c with closed := outputFull }, true)
  | some counted =>
    match counted.pushData data retained with
    | some queued => (queued, false)
    | none => ({ counted.uncount with closed := outputFull }, true)

/-- The oldest event is taken from the queue. -/
def pop (c : ViewCell) : Option (ViewEvent × ViewCell) :=
  c.events.recv.map fun r => (r.1, { c with events := r.2 })

theorem push_eq_some {c c' : ViewCell} {e : ViewEvent} :
    c.push e = some c' ↔
      c.events.closed = false ∧ c.events.queue.length < c.events.capacity ∧
        c' = { c with events := { c.events with queue := c.events.queue ++ [e] } } := by
  rw [push, Option.map_eq_some_iff]
  constructor
  · rintro ⟨events, hs, rfl⟩
    obtain ⟨hc, hl, rfl⟩ := Channel.trySend_eq_some.mp hs
    exact ⟨hc, hl, rfl⟩
  · rintro ⟨hc, hl, rfl⟩
    exact ⟨_, Channel.trySend_eq_some.mpr ⟨hc, hl, rfl⟩, rfl⟩

theorem pop_eq_some {c c' : ViewCell} {e : ViewEvent} :
    c.pop = some (e, c') ↔
      ∃ rest, c.events.queue = e :: rest ∧
        c' = { c with events := { c.events with queue := rest } } := by
  rw [pop, Option.map_eq_some_iff]
  constructor
  · rintro ⟨⟨e', events⟩, hr, heq⟩
    obtain ⟨rfl, rfl⟩ := Prod.mk.inj heq
    obtain ⟨rest, hq, rfl⟩ := Channel.recv_eq_some.mp hr
    exact ⟨rest, hq, rfl⟩
  · rintro ⟨rest, hq, rfl⟩
    exact ⟨_, Channel.recv_eq_some.mpr ⟨rest, hq, rfl⟩, rfl⟩

end ViewCell

/-! ### The lease

The browser's end takes events from the queue and keeps the frames that are not acknowledged; an
acknowledgement that does not fit them removes the view. -/

/-- The browser's end of a view: the frames it has not acknowledged, whether Home asked for
    acknowledgements, and whether the exit of the view was seen. -/
structure ViewLease where
  window : Flow.OutputWindow
  homeFlow : Bool
  exited : Bool
  deriving DecidableEq, Repr

/-- What `ViewLease::receive` answers once it holds an event. -/
inductive Received
  /-- The event is handed to the browser. -/
  | event (lease : ViewLease)
  /-- The view was closed for a full queue. -/
  | closed
  /-- The frame does not fit the window: the view is removed. -/
  | refused
  deriving DecidableEq, Repr

namespace ViewLease

/-- A fresh lease. -/
def new (homeFlow : Bool) : ViewLease :=
  { window := Flow.OutputWindow.empty, homeFlow, exited := false }

/-- The end of `ViewLease::receive`, after the count was lowered and the generation checked. -/
def accept (l : ViewLease) (closed : UInt16) (e : ViewEvent) (now : ℕ) : Received :=
  if closed = outputFull then .closed
  else match e with
    | .data data =>
      if l.homeFlow then
        match l.window.reserve data.length now with
        | some window => .event { l with window }
        | none => .refused
      else .event l
    | .exit _ => .event { l with exited := true }
    | .refreshResult _ => .event l

/-- The window part of `ViewLease::acknowledge`; `none` removes the view. -/
def acknowledge (l : ViewLease) (n : Int64) : Option ViewLease :=
  (l.window.acknowledge n).map fun window => { l with window }

end ViewLease

end Hmux.Gateway
