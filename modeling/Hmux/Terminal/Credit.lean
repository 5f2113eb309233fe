import Mathlib.Logic.Relation
import Hmux.Gateway.View

namespace Hmux.Terminal

open Hmux.Flow Hmux.Gateway

/-!
# Terminal output credit, end to end

One view from the pseudo terminal on Home to the browser and back: Home reserves credit before
it sends a frame, the frame crosses a FIFO link, the Gateway counts and queues it, the lease
takes it into its own window, the browser acknowledges it, the acknowledgement crosses a FIFO
link and Home gets its credit back.  Three bounded counters on two machines take part; none of
them ever refuses a frame, because each counts a part of what Home has outstanding.

* `Step` — one move of Home, of the hub's reader, of the lease or of the browser;
* `Agrees` — the invariant: Home's outstanding frames are, in order, the acknowledgements in
  flight, the Gateway's window, the queued frames and the frames in flight;
* `agrees_step`, `agrees_reachable` — every move keeps it, whatever the order of moves;
* `output_credit_agrees` — the counters agree and nothing is ever refused.
-/

/-! ### The parties

Each party has its own state and its own program counter, and the links between them are queues. -/

/-- Where Home's output task stands. -/
inductive OutputPhase
  /-- Waiting for the pseudo terminal. -/
  | reading
  /-- Waiting for credit for the bytes it read. -/
  | reserving (data : List UInt8)
  /-- The credit is taken and the frame is being sent. -/
  | sending (data : List UInt8)
  deriving DecidableEq, Repr

/-- Home's side of a view: its credit window, its output task, and whether the view was
    stopped. -/
structure Home where
  window : OutputWindow
  phase : OutputPhase
  stopped : Bool
  deriving DecidableEq, Repr

/-- Where the lease stands: `receive` and `acknowledge` borrow it in turn, the hub's reader
    runs in between. -/
inductive LeasePhase
  | idle
  /-- An event was taken from the queue, its count not lowered yet. -/
  | popped (e : ViewEvent)
  /-- The count is lowered, the window not asked yet. -/
  | counted (e : ViewEvent)
  /-- The window gave up its oldest frame, the acknowledgement is being sent. -/
  | acking (n : Int64)
  deriving DecidableEq, Repr

/-- One view with both its links. -/
structure Pipe where
  home : Home
  /-- Frames from Home to the Gateway. -/
  data : List (List UInt8)
  /-- The frame the hub has counted and not queued yet. -/
  arriving : Option (List UInt8)
  /-- The view is in the hub's map. -/
  bound : Bool
  cell : ViewCell
  lease : ViewLease
  phase : LeasePhase
  /-- Acknowledgements from the Gateway to Home. -/
  acks : List Int64
  deriving DecidableEq, Repr

/-- A view that was just opened with flow control. -/
def Pipe.init : Pipe :=
  { home := { window := .empty, phase := .reading, stopped := false }
    data := [], arriving := none, bound := true, cell := .new, lease := .new true
    phase := .idle, acks := [] }

/-- The control events on a queue. -/
def controls (es : List ViewEvent) : ℕ := es.countP fun e => !e.isData

/-- One move.  The refusals of the source are moves of their own. -/
inductive Step : Pipe → Pipe → Prop
  /-- The pseudo terminal yields one to `chunk` bytes. -/
  | read {w : Pipe} (data : List UInt8) (hphase : w.home.phase = .reading)
      (hstop : w.home.stopped = false) (hpos : data ≠ []) (hle : data.length ≤ chunk) :
      Step w { w with home := { w.home with phase := .reserving data } }
  /-- Home has credit for the frame; until then it waits. -/
  | reserve {w : Pipe} {data : List UInt8} {window : OutputWindow} (now : ℕ)
      (hphase : w.home.phase = .reserving data)
      (hres : w.home.window.reserve data.length now = some window) :
      Step w { w with home := { w.home with window, phase := .sending data } }
  | send {w : Pipe} {data : List UInt8} (hphase : w.home.phase = .sending data) :
      Step w { w with home := { w.home with phase := .reading }, data := w.data ++ [data] }
  /-- The hub admits the next frame and counts it. -/
  | arrive {w : Pipe} {data : List UInt8} {rest : List (List UInt8)} {cell : ViewCell}
      (hdata : w.data = data :: rest) (hfree : w.arriving = none) (hbound : w.bound = true)
      (hadmitted : w.cell.admitted data = some cell) :
      Step w { w with data := rest, arriving := some data, cell }
  | arriveRefused {w : Pipe} {data : List UInt8} {rest : List (List UInt8)}
      (hdata : w.data = data :: rest) (hfree : w.arriving = none) (hbound : w.bound = true)
      (hadmitted : w.cell.admitted data = none) :
      Step w { w with data := rest, bound := false, cell := { w.cell with closed := outputFull } }
  /-- A frame for a view that is gone. -/
  | arriveUnbound {w : Pipe} {data : List UInt8} {rest : List (List UInt8)}
      (hdata : w.data = data :: rest) (hfree : w.arriving = none) (hbound : w.bound = false) :
      Step w { w with data := rest }
  /-- The hub queues the frame it counted; its bytes could be retained. -/
  | queue {w : Pipe} {data : List UInt8} {cell : ViewCell} (harr : w.arriving = some data)
      (hpush : w.cell.pushData data true = some cell) :
      Step w { w with arriving := none, cell }
  | queueRefused {w : Pipe} {data : List UInt8} (harr : w.arriving = some data)
      (hpush : w.cell.pushData data true = none) :
      Step w { w with arriving := none, bound := false,
                      cell := { w.cell.uncount with closed := outputFull } }
  /-- The hub queues the result of a refresh, with fewer than 32 control events queued. -/
  | refreshed {w : Pipe} {cell : ViewCell} (ok : Bool) (hfree : w.arriving = none)
      (hbound : w.bound = true) (hctl : controls w.cell.events.queue < Flow.frames)
      (hpush : w.cell.push (.refreshResult ok) = some cell) : Step w { w with cell }
  /-- The hub queues the exit of the view, with fewer than 32 control events queued. -/
  | exited {w : Pipe} {cell : ViewCell} (error : String) (hfree : w.arriving = none)
      (hbound : w.bound = true) (hctl : controls w.cell.events.queue < Flow.frames)
      (hpush : w.cell.push (.exit error) = some cell) :
      Step w { w with cell := { cell with closed := viewExited } }
  | controlRefused {w : Pipe} (e : ViewEvent) (he : e.isData = false) (hfree : w.arriving = none)
      (hbound : w.bound = true) (hctl : controls w.cell.events.queue < Flow.frames)
      (hpush : w.cell.push e = none) :
      Step w { w with bound := false, cell := { w.cell with closed := outputFull } }
  /-- The lease takes an event from the queue. -/
  | pop {w : Pipe} {e : ViewEvent} {cell : ViewCell} (hphase : w.phase = .idle)
      (hexit : w.lease.exited = false) (hpop : w.cell.pop = some (e, cell)) :
      Step w { w with cell, phase := .popped e }
  /-- It lowers the count of data frames. -/
  | uncount {w : Pipe} {e : ViewEvent} (hphase : w.phase = .popped e) :
      Step w { w with cell := if e.isData then w.cell.uncount else w.cell, phase := .counted e }
  /-- It hands the event to the browser. -/
  | accept {w : Pipe} {e : ViewEvent} {lease : ViewLease} (now : ℕ)
      (hphase : w.phase = .counted e)
      (hacc : w.lease.accept w.cell.closed e now = .event lease) :
      Step w { w with lease, phase := .idle }
  | acceptClosed {w : Pipe} {e : ViewEvent} (now : ℕ) (hphase : w.phase = .counted e)
      (hacc : w.lease.accept w.cell.closed e now = .closed) : Step w { w with phase := .idle }
  | acceptRefused {w : Pipe} {e : ViewEvent} (now : ℕ) (hphase : w.phase = .counted e)
      (hacc : w.lease.accept w.cell.closed e now = .refused) :
      Step w { w with phase := .idle, bound := false, cell := { w.cell with closed := outputFull } }
  /-- The browser acknowledges the oldest frame it was given. -/
  | acknowledge {w : Pipe} {size : ℕ} {lease : ViewLease} (hphase : w.phase = .idle)
      (hsize : w.lease.window.sizes.head? = some size)
      (hack : w.lease.acknowledge (Int64.ofNat size) = some lease) :
      Step w { w with lease, phase := .acking (Int64.ofNat size) }
  | acknowledgeRefused {w : Pipe} {size : ℕ} (hphase : w.phase = .idle)
      (hsize : w.lease.window.sizes.head? = some size)
      (hack : w.lease.acknowledge (Int64.ofNat size) = none) :
      Step w { w with bound := false, cell := { w.cell with closed := outputFull } }
  | sendAck {w : Pipe} {n : Int64} (hphase : w.phase = .acking n) :
      Step w { w with phase := .idle, acks := w.acks ++ [n] }
  /-- Home gets its credit back, and waits for more if it was waiting. -/
  | credit {w : Pipe} {n : Int64} {rest : List Int64} {window : OutputWindow}
      (hacks : w.acks = n :: rest) (hack : w.home.window.acknowledge n = some window) :
      Step w { w with acks := rest, home := { w.home with window } }
  | creditRefused {w : Pipe} {n : Int64} {rest : List Int64}
      (hacks : w.acks = n :: rest) (hack : w.home.window.acknowledge n = none) :
      Step w { w with acks := rest, home := { w.home with stopped := true } }

/-- What can be reached from a view that was just opened. -/
def Reachable : Pipe → Prop := Relation.ReflTransGen Step Pipe.init

/-! ### What is where

A byte that Home has sent is in exactly one place until its acknowledgement is back: on the link,
in the event queue, with the lease, in the lease's window, or on the way home. -/

/-- The sizes of the data frames among some events. -/
def dataSizes (es : List ViewEvent) : List ℕ :=
  es.filterMap fun
    | .data data => some data.length
    | _ => none

namespace Pipe

/-- The event the lease holds. -/
def held (w : Pipe) : List ViewEvent :=
  match w.phase with
  | .popped e => [e]
  | .counted e => [e]
  | _ => []

/-- The acknowledgements on their way to Home. -/
def inFlightAcks (w : Pipe) : List Int64 :=
  match w.phase with
  | .acking n => w.acks ++ [n]
  | _ => w.acks

/-- Their sizes. -/
def ackSizes (w : Pipe) : List ℕ := w.inFlightAcks.map fun n => n.toNatClampNeg

/-- The sizes of the frames on the event queue, with the one the lease has just taken. -/
def queuedSizes (w : Pipe) : List ℕ := dataSizes (w.held ++ w.cell.events.queue)

/-- The frames on their way to the event queue. -/
def inFlight (w : Pipe) : List (List UInt8) :=
  w.arriving.toList ++ w.data ++
    match w.home.phase with
    | .sending data => [data]
    | _ => []

/-- Their sizes. -/
def inFlightSizes (w : Pipe) : List ℕ := w.inFlight.map List.length

/-- The data frames the shared count stands for: those on the queue, one the lease has taken
    without lowering the count, one the hub has counted without queueing it. -/
def counted (w : Pipe) : ℕ :=
  (dataSizes w.cell.events.queue).length + w.arriving.toList.length +
    match w.phase with
    | .popped e => (dataSizes [e]).length
    | _ => 0

/-- The invariant. -/
structure Agrees (w : Pipe) : Prop where
  running : w.home.stopped = false
  bound : w.bound = true
  notFull : w.cell.closed ≠ outputFull
  flow : w.lease.homeFlow = true
  homeValid : w.home.window.Valid
  leaseValid : w.lease.window.Valid
  acks : w.inFlightAcks = w.ackSizes.map Int64.ofNat
  sizes : w.home.window.sizes
    = w.ackSizes ++ w.lease.window.sizes ++ w.queuedSizes ++ w.inFlightSizes
  count : w.cell.queuedData = w.counted
  controls_le : controls w.cell.events.queue ≤ Flow.frames
  capacity : w.cell.events.capacity = viewFrames
  opened : w.cell.events.closed = false

end Pipe

/-! ### Counting

What the invariant says about numbers: each of the counters is at most what Home has outstanding,
and Home's own window bounds that. -/

@[simp] theorem dataSizes_nil : dataSizes [] = [] := rfl

@[simp] theorem dataSizes_append (es fs : List ViewEvent) :
    dataSizes (es ++ fs) = dataSizes es ++ dataSizes fs := List.filterMap_append

@[simp] theorem dataSizes_data (data : List UInt8) (es : List ViewEvent) :
    dataSizes (.data data :: es) = data.length :: dataSizes es := rfl

theorem dataSizes_control {e : ViewEvent} (h : e.isData = false) (es : List ViewEvent) :
    dataSizes (e :: es) = dataSizes es := by
  cases e with
  | data data => cases h
  | exit error => rfl
  | refreshResult ok => rfl

/-- A queue holds data frames and control events. -/
theorem length_eq_data_add_controls (es : List ViewEvent) :
    es.length = (dataSizes es).length + controls es := by
  induction es with
  | nil => rfl
  | cons e es ih =>
    cases e with
    | data data => simp [controls, ViewEvent.isData] at ih ⊢; omega
    | exit error => simp [controls, ViewEvent.isData, dataSizes] at ih ⊢; omega
    | refreshResult ok => simp [controls, ViewEvent.isData, dataSizes] at ih ⊢; omega

namespace Pipe.Agrees

variable {w : Pipe}

/-- Nothing on its way is more than Home's window allows. -/
theorem length_le (h : w.Agrees) :
    w.ackSizes.length + w.lease.window.sizes.length + w.queuedSizes.length +
      w.inFlightSizes.length ≤ Flow.frames := by
  have hlen := h.homeValid.length_le
  rw [h.sizes] at hlen
  simpa only [List.length_append] using hlen

/-- Every frame on its way is a legal chunk. -/
theorem legal (h : w.Agrees) {n : ℕ}
    (hn : n ∈ w.ackSizes ++ w.lease.window.sizes ++ w.queuedSizes ++ w.inFlightSizes) :
    0 < n ∧ n ≤ chunk :=
  h.homeValid.size_le n (h.sizes ▸ hn)

/-- The count is below its bound by the frames that are not counted. -/
theorem counted_le (h : w.Agrees) :
    w.cell.queuedData + w.data.length ≤ Flow.frames := by
  have hlen := h.length_le
  rw [h.count, counted]
  simp only [queuedSizes, held, inFlightSizes, inFlight, dataSizes_append, List.length_append,
    List.length_map] at hlen
  cases hp : w.phase with
  | idle => simp only [hp] at hlen ⊢; omega
  | popped e => simp only [hp] at hlen ⊢; omega
  | counted e => simp only [hp] at hlen ⊢; omega
  | acking n => simp only [hp] at hlen ⊢; omega

/-- **Admission.** The hub admits the next frame. -/
theorem admitted (h : w.Agrees) {data : List UInt8} {rest : List (List UInt8)}
    (hdata : w.data = data :: rest) :
    w.cell.queuedData < Flow.frames ∧
      w.cell.admitted data = some { w.cell with queuedData := w.cell.queuedData + 1 } := by
  have hcount := h.counted_le
  rw [hdata, List.length_cons] at hcount
  have hlegal : 0 < data.length ∧ data.length ≤ chunk := by
    refine h.legal (List.mem_append_right _ ?_)
    simp [inFlightSizes, inFlight, hdata]
  have hlt : w.cell.queuedData < Flow.frames := by omega
  exact ⟨hlt, if_pos ⟨List.ne_nil_of_length_pos hlegal.1, hlegal.2, hlt⟩⟩

/-- **Queueing.** The event queue has room for a frame the hub has counted, and for a control
    event while fewer than 32 are queued. -/
theorem push (h : w.Agrees) (e : ViewEvent)
    (hroom : w.arriving.isSome ∨ controls w.cell.events.queue < Flow.frames) :
    w.cell.events.queue.length < w.cell.events.capacity ∧
      w.cell.push e = some { w.cell with
        events := { w.cell.events with queue := w.cell.events.queue ++ [e] } } := by
  have hlen := h.length_le
  have hctl := h.controls_le
  have hq := length_eq_data_add_controls w.cell.events.queue
  simp only [queuedSizes, inFlightSizes, inFlight, dataSizes_append, List.length_append,
    List.length_map] at hlen
  have hlt : w.cell.events.queue.length < w.cell.events.capacity := by
    rw [h.capacity, viewFrames]
    rcases hroom with harr | hctl'
    · obtain ⟨data, harr⟩ := Option.isSome_iff_exists.mp harr
      rw [harr] at hlen
      simp only [Option.toList_some, List.length_singleton] at hlen
      omega
    · omega
  exact ⟨hlt, ViewCell.push_eq_some.mpr ⟨h.opened, hlt, rfl⟩⟩

/-- **The lease's window.** It has room for the frame the lease has taken. -/
theorem reserve (h : w.Agrees) {data : List UInt8} (hphase : w.phase = .counted (.data data))
    (now : ℕ) : w.lease.window.reserve data.length now =
      some { frames := w.lease.window.frames ++ [(data.length, now)],
             bytes := w.lease.window.bytes + data.length } := by
  have hheld : w.queuedSizes = data.length :: dataSizes w.cell.events.queue := by
    simp [queuedSizes, held, hphase]
  refine OutputWindow.reserve_eq h.leaseValid ?_ ?_
  · refine h.legal (List.mem_append_left _ (List.mem_append_right _ ?_))
    rw [hheld]
    exact List.mem_cons_self
  · have hlen := h.length_le
    rw [hheld, List.length_cons] at hlen
    omega

/-- **Home's window.** Its oldest frame is the one the oldest acknowledgement names. -/
theorem credit (h : w.Agrees) {n : Int64} {rest : List Int64} (hacks : w.acks = n :: rest) :
    ∃ window, w.home.window.acknowledge n = some window ∧ window.Valid ∧
      w.home.window.sizes = n.toNatClampNeg :: window.sizes := by
  obtain ⟨tail, htail⟩ : ∃ tail, w.inFlightAcks = n :: tail := by
    rw [inFlightAcks, hacks]
    split
    · exact ⟨_, rfl⟩
    · exact ⟨_, rfl⟩
  have hsizes : w.ackSizes = n.toNatClampNeg :: tail.map fun m => m.toNatClampNeg := by
    rw [ackSizes, htail, List.map_cons]
  have hn : n = Int64.ofNat n.toNatClampNeg := by
    have hac := h.acks
    rw [htail, hsizes, List.map_cons] at hac
    exact (List.cons.inj hac).1
  have hhome := h.sizes
  rw [hsizes, List.cons_append, List.cons_append, List.cons_append] at hhome
  obtain ⟨window, hack, hrest⟩ := OutputWindow.acknowledge_eq hhome
  rw [← hn] at hack
  exact ⟨window, hack, (OutputWindow.acknowledge_some h.homeValid hack).1, by rw [hhome, hrest]⟩

/-- A control event was queued. -/
theorem control (h : w.Agrees) {e : ViewEvent} (he : e.isData = false)
    (hctl : controls w.cell.events.queue < Flow.frames) {closed : UInt16}
    (hclosed : closed = w.cell.closed ∨ closed = viewExited) :
    ({ w with cell := { w.cell with
        events := { w.cell.events with queue := w.cell.events.queue ++ [e] }
        closed } } : Pipe).Agrees := by
  have hdata : dataSizes (w.cell.events.queue ++ [e]) = dataSizes w.cell.events.queue := by
    rw [dataSizes_append, dataSizes_control he, dataSizes_nil, List.append_nil]
  refine { h with notFull := ?_, sizes := ?_, count := ?_, controls_le := ?_ }
  · rcases hclosed with rfl | rfl
    · exact h.notFull
    · exact (by decide : viewExited ≠ outputFull)
  · have := h.sizes
    rw [queuedSizes, dataSizes_append] at this
    rw [queuedSizes, dataSizes_append, hdata]
    exact this
  · have := h.count
    simp only [counted, hdata] at this ⊢
    exact this
  · rw [controls, List.countP_append, ← controls]
    simp only [List.countP_cons, he, List.countP_nil]
    exact hctl

/-- **Handing over.** The event the lease holds is handed to the browser, and a data frame
    enters the lease's window. -/
theorem accept (h : w.Agrees) {e : ViewEvent} (hphase : w.phase = .counted e) (now : ℕ) :
    ∃ lease, w.lease.accept w.cell.closed e now = .event lease ∧ lease.homeFlow = true ∧
      lease.window.Valid ∧ lease.window.sizes = w.lease.window.sizes ++ dataSizes [e] := by
  simp only [ViewLease.accept, if_neg h.notFull]
  cases e with
  | data data =>
    have hres := h.reserve hphase now
    obtain ⟨hvalid, hsizes, -⟩ := OutputWindow.reserve_some h.leaseValid hres
    simp only [h.flow, if_true, hres]
    exact ⟨_, rfl, rfl, hvalid, hsizes⟩
  | exit error => exact ⟨_, rfl, h.flow, h.leaseValid, (List.append_nil _).symm⟩
  | refreshResult ok => exact ⟨_, rfl, h.flow, h.leaseValid, (List.append_nil _).symm⟩

/-- **Acknowledging.** The lease's window gives up its oldest frame. -/
theorem acknowledge (h : w.Agrees) {size : ℕ}
    (hsize : w.lease.window.sizes.head? = some size) :
    ∃ lease, w.lease.acknowledge (Int64.ofNat size) = some lease ∧ lease.homeFlow = true ∧
      lease.window.Valid ∧ w.lease.window.sizes = size :: lease.window.sizes := by
  obtain ⟨rest, hrest⟩ := List.head?_eq_some_iff.mp hsize
  obtain ⟨window, hack, hsizes⟩ := OutputWindow.acknowledge_eq hrest
  refine ⟨{ w.lease with window }, by rw [ViewLease.acknowledge, hack]; rfl, h.flow, ?_, ?_⟩
  · exact (OutputWindow.acknowledge_some h.leaseValid hack).1
  · rw [hrest, hsizes]

end Pipe.Agrees

/-! ### Every move keeps the invariant

One case for each move; a refusal contradicts the counting. -/

theorem agrees_init : Pipe.init.Agrees where
  running := rfl
  bound := rfl
  notFull := by decide
  flow := rfl
  homeValid := OutputWindow.valid_empty
  leaseValid := OutputWindow.valid_empty
  acks := rfl
  sizes := rfl
  count := rfl
  controls_le := Nat.zero_le _
  capacity := rfl
  opened := rfl

/-- **Step lemma.** Every move keeps the invariant; the refusals cannot happen. -/
theorem agrees_step {w w' : Pipe} (h : w.Agrees) (hstep : Step w w') : w'.Agrees := by
  cases hstep with
  | read data hphase hstop hpos hle =>
    -- what was read is in hand before and after, so nothing new is in flight
    refine { h with sizes := ?_ }
    have := h.sizes
    simp only [Pipe.inFlightSizes, Pipe.inFlight, hphase] at this ⊢
    exact this
  | @reserve data window now hphase hres =>
    -- `reserve` charges the window with just the bytes in hand
    obtain ⟨hvalid, hsizes, -⟩ := OutputWindow.reserve_some h.homeValid hres
    refine { h with homeValid := hvalid, sizes := ?_ }
    have := h.sizes
    simp only [Pipe.inFlightSizes, Pipe.inFlight, hphase, List.append_nil] at this
    simp only [Pipe.inFlightSizes, Pipe.inFlight, hsizes, this, List.map_append, List.map_cons,
      List.map_nil, List.append_assoc]
    rfl
  | @send data hphase =>
    -- the frame goes from the hand to the end of the link
    refine { h with sizes := ?_ }
    have := h.sizes
    simp only [Pipe.inFlightSizes, Pipe.inFlight, hphase] at this
    simp only [Pipe.inFlightSizes, Pipe.inFlight, List.append_nil, ← List.append_assoc]
    exact this
  | @arrive data rest cell hdata hfree hbound hadmitted =>
    -- a frame that was reserved is never refused by the hub
    obtain rfl := Option.some.inj ((h.admitted hdata).2.symm.trans hadmitted)
    refine { h with sizes := ?_, count := ?_ }
    · have := h.sizes
      simp only [Pipe.inFlightSizes, Pipe.inFlight, hdata, hfree] at this
      exact this
    · have := h.count
      simp only [Pipe.counted, hfree, Option.toList_none, Option.toList_some,
        List.length_nil, List.length_singleton] at this ⊢
      omega
  | arriveRefused hdata hfree hbound hadmitted =>
    -- the peer charges what the home reserved, so admission cannot fail
    rw [(h.admitted hdata).2] at hadmitted
    cases hadmitted
  | arriveUnbound hdata hfree hbound =>
    rw [h.bound] at hbound
    cases hbound
  | @queue data cell harr hpush =>
    -- the queue has room, for the window bounds the data and the rest is a control or two
    obtain ⟨-, hroom⟩ := h.push (.data data) (Or.inl (by rw [harr]; rfl))
    rw [ViewCell.pushData, if_pos rfl, hroom] at hpush
    obtain rfl := Option.some.inj hpush
    refine { h with sizes := ?_, count := ?_, controls_le := ?_ }
    · have := h.sizes
      simp only [Pipe.inFlightSizes, Pipe.inFlight, Pipe.queuedSizes, harr,
        dataSizes_append] at this
      rw [this]
      simp [Pipe.inFlightSizes, Pipe.inFlight, Pipe.queuedSizes, Pipe.held, Pipe.ackSizes,
        Pipe.inFlightAcks]
    · have := h.count
      simp only [Pipe.counted, harr, Option.toList_some, Option.toList_none, dataSizes_append,
        dataSizes_data, dataSizes_nil, List.length_append, List.length_singleton,
        List.length_nil] at this ⊢
      omega
    · simpa [controls, List.countP_append, ViewEvent.isData] using h.controls_le
  | @queueRefused data harr hpush =>
    -- for the same reason a full queue cannot happen
    rw [ViewCell.pushData, if_pos rfl, (h.push (.data data)
      (Or.inl (by rw [harr]; rfl))).2] at hpush
    cases hpush
  | @refreshed cell ok hfree hbound hctl hpush =>
    obtain rfl := Option.some.inj ((h.push _ (Or.inr hctl)).2.symm.trans hpush)
    exact h.control rfl hctl (Or.inl rfl)
  | @exited cell error hfree hbound hctl hpush =>
    obtain rfl := Option.some.inj ((h.push _ (Or.inr hctl)).2.symm.trans hpush)
    exact h.control rfl hctl (Or.inr rfl)
  | controlRefused e he hfree hbound hctl hpush =>
    rw [(h.push e (Or.inr hctl)).2] at hpush
    cases hpush
  | @pop e cell hphase hexit hpop =>
    -- the event leaves the queue and is held
    obtain ⟨rest, hq, rfl⟩ := ViewCell.pop_eq_some.mp hpop
    refine { h with acks := ?_, sizes := ?_, count := ?_, controls_le := ?_ }
    · have := h.acks
      simp only [Pipe.ackSizes, Pipe.inFlightAcks, hphase] at this ⊢
      exact this
    · have := h.sizes
      simp only [Pipe.ackSizes, Pipe.inFlightAcks, Pipe.queuedSizes, Pipe.held, hphase, hq,
        List.nil_append] at this
      exact this
    · have := h.count
      rw [show e :: rest = [e] ++ rest from rfl] at hq
      simp only [Pipe.counted, hphase, hq, dataSizes_append, List.length_append] at this ⊢
      omega
    · have := h.controls_le
      rw [hq, controls, List.countP_cons] at this
      simp only [controls]
      omega
  | @uncount e hphase =>
    -- the count falls, the queue stays
    have hcell : (if e.isData then w.cell.uncount else w.cell).events = w.cell.events := by
      split <;> rfl
    refine { h with notFull := ?_, acks := ?_, sizes := ?_, count := ?_, controls_le := ?_,
                    capacity := ?_, opened := ?_ }
    · split
      · exact h.notFull
      · exact h.notFull
    · have := h.acks
      simp only [Pipe.ackSizes, Pipe.inFlightAcks, hphase] at this ⊢
      exact this
    · have := h.sizes
      simp only [Pipe.ackSizes, Pipe.inFlightAcks, Pipe.queuedSizes, Pipe.held, hphase] at this
      simp only [Pipe.ackSizes, Pipe.inFlightAcks, Pipe.queuedSizes, Pipe.held, hcell]
      exact this
    · have := h.count
      simp only [Pipe.counted, hphase] at this
      cases e with
      -- only data was counted
      | data data =>
        simp only [Pipe.counted, ViewEvent.isData, if_true, ViewCell.uncount, this]
        simp
      | exit error => simpa [Pipe.counted, ViewEvent.isData, dataSizes] using this
      | refreshResult ok => simpa [Pipe.counted, ViewEvent.isData, dataSizes] using this
    · simpa only [hcell] using h.controls_le
    · simpa only [hcell] using h.capacity
    · simpa only [hcell] using h.opened
  | @accept e lease now hphase hacc =>
    -- the lease charges the same bytes in the same order
    obtain ⟨lease', hacc', hflow, hvalid, hsizes⟩ := h.accept hphase now
    rw [hacc'] at hacc
    injection hacc with hacc
    subst hacc
    refine { h with flow := hflow, leaseValid := hvalid, acks := ?_, sizes := ?_, count := ?_ }
    · have := h.acks
      simp only [Pipe.ackSizes, Pipe.inFlightAcks, hphase] at this ⊢
      exact this
    · have := h.sizes
      simp only [Pipe.ackSizes, Pipe.inFlightAcks, Pipe.queuedSizes, Pipe.held, hphase,
        dataSizes_append] at this
      simp only [Pipe.ackSizes, Pipe.inFlightAcks, Pipe.queuedSizes, Pipe.held, hsizes, this,
        List.nil_append, List.append_assoc]
      rfl
    · have := h.count
      simp only [Pipe.counted, hphase] at this ⊢
      exact this
  | acceptClosed now hphase hacc =>
    obtain ⟨lease, hacc', -⟩ := h.accept hphase now
    rw [hacc'] at hacc
    cases hacc
  | acceptRefused now hphase hacc =>
    obtain ⟨lease, hacc', -⟩ := h.accept hphase now
    rw [hacc'] at hacc
    cases hacc
  | @acknowledge size lease hphase hsize hack =>
    -- the oldest lease is the one that is acknowledged
    obtain ⟨lease', hack', hflow, hvalid, hsizes⟩ := h.acknowledge hsize
    obtain rfl := Option.some.inj (hack'.symm.trans hack)
    have hle : size ≤ chunk :=
      (h.leaseValid.size_le size (by rw [hsizes]; exact List.mem_cons_self)).2
    have hnat := Int64.toNatClampNeg_ofNat_of_lt (n := size) (by rw [chunk] at hle; omega)
    refine { h with flow := hflow, leaseValid := hvalid, acks := ?_, sizes := ?_, count := ?_ }
    · have := h.acks
      simp only [Pipe.ackSizes, Pipe.inFlightAcks, hphase] at this
      simp only [Pipe.ackSizes, Pipe.inFlightAcks, List.map_append, List.map_cons, List.map_nil,
        hnat, ← this]
    · have := h.sizes
      simp only [Pipe.ackSizes, Pipe.inFlightAcks, Pipe.queuedSizes, Pipe.held, hphase,
        hsizes] at this
      simp only [Pipe.ackSizes, Pipe.inFlightAcks, Pipe.queuedSizes, Pipe.held, this]
      simp [Pipe.inFlightSizes, Pipe.inFlight, hnat]
    · have := h.count
      simp only [Pipe.counted, hphase] at this ⊢
      exact this
  | acknowledgeRefused hphase hsize hack =>
    obtain ⟨lease, hack', -⟩ := h.acknowledge hsize
    rw [hack'] at hack
    cases hack
  | @sendAck n hphase =>
    refine { h with acks := ?_, sizes := ?_, count := ?_ }
    · have := h.acks
      simp only [Pipe.ackSizes, Pipe.inFlightAcks, hphase] at this ⊢
      exact this
    · have := h.sizes
      simp only [Pipe.ackSizes, Pipe.inFlightAcks, Pipe.queuedSizes, Pipe.held, hphase] at this
      exact this
    · have := h.count
      simp only [Pipe.counted, hphase] at this ⊢
      exact this
  | @credit n rest window hacks hack =>
    -- the oldest acknowledgement frees the oldest charge of the home
    obtain ⟨window', hack', hvalid, hsizes⟩ := h.credit hacks
    obtain rfl := Option.some.inj (hack'.symm.trans hack)
    -- the acknowledgement in hand, if any, stays behind the ones on the link
    have hrest : w.inFlightAcks = n :: ({ w with acks := rest } : Pipe).inFlightAcks := by
      simp only [Pipe.inFlightAcks, hacks]
      split <;> rfl
    refine { h with homeValid := hvalid, acks := ?_, sizes := ?_ }
    · have := h.acks
      rw [Pipe.ackSizes, hrest, List.map_cons, List.map_cons] at this
      exact (List.cons.inj this).2
    · have := h.sizes
      rw [hsizes, Pipe.ackSizes, hrest, List.map_cons] at this
      exact (List.cons.inj this).2
  | @creditRefused n rest hacks hack =>
    obtain ⟨window, hack', -⟩ := h.credit hacks
    rw [hack'] at hack
    cases hack

/-- **Run lemma.** The invariant holds after any interleaving of moves. -/
theorem agrees_reachable {w : Pipe} (h : Reachable w) : w.Agrees := by
  induction h with
  | refl => exact agrees_init
  | tail _ hstep ih => exact agrees_step ih hstep

/-- **Credit agrees end to end.** Whatever the order of reads, deliveries, receives and
    acknowledgements: Home's outstanding frames are, in order, the acknowledgements in flight,
    the Gateway's window, the queued frames and the frames in flight, hence at most 32 frames
    and 512 KiB; the hub never refuses a frame, neither by its count nor by its queue, the
    lease's window always has room for the frame it takes, the view stays open, and Home's
    window never refuses an acknowledgement. -/
theorem output_credit_agrees {w : Pipe} (h : Reachable w) :
    (w.home.window.sizes
        = w.ackSizes ++ w.lease.window.sizes ++ w.queuedSizes ++ w.inFlightSizes ∧
      w.inFlightAcks = w.ackSizes.map Int64.ofNat) ∧
    (w.home.window.sizes.length ≤ 32 ∧ w.home.window.sizes.sum ≤ 512 * 1024) ∧
    (w.bound = true ∧ w.cell.closed ≠ outputFull ∧ w.home.stopped = false) ∧
    (∀ data rest, w.data = data :: rest →
      w.cell.queuedData < 32 ∧ (w.cell.admitted data).isSome) ∧
    (∀ data, w.arriving = some data →
      w.cell.events.queue.length < 64 ∧ (w.cell.pushData data true).isSome) ∧
    (∀ data now, w.phase = .counted (.data data) →
      (w.lease.window.reserve data.length now).isSome) ∧
    (∀ n rest, w.acks = n :: rest → (w.home.window.acknowledge n).isSome) := by
  have hag := agrees_reachable h
  refine ⟨⟨hag.sizes, hag.acks⟩, ⟨hag.homeValid.length_le, ?_⟩,
    ⟨hag.bound, hag.notFull, hag.running⟩, ?_, ?_, ?_, ?_⟩
  · rw [← hag.homeValid.bytes_eq]
    exact hag.homeValid.bytes_le
  · intro data rest hdata
    obtain ⟨hlt, hadmitted⟩ := hag.admitted hdata
    exact ⟨hlt, by rw [hadmitted]; rfl⟩
  · intro data harr
    obtain ⟨hlt, hpush⟩ := hag.push (.data data) (Or.inl (by rw [harr]; rfl))
    rw [hag.capacity] at hlt
    exact ⟨hlt, by rw [ViewCell.pushData, if_pos rfl, hpush]; rfl⟩
  · intro data now hphase
    rw [hag.reserve hphase now]
    rfl
  · intro n rest hacks
    obtain ⟨window, hack, -⟩ := hag.credit hacks
    rw [hack]
    rfl

namespace CreditExample

/-- Two bytes are read, admitted to Home's window and sent. -/
def sent : Pipe :=
  { Pipe.init with
    home := { window := { frames := [(2, 7)], bytes := 2 }, phase := .reading, stopped := false }
    data := [[104, 105]] }

theorem reachable_sent : Reachable sent :=
  ((Relation.ReflTransGen.refl.tail
    (.read [104, 105] rfl rfl (by decide) (by decide))).tail
    (.reserve 7 rfl (by decide))).tail (.send rfl)

/-- The frame is admitted when it arrives, and Home's outstanding list is that frame. -/
theorem output_credit_agrees_sent :
    sent.home.window.sizes = [2] ∧ sent.inFlightSizes = [2] ∧
      (sent.cell.admitted [104, 105]).isSome :=
  ⟨rfl, rfl, ((output_credit_agrees reachable_sent).2.2.2.1 _ _ rfl).2⟩

end CreditExample

end Hmux.Terminal
