import Hmux.Auth.Store
import Hmux.Diagnostics.Model
import Hmux.Lib.Machine
import Hmux.Lib.OrderedMap
import Hmux.Lib.Ring
import Mathlib.Data.String.Basic

namespace Hmux.Diagnostics

open Lib

/-!
# The diagnostic ring

The state behind the lock: one ring of records for all accounts, the batches each login sent in
the last minute, and the revision of the ring that was saved last.

An instant less than a week after the first one `chrono` has makes the subtraction in `prune`
panic before anything is changed (`Fault.panicked`).
-/

/-- `RATE_LIMIT`. -/
def rateLimit : ℕ := 1024

/-- `Error`. -/
inductive Error
  | invalid | rateLimited | busy | unavailable | unauthorized
  deriving DecidableEq, Repr

/-- How a call ends that returns nothing. -/
inductive Fault
  | error (e : Error)
  | panicked
  deriving DecidableEq, Repr

/-- A week, in nanoseconds. -/
def ttl : ℤ := ttlMs * 1000000

/-- A minute, in nanoseconds. -/
def minute : ℤ := 60 * 1000000000

/-- `DateTime::MIN_UTC`, the start of the year -262143. -/
def minUtc : ℤ := -8334601228800000000000

/-- `Rate`. -/
structure Rate where
  start : ℤ
  batches : ℕ

/-- A SHA-256 digest. -/
abbrev Digest := Vector UInt8 32

/-- `State`. -/
structure State where
  records : List Record
  rates : Table Digest Rate
  revision : UInt64
  saved : UInt64
  disabled : Bool
  storageError : Bool

/-- `State::new`. -/
def State.new (records : List Record) (disabled : Bool) : State where
  records := records
  rates := .empty
  revision := 0
  saved := 0
  disabled := disabled
  storageError := disabled

/-- The record is newer than a week. -/
def Record.live (r : Record) (now : ℤ) : Bool := now - ttl < r.received

namespace State

/-- `bump`. -/
def bump (s : State) : Except Fault Unit × State :=
  match checkedSucc s.revision with
  | some next => (.ok (), { s with revision := next })
  | none => (.error (.error .unavailable), { s with disabled := true, storageError := true })

/-- The rates of the last minute, as `prune` leaves them. -/
def freshRates (s : State) (now : ℤ) : Table Digest Rate :=
  s.rates.retain fun _ rate => now - rate.start < minute

/-- `prune`. -/
def prune (s : State) (now : ℤ) : Except Fault Unit × State :=
  if now - ttl < minUtc then (.error .panicked, s)
  else if s.records.any (fun r => r.received ≤ now - ttl) then
    match s.bump with
    | (.error f, s) => (.error f, s)
    | (.ok _, s) =>
      (.ok (), { s with records := s.records.filter (·.live now), rates := s.freshRates now })
  else (.ok (), { s with rates := s.freshRates now })

/-- Both records are the same event of the same page. -/
def duplicate (r record : Record) : Bool :=
  r.sameOwner record.source.account record.source.profile &&
    r.source.client = record.source.client && r.event.sequence = record.event.sequence

/-- A record takes over the source of the last one that has an equal one, to share its memory. -/
def share (records : List Record) (record : Record) : Record :=
  match records.reverse.find? fun r => r.source = record.source with
  | some previous => { record with source := previous.source }
  | none => record

/-- One turn of the first loop of `append`: a record is accepted unless the ring or the records
    accepted before it have its event. -/
def accept (records accepted : List Record) (record : Record) : List Record :=
  if (records ++ accepted).any (duplicate · record) then accepted
  else accepted ++ [share records record]

/-- The second loop of `append`. -/
def store (account profile : String) (records accepted : List Record) : List Record :=
  Ring.pushAll limit accountLimit (·.sameOwner account profile) records accepted

/-- One more batch of a login: `entry`, `or_insert` and the sum. -/
def countUp (entry : Option Rate) (now : ℤ) : Rate :=
  let rate := entry.getD ⟨now, 0⟩
  { rate with batches := rate.batches + 1 }

section
variable (sha256 : List UInt8 → Digest)

/-- The records of a batch that `append` takes from a login. -/
def incoming (access : Auth.SessionAccess) (browser : String) (batch : Batch) (now : ℤ) :
    List Record :=
  batch.records ⟨access.username, access.profile, "", "", browser⟩ now

/-- `append`. -/
def append (s : State) (access : Auth.SessionAccess) (browser : String) (batch : Batch) (now : ℤ) :
    Except Fault Unit × State :=
  if s.disabled then (.error (.error .unavailable), s)
  else
    match s.prune now with
    | (.error f, s) => (.error f, s)
    | (.ok _, s) =>
      let key := sha256 (bytes access.id)
      if (s.rates.get? key).any (fun r => 6 ≤ r.batches) ||
          (rateLimit ≤ s.rates.entries.length && !s.rates.contains key) then
        (.error (.error .rateLimited), s)
      else
        match s.bump with
        | (.error f, s) => (.error f, s)
        | (.ok _, s) =>
          let accepted := (incoming access browser batch now).foldl (accept s.records) []
          (.ok (),
            { s with
              rates := s.rates.insert key (countUp (s.rates.get? key) now)
              records := store access.username access.profile s.records accepted })

end

/-- `Report`. -/
structure Report where
  version : ℕ
  generatedAt : ℤ
  retentionDays : ℕ
  events : List Record
  counts : List (String × ℕ)
  storageOk : Bool
  pendingSave : Bool

/-- One turn of the loop of `report`. -/
def count (counts : List (String × ℕ)) (r : Record) : List (String × ℕ) :=
  match r.event.failureKey with
  | some key => OrderedMap.insert key ((counts.lookup key).getD 0 + 1) counts
  | none => counts

/-- `report`. -/
def report (s : State) (account profile : String) (now : ℤ) : Except Fault Report × State :=
  match s.prune now with
  | (.error f, s) => (.error f, s)
  | (.ok _, s) =>
    let rows := s.records.filter (·.sameOwner account profile)
    (.ok ⟨1, now, 7, rows, rows.foldl count [], !s.storageError, s.saved ≠ s.revision⟩, s)

/-! ### Runs

A run is any sequence of the three calls, with an instant for each that need not be later than the
last. -/

/-- A call. -/
inductive Op
  | append (access : Auth.SessionAccess) (browser : String) (batch : Batch) (now : ℤ)
  | prune (now : ℤ)
  | report (account profile : String) (now : ℤ)

/-- The instant of a call. -/
def Op.now : Op → ℤ
  | .append _ _ _ now => now
  | .prune now => now
  | .report _ _ now => now

/-- A batch is appended only when `Batch::valid` accepts it. -/
def Op.Valid : Op → Prop
  | .append _ _ batch now => batch.valid now = true
  | _ => True

/-- What a call returns. -/
inductive Reply
  | done
  | report (r : Report)

/-- One call. -/
def step (sha256 : List UInt8 → Digest) (s : State) : Op → Except Fault Reply × State
  | .append access browser batch now =>
    let (r, s) := s.append sha256 access browser batch now
    (r.map fun _ => .done, s)
  | .prune now =>
    let (r, s) := s.prune now
    (r.map fun _ => .done, s)
  | .report account profile now =>
    let (r, s) := s.report account profile now
    (r.map .report, s)

/-- The calls so far with what they returned, and the state they left. -/
inductive Run (sha256 : List UInt8 → Digest) : List (Op × Except Fault Reply) → State → Prop
  | new : Run sha256 [] (State.new [] false)
  | step {log s} (op : Op) : Run sha256 log s → op.Valid →
      Run sha256 (log ++ [(op, (s.step sha256 op).1)]) (s.step sha256 op).2

end State

end Hmux.Diagnostics
