import Mathlib.Data.Finset.Card
import Hmux.Model.Catalog
import Hmux.UsagePreferences.Store

namespace Hmux.TabCompletions

open Lib
open UsagePreferences (Accounts Key key filename)

/-!
# Completion receipts — the store of the gateway

The last completion of every session, and for every account the completions that it has read
(`hmux-gateway/src/tab_completions.rs`): one ledger, and one small file for each account with a
bounded cache in front.  A transaction runs alone, behind the lock of the store.  What decides its
way besides the state is its environment: whether it is admitted, whether the login is still
authorized, whether a read succeeds and how the write ends.

`parse` stands for `chrono::DateTime::parse_from_rfc3339`.
-/

/-- `MAX_ENTRIES`. -/
def maxEntries : ℕ := 256

/-- `MAX_BYTES`. -/
def maxBytes : ℕ := 131072

/-- `CACHE_ACCOUNTS`. -/
def cacheAccounts : ℕ := 16

/-- `MAX_REVISION`. -/
def maxRevision : Int64 := 9007199254740991

/-- `EVENTS_FILE`. -/
def eventsFile : String := "events.json"

/-- `Error`. -/
inductive Error
  | invalid | conflict | busy | unavailable | unauthorized
  deriving DecidableEq, Repr

/-! ### Events

An event names its session, its turn and its instant, each of which is checked before it is
entered. -/

/-- The checks on a session and an event id, which a request and an event have in common. -/
def validKey (session : SessionIdentity) (eventId : String) : Bool :=
  0 < session.createdAt && validateSessionId session.id && (bytes eventId).length == 64 &&
    (bytes eventId).all isAsciiHexdigit

/-- `Event`. -/
structure Event where
  session : SessionIdentity
  eventId : String
  completedAt : String
  deriving DecidableEq, Repr

/-- `Event::valid`. -/
def Event.valid (parse : String → Option DateTime) (e : Event) : Bool :=
  validKey e.session e.eventId && (bytes e.completedAt).length ≤ 64 && (parse e.completedAt).isSome

/-- The fields of `Event`. -/
def eventFields : Fields Event :=
  Fields.map
    (Fields.and (.required "session" Model.identityCodec) <|
     Fields.and (.required "event_id" .string) <| .required "completed_at" .string)
    (fun (session, eventId, completedAt) => ⟨session, eventId, completedAt⟩)
    (fun e => (e.session, e.eventId, e.completedAt))

/-- `Event` as JSON. -/
def eventCodec : Codec Event := .object eventFields

/-! ### Files

The ledger and the receipts of an account have the same fields and the same checks. -/

/-- `Ledger` and `Reads`, which have the same fields. -/
structure Rows where
  revision : Int64
  events : List Event
  deriving DecidableEq, Repr

/-- `Default::default`. -/
def Rows.initial : Rows := ⟨0, []⟩

/-- `valid_rows`. -/
def Rows.valid (parse : String → Option DateTime) (r : Rows) : Bool :=
  (0 ≤ r.revision && r.revision < maxRevision) && r.events.length ≤ maxEntries &&
    r.events.all (Event.valid parse) && decide (r.events.map Event.session).Nodup

/-- The fields of `Ledger` and of `Reads`. -/
def rowsFields : Fields Rows :=
  Fields.map
    (Fields.and (.required "revision" .int64) <| .required "events" eventCodec.list)
    (fun (revision, events) => ⟨revision, events⟩) (fun r => (r.revision, r.events))

/-- `Ledger` and `Reads` as JSON. -/
def rowsCodec : Codec Rows := .object rowsFields

/-- `to_vec`. -/
def encode (S : Serde) (r : Rows) : List UInt8 := S.text (rowsCodec.write r)

/-- The files of the directory. -/
abbrev Files := String → Option (List UInt8)

/-- `load`; `readable` is false when the file system fails or refuses the file. -/
def load (S : Serde) (files : Files) (name : String) (readable : Bool) : Except Error Rows :=
  if !readable then .error .unavailable
  else
    match files name with
    | none => .ok .initial
    | some raw =>
      if maxBytes < raw.length then .error .unavailable
      else
        match (S.fromSlice raw).bind rowsCodec.read with
        | none => .error .unavailable
        | some rows => .ok rows

/-- `load` and the check of what was loaded. -/
def loadValid (S : Serde) (parse : String → Option DateTime) (files : Files) (name : String)
    (readable : Bool) : Except Error Rows :=
  match load S files name readable with
  | .error e => .error e
  | .ok rows => if rows.valid parse then .ok rows else .error .unavailable

/-! ### Snapshots

What an account is answered: the entries of its live sessions, each with whether it was read. -/

/-- `Entry`. -/
structure Entry where
  event : Event
  unread : Bool
  deriving DecidableEq, Repr

/-- `Snapshot`. -/
structure Snapshot where
  version : Int64
  sequence : Int64
  readRevision : Int64
  entries : List Entry
  deriving DecidableEq, Repr

/-- `ReadRequest`. -/
structure ReadRequest where
  session : SessionIdentity
  eventId : String
  deriving DecidableEq, Repr

/-- A receipt of this event. -/
def Event.matches (e : Event) (session : SessionIdentity) (eventId : String) : Bool :=
  e.session == session && e.eventId == eventId

/-! ### State

The operations under the lock, each with what the environment decides. -/

/-- `State`: the files of the directory, and what is kept of them. -/
structure State where
  files : Files
  storageFailed : Bool
  ledger : Rows
  reads : List (String × Rows)

/-- What a call of `record` meets: whether it is admitted, how the write ends, and whether the
reload succeeds. -/
structure RecordEnv where
  refused : Option Error
  outcome : WriteOutcome
  readable : Bool

/-- What a call of `get` meets: whether the login is authorized, whether the store is closed,
whether the lock is free, whether the call is admitted, whether the login is still authorized,
and whether the read succeeds. -/
structure GetEnv where
  authorized : Bool
  closed : Bool
  lock : Bool
  refused : Option Error
  stillAuthorized : Bool
  readable : Bool

/-- What a call of `acknowledge` meets: whether it is admitted, the two checks of the login and of
the generation, the read and the write. -/
structure AckEnv where
  refused : Option Error
  authorized : Bool
  current : Bool
  readable : Bool
  stillAuthorized : Bool
  stillCurrent : Bool
  outcome : WriteOutcome

/-- `write_atomic_private`. -/
def State.write (s : State) (name : String) (raw : List UInt8) (outcome : WriteOutcome) :
    Bool × State :=
  let written := outcome.write (s.files name) raw
  (written.1, { s with files := fun n => if n = name then written.2 else s.files n })

/-- The cached reads of an account. -/
def State.cached (s : State) (key : String) : Option Rows :=
  (s.reads.find? fun e => e.1 = key).map Prod.snd

/-- Drop the entry of an account. -/
def State.forget (s : State) (key : String) : State :=
  { s with reads := s.reads.filter fun e => e.1 ≠ key }

/-- `State::cache`. -/
def State.cache (s : State) (key : String) (value : Rows) : State :=
  let reads := s.reads.filter fun e => e.1 ≠ key
  let reads := if reads.length = cacheAccounts then reads.tail else reads
  { s with reads := reads ++ [(key, value)] }

/-- `State::snapshot`. -/
def State.snapshot (s : State) (reads : Rows) (live : Finset SessionIdentity) : Snapshot where
  version := 1
  sequence := s.ledger.revision
  readRevision := reads.revision
  entries := (s.ledger.events.filter fun e => decide (e.session ∈ live)).map fun e =>
    ⟨e, !reads.events.any fun r => r.matches e.session e.eventId⟩

/-- Whether an instant that may be missing comes after another. -/
def after : Option DateTime → Option DateTime → Bool
  | some t, some u => u.before t
  | some _, none => true
  | none, _ => false

section

variable (S : Serde) (parse : String → Option DateTime)

/-- `State::account`. -/
def State.account (s : State) (key : String) (readable : Bool) : Except Error Rows × State :=
  match s.cached key with
  | some value => (.ok value, s)
  | none =>
    match loadValid S parse s.files key readable with
    | .error e => (.error e, s)
    | .ok value => (.ok value, s.cache key value)

/-- The ledger after an event, if it changes. -/
def Rows.recorded (ledger : Rows) (event : Event) : Option Rows :=
  let known := (ledger.events.find? fun e => e.session = event.session).any fun old =>
    old.eventId == event.eventId || after (parse old.completedAt) (parse event.completedAt)
  if known then none
  else
    let events := ledger.events.filter fun e => e.session ≠ event.session
    let events := if events.length = maxEntries then events.tail else events
    some ⟨ledger.revision + 1, events ++ [event]⟩

/-- `State::record`. -/
def State.record (s : State) (event : Event) (env : RecordEnv) : Except Error Unit × State :=
  if s.storageFailed then (.error .unavailable, s)
  else if !event.valid parse then (.error .invalid, s)
  else
    match s.ledger.recorded parse event with
    | none => (.ok (), s)
    | some next =>
      if !next.valid parse then (.error .unavailable, s)
      else
        let written := s.write eventsFile (encode S next) env.outcome
        if written.1 then (.ok (), { written.2 with ledger := next })
        else
          match loadValid S parse written.2.files eventsFile env.readable with
          | .error _ => (.error .unavailable, { written.2 with storageFailed := true })
          | .ok loaded => (.error .unavailable, { written.2 with ledger := loaded })

/-- The reads of an account with a new receipt. -/
def Rows.acknowledged (reads : Rows) (event : Event) (live : Finset SessionIdentity) : Rows :=
  let events := reads.events.filter fun e => decide (e.session ∈ live) && e.session ≠ event.session
  let events := if events.length = maxEntries then events.tail else events
  ⟨reads.revision + 1, events ++ [event]⟩

/-- `State::acknowledge`. -/
def State.acknowledge (s : State) (key : String) (request : ReadRequest)
    (live : Finset SessionIdentity) (env : AckEnv) : Except Error Snapshot × State :=
  if s.storageFailed then (.error .unavailable, s)
  else if !env.authorized then (.error .unauthorized, s)
  else if request.session ∉ live ∨ !env.current then (.error .conflict, s)
  else
    match s.ledger.events.find? fun e => e.matches request.session request.eventId with
    | none => (.error .conflict, s)
    | some event =>
      match loadValid S parse s.files key env.readable with
      | .error e => (.error e, s)
      | .ok reads =>
        if event ∈ reads.events then
          (.ok ((s.cache key reads).snapshot reads live), s.cache key reads)
        else
          let reads := reads.acknowledged event live
          if !reads.valid parse then (.error .unavailable, s)
          else if !env.stillAuthorized then (.error .unauthorized, s)
          else if !env.stillCurrent then (.error .conflict, s)
          else
            let written := s.write key (encode S reads) env.outcome
            if written.1 then
              (.ok ((written.2.cache key reads).snapshot reads live), written.2.cache key reads)
            else (.error .unavailable, written.2.forget key)

/-! ### Store

The operations as they are called, with the admission in front of the lock. -/

/-- `Store::open`. -/
def Store.open (files : Files) (readable : Bool) : Except Error State :=
  match loadValid S parse files eventsFile readable with
  | .error e => .error e
  | .ok ledger => .ok ⟨files, false, ledger, []⟩

/-- `Store::record`. -/
def Store.record (s : State) (event : Event) (env : RecordEnv) : Except Error Unit × State :=
  match env.refused with
  | some e => (.error e, s)
  | none => s.record S parse event env

/-- The transaction of `Store::get`. -/
def State.get (s : State) (key : String) (live : Finset SessionIdentity) (env : GetEnv) :
    Except Error Snapshot × State :=
  match env.refused with
  | some e => (.error e, s)
  | none =>
    if !env.stillAuthorized then (.error .unauthorized, s)
    else if s.storageFailed then (.error .unavailable, s)
    else
      match s.account S parse key env.readable with
      | (.error e, s) => (.error e, s)
      | (.ok reads, s) => (.ok (s.snapshot reads live), s)

/-- `Store::get`.  What the first look at the cache does not answer, a transaction does. -/
def Store.get (s : State) (key : String) (live : Finset SessionIdentity) (env : GetEnv) :
    Except Error Snapshot × State :=
  if !env.authorized then (.error .unauthorized, s)
  else if env.closed then (.error .unavailable, s)
  else if !env.lock then s.get S parse key live env
  else if s.storageFailed then (.error .unavailable, s)
  else
    match s.cached key with
    | some reads => (.ok (s.snapshot reads live), s)
    | none => s.get S parse key live env

/-- `Store::acknowledge`. -/
def Store.acknowledge (s : State) (key : String) (request : ReadRequest)
    (live : Finset SessionIdentity) (env : AckEnv) : Except Error Snapshot × State :=
  if !validKey request.session request.eventId then (.error .invalid, s)
  else
    match env.refused with
    | some e => (.error e, s)
    | none => s.acknowledge S parse key request live env

variable {ι : Type} (A : Accounts ι) (sha256 : List UInt8 → Key)

/-- `account_key`. -/
def accountKey (i : ι) : String := filename (key A sha256 i)

/-- A call. -/
inductive Call (ι : Type)
  | record (event : Event) (env : RecordEnv)
  | get (account : ι) (live : Finset SessionIdentity) (env : GetEnv)
  | acknowledge (account : ι) (request : ReadRequest) (live : Finset SessionIdentity) (env : AckEnv)

/-- The state after a call. -/
def State.step (s : State) : Call ι → State
  | .record event env => (Store.record S parse s event env).2
  | .get i live env => (Store.get S parse s (accountKey A sha256 i) live env).2
  | .acknowledge i request live env =>
    (Store.acknowledge S parse s (accountKey A sha256 i) request live env).2

/-- The state after some calls. -/
def State.run (s : State) (calls : List (Call ι)) : State :=
  calls.foldl (fun s call => s.step S parse A sha256 call) s

/-- **The states of a store** that was opened on any directory. -/
def State.Reachable (s : State) : Prop :=
  ∃ files readable opened calls, Store.open S parse files readable = .ok opened ∧
    s = opened.run S parse A sha256 calls

end

end Hmux.TabCompletions
