import Hmux.Lib.Text

namespace Hmux.Diagnostics

/-!
# Diagnostic events and records

What a browser reports (`Batch`, `Event`) and what the gateway keeps of it (`Record`), with the
checks that bound every field.  Instants are in nanoseconds since 1970, as the system clock
reports them.
-/

/-- `LIMIT`. -/
def limit : ℕ := 2048

/-- `ACCOUNT_LIMIT`. -/
def accountLimit : ℕ := 256

/-- `TTL_MS`. -/
def ttlMs : ℤ := 7 * 24 * 60 * 60 * 1000

/-- `timestamp_millis`. -/
def timestampMillis (now : ℤ) : ℤ := now / 1000000

/-! ### Labels

The enumerations of an event; the labels of its kind and its reason make its failure key. -/

/-- `Kind`. -/
inductive Kind
  | empty | terminalFailed | terminalRecovered | apiFailed | offline | resume | runtimeError
  | unhandledRejection
  deriving DecidableEq, Repr

/-- `Kind::label`. -/
def Kind.label : Kind → String
  | .empty => ""
  | .terminalFailed => "terminal-failed"
  | .terminalRecovered => "terminal-recovered"
  | .apiFailed => "api-failed"
  | .offline => "offline"
  | .resume => "resume"
  | .runtimeError => "runtime-error"
  | .unhandledRejection => "unhandled-rejection"

/-- `Reason`. -/
inductive Reason
  | empty | network | timeout | limit | unavailable | outputOverflow | protocol | http | typeError
  | rangeError | referenceError | syntaxError | error | unknown
  deriving DecidableEq, Repr

/-- `Reason::label`. -/
def Reason.label : Reason → String
  | .empty => ""
  | .network => "network"
  | .timeout => "timeout"
  | .limit => "limit"
  | .unavailable => "unavailable"
  | .outputOverflow => "output-overflow"
  | .protocol => "protocol"
  | .http => "http"
  | .typeError => "TypeError"
  | .rangeError => "RangeError"
  | .referenceError => "ReferenceError"
  | .syntaxError => "SyntaxError"
  | .error => "Error"
  | .unknown => "unknown"

/-- `Route`. -/
inductive Route
  | empty | session | state | action | sessions | account | push | upload | other
  deriving DecidableEq, Repr

/-! ### Events

The numbers of an event are bounded one by one, and its time lies between a week before the clock
and five minutes after it. -/

/-- `Event`. -/
structure Event where
  sequence : ℤ
  at_ : ℤ
  kind : Kind
  reason : Reason
  route : Route
  code : ℤ
  attempt : ℤ
  retryMs : ℤ
  durationMs : ℤ
  line : ℤ
  column : ℤ
  online : Bool
  visible : Bool
  standalone : Bool
  deriving DecidableEq, Repr

/-- `RangeInclusive::contains`. -/
def within (low high n : ℤ) : Bool := low ≤ n && n ≤ high

/-- `Event::valid`.  The instants `chrono` has are far from the bounds at which the source's
    sums would saturate. -/
def Event.valid (e : Event) (now : ℤ) : Bool :=
  let now := timestampMillis now
  within 1 2147483647 e.sequence && now - ttlMs ≤ e.at_ && e.at_ ≤ now + 300000 &&
    e.kind.label ≠ "" && within 0 4999 e.code && within 0 1000000 e.attempt &&
    within 0 60000 e.retryMs && within 0 86400000 e.durationMs && within 0 10000000 e.line &&
    within 0 10000000 e.column

/-- `failure_key`. -/
def Event.failureKey (e : Event) : Option String :=
  match e.kind with
  | .terminalFailed | .apiFailed | .runtimeError | .unhandledRejection =>
    some (e.kind.label ++ ":" ++ e.reason.label)
  | _ => none

/-! ### Texts

The two texts of a batch that are not of a fixed set. -/

/-- `valid_client`. -/
def validClient (value : String) : Bool :=
  let v := bytes value
  v.length = 36 && [8, 13, 18, 23].all (fun i => v[i]? = some 45) && v[14]? = some 52 &&
    (v[19]?).any (fun b => (bytes "89ab").contains b) &&
    v.zipIdx.all fun (b, i) => [8, 13, 18, 23].contains i || isLowerHex b

/-- `valid_build`. -/
def validBuild (value : String) : Bool :=
  value = "development" || value = "unknown" ||
    (((bytes "app-").isPrefixOf? (bytes value)).bind ((bytes ".js").isSuffixOf? ·)).any fun v =>
      v ≠ [] && v.length ≤ 64 &&
        v.all fun b => isAsciiAlphanumeric b || b = 95 || b = 45

/-! ### Batches and records

A record is an event with the account, the login and the page it came from. -/

/-- `Batch`. -/
structure Batch where
  version : ℤ
  client : String
  build : String
  events : List Event

/-- `Batch::valid`. -/
def Batch.valid (b : Batch) (now : ℤ) : Bool :=
  b.version = 1 && validClient b.client && validBuild b.build && b.events ≠ [] &&
    b.events.length ≤ 20 && b.events.all (·.valid now)

/-- `Source`. -/
structure Source where
  account : String
  profile : String
  client : String
  build : String
  browser : String
  deriving DecidableEq, Repr

/-- `Record`. -/
structure Record where
  source : Source
  received : ℤ
  event : Event
  deriving DecidableEq, Repr

/-- `same_owner`. -/
def Record.sameOwner (r : Record) (account profile : String) : Bool :=
  r.source.account = account && r.source.profile = profile

/-- `Batch::records`. -/
def Batch.records (b : Batch) (source : Source) (now : ℤ) : List Record :=
  let source := { source with client := b.client, build := b.build }
  b.events.map fun event => ⟨source, now, event⟩

end Hmux.Diagnostics
