import Hmux.Auth.Credentials
import Hmux.Lib.LinkDir
import Hmux.Usage.Model

namespace Hmux.Bootstrap

open Lib Auth

/-!
# One-time enrollment

`bootstrap.rs`: `initialize` prepares two bearer tokens, and a gateway without credentials lets the
holder of the setup token write them, at once or after a second factor was confirmed.

Any number of processes work on one secret directory.  An `Event` is one step of one of them: the
next file system operation of a process, with the error it may end in, or a request, a crash, a
connection that is dropped.  A file is published by `write_new_private`, which works through its
phases as a `Writer` of its own; writers, the names of their temporary files and their inodes are
numbered in the order in which they are started.

`Library` has what other crates do: the hash functions, base 32, the JSON reader and the random
numbers.

A process that finds credentials when it starts serves the regular gateway (`Serving.regular`), and
the enrollment is over for it.  What the regular gateway writes after that, when a second factor is
used or switched, is not an operation of the enrollment and no event here.
-/

/-- What other crates do. -/
structure Library extends Crypto where
  /-- `BASE32_NOPAD.encode`. -/
  encode32 : List UInt8 → String
  /-- `serde_json::from_slice` for credentials. -/
  parseJson : List UInt8 → Option Credentials
  /-- The random numbers of `random_token`, in the order in which they are drawn. -/
  random : ℕ → Vector UInt8 32

/-- The names of the secret directory. -/
inductive Name
  | credentials | setup | connector
  | temp (writer : ℕ)
  deriving DecidableEq

/-- The two bearer tokens. -/
inductive Token
  | connector | setup
  deriving DecidableEq

/-- The file of a token. -/
def Token.name : Token → Name
  | .connector => .connector
  | .setup => .setup

/-! ### Texts

The texts of the two files, and the readers that decide whether they are whole. -/

/-- The text of a token file. -/
def tokenText (token : String) : List UInt8 := bytes (token ++ "\n")

/-- The token of a file. -/
def parseToken (raw : List UInt8) : Option String :=
  ((utf8 raw).map Usage.trimmed).filter fun value => validToken value

/-- `go_json`. -/
def goJson (c : Credentials) : String :=
  String.ofList <|
    "\x7b\"username\":".toList ++ Json.goString c.username ++
    ",\"salt\":".toList ++ Json.goString (standard64 c.salt) ++
    ",\"hash\":".toList ++ Json.goString (standard64 c.hash) ++
    ",\"totp_secret\":".toList ++ Json.goString c.totpSecret ++
    ",\"last_step\":".toList ++ (toString c.lastStep).toList ++
    (if c.totpDisabled then ",\"totp_disabled\":true".toList else []) ++ "\x7d".toList

section

variable (L : Library)

/-- `parse_credentials`. -/
def parseCredentials (raw : List UInt8) : Option Credentials :=
  if 4096 < raw.length then none
  else if raw.find? (fun b => !(b = 32 || b = 10 || b = 13 || b = 9)) ≠ some 123 then none
  else (L.parseJson raw).filter fun c => c.valid L.toCrypto

/-- `matches_unused_code`. -/
def matchesUnusedCode (c : Credentials) (code : String) (unixSeconds : ℤ) : Option ℤ :=
  (c.matchCode L.toCrypto code unixSeconds).filter fun step => c.lastStep < step

/-- The random token that is drawn as the `n`-th. -/
def randomToken (n : ℕ) : String := Base64.urlSafeNoPad (L.random n).toList

end

/-! ### `write_new_private`

A file is created under a temporary name, written, synced, linked to its own name and removed from
the temporary one; an error on the way removes the temporary name, and a crash leaves what there
is. -/

/-- `WriteError`. -/
inductive WriteError
  | beforeCommit (e : IoKind)
  | afterCommit (e : IoKind)
  deriving DecidableEq

/-- Who waits for a writer. -/
inductive Owner
  | init (p : ℕ)
  | gateway (g : ℕ)
  deriving DecidableEq

/-- The next operation of a writer; `cleaning` is the `Drop` of its temporary file after an error,
    and `retiring` the removal of the setup token after the credentials were published. -/
inductive Phase
  | creating | writing | linking | unlinking | syncing | retiring
  | cleaning (linked : Bool) (e : WriteError)
  | done (result : Except WriteError Unit)
  | dead

/-- A call of `write_new_private`. -/
structure Writer where
  owner : Owner
  target : Name
  data : List UInt8
  phase : Phase

/-- One operation of the `k`-th writer. -/
def Writer.step (w : Writer) (k : ℕ) (d : LinkDir Name) (fault : Option IoKind) :
    Phase × LinkDir Name :=
  match w.phase, fault with
  | .creating, some e => (.done (.error (.beforeCommit e)), d)
  | .creating, none => (.writing, d.create (.temp k) k)
  | .writing, some e => (.cleaning false (.beforeCommit e), d)
  | .writing, none => (.linking, d.write k w.data)
  | .linking, some e => (.cleaning false (.beforeCommit e), d)
  | .linking, none =>
    if (d.names w.target).isSome then (.cleaning false (.beforeCommit .alreadyExists), d)
    else (.unlinking, d.link k w.target)
  | .unlinking, some e => (.cleaning true (.afterCommit e), d)
  | .unlinking, none => (.syncing, d.unlink (.temp k))
  | .cleaning _ e, some _ => (.done (.error e), d)
  | .cleaning _ e, none => (.done (.error e), d.unlink (.temp k))
  -- the guard of the temporary file is dropped before the directory is synced
  | .syncing, some e => (.done (.error (.afterCommit e)), d.unlink (.temp k))
  | .syncing, none =>
    (if w.target = .credentials then .retiring else .done (.ok ()), d.unlink (.temp k))
  | .retiring, some _ => (.done (.ok ()), d)
  | .retiring, none => (.done (.ok ()), d.unlink .setup)
  | phase, _ => (phase, d)

/-- The writer has linked its file and not yet removed the temporary name. -/
def Phase.linked : Phase → Bool
  | .unlinking => true
  | .cleaning linked _ => linked
  | _ => false

/-! ### Processes

`initialize` and the gateway are small machines of their own, whose steps are the operations on the
directory; the requests of a gateway are handled side by side, and one of them at a time holds the
lock of the setup state. -/

/-- The next operation of a call of `initialize`. -/
inductive Init
  | idle
  | readCredentials
  | readSetup
  | readConnector (setupExists : Bool)
  | check (t : Token)
  | writing (t : Token) (writer : ℕ)
  | recheck (t : Token)
  | loadSetup
  | loadConnector (setup : String)
  | returned (result : Except IoKind Unit)

/-- After the connector token comes the setup token. -/
def Token.next : Token → Init
  | .connector => .check .setup
  | .setup => .loadSetup

/-- `BeginBody`. -/
structure BeginBody where
  token : String
  username : String
  password : String
  passwordConfirm : String
  totpEnabled : Bool

/-- `CompleteBody`. -/
structure CompleteBody where
  token : String
  enrollmentId : String
  code : String

/-- The two requests that change something. -/
inductive Request
  | begin (body : BeginBody)
  | complete (body : CompleteBody)

/-- `Pending`. -/
structure Pending where
  credentials : Credentials
  id : String
  expires : ℕ

/-- `Attempts`, with times in nanoseconds of the monotonic clock. -/
structure Attempts where
  started : ℕ
  count : ℕ

/-- A request that is being handled; the last three hold the lock of the setup state. -/
inductive Handler
  | idle
  | arrived (r : Request)
  | admitted (r : Request)
  | hashing (body : BeginBody) (salt secret : List UInt8)
  | confirming (credentials : Credentials)
  | persisting (writer : ℕ) (confirmed : Bool)

/-- How far a gateway is; a `regular` one has left the enrollment. -/
inductive Serving
  | idle
  | loadConnector
  | exists (connector : String)
  | readCredentials (connector : String)
  | loadSetup (connector : String)
  | serving
  | regular (raw : Except IoKind (List UInt8))
  | refused

/-- `BootstrapGateway`, or the process before it is one. -/
structure Gateway where
  serving : Serving
  setupToken : String
  attempts : Attempts
  pending : Option Pending
  locked : Bool
  handlers : ℕ → Handler

/-- A process that does not run. -/
def Gateway.down : Gateway := ⟨.idle, "", ⟨0, 0⟩, none, false, fun _ => .idle⟩

/-- What was presented and accepted: an enrollment that was begun, and one that was confirmed. -/
inductive Entry
  | begun (g : ℕ) (token : String) (credentials : Credentials) (id : Option String) (expires : ℕ)
  | confirmed (g : ℕ) (token id code : String) (now : ℕ) (unixSeconds : Int64) (step : ℤ)
      (credentials : Credentials)

/-- The secret directory and everybody who works on it. -/
structure State where
  dir : LinkDir Name
  writers : ℕ → Writer
  started : ℕ
  inits : ℕ → Init
  gateways : ℕ → Gateway
  drawn : ℕ
  log : List Entry
  /-- The writers whose file got its name. -/
  published : ℕ → Bool
  /-- The writers that were cut off between their link and their unlink. -/
  cut : ℕ → Bool

/-- Nothing has happened. -/
def State.init : State :=
  { dir := .empty, writers := fun _ => ⟨.init 0, .setup, [], .dead⟩, started := 0
    inits := fun _ => .idle, gateways := fun _ => .down, drawn := 0, log := []
    published := fun _ => false, cut := fun _ => false }

namespace State

/-- A call of `initialize` goes on to its next operation. -/
def setInit (s : State) (p : ℕ) (next : Init) : State :=
  { s with inits := Function.update s.inits p next }

/-- A gateway changes. -/
def setGateway (s : State) (g : ℕ) (next : Gateway) : State :=
  { s with gateways := Function.update s.gateways g next }

/-- A handler of a gateway changes. -/
def setHandler (s : State) (g h : ℕ) (gateway : Gateway) (next : Handler) : State :=
  s.setGateway g { gateway with handlers := Function.update gateway.handlers h next }

/-- A call of `write_new_private` starts. -/
def spawn (s : State) (owner : Owner) (target : Name) (data : List UInt8) : State :=
  { s with
    writers := Function.update s.writers s.started ⟨owner, target, data, .creating⟩
    started := s.started + 1 }

/-- A writer does its next operation. -/
def stepWriter (s : State) (k : ℕ) (fault : Option IoKind) : State :=
  if k < s.started then
    let (phase, dir) := (s.writers k).step k s.dir fault
    { s with
      dir
      writers := Function.update s.writers k { s.writers k with phase }
      published := Function.update s.published k (phase.linked || s.published k)
      -- the temporary name of a linked file stays behind
      cut := Function.update s.cut k
        (s.cut k || ((s.writers k).phase.linked && !phase.linked && fault.isSome)) }
  else s

/-- The writers of a process die with it. -/
def killWriters (s : State) (owner : Owner) : State :=
  { s with
    writers := fun k =>
      if (s.writers k).owner = owner then { s.writers k with phase := .dead } else s.writers k
    cut := fun k => s.cut k || ((s.writers k).owner = owner && (s.writers k).phase.linked) }

section

variable (L : Library)

/-- The next operation of a call of `initialize`, unless it waits for its writer. -/
def stepInit (s : State) (p : ℕ) (fault : Option IoKind) : State :=
  match s.inits p, fault with
  | .idle, _ | .returned _, _ => s
  | .writing t k, _ =>
    match (s.writers k).phase with
    | .done (.ok ()) => s.setInit p t.next
    -- a name that is there already is read again; every other failure of the write ends the call
    | .done (.error (.beforeCommit .alreadyExists)) => s.setInit p (.recheck t)
    | .done (.error _) => s.setInit p (.returned (.error .other))
    | _ => s
  | _, some e => s.setInit p (.returned (.error e))
  | .readCredentials, none =>
    match s.dir.readPrivate .credentials 8192 with
    | .ok _ => s.setInit p (.returned (.error .alreadyExists))
    | .error .notFound => s.setInit p .readSetup
    | .error e => s.setInit p (.returned (.error e))
  | .readSetup, none =>
    match s.dir.readPrivate .setup 256 with
    | .ok _ => s.setInit p (.readConnector true)
    | .error .notFound => s.setInit p (.readConnector false)
    | .error e => s.setInit p (.returned (.error e))
  | .readConnector setupExists, none =>
    match s.dir.readPrivate .connector 256 with
    | .ok _ => s.setInit p (.check .connector)
    | .error .notFound =>
      if setupExists then s.setInit p (.returned (.error .other))
      else s.setInit p (.check .connector)
    | .error e => s.setInit p (.returned (.error e))
  | .check t, none =>
    match s.dir.readPrivate t.name 256 with
    | .ok raw =>
      if (parseToken raw).isSome then s.setInit p t.next else s.setInit p
        (.returned (.error .other))
    | .error .notFound =>
      { s.spawn (.init p) t.name (tokenText (randomToken L s.drawn)) with
        drawn := s.drawn + 1 }.setInit
        p (.writing t s.started)
    | .error e => s.setInit p (.returned (.error e))
  | .recheck t, none =>
    match s.dir.readPrivate t.name 256 with
    | .ok raw =>
      if (parseToken raw).isSome then s.setInit p t.next else s.setInit p
        (.returned (.error .other))
    | .error e => s.setInit p (.returned (.error e))
  | .loadSetup, none =>
    -- only two tokens that parse and differ end the call well
    match (s.dir.readPrivate .setup 256).toOption.bind parseToken with
    | some setup => s.setInit p (.loadConnector setup)
    | none => s.setInit p (.returned (.error .invalidData))
  | .loadConnector setup, none =>
    match (s.dir.readPrivate .connector 256).toOption.bind parseToken with
    | some connector =>
      if setup = connector then s.setInit p (.returned (.error .other))
      else s.setInit p (.returned (.ok ()))
    | none => s.setInit p (.returned (.error .invalidData))

/-- The next operation of a gateway that starts. -/
def stepGateway (s : State) (g : ℕ) (fault : Option IoKind) (now : ℕ) : State :=
  let gateway := s.gateways g
  let goOn := fun next => s.setGateway g { gateway with serving := next }
  match gateway.serving, fault with
  | .idle, _ | .serving, _ | .regular _, _ | .refused, _ => s
  | _, some _ => goOn .refused
  | .loadConnector, none =>
    match (s.dir.readPrivate .connector 256).toOption.bind parseToken with
    | some connector => goOn (.exists connector)
    | none => goOn .refused
  | .exists connector, none =>
    if (s.dir.names .credentials).isSome then goOn (.regular (s.dir.readPrivate .credentials 4096))
    else goOn (.readCredentials connector)
  | .readCredentials connector, none =>
    match s.dir.readPrivate .credentials 8192 with
    | .error .notFound => goOn (.loadSetup connector)
    | _ => goOn .refused
  | .loadSetup connector, none =>
    match (s.dir.readPrivate .setup 256).toOption.bind parseToken with
    | some setup =>
      if setup = connector then goOn .refused
      else
        s.setGateway g
          { gateway with serving := .serving, setupToken := setup, attempts := ⟨now, 0⟩ }
    | none => goOn .refused

end

end State

/-! ### Requests

A handler is between two operations when another one runs.  The lock is taken before the slow hash
and given back when the request is over, whatever its end. -/

/-- `PENDING_LIFETIME`. -/
def pendingLifetime : ℕ := 300 * 1000000000

/-- `LIMIT_WINDOW`. -/
def limitWindow : ℕ := 60 * 1000000000

/-- `MAX_ATTEMPTS`. -/
def maxAttempts : ℕ := 10

/-- `Attempts::check`. -/
def Attempts.check (a : Attempts) (now : ℕ) : Bool × Attempts :=
  let a := if limitWindow ≤ now - a.started then ⟨now, 0⟩ else a
  if maxAttempts ≤ a.count then (false, a) else (true, { a with count := a.count + 1 })

/-- The checks of `begin` on its body. -/
def BeginBody.valid (b : BeginBody) : Bool :=
  b.username != "" && decide ((bytes b.username).length ≤ 80) &&
    Usage.trimmed b.username == b.username &&
    decide (8 ≤ (bytes b.password).length) && decide ((bytes b.password).length ≤ 128) &&
    b.password == b.passwordConfirm

/-- What a step of a handler is given: an error of its operation, the clocks, and the random bytes
    of an enrollment. -/
structure Env where
  fault : Option IoKind
  now : ℕ
  unixSeconds : Int64
  salt : Vector UInt8 32
  secret : Vector UInt8 20

namespace State

section

variable (L : Library)

/-- The credentials of an enrollment. -/
def enrolled (body : BeginBody) (salt secret : List UInt8) : Credentials :=
  { username := body.username
    hash := derivePassword L.toCrypto body.password salt
    salt
    totpSecret := L.encode32 secret
    lastStep := 0
    totpDisabled := !body.totpEnabled }

/-- `begin`, up to the hash of the password. -/
def begin (s : State) (g h : ℕ) (body : BeginBody) (env : Env) : State :=
  let gateway := s.gateways g
  let (admitted, attempts) := gateway.attempts.check env.now
  let counted := { gateway with attempts }
  if !admitted || body.token != gateway.setupToken || !body.valid then
    s.setHandler g h counted .idle
  else
    s.setHandler g h { counted with pending := none, locked := true }
      (.hashing body env.salt.toList env.secret.toList)

/-- `complete`, up to the check for credentials. -/
def complete (s : State) (g h : ℕ) (body : CompleteBody) (env : Env) : State :=
  let gateway := s.gateways g
  let (admitted, attempts) := gateway.attempts.check env.now
  let counted := { gateway with attempts }
  if !admitted || body.token != gateway.setupToken then s.setHandler g h counted .idle
  else
    match gateway.pending with
    | none => s.setHandler g h counted .idle
    | some pending =>
      if pending.expires ≤ env.now then s.setHandler g h { counted with pending := none } .idle
      else if body.enrollmentId != pending.id then s.setHandler g h counted .idle
      else
        match matchesUnusedCode L pending.credentials body.code env.unixSeconds.toInt with
        | none => s.setHandler g h counted .idle
        | some step =>
          let credentials := { pending.credentials with lastStep := step }
          let entry := Entry.confirmed g body.token body.enrollmentId body.code env.now
            env.unixSeconds step credentials
          { s with log := s.log ++ [entry] }.setHandler g h
            { counted with pending := some { pending with credentials }, locked := true }
            (.confirming credentials)

/-- The credentials do not exist, as `credentials_exist` sees it. -/
def missing (s : State) (env : Env) : Bool :=
  env.fault.isNone && decide (s.dir.readPrivate .credentials 8192 = .error .notFound)

/-- A handler goes on. -/
def stepHandler (s : State) (g h : ℕ) (env : Env) : State :=
  let gateway := s.gateways g
  let unlocked := { gateway with locked := false }
  match gateway.handlers h with
  | .idle => s
  | .arrived r =>
    if s.missing env then s.setHandler g h gateway (.admitted r) else s.setHandler g h gateway .idle
  | .admitted r =>
    if gateway.locked then s.setHandler g h gateway .idle
    else
      match r with
      | .begin body => s.begin g h body env
      | .complete body => s.complete L g h body env
  | .hashing body salt secret =>
    let credentials := enrolled L body salt secret
    if !s.missing env then s.setHandler g h unlocked .idle
    else if body.totpEnabled then
      let id := randomToken L s.drawn
      let expires := env.now + pendingLifetime
      let entry := Entry.begun g body.token credentials (some id) expires
      { s with drawn := s.drawn + 1, log := s.log ++ [entry] }.setHandler g h
        { unlocked with pending := some ⟨credentials, id, expires⟩ } .idle
    else
      let entry := Entry.begun g body.token credentials none 0
      ({ s with log := s.log ++ [entry] }.spawn (.gateway g) .credentials
        (bytes (goJson credentials))).setHandler g h gateway (.persisting s.started false)
  | .confirming credentials =>
    if !s.missing env then s.setHandler g h unlocked .idle
    else
      (s.spawn (.gateway g) .credentials (bytes (goJson credentials))).setHandler g h gateway
        (.persisting s.started true)
  | .persisting k confirmed =>
    match (s.writers k).phase with
    | .done (.ok ()) =>
      s.setHandler g h { unlocked with pending := if confirmed then none
        else gateway.pending } .idle
    | .done (.error _) => s.setHandler g h unlocked .idle
    | _ => s

/-- The connection of a request is dropped, and with it the lock; its writer goes on. -/
def dropHandler (s : State) (g h : ℕ) : State :=
  let gateway := s.gateways g
  match gateway.handlers h with
  | .hashing _ _ _ | .confirming _ | .persisting _ _ =>
    s.setHandler g h { gateway with locked := false } .idle
  | _ => s.setHandler g h gateway .idle

end

end State

/-! ### Runs

Everything that can happen is an event, and a run is a list of them. -/

/-- What may happen next in an enrollment. -/
inductive Event
  | startInit (p : ℕ)
  | stepInit (p : ℕ) (fault : Option IoKind)
  | crashInit (p : ℕ)
  | startGateway (g : ℕ)
  | stepGateway (g : ℕ) (fault : Option IoKind) (now : ℕ)
  | crashGateway (g : ℕ)
  | request (g h : ℕ) (r : Request)
  | stepHandler (g h : ℕ) (env : Env)
  | dropHandler (g h : ℕ)
  | stepWriter (k : ℕ) (fault : Option IoKind)

namespace State

variable (L : Library)

/-- One step. -/
def step (s : State) : Event → State
  | .startInit p =>
    match s.inits p with
    | .idle => s.setInit p .readCredentials
    | _ => s
  | .stepInit p fault => s.stepInit L p fault
  | .crashInit p => (s.killWriters (.init p)).setInit p .idle
  | .startGateway g =>
    match (s.gateways g).serving with
    | .idle => s.setGateway g { Gateway.down with serving := .loadConnector }
    | _ => s
  | .stepGateway g fault now => s.stepGateway g fault now
  | .crashGateway g => (s.killWriters (.gateway g)).setGateway g .down
  | .request g h r =>
    match (s.gateways g).serving, (s.gateways g).handlers h with
    | .serving, .idle => s.setHandler g h (s.gateways g) (.arrived r)
    | _, _ => s
  | .stepHandler g h env => s.stepHandler L g h env
  | .dropHandler g h => s.dropHandler g h
  | .stepWriter k fault => s.stepWriter k fault

/-- A run from a state. -/
def run (s : State) (events : List Event) : State := events.foldl (step L) s

end State

end Hmux.Bootstrap
