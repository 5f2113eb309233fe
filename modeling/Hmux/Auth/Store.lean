import Hmux.Auth.SessionFile

namespace Hmux.Auth

open Lib

/-!
# The store of accounts and logins

`auth_store.rs`: the transactions of the gateway on its accounts and logins.  Each runs under one
lock, works on the state in memory and replaces the session file, a credential file or both.  A
login and a change of the second factor are two transactions with the slow hash of the password
between them; what the first hands to the second is a `PendingLogin` or a `PendingChange`.

A write may fail before or after the file is replaced (`Write`).  After a failure the store is
closed for good: every session is cancelled and only a new start reads the files again.

Where the order of a hash map decides, among the sessions of an account that were seen last at the
same time, the choice is an input.  Random bytes are inputs too, and a list of them that ends is a
generator that fails.
-/

/-! ### State

The state behind the lock, the files, and what a call is asked and answers. -/

/-- `Account`; the path is that of the configured file or one of the `.users` directory. -/
structure Account where
  credentials : Credentials
  path : Option String
  profile : String

/-- `Session`; `cancel` is the number of its `SessionCancel`. -/
structure Session where
  id : String
  username : String
  profile : String
  fingerprint : String
  browser : String
  ip : String
  created : ℤ
  seen : ℤ
  persistedSeen : ℤ
  expires : ℤ
  cancel : ℕ

/-- `State`, with the cancellations that were signalled and the number of `SessionCancel`s. -/
structure State where
  accounts : Table String Account
  sessions : Table String Session
  attempts : Table String (List ℤ)
  securityAttempts : Table String (List ℤ)
  storageFailed : Bool
  cancelled : List ℕ
  handles : ℕ

/-- The files: the credentials of every account and the text of the session file. -/
structure Disk where
  primary : Credentials
  users : Table String Credentials
  sessions : Option (List UInt8)

/-- What becomes of an atomic write. -/
inductive Write
  | done
  /-- It fails and the file is as it was. -/
  | before
  /-- It fails and the file is replaced. -/
  | after
  deriving DecidableEq

/-- What a transaction works on. -/
structure Tx where
  state : State
  disk : Disk

/-- `LoginStatus`. -/
inductive LoginStatus
  | invalid | succeeded | totpRequired | rateLimited | storageUnavailable
  deriving DecidableEq

/-- `LoginResult`. -/
structure LoginResult where
  status : LoginStatus
  token : Option String

/-- `SecurityStatus`. -/
inductive SecurityStatus
  | ok | forbidden | rateLimited | storageUnavailable | staleSession
  deriving DecidableEq

/-- `StoreError`. -/
inductive StoreError
  | busy | storageUnavailable | sessionNotFound
  deriving DecidableEq

/-- `LoginRequest`. -/
structure LoginRequest where
  username : String
  password : String
  code : String
  source : String
  ip : String
  browser : String
  now : ℤ
  deriving DecidableEq

/-- `SecurityRequest`. -/
structure SecurityRequest where
  token : String
  password : String
  code : String
  enabled : Bool
  now : ℤ
  deriving DecidableEq

/-- `SessionAccess`; `cancelled` is the number of the `SessionCancel` it listens to. -/
structure SessionAccess where
  id : String
  expiresAt : ℤ
  csrf : String
  username : String
  profile : String
  cancelled : ℕ

/-- `SessionInfo`. -/
structure SessionInfo where
  location : String
  id : String
  browser : String
  ip : String
  createdAt : ℤ
  lastSeenAt : ℤ
  expiresAt : ℤ
  current : Bool

/-! ### Files

The session file is written as a whole, in the order of the ids; a credential file is compared with
what was read before it is replaced. -/

/-- `go_time`. -/
def goTime (t : ℤ) : String := Civil.rfc3339 9 t

/-- `Session::persisted`. -/
def Session.persisted (s : Session) (hash : String) : PersistedSession :=
  { tokenHash := hash, id := s.id, username := s.username, profile := s.profile,
    credentialFingerprint := s.fingerprint, browser := s.browser, ip := s.ip,
    createdAt := goTime s.created, lastSeenAt := goTime s.seen, expiresAt := goTime s.expires }

/-- The rows of the session file, in the order of their ids. -/
def sessionRows (sessions : Table String Session) : List PersistedSession :=
  (sessions.entries.map fun e => e.2.persisted e.1).mergeSort fun a b => a.id ≤ b.id

/-- The text of the session file. -/
def sessionText (sessions : Table String Session) : List UInt8 :=
  bytes (PersistedSessionFile.goJson ⟨sessionFileVersion, some (sessionRows sessions)⟩)

namespace Disk

/-- `write_sessions`. -/
def writeSessions (d : Disk) (sessions : Table String Session) (w : Write) : Bool × Disk :=
  if sessionFileLimit < (sessionText sessions).length then (false, d)
  else
    match w with
    | .done => (true, { d with sessions := some (sessionText sessions) })
    | .before => (false, d)
    | .after => (false, { d with sessions := some (sessionText sessions) })

/-- `read_credential`. -/
def credentials (d : Disk) : Option String → Option Credentials
  | none => some d.primary
  | some name => d.users.get? name

/-- A credential file is replaced. -/
def setCredentials (d : Disk) (path : Option String) (c : Credentials) : Disk :=
  match path with
  | none => { d with primary := c }
  | some name => { d with users := d.users.modify name fun _ => c }

/-- The file still holds these credentials, as far as the gateway looks. -/
def unchanged (C : Crypto) (d : Disk) (path : Option String) (expected : Credentials) : Bool :=
  (d.credentials path).any fun current =>
    current.fingerprint C == expected.fingerprint C && current.lastStep == expected.lastStep

/-- `write_credential`. -/
def writeCredential (C : Crypto) (d : Disk) (path : Option String)
    (expected credential : Credentials) (w : Write) : Bool × Disk :=
  if !d.unchanged C path expected then (false, d)
  else
    match w with
    | .done => (true, d.setCredentials path credential)
    | .before => (false, d)
    | .after => (false, d.setCredentials path credential)

end Disk

/-! ### Parts of the transactions

What several transactions do: cancel sessions, count an attempt, save, and remove what has expired.
-/

namespace State

/-- `SessionCancel::cancel` of some sessions. -/
def cancel (s : State) (handles : List ℕ) : State := { s with cancelled := handles ++ s.cancelled }

/-- `fail_storage`. -/
def failStorage (s : State) : State :=
  { s.cancel (s.sessions.values.map Session.cancel) with storageFailed := true }

/-- The sessions that are not in `next` are cancelled, and `next` takes their place. -/
def swap (s : State) (next : Table String Session) : State :=
  { s.cancel ((s.sessions.entries.filter fun e => !next.contains e.1).map fun e => e.2.cancel) with
    sessions := next }

end State

/-- `allow_attempt`. -/
def allowAttempt (map : Table String (List ℤ)) (key : String) (now : ℤ) (cap : ℕ) :
    Bool × Table String (List ℤ) :=
  let minute : ℤ := 60 * 1000000000
  let map := map.retain fun _ values => values.getLast?.any fun last => now - last < minute
  match map.get? key with
  | some values =>
    let values := values.filter fun attempt => now - attempt < minute
    if 5 ≤ values.length then (false, map.modify key fun _ => values)
    else (true, map.modify key fun _ => values ++ [now])
  | none => if cap ≤ map.entries.length then (false, map) else (true, map.insert key [now])

namespace Tx

/-- `fail_storage`. -/
def failStorage (t : Tx) : Tx := { t with state := t.state.failStorage }

/-- `save_sessions`. -/
def saveSessions (t : Tx) (next : Table String Session) (w : Write) : Bool × Tx :=
  match t.disk.writeSessions next w with
  | (true, disk) => (true, { t with disk })
  | (false, disk) => (false, ⟨t.state.failStorage, disk⟩)

/-- `prune`; its error is always that the storage is unavailable. -/
def prune (t : Tx) (now : ℤ) (w : Write) : Bool × Tx :=
  if t.state.storageFailed then (false, t)
  else if !t.state.sessions.values.any fun s => s.expires ≤ now then (true, t)
  else
    let next := t.state.sessions.retain fun _ s => now < s.expires
    match t.saveSessions next w with
    | (true, t) => (true, { t with state := t.state.swap next })
    | (false, t) => (false, t)

end Tx

/-! ### Login

The password is checked between the two transactions, outside of the lock; so the second
transaction checks the account again, and only then writes a step and a session. -/

/-- What the first transaction of a login hands to the second. -/
structure PendingLogin where
  request : LoginRequest
  credentials : Credentials
  profile : String
  fingerprint : String
  deriving DecidableEq

namespace PendingLogin

/-- The address that is stored. -/
def ip (p : PendingLogin) : String :=
  if p.request.ip == "unknown" || IpAddr.valid p.request.ip then p.request.ip else "unknown"

/-- The browser that is stored. -/
def browser (p : PendingLogin) : String :=
  if validText p.request.browser 80 then p.request.browser else "Unknown browser"

/-- The password and the username are those of the account. -/
def passed (C : Crypto) (p : PendingLogin) : Bool :=
  derivePassword C p.request.password p.credentials.salt == p.credentials.hash &&
    p.request.username == p.credentials.username

/-- The step of the code. -/
def step (C : Crypto) (p : PendingLogin) : ℤ :=
  if !p.credentials.totpDisabled && !(p.request.code == "") then
    (p.credentials.matchCode C p.request.code (p.request.now / 1000000000)).getD (-1)
  else -1

end PendingLogin

/-- What the second transaction of a login finds outside: its writes, the order of the map and the
    random bytes. -/
structure LoginEnv where
  credential : Write
  prune : Write
  sessions : Write
  pick : ℕ
  tokens : List (Vector UInt8 32)
  ids : List (Vector UInt8 32)

/-- `random_token`, again as long as it is taken. -/
def drawToken (taken : String → Bool) : List (Vector UInt8 32) → Option String
  | [] => none
  | drawn :: rest =>
    let token := Base64.urlSafeNoPad drawn.toList
    if taken token then drawToken taken rest else some token

/-- The session of the account that was seen first; `pick` chooses among several. -/
def oldest (sessions : Table String Session) (username : String) (pick : ℕ) : Option String :=
  let own := sessions.entries.filter fun e => e.2.username == username
  let first := own.filter fun e => own.all fun other => e.2.seen ≤ other.2.seen
  (first.map Prod.fst)[pick % first.length]?

/-- The sessions with room for one more of this account. -/
def makeRoom (sessions : Table String Session) (username : String) (pick : ℕ) :
    Table String Session :=
  if maxSessionsPerAccount ≤ sessions.entries.countP fun e => e.2.username == username then
    match oldest sessions username pick with
    | some key => sessions.erase key
    | none => sessions
  else sessions

section

variable (C : Crypto)

/-- The first transaction of `login`; without a primary account it panics. -/
def startLogin (t : Tx) (request : LoginRequest) : Option (Except LoginStatus PendingLogin) × Tx :=
  if t.state.storageFailed then (some (.error .storageUnavailable), t)
  else
    let origin := if 80 < (bytes request.source).length then "unknown" else request.source
    match allowAttempt t.state.attempts origin request.now 1024 with
    | (false, attempts) =>
      (some (.error .rateLimited), { t with state := { t.state with attempts } })
    | (true, attempts) =>
      let t := { t with state := { t.state with attempts } }
      match (t.state.accounts.get? request.username).or
          (t.state.accounts.values.find? fun a => a.profile == "") with
      | none => (none, t)
      | some account =>
        (some (.ok ⟨request, account.credentials, account.profile,
          account.credentials.fingerprint C⟩), t)

/-- The step is written to the credential file when the second factor is on. -/
def spendStep (t : Tx) (username : String) (account : Account) (step : ℤ) (w : Write) : Bool × Tx :=
  if account.credentials.totpDisabled then (true, t)
  else
    let next := { account.credentials with lastStep := step }
    match t.disk.writeCredential C account.path account.credentials next w with
    | (false, disk) => (false, ⟨t.state.failStorage, disk⟩)
    | (true, disk) =>
      (true, ⟨{ t.state with
        accounts := t.state.accounts.modify username fun a =>
          { a with credentials := next } }, disk⟩)

/-- The end of `login`: a session with a new token and a new id.  An expiry past the last instant
    panics. -/
def insertSession (t : Tx) (p : PendingLogin) (env : LoginEnv) : Option LoginResult × Tx :=
  let username := p.request.username
  let next := makeRoom t.state.sessions username env.pick
  match drawToken (fun token => next.contains (tokenHash C token)) env.tokens with
  | none => (some ⟨.storageUnavailable, none⟩, t.failStorage)
  | some token =>
    match drawToken (fun id => next.values.any fun s => s.id == id) env.ids with
    | none => (some ⟨.storageUnavailable, none⟩, t.failStorage)
    | some id =>
      if maxUtc < p.request.now + loginLifetime then (none, t)
      else
        let session : Session :=
          { id, username, profile := p.profile,
            fingerprint := ((t.state.accounts.get? username).map fun a =>
              a.credentials.fingerprint C).getD "",
            browser := p.browser, ip := p.ip, created := p.request.now, seen := p.request.now,
            persistedSeen := p.request.now, expires := p.request.now + loginLifetime,
            cancel := t.state.handles }
        let next := next.insert (tokenHash C token) session
        let t := { t with state := { t.state with handles := t.state.handles + 1 } }
        match t.saveSessions next env.sessions with
        | (false, t) => (some ⟨.storageUnavailable, none⟩, t)
        | (true, t) => (some ⟨.succeeded, some token⟩, { t with state := t.state.swap next })

/-- `login` once its step is spent. -/
def mintSession (t : Tx) (p : PendingLogin) (env : LoginEnv) : Option LoginResult × Tx :=
  match t.prune p.request.now env.prune with
  | (false, t) => (some ⟨.storageUnavailable, none⟩, t)
  | (true, t) => insertSession C t p env

/-- The second transaction of `login`. -/
def commitLogin (t : Tx) (p : PendingLogin) (env : LoginEnv) : Option LoginResult × Tx :=
  if t.state.storageFailed then (some ⟨.storageUnavailable, none⟩, t)
  else
    match t.state.accounts.get? p.request.username with
    | none => (some ⟨.invalid, none⟩, t)
    | some account =>
      if account.profile ≠ p.profile || account.credentials.fingerprint C ≠ p.fingerprint then
        (some ⟨.invalid, none⟩, t)
      else if !account.credentials.totpDisabled && p.request.code == "" then
        (some ⟨.totpRequired, none⟩, t)
      else if !account.credentials.totpDisabled &&
          (p.step C < 0 || p.step C ≤ account.credentials.lastStep) then
        (some ⟨.invalid, none⟩, t)
      else
        match spendStep C t p.request.username account (p.step C) env.credential with
        | (false, t) => (some ⟨.storageUnavailable, none⟩, t)
        | (true, t) => mintSession C t p env

/-! ### Lookups

A lookup removes what has expired and may touch the session it finds; it writes when the last write
of that time is long enough ago. -/

/-- The access to a session. -/
def Session.access (s : Session) (csrf : String) : SessionAccess :=
  { id := s.id, expiresAt := s.expires, csrf, username := s.username, profile := s.profile,
    cancelled := s.cancel }

/-- `SEEN_PERSIST_INTERVAL`, in seconds. -/
def seenPersistInterval : ℤ := 5 * 60

/-- `access`. -/
def access (t : Tx) (token : String) (touch : Bool) (now : ℤ) (prune save : Write) :
    Except StoreError (Option SessionAccess) × Tx :=
  match t.prune now prune with
  | (false, t) => (.error .storageUnavailable, t)
  | (true, t) =>
    let key := tokenHash C token
    match t.state.sessions.get? key with
    | none => (.ok none, t)
    | some session =>
      let reply := .ok (some (session.access (csrfToken C token)))
      if touch && seenPersistInterval ≤ (now - session.persistedSeen).tdiv 1000000000 then
        let next := t.state.sessions.modify key fun s =>
          { s with seen := now, persistedSeen := now }
        match t.saveSessions next save with
        | (false, t) => (.error .storageUnavailable, t)
        | (true, t) => (reply, { t with state := { t.state with sessions := next } })
      else if touch then
        (reply, { t with state := { t.state with
          sessions := t.state.sessions.modify key fun s => { s with seen := now } } })
      else (reply, t)

/-- `identity_checked`. -/
def identity (t : Tx) (token : String) (now : ℤ) (prune : Write) :
    Except StoreError (Option (String × String)) × Tx :=
  match t.prune now prune with
  | (false, t) => (.error .storageUnavailable, t)
  | (true, t) =>
    (.ok ((t.state.sessions.get? (tokenHash C token)).map fun s => (s.username, s.profile)), t)

/-- The order of a list of sessions: the current one, then those seen last, then by id. -/
def SessionInfo.le (a b : SessionInfo) : Bool :=
  if a.current ≠ b.current then a.current
  else if a.lastSeenAt ≠ b.lastSeenAt then b.lastSeenAt ≤ a.lastSeenAt
  else a.id ≤ b.id

/-- `list_sessions_checked`. -/
def listSessions (t : Tx) (token : String) (now : ℤ) (prune : Write) :
    Except StoreError (Option (List SessionInfo)) × Tx :=
  match t.prune now prune with
  | (false, t) => (.error .storageUnavailable, t)
  | (true, t) =>
    let key := tokenHash C token
    let infos := (t.state.sessions.get? key).map fun current =>
      ((t.state.sessions.entries.filter fun e =>
        e.2.username == current.username && e.2.profile == current.profile).map fun e =>
        { location := "", id := e.2.id, browser := e.2.browser, ip := e.2.ip,
          createdAt := e.2.created, lastSeenAt := e.2.seen, expiresAt := e.2.expires,
          current := e.1 == key : SessionInfo }).mergeSort SessionInfo.le
    (.ok infos, t)

/-- `totp_enabled_checked`. -/
def totpEnabled (t : Tx) (token : String) (now : ℤ) (prune : Write) :
    Except StoreError (Option Bool) × Tx :=
  match t.prune now prune with
  | (false, t) => (.error .storageUnavailable, t)
  | (true, t) =>
    let enabled := (t.state.sessions.get? (tokenHash C token)).bind fun session =>
      (t.state.accounts.get? session.username).bind fun account =>
        if session.profile == account.profile &&
            session.fingerprint == account.credentials.fingerprint C then
          some !account.credentials.totpDisabled
        else none
    (.ok enabled, t)

/-- `push_login_by_id` once it has the lock. -/
def pushLoginById (s : State) (id : String) (now : ℤ) :
    Except StoreError (Option SessionAccess) :=
  if s.storageFailed then .error .storageUnavailable
  else
    match s.sessions.values.find? fun session => session.id == id with
    | none => .ok none
    | some session =>
      match s.accounts.get? session.username with
      | none => .ok none
      | some account =>
        if session.expires ≤ now || session.profile ≠ account.profile ||
            session.fingerprint ≠ account.credentials.fingerprint C ||
            s.cancelled.contains session.cancel then .ok none
        else .ok (some (session.access ""))

/-! ### Removal

A session is removed from memory only when the file without it could be written. -/

/-- One session is removed, and it alone is cancelled. -/
def removeSession (t : Tx) (key : String) (w : Write) : Bool × Tx :=
  let next := t.state.sessions.erase key
  match t.saveSessions next w with
  | (false, t) => (false, t)
  | (true, t) =>
    let cancelled := ((t.state.sessions.get? key).map Session.cancel).toList
    (true, { t with state := { t.state.cancel cancelled with sessions := next } })

/-- `revoke`. -/
def revoke (t : Tx) (token id : String) (now : ℤ) (prune save : Write) :
    Except StoreError Bool × Tx :=
  match t.prune now prune with
  | (false, t) => (.error .storageUnavailable, t)
  | (true, t) =>
    let key := tokenHash C token
    if !validToken id then (.error .sessionNotFound, t)
    else
      match t.state.sessions.get? key with
      | none => (.error .sessionNotFound, t)
      | some current =>
        match t.state.sessions.entries.find? fun e => e.2.id == id &&
            e.2.username == current.username && e.2.profile == current.profile with
        | none => (.error .sessionNotFound, t)
        | some (target, _) =>
          match removeSession t target save with
          | (false, t) => (.error .storageUnavailable, t)
          | (true, t) => (.ok (target == key), t)

/-- `logout`. -/
def logout (t : Tx) (token : String) (save : Write) : Except StoreError Unit × Tx :=
  if t.state.storageFailed then (.error .storageUnavailable, t)
  else
    let key := tokenHash C token
    if !t.state.sessions.contains key then (.ok (), t)
    else
      match removeSession t key save with
      | (false, t) => (.error .storageUnavailable, t)
      | (true, t) => (.ok (), t)

/-! ### The second factor

A change is checked like a login and keeps the session that asked for it. -/

/-- What the first transaction of a change hands to the second. -/
structure PendingChange where
  request : SecurityRequest
  username : String
  profile : String
  credentials : Credentials
  fingerprint : String
  deriving DecidableEq

/-- The step of the code. -/
def PendingChange.step (p : PendingChange) : ℤ :=
  (p.credentials.matchCode C p.request.code (p.request.now / 1000000000)).getD (-1)

/-- The password is that of the account and the code is one of its codes. -/
def PendingChange.passed (p : PendingChange) : Bool :=
  derivePassword C p.request.password p.credentials.salt == p.credentials.hash &&
    0 ≤ p.step C

/-- What the second transaction of a change finds outside: the clock, whether the old credentials
    can be backed up, and its writes. -/
structure ChangeEnv where
  clock : ℤ
  backup : Bool
  prune : Write
  credential : Write
  sessions : Write

/-- The first transaction of `set_totp_enabled`. -/
def startChange (t : Tx) (request : SecurityRequest) (prune : Write) :
    Except SecurityStatus PendingChange × Tx :=
  match t.prune request.now prune with
  | (false, t) => (.error .storageUnavailable, t)
  | (true, t) =>
    match t.state.sessions.get? (tokenHash C request.token) with
    | none => (.error .staleSession, t)
    | some session =>
      match t.state.accounts.get? session.username with
      | none => (.error .staleSession, t)
      | some account =>
        let fingerprint := account.credentials.fingerprint C
        if session.profile ≠ account.profile || session.fingerprint ≠ fingerprint then
          (.error .staleSession, t)
        else
          let key := session.username ++ "\x00" ++ account.profile
          match allowAttempt t.state.securityAttempts key request.now 32 with
          | (false, securityAttempts) =>
            (.error .rateLimited, { t with state := { t.state with securityAttempts } })
          | (true, securityAttempts) =>
            (.ok ⟨request, session.username, account.profile, account.credentials, fingerprint⟩,
              { t with state := { t.state with securityAttempts } })

/-- The switch is turned: first the credential file, then the sessions. -/
def applyChange (t : Tx) (p : PendingChange) (account : Account) (env : ChangeEnv) :
    SecurityStatus × Tx :=
  let key := tokenHash C p.request.token
  let current := account.credentials
  if !(t.disk.unchanged C account.path current && env.backup) then
    (.storageUnavailable, t.failStorage)
  else
    let changed := { current with totpDisabled := !p.request.enabled, lastStep := p.step C }
    match t.disk.writeCredential C account.path current changed env.credential with
    | (false, disk) => (.storageUnavailable, ⟨t.state.failStorage, disk⟩)
    | (true, disk) =>
      let t : Tx := ⟨{ t.state with
        accounts := t.state.accounts.modify p.username fun a => { a with credentials := changed } },
        disk⟩
      let next := (t.state.sessions.retain fun candidate s =>
        candidate == key || s.username ≠ p.username || s.profile ≠ p.profile).modify key
        fun s => { s with fingerprint := changed.fingerprint C }
      match t.saveSessions next env.sessions with
      | (false, t) => (.storageUnavailable, t)
      | (true, t) => (.ok, { t with state := t.state.swap next })

/-- The second transaction of `set_totp_enabled`. -/
def commitChange (t : Tx) (p : PendingChange) (env : ChangeEnv) : SecurityStatus × Tx :=
  match t.prune (max p.request.now env.clock) env.prune with
  | (false, t) => (.storageUnavailable, t)
  | (true, t) =>
    match t.state.sessions.get? (tokenHash C p.request.token) with
    | none => (.staleSession, t)
    | some session =>
      if session.username ≠ p.username || session.profile ≠ p.profile ||
          session.fingerprint ≠ p.fingerprint then (.staleSession, t)
      else
        match t.state.accounts.get? p.username with
        | none => (.staleSession, t)
        | some account =>
          if account.profile ≠ p.profile || account.credentials.fingerprint C ≠ p.fingerprint then
            (.staleSession, t)
          else if p.step C ≤ account.credentials.lastStep then (.forbidden, t)
          -- the switch is already there
          else if p.request.enabled ≠ account.credentials.totpDisabled then (.ok, t)
          else applyChange C t p account env

end

end Hmux.Auth
