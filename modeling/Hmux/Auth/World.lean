import Hmux.Auth.Store

namespace Hmux.Auth

open Lib

/-!
# The running gateway and its files

`auth_store.rs`: the start of the store from the files, the calls of a running store and what
becomes of them when a worker is not free, a transaction panics, the connections are closed or the
gateway is started again.  A start may come at any moment; a gateway that is ended in the middle of
a transaction leaves the files as a failed write does.
-/

/-! ### Start

The credential files are read first, and of the session file only the rows of those accounts are
kept. -/

/-- `MAX_ACCOUNTS`. -/
def maxAccounts : ℕ := 9

/-- `Session::from_row`. -/
def Session.fromRow (parseTime : String → Option ℤ) (row : PersistedSession) (cancel : ℕ) :
    Option Session :=
  (row.times parseTime).map fun times =>
    { id := row.id, username := row.username, profile := row.profile,
      fingerprint := row.credentialFingerprint, browser := row.browser, ip := row.ip,
      created := times.created, seen := times.seen, persistedSeen := times.seen,
      expires := times.expires, cancel }

section

variable (C : Crypto) (S : Serde) (parseTime : String → Option ℤ)

/-- The accounts of the files. -/
def loadAccounts (d : Disk) : Except String (Table String Account) :=
  if !d.primary.valid C then .error "invalid credentials file"
  else if maxAccounts - 1 < d.users.entries.length then .error "too many configured accounts"
  else
    d.users.entries.foldlM
      (fun accounts (name, c) =>
        if !c.valid C then .error "invalid credentials file"
        else if accounts.contains c.username then .error "duplicate account"
        else .ok (accounts.insert c.username ⟨c, some name, accountProfile C c.username⟩))
      (Table.empty.insert d.primary.username ⟨d.primary, none, ""⟩)

/-- The profile and the credentials of every account. -/
def owners (accounts : Table String Account) : Owners where
  entries := accounts.entries.map fun e => (e.1, (e.2.profile, e.2.credentials))
  nodup := by
    rw [List.map_map]
    exact accounts.nodup

/-- The sessions of the rows, each with a `SessionCancel` of its own. -/
def loadSessions : List PersistedSession → ℕ → Option (List (String × Session))
  | [], _ => some []
  | row :: rows, n =>
    match Session.fromRow parseTime row n, loadSessions rows (n + 1) with
    | some s, some sessions => some ((row.tokenHash, s) :: sessions)
    | _, _ => none

/-- A state with these accounts and sessions. -/
def State.start (accounts : Table String Account) (sessions : List (String × Session)) : State :=
  { accounts, sessions := Table.ofList sessions, attempts := .empty, securityAttempts := .empty,
    storageFailed := false, cancelled := [], handles := sessions.length }

/-- `load_state`. -/
def loadState (d : Disk) (now : ℤ) (w : Write) : Except String State × Disk :=
  match loadAccounts C d with
  | .error message => (.error message, d)
  | .ok accounts =>
    match d.sessions with
    | none => (.ok (State.start accounts []), d)
    | some raw =>
      match parseSessionFile S raw with
      | .error message => (.error message, d)
      | .ok file =>
        match validateSessionFile C parseTime now (owners accounts) file with
        | .error message => (.error message, d)
        | .ok validated =>
          match loadSessions parseTime validated.retained 0 with
          | none => (.error "invalid session time", d)
          | some sessions =>
            let state := State.start accounts sessions
            if validated.dirty then
              match d.writeSessions state.sessions w with
              | (true, d) => (.ok state, d)
              | (false, d) => (.error "session file is not written", d)
            else (.ok state, d)

end

/-! ### The store

A store is a state with the calls that wait between their transactions; `step` is one call, and
`World.step` adds the start. -/

/-- `AuthStore` with its `ConnectionRegistry`, and the logins and changes between their two
    transactions. -/
structure Store where
  state : State
  registryClosed : Bool
  registry : List ℕ
  closed : Bool
  logins : List PendingLogin
  changes : List PendingChange

namespace Store

/-- `ConnectionRegistry::sync`. -/
def sync (s : Store) : Store :=
  let handles := s.state.sessions.values.map Session.cancel
  { s with
    registry := handles
    state := if s.registryClosed then s.state.cancel handles else s.state }

/-- `ConnectionRegistry::cancel_all`. -/
def cancelAll (s : Store) : Store :=
  { s with registryClosed := true, state := s.state.cancel s.registry }

/-- `transact`: work that panics closes the store. -/
def transact {α : Type} (s : Store) (disk : Disk) (admitted : Bool) (work : Tx → Option α × Tx) :
    Except StoreError α × Store × Disk :=
  if s.closed then (.error .storageUnavailable, s, disk)
  else if !admitted then (.error .busy, s, disk)
  else
    match work ⟨s.state, disk⟩ with
    | (some value, t) => (.ok value, sync { s with state := t.state }, t.disk)
    | (none, t) =>
      (.error .storageUnavailable, cancelAll { s with state := t.state.failStorage }, t.disk)

/-- `open` after the files are read. -/
def ofState (state : State) : Store :=
  sync { state, registryClosed := false, registry := [], closed := false, logins := [],
         changes := [] }

end Store

/-- What becomes of the slow hash: there is no free worker, the worker fails, or it is done. -/
inductive Kdf
  | refused | failed | done

/-- The calls of the store, and a start of the gateway.  What is decided outside is an input:
    whether a worker is free, what becomes of the hash and of the writes, the random bytes and the
    clock. -/
inductive Call
  | login (request : LoginRequest) (admitted : Bool)
  | finishLogin (p : PendingLogin) (kdf : Kdf) (admitted : Bool) (env : LoginEnv)
  | setTotp (request : SecurityRequest) (admitted : Bool) (prune : Write)
  | finishSetTotp (p : PendingChange) (kdf : Kdf) (admitted : Bool) (env : ChangeEnv)
  | access (token : String) (touch : Bool) (now : ℤ) (admitted : Bool) (prune save : Write)
  | identity (token : String) (now : ℤ) (admitted : Bool) (prune : Write)
  | listSessions (token : String) (now : ℤ) (admitted : Bool) (prune : Write)
  | totpEnabled (token : String) (now : ℤ) (admitted : Bool) (prune : Write)
  | pushLogin (id : String) (now : ℤ) (free : Bool)
  | revoke (token id : String) (now : ℤ) (admitted : Bool) (prune save : Write)
  | logout (token : String) (admitted : Bool) (save : Write)
  | closeConnections
  | shutdown
  | restart (now : ℤ) (save : Write)

/-- What a call returns; a login or a change that waits for the hash has no answer yet. -/
inductive Reply
  | login (result : LoginResult)
  | security (status : SecurityStatus)
  | waiting
  | access (result : Except StoreError (Option SessionAccess))
  | identity (result : Except StoreError (Option (String × String)))
  | sessions (result : Except StoreError (Option (List SessionInfo)))
  | totp (result : Except StoreError (Option Bool))
  | revoked (result : Except StoreError Bool)
  | loggedOut (result : Except StoreError Unit)
  | closed
  | started (result : Except String Unit)
  /-- There is no store, or no such call is waiting. -/
  | none

/-- Work that does not panic. -/
def total {α : Type} (work : Tx → α × Tx) (t : Tx) : Option α × Tx :=
  (some (work t).1, (work t).2)

/-- The errors of a transaction and of its work are one. -/
def flatten {α : Type} : Except StoreError (Except StoreError α) → Except StoreError α
  | .ok result => result
  | .error e => .error e

section

variable (C : Crypto) (S : Serde) (parseTime : String → Option ℤ)

namespace Store

/-- `login` up to the hash. -/
def login (s : Store) (disk : Disk) (request : LoginRequest) (admitted : Bool) :
    Reply × Store × Disk :=
  if 80 < (bytes request.username).length || 128 < (bytes request.password).length then
    (.login ⟨.invalid, none⟩, s, disk)
  else
    match s.transact disk admitted fun t => startLogin C t request with
    | (.ok (.ok p), s, disk) => (.waiting, { s with logins := p :: s.logins }, disk)
    | (.ok (.error status), s, disk) => (.login ⟨status, none⟩, s, disk)
    | (.error _, s, disk) => (.login ⟨.rateLimited, none⟩, s, disk)

/-- `login` from the hash on. -/
def finishLogin (s : Store) (disk : Disk) (p : PendingLogin) (kdf : Kdf) (admitted : Bool)
    (env : LoginEnv) : Reply × Store × Disk :=
  if p ∉ s.logins then (.none, s, disk)
  else
    let s := { s with logins := s.logins.erase p }
    match kdf with
    | .refused => (.login ⟨.rateLimited, none⟩, s, disk)
    | .failed => (.login ⟨.invalid, none⟩, s, disk)
    | .done =>
      if !p.passed C then (.login ⟨.invalid, none⟩, s, disk)
      else
        match s.transact disk admitted fun t => commitLogin C t p env with
        | (.ok result, s, disk) => (.login result, s, disk)
        | (.error _, s, disk) => (.login ⟨.storageUnavailable, none⟩, s, disk)

/-- `set_totp_enabled` up to the hash. -/
def setTotp (s : Store) (disk : Disk) (request : SecurityRequest) (admitted : Bool)
    (prune : Write) : Reply × Store × Disk :=
  if 128 < (bytes request.password).length || 16 < (bytes request.code).length then
    (.security .forbidden, s, disk)
  else
    match s.transact disk admitted (total fun t => startChange C t request prune) with
    | (.ok (.ok p), s, disk) => (.waiting, { s with changes := p :: s.changes }, disk)
    | (.ok (.error status), s, disk) => (.security status, s, disk)
    | (.error _, s, disk) => (.security .storageUnavailable, s, disk)

/-- `set_totp_enabled` from the hash on. -/
def finishSetTotp (s : Store) (disk : Disk) (p : PendingChange) (kdf : Kdf) (admitted : Bool)
    (env : ChangeEnv) : Reply × Store × Disk :=
  if p ∉ s.changes then (.none, s, disk)
  else
    let s := { s with changes := s.changes.erase p }
    match kdf with
    | .refused => (.security .rateLimited, s, disk)
    | .failed => (.security .forbidden, s, disk)
    | .done =>
      if !p.passed C then (.security .forbidden, s, disk)
      else
        match s.transact disk admitted (total fun t => commitChange C t p env) with
        | (.ok status, s, disk) => (.security status, s, disk)
        | (.error _, s, disk) => (.security .storageUnavailable, s, disk)

/-- `push_login_by_id`; the lock may be taken. -/
def pushLogin (s : Store) (id : String) (now : ℤ) (free : Bool) :
    Except StoreError (Option SessionAccess) :=
  if s.closed then .error .storageUnavailable
  else if !free then .error .busy
  else pushLoginById C s.state id now

/-- A call that is answered by one transaction. -/
def ask {α : Type} (s : Store) (disk : Disk) (admitted : Bool)
    (work : Tx → Except StoreError α × Tx) (reply : Except StoreError α → Reply) :
    Reply × Store × Disk :=
  match s.transact disk admitted (total work) with
  | (result, s, disk) => (reply (flatten result), s, disk)

/-- One call of a running store. -/
def step (s : Store) (disk : Disk) : Call → Reply × Store × Disk
  | .login request admitted => s.login C disk request admitted
  | .finishLogin p kdf admitted env => s.finishLogin C disk p kdf admitted env
  | .setTotp request admitted prune => s.setTotp C disk request admitted prune
  | .finishSetTotp p kdf admitted env => s.finishSetTotp C disk p kdf admitted env
  | .access token touch now admitted prune save =>
    s.ask disk admitted (fun t => access C t token touch now prune save) .access
  | .identity token now admitted prune =>
    s.ask disk admitted (fun t => identity C t token now prune) .identity
  | .listSessions token now admitted prune =>
    s.ask disk admitted (fun t => listSessions C t token now prune) .sessions
  | .totpEnabled token now admitted prune =>
    s.ask disk admitted (fun t => totpEnabled C t token now prune) .totp
  | .pushLogin id now free => (.access (s.pushLogin C id now free), s, disk)
  | .revoke token id now admitted prune save =>
    s.ask disk admitted (fun t => revoke C t token id now prune save) .revoked
  | .logout token admitted save =>
    s.ask disk admitted (fun t => logout C t token save) .loggedOut
  | .closeConnections => (.closed, s.cancelAll, disk)
  | .shutdown => (.closed, cancelAll { s with closed := true }, disk)
  | .restart .. => (.none, s, disk)

end Store

/-- The files and the store, if the gateway runs. -/
structure World where
  disk : Disk
  store : Option Store

/-- One call.  A start ends the store that runs, wherever it is. -/
def World.step (w : World) (call : Call) : Reply × World :=
  match call with
  | .restart now save =>
    match loadState C S parseTime w.disk now save with
    | (.ok state, disk) => (.started (.ok ()), ⟨disk, some (.ofState state)⟩)
    | (.error message, disk) => (.started (.error message), ⟨disk, none⟩)
  | call =>
    match w.store with
    | none => (.none, w)
    | some s =>
      match s.step C w.disk call with
      | (reply, s, disk) => (reply, ⟨disk, some s⟩)

end

end Hmux.Auth
