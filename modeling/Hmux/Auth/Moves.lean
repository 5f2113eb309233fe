import Hmux.Auth.World
import Mathlib.Logic.Relation

namespace Hmux.Auth

open Lib

/-!
# What a transaction may do

Every transaction is a sequence of a few moves on the state and the files: sessions are touched or
replaced, a step is spent, the switch of the second factor is turned, or the storage fails.  What
holds of the moves holds of every call, so a property of the store is proved once for each move.

`tokens` and `ids` are the random bytes that a call may use.

The moves are read off the transactions once, in the order in which a transaction does its work:
expired sessions go first, then a step is spent or a switch is turned, and the session file is
written last.  Every branch of a transaction that returns early has written a beginning of that
sequence.
-/

/-- The session of a login. -/
def newSession (C : Crypto) (p : PendingLogin) (account : Account) (id : String) (cancel : ℕ) :
    Session :=
  { id, username := p.request.username, profile := p.profile,
    fingerprint := account.credentials.fingerprint C, browser := p.browser, ip := p.ip,
    created := p.request.now, seen := p.request.now, persistedSeen := p.request.now,
    expires := p.request.now + loginLifetime, cancel }

/-- The sessions that may take the place of those of the state, and how many `SessionCancel`s there
    are then. -/
inductive Next (C : Crypto) (tokens ids : List (Vector UInt8 32)) (s : State) :
    Table String Session → ℕ → Prop
  /-- Some sessions are removed. -/
  | retain (p : String → Session → Bool) : Next C tokens ids s (s.sessions.retain p) s.handles
  /-- The time a session was seen is written. -/
  | refresh (key : String) (now : ℤ) (x : Session) : s.sessions.get? key = some x →
      now < x.expires →
      Next C tokens ids s
        (s.sessions.modify key fun x => { x with seen := now, persistedSeen := now }) s.handles
  /-- A login adds a session, and removes another of its account when there are too many. -/
  | add (p : PendingLogin) (account : Account) (pick : ℕ) (token id : Vector UInt8 32) :
      token ∈ tokens → id ∈ ids → s.accounts.get? p.request.username = some account →
      account.profile = p.profile → p.request.now + loginLifetime ≤ maxUtc →
      (makeRoom s.sessions p.request.username pick).get?
        (tokenHash C (Base64.urlSafeNoPad token.toList)) = none →
      (∀ key x, (makeRoom s.sessions p.request.username pick).get? key = some x →
        x.id ≠ Base64.urlSafeNoPad id.toList) →
      Next C tokens ids s
        ((makeRoom s.sessions p.request.username pick).insert
          (tokenHash C (Base64.urlSafeNoPad token.toList))
          (newSession C p account (Base64.urlSafeNoPad id.toList) s.handles)) (s.handles + 1)

/-- A step of the account is spent. -/
structure Spends (C : Crypto) (t : Tx) (username : String) (account : Account) (step : ℤ) :
    Prop where
  found : t.state.accounts.get? username = some account
  enabled : account.credentials.totpDisabled = false
  later : account.credentials.lastStep < step
  unchanged : t.disk.unchanged C account.path account.credentials = true

/-- The switch of the account is turned. -/
structure Turns (C : Crypto) (t : Tx) (p : PendingChange) (account : Account) : Prop where
  session : ∃ x, t.state.sessions.get? (tokenHash C p.request.token) = some x ∧
    x.username = p.username ∧ x.profile = p.profile
  found : t.state.accounts.get? p.username = some account
  profile : account.profile = p.profile
  later : account.credentials.lastStep < p.step C
  turned : p.request.enabled = account.credentials.totpDisabled
  unchanged : t.disk.unchanged C account.path account.credentials = true

/-- The credentials after a change. -/
def changedCredentials (C : Crypto) (p : PendingChange) (account : Account) : Credentials :=
  { account.credentials with totpDisabled := !p.request.enabled, lastStep := p.step C }

/-- The sessions after a change. -/
def changedSessions (C : Crypto) (s : State) (p : PendingChange) (account : Account) :
    Table String Session :=
  (s.sessions.retain fun candidate x => candidate == tokenHash C p.request.token ||
    x.username ≠ p.username || x.profile ≠ p.profile).modify (tokenHash C p.request.token)
    fun x => { x with fingerprint := (changedCredentials C p account).fingerprint C }

/-- A session file that fits. -/
def Disk.Saves (d : Disk) (next : Table String Session) (d' : Disk) : Prop :=
  d' = { d with sessions := some (sessionText next) } ∧
    (sessionText next).length ≤ sessionFileLimit

/-- A failure of the storage, and what may be in the files then. -/
inductive Fallen (C : Crypto) (tokens ids : List (Vector UInt8 32)) (t : Tx) : Tx → Prop
  | still : Fallen C tokens ids t t.failStorage
  | saved (next : Table String Session) (handles : ℕ) (d : Disk) :
      Next C tokens ids t.state next handles → d = t.disk ∨ t.disk.Saves next d →
      Fallen C tokens ids t ⟨{ t.state.failStorage with handles }, d⟩
  | spent (username : String) (account : Account) (step : ℤ) : Spends C t username account step →
      Fallen C tokens ids t ⟨t.state.failStorage,
        t.disk.setCredentials account.path { account.credentials with lastStep := step }⟩
  | changed (p : PendingChange) (account : Account) (accounts : Table String Account) (d : Disk) :
      Turns C t p account →
      d = t.disk.setCredentials account.path (changedCredentials C p account) ∨
        (t.disk.setCredentials account.path (changedCredentials C p account)).Saves
          (changedSessions C t.state p account) d →
      Fallen C tokens ids t ⟨{ t.state.failStorage with accounts }, d⟩

/-- One move. -/
inductive Move (C : Crypto) (tokens ids : List (Vector UInt8 32)) (t : Tx) : Tx → Prop
  /-- Attempts are counted. -/
  | note (attempts securityAttempts : Table String (List ℤ)) :
      Move C tokens ids t { t with state := { t.state with attempts, securityAttempts } }
  /-- A session is seen. -/
  | touch (key : String) (now : ℤ) (x : Session) : t.state.storageFailed = false →
      t.state.sessions.get? key = some x → now < x.expires →
      Move C tokens ids t { t with state := { t.state with
        sessions := t.state.sessions.modify key fun x => { x with seen := now } } }
  | save (next : Table String Session) (handles : ℕ) (d : Disk) : t.state.storageFailed = false →
      Next C tokens ids t.state next handles → t.disk.Saves next d →
      Move C tokens ids t ⟨{ t.state.swap next with handles }, d⟩
  | spend (username : String) (account : Account) (step : ℤ) : t.state.storageFailed = false →
      Spends C t username account step →
      Move C tokens ids t ⟨{ t.state with accounts := t.state.accounts.modify username fun a =>
          { a with credentials := { account.credentials with lastStep := step } } },
        t.disk.setCredentials account.path { account.credentials with lastStep := step }⟩
  | change (p : PendingChange) (account : Account) (d : Disk) : t.state.storageFailed = false →
      Turns C t p account →
      (t.disk.setCredentials account.path (changedCredentials C p account)).Saves
        (changedSessions C t.state p account) d →
      Move C tokens ids t ⟨State.swap { t.state with
          accounts := t.state.accounts.modify p.username fun a =>
            { a with credentials := changedCredentials C p account } }
          (changedSessions C t.state p account), d⟩
  | fail (t' : Tx) : t.state.storageFailed = false → Fallen C tokens ids t t' →
      Move C tokens ids t t'

/-- Several moves. -/
abbrev Moves (C : Crypto) (tokens ids : List (Vector UInt8 32)) : Tx → Tx → Prop :=
  Relation.ReflTransGen (Move C tokens ids)

variable {C : Crypto} {tokens ids : List (Vector UInt8 32)} {t : Tx}

/-- After a failure the store is closed. -/
theorem Fallen.failed {t' : Tx} (h : Fallen C tokens ids t t') : t'.state.storageFailed = true := by
  cases h <;> rfl

/-- Once it has failed a store stays closed. -/
theorem Move.failed {t' : Tx} (hmove : Move C tokens ids t t') (h : t.state.storageFailed = true) :
    t'.state.storageFailed = true := by
  cases hmove with
  | note => exact h
  | touch _ _ _ hopen => rw [h] at hopen; cases hopen
  | save _ _ _ hopen => rw [h] at hopen; cases hopen
  | spend _ _ _ hopen => rw [h] at hopen; cases hopen
  | change _ _ _ hopen => rw [h] at hopen; cases hopen
  | fail _ _ hfallen => exact hfallen.failed

/-- A storage that failed stays so. -/
theorem Moves.failed {t' : Tx} (hmoves : Moves C tokens ids t t')
    (h : t.state.storageFailed = true) :
    t'.state.storageFailed = true := by
  induction hmoves with
  | refl => exact h
  | tail _ hmove ih => exact hmove.failed ih

/-! ### Writes

A write ends in one of three ways, and after two of them the storage counts as failed. -/

/-- **What a save can do**: the file is written, it is not, or it is although the write failed. -/
theorem saveSessions_cases (t : Tx) (next : Table String Session) (w : Write) :
    (∃ d, t.saveSessions next w = (true, { t with disk := d }) ∧ t.disk.Saves next d) ∨
    ∃ d, t.saveSessions next w = (false, ⟨t.state.failStorage, d⟩) ∧
      (d = t.disk ∨ t.disk.Saves next d) := by
  unfold Tx.saveSessions Disk.writeSessions
  by_cases hfits : sessionFileLimit < (sessionText next).length
  · rw [if_pos hfits]
    exact .inr ⟨t.disk, rfl, .inl rfl⟩
  · rw [if_neg hfits]
    rw [not_lt] at hfits
    cases w with
    | done => exact .inl ⟨_, rfl, rfl, hfits⟩
    | before => exact .inr ⟨t.disk, rfl, .inl rfl⟩
    | after => exact .inr ⟨_, rfl, .inr ⟨rfl, hfits⟩⟩

/-- **What writing credentials can do**, if the file is the one that was read. -/
theorem writeCredential_cases (d : Disk) (path : Option String) (expected next : Credentials)
    (w : Write) :
    (d.writeCredential C path expected next w = (true, d.setCredentials path next) ∧
      d.unchanged C path expected = true) ∨
    d.writeCredential C path expected next w = (false, d) ∨
    (d.writeCredential C path expected next w = (false, d.setCredentials path next) ∧
      d.unchanged C path expected = true) := by
  unfold Disk.writeCredential
  split
  · exact .inr (.inl rfl)
  · rename_i hsame
    rw [Bool.not_eq_true, Bool.not_eq_false'] at hsame
    cases w with
    | done => exact .inl ⟨rfl, hsame⟩
    | before => exact .inr (.inl rfl)
    | after => exact .inr (.inr ⟨rfl, hsame⟩)

/-- Removing nothing from the sessions cancels nothing. -/
theorem swap_modify (s : State) (key : String) (f : Session → Session) :
    s.swap (s.sessions.modify key f) = { s with sessions := s.sessions.modify key f } := by
  have hnone :
    s.sessions.entries.filter (fun e => !(s.sessions.modify key f).contains e.1) = [] := by
    rw [List.filter_eq_nil_iff]
    rintro ⟨k, x⟩ hmem
    have hget := Table.mem_entries.mp hmem
    rw [Bool.not_eq_true, Bool.not_eq_false', Table.contains_iff, Table.get?_modify, hget]
    split
    · exact ⟨f x, rfl⟩
    · exact ⟨x, rfl⟩
  unfold State.swap
  rw [hnone]
  rfl

/-- Removing one session cancels it alone. -/
theorem swap_erase (s : State) (key : String) :
    s.swap (s.sessions.erase key)
      = { s.cancel ((s.sessions.get? key).map Session.cancel).toList with
          sessions := s.sessions.erase key } := by
  have hone : s.sessions.entries.filter (fun e => !(s.sessions.erase key).contains e.1)
      = s.sessions.entries.filter fun e => e.1 = key := by
    apply List.filter_congr
    rintro ⟨k, x⟩ hmem
    have hget := Table.mem_entries.mp hmem
    unfold Table.contains
    rw [Table.get?_erase, hget]
    by_cases hkey : k = key <;> simp [hkey]
  unfold State.swap
  rw [hone, Table.filter_key]
  cases s.sessions.get? key with
  | none => rfl
  | some x => rfl

/-- A write of the sessions is a move, whether it succeeds or fails. -/
theorem saveSessions_move {next : Table String Session} (hopen : t.state.storageFailed = false)
    (hnext : Next C tokens ids t.state next t.state.handles) (w : Write) :
    (∃ d, t.saveSessions next w = (true, { t with disk := d }) ∧ t.disk.Saves next d ∧
      Move C tokens ids t ⟨t.state.swap next, d⟩) ∨
    ∃ t', t.saveSessions next w = (false, t') ∧ Move C tokens ids t t' ∧
      t'.state.storageFailed = true := by
  rcases saveSessions_cases t next w with ⟨d, heq, hsaves⟩ | ⟨d, heq, hd⟩
  · exact .inl ⟨d, heq, hsaves, .save next t.state.handles d hopen hnext hsaves⟩
  · exact .inr ⟨_, heq, .fail _ hopen (.saved next t.state.handles d hnext hd), rfl⟩

/-! ### Transactions

The calls that are one transaction, each as the moves it makes. -/

/-- What is left after expired sessions are removed. -/
structure Pruned (t : Tx) (now : ℤ) (t' : Tx) : Prop where
  notFailed : t'.state.storageFailed = false
  live : ∀ key x, t'.state.sessions.get? key = some x → now < x.expires
  accounts : t'.state.accounts = t.state.accounts
  primary : t'.disk.primary = t.disk.primary
  users : t'.disk.users = t.disk.users

/-- `prune` moves to a store that is open and has no expired session, or to one that failed. -/
theorem prune_cases (t : Tx) (now : ℤ) (w : Write) :
    (∃ t', t.prune now w = (true, t') ∧ Moves C tokens ids t t' ∧ Pruned t now t') ∨
    ∃ t', t.prune now w = (false, t') ∧ Moves C tokens ids t t' ∧
      t'.state.storageFailed = true := by
  unfold Tx.prune
  by_cases hfailed : t.state.storageFailed = true
  · rw [if_pos hfailed]
    exact .inr ⟨t, rfl, .refl, hfailed⟩
  · rw [if_neg hfailed]
    rw [Bool.not_eq_true] at hfailed
    split
    · rename_i hlive
      refine .inl ⟨t, rfl, .refl, hfailed, fun key x hx => ?_, rfl, rfl, rfl⟩
      rw [Bool.not_eq_true', List.any_eq_false] at hlive
      have hnot := hlive x (Table.mem_values.mpr ⟨key, hx⟩)
      rw [decide_eq_true_eq] at hnot
      exact not_le.mp hnot
    · have hnext : Next C tokens ids t.state
          (t.state.sessions.retain fun _ s => decide (now < s.expires)) t.state.handles := .retain _
      dsimp only
      rcases saveSessions_move hfailed hnext w with
        ⟨d, heq, hsaves, hmove⟩ | ⟨t', heq, hmove, hfail⟩
      · rw [heq]
        refine .inl ⟨_, rfl, .single hmove, hfailed, fun key x hx => ?_, rfl, ?_, ?_⟩
        · have hkept := (Table.get?_retain.mp hx).2
          rw [decide_eq_true_eq] at hkept
          exact hkept
        · rw [hsaves.1]
        · rw [hsaves.1]
      · rw [heq]
        exact .inr ⟨_, rfl, .single hmove, hfail⟩

/-- The session that a lookup returns is stored. -/
def Stored (C : Crypto) (s : State) (token : String) (a : SessionAccess) : Prop :=
  s.storageFailed = false ∧ ∃ x csrf, s.sessions.get? (tokenHash C token) = some x ∧
    a = x.access csrf

/-- An access prunes, and touches its session. -/
theorem access_moves (t : Tx) (token : String) (touch : Bool) (now : ℤ) (prune save : Write) :
    Moves C tokens ids t (access C t token touch now prune save).2 ∧
      ∀ a, (access C t token touch now prune save).1 = .ok (some a) →
        Stored C (access C t token touch now prune save).2.state token a := by
  unfold access
  rcases prune_cases t now prune with ⟨t', heq, hmoves, hpruned⟩ | ⟨t', heq, hmoves, hfail⟩
  swap
  · rw [heq]
    exact ⟨hmoves, fun _ h => (nomatch h)⟩
  rw [heq]
  dsimp only
  cases hget : t'.state.sessions.get? (tokenHash C token) with
  | none => exact ⟨hmoves, fun _ h => (nomatch h)⟩
  | some x =>
    have hlive := hpruned.live _ _ hget
    dsimp only
    split
    · -- the time is written
      have hnext : Next C tokens ids t'.state (t'.state.sessions.modify (tokenHash C token)
          fun s => { s with seen := now, persistedSeen := now }) t'.state.handles :=
        .refresh _ now x hget hlive
      rcases saveSessions_move hpruned.notFailed hnext save with
        ⟨d, hsave, -, hmove⟩ | ⟨t₁, hsave, hmove, hfail⟩
      · rw [hsave]
        rw [swap_modify] at hmove
        refine ⟨hmoves.tail hmove, fun a ha => ?_⟩
        cases ha
        refine ⟨hpruned.notFailed, { x with seen := now, persistedSeen := now }, _, ?_, rfl⟩
        show (t'.state.sessions.modify _ _).get? _ = _
        rw [Table.get?_modify, if_pos rfl, hget]
        rfl
      · rw [hsave]
        exact ⟨hmoves.tail hmove, fun _ h => (nomatch h)⟩
    · split
      -- the time moves in memory only
      · refine ⟨hmoves.tail (.touch _ now x hpruned.notFailed hget hlive), fun a ha => ?_⟩
        cases ha
        refine ⟨hpruned.notFailed, { x with seen := now }, _, ?_, rfl⟩
        show (t'.state.sessions.modify _ _).get? _ = _
        rw [Table.get?_modify, if_pos rfl, hget]
        rfl
      -- nothing moves
      · refine ⟨hmoves, fun a ha => ?_⟩
        cases ha
        exact ⟨hpruned.notFailed, x, _, hget, rfl⟩

/-- An identity only prunes. -/
theorem identity_moves (t : Tx) (token : String) (now : ℤ) (prune : Write) :
    Moves C tokens ids t (identity C t token now prune).2 ∧
      ∀ a, (identity C t token now prune).1 = .ok (some a) →
        (identity C t token now prune).2.state.storageFailed = false ∧
          ∃ x, (identity C t token now prune).2.state.sessions.get?
          (tokenHash C token) = some x := by
  unfold identity
  rcases prune_cases t now prune with ⟨t', heq, hmoves, hpruned⟩ | ⟨t', heq, hmoves, hfail⟩
  · rw [heq]
    refine ⟨hmoves, fun a ha => ⟨hpruned.notFailed, ?_⟩⟩
    obtain ⟨x, hx, -⟩ := Option.map_eq_some_iff.mp (Except.ok.inj ha)
    exact ⟨x, hx⟩
  · rw [heq]
    exact ⟨hmoves, fun _ h => (nomatch h)⟩

/-- The list of sessions only prunes. -/
theorem listSessions_moves (t : Tx) (token : String) (now : ℤ) (prune : Write) :
    Moves C tokens ids t (listSessions C t token now prune).2 := by
  unfold listSessions
  rcases prune_cases t now prune with ⟨t', heq, hmoves, -⟩ | ⟨t', heq, hmoves, -⟩
  · rw [heq]
    exact hmoves
  · rw [heq]
    exact hmoves

/-- A look at the setting only prunes. -/
theorem totpEnabled_moves (t : Tx) (token : String) (now : ℤ) (prune : Write) :
    Moves C tokens ids t (totpEnabled C t token now prune).2 := by
  unfold totpEnabled
  rcases prune_cases t now prune with ⟨t', heq, hmoves, -⟩ | ⟨t', heq, hmoves, -⟩
  · rw [heq]
    exact hmoves
  · rw [heq]
    exact hmoves

/-- The removal of one session is a move. -/
theorem removeSession_move (hopen : t.state.storageFailed = false) (key : String) (w : Write) :
    Move C tokens ids t (removeSession t key w).2 := by
  have hnext : Next C tokens ids t.state (t.state.sessions.erase key) t.state.handles := .retain _
  unfold removeSession
  dsimp only
  rcases saveSessions_move hopen hnext w with ⟨d, heq, -, hmove⟩ | ⟨t', heq, hmove, -⟩
  · rw [heq]
    rw [swap_erase] at hmove
    exact hmove
  · rw [heq]
    exact hmove

/-- A revocation prunes, and removes one session. -/
theorem revoke_moves (t : Tx) (token id : String) (now : ℤ) (prune save : Write) :
    Moves C tokens ids t (revoke C t token id now prune save).2 := by
  unfold revoke
  rcases prune_cases t now prune with ⟨t', heq, hmoves, hpruned⟩ | ⟨t', heq, hmoves, -⟩
  swap
  · rw [heq]
    exact hmoves
  rw [heq]
  dsimp only
  split
  · exact hmoves
  · split
    · exact hmoves
    · split
      · exact hmoves
      · rename_i target _ _
        have hmove : Move C tokens ids t' (removeSession t' target save).2 :=
          removeSession_move hpruned.notFailed target save
        split <;> rename_i hremove <;> rw [hremove] at hmove <;> exact hmoves.tail hmove

/-- A logout removes its own session. -/
theorem logout_moves (t : Tx) (token : String) (save : Write) :
    Moves C tokens ids t (logout C t token save).2 := by
  unfold logout
  by_cases hfailed : t.state.storageFailed = true
  · rw [if_pos hfailed]
  · rw [if_neg hfailed]
    rw [Bool.not_eq_true] at hfailed
    dsimp only
    split
    · exact .refl
    · have hmove : Move C tokens ids t (removeSession t (tokenHash C token) save).2 :=
        removeSession_move hfailed _ save
      split <;> rename_i hremove <;> rw [hremove] at hmove <;> exact .single hmove

/-! ### Logins

Between the two transactions of a login anything may happen, so the second one finds the account
again and compares its profile and fingerprint with those of the first. -/

/-- What the first transaction of a login found: the account of its name, or the primary one. -/
structure Begins (C : Crypto) (s : State) (p : PendingLogin) : Prop where
  notFailed : s.storageFailed = false
  found : ∃ account, (s.accounts.get? p.request.username).or
      (s.accounts.values.find? fun a => a.profile == "") = some account ∧
    p.credentials = account.credentials ∧ p.profile = account.profile
  fingerprint : p.fingerprint = p.credentials.fingerprint C

/-- A login that starts changes nothing and tells what it has seen. -/
theorem startLogin_moves (t : Tx) (request : LoginRequest) :
    Moves C tokens ids t (startLogin C t request).2 ∧
      ((startLogin C t request).1 = none →
        (startLogin C t request).2.state.storageFailed = false) ∧
      ∀ p, (startLogin C t request).1 = some (.ok p) → p.request = request ∧
        Begins C t.state p := by
  unfold startLogin
  by_cases hfailed : t.state.storageFailed = true
  · rw [if_pos hfailed]
    exact ⟨.refl, fun h => (nomatch h), fun _ h => (nomatch h)⟩
  · rw [if_neg hfailed]
    rw [Bool.not_eq_true] at hfailed
    dsimp only
    split
    · exact ⟨.single (.note _ _), fun h => (nomatch h), fun _ h => (nomatch h)⟩
    · split
      · exact ⟨.single (.note _ _), fun _ => hfailed, fun _ h => (nomatch h)⟩
      · rename_i account haccount
        refine ⟨.single (.note _ _), fun h => (nomatch h), fun p h => ?_⟩
        cases h
        exact ⟨rfl, hfailed, ⟨account, haccount, rfl, rfl⟩, rfl⟩

/-- The step of a login is spent when the second factor is on. -/
theorem spendStep_cases {username : String} {account : Account} {step : ℤ}
    (hopen : t.state.storageFailed = false)
    (haccount : t.state.accounts.get? username = some account)
    (hlater : account.credentials.totpDisabled = false → account.credentials.lastStep < step)
    (w : Write) :
    (spendStep C t username account step w = (true, t) ∧
      account.credentials.totpDisabled = true) ∨
    (∃ t', spendStep C t username account step w = (true, t') ∧
      Spends C t username account step ∧ Move C tokens ids t t' ∧
      t'.state.storageFailed = false ∧ t'.state.sessions = t.state.sessions ∧
      t'.state.accounts = t.state.accounts.modify username fun a =>
        { a with credentials := { account.credentials with lastStep := step } }) ∨
    ∃ t', spendStep C t username account step w = (false, t') ∧ Move C tokens ids t t' := by
  unfold spendStep
  cases htotp : account.credentials.totpDisabled with
  | true => exact .inl ⟨if_pos rfl, rfl⟩
  | false =>
    rw [if_neg Bool.false_ne_true]
    dsimp only
    have hspends : t.disk.unchanged C account.path account.credentials = true →
        Spends C t username account step := fun hsame => ⟨haccount, htotp, hlater htotp, hsame⟩
    rcases writeCredential_cases (C := C) t.disk account.path account.credentials
      { account.credentials with lastStep := step } w with ⟨heq, hsame⟩ | heq | ⟨heq, hsame⟩
    · rw [heq]
      exact .inr (.inl ⟨_, rfl, hspends hsame, .spend username account step hopen (hspends hsame),
        hopen, rfl, rfl⟩)
    · rw [heq]
      exact .inr (.inr ⟨_, rfl, .fail _ hopen .still⟩)
    · rw [heq]
      exact .inr (.inr ⟨_, rfl, .fail _ hopen (.spent username account step (hspends hsame))⟩)

/-- A token that is drawn is free. -/
theorem drawToken_some {taken : String → Bool} {draws : List (Vector UInt8 32)} {token : String}
    (h : drawToken taken draws = some token) :
    ∃ drawn ∈ draws, token = Base64.urlSafeNoPad drawn.toList ∧ taken token = false := by
  induction draws with
  | nil => cases h
  | cons drawn rest ih =>
    rw [drawToken] at h
    split at h
    · obtain ⟨d, hd, htoken⟩ := ih h
      exact ⟨d, List.mem_cons_of_mem _ hd, htoken⟩
    · rename_i hfree
      cases h
      rw [Bool.not_eq_true] at hfree
      exact ⟨drawn, List.mem_cons_self, rfl, hfree⟩

/-- The new session of a login. -/
theorem insertSession_cases {p : PendingLogin} {account : Account} (env : LoginEnv)
    (hopen : t.state.storageFailed = false)
    (haccount : t.state.accounts.get? p.request.username = some account)
    (hprofile : account.profile = p.profile) :
    (∃ next handles d token, insertSession C t p env
        = (some ⟨.succeeded, some token⟩, ⟨{ t.state.swap next with handles }, d⟩) ∧
      Next C env.tokens env.ids t.state next handles ∧ t.disk.Saves next d) ∨
    (∃ t', insertSession C t p env = (some ⟨.storageUnavailable, none⟩, t') ∧
      Move C env.tokens env.ids t t') ∨
    insertSession C t p env = (none, t) := by
  unfold insertSession
  dsimp only
  -- no token is free among those that were drawn, so the store fails and nothing is written
  cases htoken : drawToken (fun token =>
      (makeRoom t.state.sessions p.request.username env.pick).contains (tokenHash C token))
      env.tokens with
  | none => exact .inr (.inl ⟨_, rfl, .fail _ hopen .still⟩)
  | some token =>
  cases hid : drawToken (fun id =>
      (makeRoom t.state.sessions p.request.username env.pick).values.any fun s => s.id == id)
      env.ids with
  | none => exact .inr (.inl ⟨_, rfl, .fail _ hopen .still⟩)
  | some id =>
    dsimp only
    split
    · exact .inr (.inr rfl)
    · rename_i hrange
      -- neither the token nor the id belongs to a session that is stored
      obtain ⟨token, htokens, rfl, hfree⟩ := drawToken_some htoken
      obtain ⟨id, hids, rfl, hnew⟩ := drawToken_some hid
      rw [Table.contains_eq_false] at hfree
      rw [List.any_eq_false] at hnew
      have hunique : ∀ key x,
          (makeRoom t.state.sessions p.request.username env.pick).get? key = some x →
          x.id ≠ Base64.urlSafeNoPad id.toList := by
        intro key x hx heq
        exact hnew x (Table.mem_values.mpr ⟨key, hx⟩) (beq_iff_eq.mpr heq)
      have hnext := Next.add p account env.pick token id htokens hids haccount hprofile
        (not_lt.mp hrange) hfree hunique
      rw [haccount, Option.map_some, Option.getD_some]
      -- the session that is written is the new one
      change Next C env.tokens env.ids t.state (Table.insert _ _ _) _ at hnext
      unfold newSession at hnext
      generalize hsessions : (makeRoom t.state.sessions p.request.username env.pick).insert _ _
        = next at hnext ⊢
      rcases saveSessions_cases { t with state := { t.state with handles := t.state.handles + 1 } }
        next env.sessions with ⟨d, heq, hsaves⟩ | ⟨d, heq, hd⟩
      · rw [heq]
        exact .inl ⟨next, t.state.handles + 1, d, _, rfl, hnext, hsaves⟩
      · rw [heq]
        exact .inr (.inl ⟨_, rfl, .fail _ hopen (.saved next _ d hnext hd)⟩)

/-- A login once its step is spent. -/
theorem mintSession_cases {p : PendingLogin} {account : Account} (env : LoginEnv)
    (haccount : t.state.accounts.get? p.request.username = some account)
    (hprofile : account.profile = p.profile) :
    Moves C env.tokens env.ids t (mintSession C t p env).2 ∧
      ((mintSession C t p env).1 = none →
        (mintSession C t p env).2.state.storageFailed = false) ∧
      ∀ r, (mintSession C t p env).1 = some r → r.status = .succeeded →
        (mintSession C t p env).2.state.storageFailed = false ∧
        (mintSession C t p env).2.state.accounts.get? p.request.username = some account := by
  unfold mintSession
  rcases prune_cases t p.request.now env.prune with
    ⟨t', heq, hprune, hpruned⟩ | ⟨t', heq, hprune, -⟩
  swap
  · rw [heq]
    exact ⟨hprune, fun h => (nomatch h), fun r h hr => by cases h; cases hr⟩
  rw [heq]
  dsimp only
  rw [← hpruned.accounts] at haccount
  rcases insertSession_cases env hpruned.notFailed haccount hprofile with
    ⟨next, handles, d, token, hinsert, hnext, hsaves⟩ | ⟨t₁, hinsert, hmove⟩ | hinsert
  -- the sessions were pruned first; when that did not end well nothing else happens
  · rw [hinsert]
    exact ⟨hprune.tail (.save next handles d hpruned.notFailed hnext hsaves),
      fun h => (nomatch h), fun _ _ _ => ⟨hpruned.notFailed, haccount⟩⟩
  · rw [hinsert]
    exact ⟨hprune.tail hmove, fun h => (nomatch h), fun r h hr => by cases h; cases hr⟩
  · rw [hinsert]
    exact ⟨hprune, fun _ => hpruned.notFailed, fun _ h => (nomatch h)⟩

/-- What a login finds before it writes anything. -/
structure Matches (C : Crypto) (p : PendingLogin) (t : Tx) (account : Account) : Prop where
  notFailed : t.state.storageFailed = false
  found : t.state.accounts.get? p.request.username = some account
  profile : account.profile = p.profile
  fingerprint : account.credentials.fingerprint C = p.fingerprint

/-- What a login that succeeded found and left. -/
structure LoggedIn (C : Crypto) (p : PendingLogin) (t t' : Tx) (account : Account) : Prop
    extends Matches C p t account where
  after : t'.state.storageFailed = false
  spent : account.credentials.totpDisabled = false → account.credentials.lastStep < p.step C ∧
    t'.state.accounts.get? p.request.username
      = some { account with credentials := { account.credentials with lastStep := p.step C } }

/-- **The second transaction of a login.** -/
theorem commitLogin_cases (t : Tx) (p : PendingLogin) (env : LoginEnv) :
    Moves C env.tokens env.ids t (commitLogin C t p env).2 ∧
      ((commitLogin C t p env).1 = none →
        (commitLogin C t p env).2.state.storageFailed = false) ∧
      ((commitLogin C t p env).2.disk = t.disk ∨ ∃ account, Matches C p t account) ∧
      ∀ r, (commitLogin C t p env).1 = some r → r.status = .succeeded →
        ∃ account, LoggedIn C p t (commitLogin C t p env).2 account := by
  unfold commitLogin
  by_cases hfailed : t.state.storageFailed = true
  · rw [if_pos hfailed]
    exact ⟨.refl, fun h => (nomatch h), .inl rfl, fun r h hr => by cases h; cases hr⟩
  rw [if_neg hfailed]
  rw [Bool.not_eq_true] at hfailed
  cases haccount : t.state.accounts.get? p.request.username with
  | none => exact ⟨.refl, fun h => (nomatch h), .inl rfl, fun r h hr => by cases h; cases hr⟩
  | some account =>
    dsimp only
    split
    · exact ⟨.refl, fun h => (nomatch h), .inl rfl, fun r h hr => by cases h; cases hr⟩
    rename_i hsame
    simp only [Bool.or_eq_true, decide_eq_true_eq, not_or, not_not] at hsame
    have hmatches : Matches C p t account := ⟨hfailed, haccount, hsame.1, hsame.2⟩
    split
    · exact ⟨.refl, fun h => (nomatch h), .inl rfl, fun r h hr => by cases h; cases hr⟩
    split
    · exact ⟨.refl, fun h => (nomatch h), .inl rfl, fun r h hr => by cases h; cases hr⟩
    rename_i hstep
    have hlater : account.credentials.totpDisabled = false →
        account.credentials.lastStep < p.step C := by
      intro htotp
      simp only [htotp, Bool.not_false, Bool.true_and, Bool.or_eq_true, decide_eq_true_eq, not_or,
        not_lt, not_le] at hstep
      exact hstep.2
    rcases spendStep_cases hfailed haccount hlater env.credential with
      ⟨heq, htotp⟩ | ⟨t', heq, hspends, hmove, hopen, hsessions, haccounts⟩ | ⟨t', heq, hmove⟩
    · rw [heq]
      obtain ⟨hmoves, hnone, hsome⟩ := mintSession_cases env haccount hsame.1
      refine ⟨hmoves, hnone, .inr ⟨account, hmatches⟩, fun r h hr =>
        ⟨account, hmatches, (hsome r h hr).1, fun hon => ?_⟩⟩
      rw [htotp] at hon
      cases hon
    · rw [heq]
      have hget : t'.state.accounts.get? p.request.username = some { account with
          credentials := { account.credentials with lastStep := p.step C } } := by
        rw [haccounts, Table.get?_modify, if_pos rfl, haccount]
        rfl
      obtain ⟨hmoves, hnone, hsome⟩ := mintSession_cases env hget hsame.1
      exact ⟨.head hmove hmoves, hnone, .inr ⟨account, hmatches⟩, fun r h hr =>
        ⟨account, hmatches, (hsome r h hr).1, fun hon => ⟨hlater hon, (hsome r h hr).2⟩⟩⟩
    · rw [heq]
      exact ⟨.single hmove, fun h => (nomatch h), .inr ⟨account, hmatches⟩,
        fun r h hr => by cases h; cases hr⟩

/-! ### The second factor

Turning the switch writes the credentials first and the sessions afterwards; the sessions of the
account that did not ask for the change are dropped by that second write. -/

/-- A change that starts tells the credentials it has seen. -/
theorem startChange_moves (t : Tx) (request : SecurityRequest) (prune : Write) :
    Moves C tokens ids t (startChange C t request prune).2 ∧
      ∀ p, (startChange C t request prune).1 = .ok p → p.request = request ∧
        p.fingerprint = p.credentials.fingerprint C := by
  unfold startChange
  rcases prune_cases t request.now prune with ⟨t', heq, hmoves, hpruned⟩ | ⟨t', heq, hmoves, -⟩
  swap
  · rw [heq]
    exact ⟨hmoves, fun _ h => (nomatch h)⟩
  rw [heq]
  dsimp only
  split
  · exact ⟨hmoves, fun _ h => (nomatch h)⟩
  · split
    · exact ⟨hmoves, fun _ h => (nomatch h)⟩
    · split
      · exact ⟨hmoves, fun _ h => (nomatch h)⟩
      · split
        · exact ⟨hmoves.tail (.note _ _), fun _ h => (nomatch h)⟩
        · refine ⟨hmoves.tail (.note _ _), fun p h => ?_⟩
          cases h
          exact ⟨rfl, rfl⟩

/-- A change of the switch. -/
theorem applyChange_cases (tokens ids : List (Vector UInt8 32)) {p : PendingChange}
    {account : Account} (env : ChangeEnv)
    (hopen : t.state.storageFailed = false)
    (hturns : t.disk.unchanged C account.path account.credentials = true →
      Turns C t p account) :
    (∃ d, applyChange C t p account env = (.ok, ⟨State.swap { t.state with
          accounts := t.state.accounts.modify p.username fun a =>
            { a with credentials := changedCredentials C p account } }
          (changedSessions C t.state p account), d⟩) ∧ Turns C t p account ∧
      (t.disk.setCredentials account.path (changedCredentials C p account)).Saves
        (changedSessions C t.state p account) d) ∨
    ∃ t', applyChange C t p account env = (.storageUnavailable, t') ∧
      Move C tokens ids t t' := by
  unfold applyChange
  dsimp only
  -- the files changed under the process, or the backup failed
  split
  · exact .inr ⟨_, rfl, .fail _ hopen .still⟩
  rename_i hbackup
  rw [Bool.not_eq_true, Bool.not_eq_false', Bool.and_eq_true] at hbackup
  have hturn := hturns hbackup.1
  rcases writeCredential_cases (C := C) t.disk account.path account.credentials
    (changedCredentials C p account) env.credential with ⟨heq, -⟩ | heq | ⟨heq, -⟩
  · unfold changedCredentials at heq
    rw [heq]
    dsimp only
    -- the account is on disk; the sessions follow, or the store falls with it
    rcases saveSessions_cases ⟨{ t.state with
        accounts := t.state.accounts.modify p.username fun a =>
          { a with credentials := changedCredentials C p account } },
        t.disk.setCredentials account.path (changedCredentials C p account)⟩
      (changedSessions C t.state p account) env.sessions with ⟨d, hsave, hsaves⟩ | ⟨d, hsave, hd⟩
    · unfold changedSessions changedCredentials at hsave
      rw [hsave]
      exact .inl ⟨d, rfl, hturn, hsaves⟩
    · unfold changedSessions changedCredentials at hsave
      rw [hsave]
      exact .inr ⟨_, rfl, .fail _ hopen (.changed p account _ d hturn hd)⟩
  · unfold changedCredentials at heq
    rw [heq]
    exact .inr ⟨_, rfl, .fail _ hopen .still⟩
  · unfold changedCredentials at heq
    rw [heq]
    exact .inr ⟨_, rfl, .fail _ hopen (.changed p account t.state.accounts _ hturn (.inl rfl))⟩

/-- What a change that was answered with `Ok` found: the state of the store before its switch was
    looked at. -/
structure Checked (C : Crypto) (p : PendingChange) (t : Tx) (account : Account) : Prop where
  notFailed : t.state.storageFailed = false
  found : t.state.accounts.get? p.username = some account
  fingerprint : account.credentials.fingerprint C = p.fingerprint
  later : account.credentials.lastStep < p.step C

/-- What a change that was answered with `Ok` left: nothing was done, or the switch is turned. -/
inductive Changed (C : Crypto) (p : PendingChange) (t : Tx) (account : Account) : Tx → Prop
  | already : p.request.enabled ≠ account.credentials.totpDisabled → Changed C p t account t
  | turned (d : Disk) : Turns C t p account →
      (t.disk.setCredentials account.path (changedCredentials C p account)).Saves
        (changedSessions C t.state p account) d →
      Changed C p t account ⟨State.swap { t.state with
          accounts := t.state.accounts.modify p.username fun a =>
            { a with credentials := changedCredentials C p account } }
          (changedSessions C t.state p account), d⟩

/-- A change that is made is a run of moves. -/
theorem Changed.moves {p : PendingChange} {account : Account} {t' : Tx}
    (h : Changed C p t account t') (hopen : t.state.storageFailed = false) :
    Moves C tokens ids t t' := by
  cases h with
  | already => exact .refl
  | turned d hturns hsaves => exact .single (.change p account d hopen hturns hsaves)

/-- **The second transaction of a change**: it fails, the switch is there already, or it is
    turned. -/
theorem commitChange_cases (tokens ids : List (Vector UInt8 32)) (t : Tx) (p : PendingChange)
    (env : ChangeEnv) :
    (Moves C tokens ids t (commitChange C t p env).2 ∧ (commitChange C t p env).1 ≠ .ok) ∨
    ∃ t' account, Moves C tokens ids t t' ∧ Pruned t (max p.request.now env.clock) t' ∧
      Checked C p t' account ∧ Changed C p t' account (commitChange C t p env).2 := by
  unfold commitChange
  rcases prune_cases t (max p.request.now env.clock) env.prune with
    ⟨t', heq, hmoves, hpruned⟩ | ⟨t', heq, hmoves, -⟩
  -- the sessions were pruned first; when that did not end well nothing else happens
  swap
  · rw [heq]
    exact .inl ⟨hmoves, fun h => by cases h⟩
  rw [heq]
  dsimp only
  cases hsession : t'.state.sessions.get? (tokenHash C p.request.token) with
  | none => exact .inl ⟨hmoves, fun h => by cases h⟩
  | some x =>
    dsimp only
    split
    · exact .inl ⟨hmoves, fun h => by cases h⟩
    rename_i hown
    simp only [Bool.or_eq_true, decide_eq_true_eq, not_or, not_not] at hown
    cases haccount : t'.state.accounts.get? p.username with
    | none => exact .inl ⟨hmoves, fun h => by cases h⟩
    | some account =>
      dsimp only
      split
      · exact .inl ⟨hmoves, fun h => by cases h⟩
      rename_i hsame
      simp only [Bool.or_eq_true, decide_eq_true_eq, not_or, not_not] at hsame
      split
      · exact .inl ⟨hmoves, fun h => by cases h⟩
      rename_i hlater
      rw [not_le] at hlater
      have hchecked : Checked C p t' account := ⟨hpruned.notFailed, haccount, hsame.2, hlater⟩
      -- the setting is in force already, or the account turns
      split
      · rename_i hthere
        exact .inr ⟨t', account, hmoves, hpruned, hchecked, .already hthere⟩
      · rename_i hturn
        rw [not_not] at hturn
        have hturns : t'.disk.unchanged C account.path account.credentials = true →
            Turns C t' p account := fun hdisk =>
          ⟨⟨x, hsession, hown.1.1, hown.1.2⟩, haccount, hsame.1, hlater, hturn, hdisk⟩
        rcases applyChange_cases tokens ids env hpruned.notFailed hturns with
          ⟨d, hok, hdone, hsaves⟩ | ⟨t₁, hfail, hmove⟩
        · rw [hok]
          exact .inr ⟨t', account, hmoves, hpruned, hchecked, .turned d hdone hsaves⟩
        · rw [hfail]
          exact .inl ⟨hmoves.tail hmove, fun h => by cases h⟩

end Hmux.Auth
