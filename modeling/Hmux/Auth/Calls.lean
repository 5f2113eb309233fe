import Hmux.Auth.Moves

namespace Hmux.Auth

open Lib

/-!
# The calls as moves

Every call of a running store is a sequence of moves (`Store.step_moves`); a call that panics ends
in a failure of the storage, and closed connections cancel sessions that stay where they are.  For
the calls whose answer says something about the store, what it says:

* `login_moves` — what a login that waits for the hash found;
* `finishLogin_cases`, `finishSetTotp_cases` — what a success found and left.

A reader who wants to know what a call may do reads `Store.step_moves` and the moves, and need not
look at the transactions again.  What the answer of a call says is not in the moves, so the calls
whose answers matter have a lemma of their own here.
-/

/-- The random bytes of a call: tokens and ids. -/
def Call.tokens : Call → List (Vector UInt8 32)
  | .finishLogin _ _ _ env => env.tokens
  | _ => []

def Call.ids : Call → List (Vector UInt8 32)
  | .finishLogin _ _ _ env => env.ids
  | _ => []

/-- A store whose state is `state`, but for sessions that were cancelled since the connections are
    closed. -/
structure Follows (s : Store) (state : State) (s' : Store) : Prop where
  cancelled : ∃ extra, s'.state = state.cancel extra ∧ (extra ≠ [] → s'.registryClosed = true)
  closed : s.registryClosed = true → s'.registryClosed = true

theorem Follows.refl (s : Store) : Follows s s.state s :=
  ⟨⟨[], rfl, fun h => absurd rfl h⟩, id⟩

theorem follows_sync (s : Store) (state : State) :
    Follows s state (Store.sync { s with state }) := by
  unfold Store.sync
  dsimp only
  cases hclosed : s.registryClosed with
  | true => exact ⟨⟨_, rfl, fun _ => rfl⟩, fun _ => rfl⟩
  | false => exact ⟨⟨[], rfl, fun h => absurd rfl h⟩, fun h => by rw [hclosed] at h; cases h⟩

theorem follows_cancelAll (s : Store) (state : State) :
    Follows s state (Store.cancelAll { s with state }) :=
  ⟨⟨_, rfl, fun _ => rfl⟩, fun _ => rfl⟩

variable {C : Crypto} {tokens ids : List (Vector UInt8 32)}

/-- What a transaction leaves: the moves of its work, and a failure when it panics. -/
theorem transact_cases {α : Type} (s : Store) (disk : Disk) (admitted : Bool)
    (work : Tx → Option α × Tx) (hmoves : Moves C tokens ids ⟨s.state, disk⟩
    (work ⟨s.state, disk⟩).2)
    (hpanic : (work ⟨s.state, disk⟩).1 = none →
      (work ⟨s.state, disk⟩).2.state.storageFailed = false) :
    ∃ result s' t', s.transact disk admitted work = (result, s', t'.disk) ∧
      Moves C tokens ids ⟨s.state, disk⟩ t' ∧ Follows s t'.state s' ∧ s'.logins = s.logins ∧
      s'.changes = s.changes ∧ (t'.disk = disk ∨ t'.disk = (work ⟨s.state, disk⟩).2.disk) ∧
      ∀ value, result = .ok value →
        t' = (work ⟨s.state, disk⟩).2 ∧ (work ⟨s.state, disk⟩).1 = some value := by
  unfold Store.transact
  split
  · exact ⟨_, s, ⟨s.state, disk⟩, rfl, .refl, Follows.refl s, rfl, rfl, .inl rfl,
      fun _ h => (nomatch h)⟩
  split
  · exact ⟨_, s, ⟨s.state, disk⟩, rfl, .refl, Follows.refl s, rfl, rfl, .inl rfl,
      fun _ h => (nomatch h)⟩
  cases hwork : work ⟨s.state, disk⟩ with
  | mk value t' =>
    rw [hwork] at hmoves hpanic
    cases value with
    | none =>
      exact ⟨_, _, t'.failStorage, rfl, hmoves.tail (.fail _ (hpanic rfl) .still),
        follows_cancelAll s t'.state.failStorage, rfl, rfl, .inr rfl, fun _ h => (nomatch h)⟩
    | some value =>
      refine ⟨_, _, t', rfl, hmoves, follows_sync s t'.state, rfl, rfl, .inr rfl, fun v hv => ?_⟩
      cases hv
      exact ⟨rfl, rfl⟩

theorem ask_cases {α : Type} (s : Store) (disk : Disk) (admitted : Bool)
    (work : Tx → Except StoreError α × Tx) (reply : Except StoreError α → Reply)
    (hmoves : Moves C tokens ids ⟨s.state, disk⟩ (work ⟨s.state, disk⟩).2) :
    ∃ result s' t', s.ask disk admitted work reply = (reply result, s', t'.disk) ∧
      Moves C tokens ids ⟨s.state, disk⟩ t' ∧ Follows s t'.state s' ∧ s'.logins = s.logins ∧
      ∀ value, result = .ok value →
        t' = (work ⟨s.state, disk⟩).2 ∧ (work ⟨s.state, disk⟩).1 = .ok value := by
  obtain ⟨result, s', t', heq, hmoves', hfollows, hlogins, -, -, hvalue⟩ :=
    transact_cases s disk admitted (total work) hmoves (fun h => (nomatch h))
  unfold Store.ask
  rw [heq]
  refine ⟨_, s', t', rfl, hmoves', hfollows, hlogins, fun value hresult => ?_⟩
  cases result with
  | error e => cases hresult
  | ok inner =>
    obtain ⟨ht, hwork⟩ := hvalue inner rfl
    cases hresult
    exact ⟨ht, Option.some.inj hwork⟩

/-! ### Logins and changes

Both calls come in two halves with the slow hash between them, and other calls may run in that
time.  The first half hands over what it found, the second looks again. -/

/-- **The start of a login**: what it found when it waits. -/
theorem login_moves (s : Store) (disk : Disk) (request : LoginRequest) (admitted : Bool) :
    ∃ reply s' t', s.login C disk request admitted = (reply, s', t'.disk) ∧
      Moves C tokens ids ⟨s.state, disk⟩ t' ∧ Follows s t'.state s' ∧
      ∀ p ∈ s'.logins, p ∈ s.logins ∨
        (p.request = request ∧ reply = .waiting ∧ Begins C s.state p) := by
  unfold Store.login
  split
  · exact ⟨_, s, ⟨s.state, disk⟩, rfl, .refl, Follows.refl s, fun p hp => .inl hp⟩
  obtain ⟨hmoves, hpanic, hbegins⟩ : Moves C tokens ids ⟨s.state, disk⟩ _ ∧ _ :=
    startLogin_moves ⟨s.state, disk⟩ request
  obtain ⟨result, s', t', heq, hmoves', hfollows, hlogins, -, -, hvalue⟩ :=
    transact_cases s disk admitted (fun t => startLogin C t request) hmoves hpanic
  rw [heq]
  rcases result with e | (status | q)
  · exact ⟨_, s', t', rfl, hmoves', hfollows, fun p hp => .inl (hlogins ▸ hp)⟩
  · exact ⟨_, s', t', rfl, hmoves', hfollows, fun p hp => .inl (hlogins ▸ hp)⟩
  · refine ⟨_, _, t', rfl, hmoves', ⟨hfollows.cancelled, hfollows.closed⟩, fun p hp => ?_⟩
    rcases List.mem_cons.mp hp with rfl | hp
    · obtain ⟨hrequest, hbegin⟩ := hbegins p (hvalue _ rfl).2
      exact .inr ⟨hrequest, rfl, hbegin⟩
    · exact .inl (hlogins ▸ hp)

/-- **The rest of a login**: what it found if it wrote anything, and what a success left. -/
theorem finishLogin_cases (s : Store) (disk : Disk) (p : PendingLogin) (kdf : Kdf)
    (admitted : Bool) (env : LoginEnv) :
    ∃ reply s' t', s.finishLogin C disk p kdf admitted env = (reply, s', t'.disk) ∧
      Moves C env.tokens env.ids ⟨s.state, disk⟩ t' ∧ Follows s t'.state s' ∧
      s'.logins ⊆ s.logins ∧
      (t'.disk = disk ∨ p ∈ s.logins ∧ p.passed C = true ∧
        ∃ account, Matches C p ⟨s.state, disk⟩ account) ∧
      ∀ r, reply = .login r → r.status = .succeeded →
        p ∈ s.logins ∧ p.passed C = true ∧ ∃ account, LoggedIn C p ⟨s.state, disk⟩ t' account := by
  -- where nothing is committed, the state and the disk stay
  have hstay : ∀ (s' : Store) (reply : Reply), s'.state = s.state →
      s'.registryClosed = s.registryClosed → s'.logins ⊆ s.logins →
      (∀ r, reply = .login r → r.status ≠ .succeeded) →
      ∃ reply' s'' t', (reply, s', disk) = (reply', s'', Tx.disk t') ∧
        Moves C env.tokens env.ids ⟨s.state, disk⟩ t' ∧ Follows s t'.state s'' ∧
        s''.logins ⊆ s.logins ∧
        (t'.disk = disk ∨ p ∈ s.logins ∧ p.passed C = true ∧
          ∃ account, Matches C p ⟨s.state, disk⟩ account) ∧
        ∀ r, reply' = .login r → r.status = .succeeded →
          p ∈ s.logins ∧ p.passed C = true ∧
            ∃ account, LoggedIn C p ⟨s.state, disk⟩ t' account := by
    intro s' reply hstate hclosed hlogins hreply
    exact ⟨reply, s', ⟨s.state, disk⟩, rfl, .refl, ⟨⟨[], hstate, fun h => absurd rfl h⟩,
      fun h => hclosed.trans h⟩, hlogins, .inl rfl, fun r hr hok => absurd hok (hreply r hr)⟩
  unfold Store.finishLogin
  split
  · exact hstay s _ rfl rfl (List.Subset.refl _) fun r hr => (nomatch hr)
  -- the login waits
  rename_i hmem
  rw [not_not] at hmem
  have hfewer : s.logins.erase p ⊆ s.logins := List.erase_subset
  cases kdf with
  | refused => exact hstay _ _ rfl rfl hfewer fun r hr hok => by cases hr; cases hok
  | failed => exact hstay _ _ rfl rfl hfewer fun r hr hok => by cases hr; cases hok
  -- its key was derived
  | done =>
    dsimp only
    split
    · exact hstay _ _ rfl rfl hfewer fun r hr hok => by cases hr; cases hok
    rename_i hpassed
    rw [Bool.not_eq_true, Bool.not_eq_false'] at hpassed
    obtain ⟨hmoves, hpanic, hwrote, hdone⟩ := commitLogin_cases (C := C) ⟨s.state, disk⟩ p env
    obtain ⟨result, s', t', heq, hmoves', hfollows, hlogins, -, hdisk, hvalue⟩ :=
      transact_cases { s with logins := s.logins.erase p } disk admitted
        (fun t => commitLogin C t p env) hmoves hpanic
    -- the disk changes only for a login that passed
    have hfound : t'.disk = disk ∨ p ∈ s.logins ∧ p.passed C = true ∧
        ∃ account, Matches C p ⟨s.state, disk⟩ account := by
      rcases hwrote with hsame | hmatches
      · rcases hdisk with hdisk | hdisk
        · exact .inl hdisk
        · exact .inl (hdisk.trans hsame)
      · exact .inr ⟨hmem, hpassed, hmatches⟩
    rw [heq]
    cases result with
    | error e =>
      exact ⟨_, s', t', rfl, hmoves', ⟨hfollows.cancelled, hfollows.closed⟩, hlogins ▸ hfewer,
        hfound, fun r hr hok => by cases hr; cases hok⟩
    | ok result =>
      refine ⟨_, s', t', rfl, hmoves', ⟨hfollows.cancelled, hfollows.closed⟩, hlogins ▸ hfewer,
        hfound, fun r hr hok => ?_⟩
      cases hr
      obtain ⟨rfl, hwork⟩ := hvalue _ rfl
      exact ⟨hmem, hpassed, hdone _ hwork hok⟩

theorem setTotp_moves (s : Store) (disk : Disk) (request : SecurityRequest) (admitted : Bool)
    (prune : Write) :
    ∃ reply s' t', s.setTotp C disk request admitted prune = (reply, s', t'.disk) ∧
      Moves C tokens ids ⟨s.state, disk⟩ t' ∧ Follows s t'.state s' ∧ s'.logins = s.logins := by
  unfold Store.setTotp
  split
  · exact ⟨_, s, ⟨s.state, disk⟩, rfl, .refl, Follows.refl s, rfl⟩
  obtain ⟨hmoves, -⟩ : Moves C tokens ids ⟨s.state, disk⟩ _ ∧ _ :=
    startChange_moves ⟨s.state, disk⟩ request prune
  obtain ⟨result, s', t', heq, hmoves', hfollows, hlogins, -⟩ :=
    transact_cases s disk admitted (total fun t => startChange C t request prune) hmoves
      (fun h => (nomatch h))
  rw [heq]
  rcases result with e | (status | p)
  · exact ⟨_, s', t', rfl, hmoves', hfollows, hlogins⟩
  · exact ⟨_, s', t', rfl, hmoves', hfollows, hlogins⟩
  · exact ⟨_, _, t', rfl, hmoves', ⟨hfollows.cancelled, hfollows.closed⟩, hlogins⟩

/-- **The rest of a change**: what an `Ok` found and left. -/
theorem finishSetTotp_cases (tokens ids : List (Vector UInt8 32)) (s : Store) (disk : Disk)
    (p : PendingChange) (kdf : Kdf) (admitted : Bool) (env : ChangeEnv) :
    ∃ reply s' t', s.finishSetTotp C disk p kdf admitted env = (reply, s', t'.disk) ∧
      Moves C tokens ids ⟨s.state, disk⟩ t' ∧ Follows s t'.state s' ∧ s'.logins = s.logins ∧
      (reply = .security .ok → p ∈ s.changes ∧ p.passed C = true ∧ ∃ t account,
        Moves C tokens ids ⟨s.state, disk⟩ t ∧
        Pruned ⟨s.state, disk⟩ (max p.request.now env.clock) t ∧ Checked C p t account ∧
          Changed C p t account t') := by
  -- a call that ends before its transaction leaves the state and the file
  have hstay : ∀ (s' : Store) (reply : Reply), s'.state = s.state →
      s'.registryClosed = s.registryClosed → s'.logins = s.logins → reply ≠ .security .ok →
      ∃ reply' s'' t', (reply, s', disk) = (reply', s'', Tx.disk t') ∧
        Moves C tokens ids ⟨s.state, disk⟩ t' ∧ Follows s t'.state s'' ∧ s''.logins = s.logins ∧
        (reply' = .security .ok → p ∈ s.changes ∧ p.passed C = true ∧ ∃ t account,
          Moves C tokens ids ⟨s.state, disk⟩ t ∧
          Pruned ⟨s.state, disk⟩ (max p.request.now env.clock) t ∧ Checked C p t account ∧
            Changed C p t account t') := by
    intro s' reply hstate hclosed hlogins hreply
    exact ⟨reply, s', ⟨s.state, disk⟩, rfl, .refl, ⟨⟨[], hstate, fun h => absurd rfl h⟩,
      fun h => hclosed.trans h⟩, hlogins, fun hok => absurd hok hreply⟩
  unfold Store.finishSetTotp
  split
  · exact hstay s _ rfl rfl rfl fun h => (nomatch h)
  rename_i hmem
  rw [not_not] at hmem
  cases kdf with
  | refused => exact hstay _ _ rfl rfl rfl fun h => (nomatch h)
  | failed => exact hstay _ _ rfl rfl rfl fun h => (nomatch h)
  | done =>
    dsimp only
    split
    · exact hstay _ _ rfl rfl rfl fun h => (nomatch h)
    rename_i hpassed
    rw [Bool.not_eq_true, Bool.not_eq_false'] at hpassed
    have hcases := commitChange_cases (C := C) tokens ids ⟨s.state, disk⟩ p env
    have hmoves : Moves C tokens ids ⟨s.state, disk⟩ (commitChange C ⟨s.state, disk⟩ p env).2 := by
      rcases hcases with ⟨hmoves, -⟩ | ⟨t, account, hmoves, -, hchecked, hchanged⟩
      · exact hmoves
      · exact hmoves.trans (hchanged.moves hchecked.notFailed)
    obtain ⟨result, s', t', heq, hmoves', hfollows, hlogins, -, -, hvalue⟩ :=
      transact_cases { s with changes := s.changes.erase p } disk admitted
        (total fun t => commitChange C t p env) hmoves (fun h => (nomatch h))
    rw [heq]
    -- what the transaction does, whether it says `Ok` or not
    cases result with
    | error e =>
      exact ⟨_, s', t', rfl, hmoves', ⟨hfollows.cancelled, hfollows.closed⟩, hlogins,
        fun h => (nomatch h)⟩
    | ok status =>
      refine ⟨_, s', t', rfl, hmoves', ⟨hfollows.cancelled, hfollows.closed⟩, hlogins,
        fun hok => ?_⟩
      obtain ⟨ht, hwork⟩ := hvalue _ rfl
      have hstatus : (commitChange C ⟨s.state, disk⟩ p env).1 = .ok := by
        rw [Option.some.inj hwork]
        exact Reply.security.inj hok
      refine ⟨hmem, hpassed, ?_⟩
      rcases hcases with ⟨-, hnot⟩ | ⟨t, account, hmoves, hpruned, hchecked, hchanged⟩
      · exact absurd hstatus hnot
      · rw [ht]
        exact ⟨t, account, hmoves, hpruned, hchecked, hchanged⟩

/-! ### All calls

One case for each call, from the lemmas about the transactions. -/

/-- **Every call of a running store is a sequence of moves**, and a login that waits was one before
    or is started now. -/
theorem Store.step_moves (s : Store) (disk : Disk) (call : Call) :
    ∃ reply s' t', s.step C disk call = (reply, s', t'.disk) ∧
      Moves C call.tokens call.ids ⟨s.state, disk⟩ t' ∧ Follows s t'.state s' ∧
      ∀ p ∈ s'.logins, p ∈ s.logins ∨
        (∃ admitted, call = .login p.request admitted) ∧ reply = .waiting ∧ Begins C s.state p := by
  -- most calls ask one transaction, in the same way
  have hask : ∀ {α : Type} (admitted : Bool) (work : Tx → Except StoreError α × Tx)
      (reply : Except StoreError α → Reply),
      Moves C call.tokens call.ids ⟨s.state, disk⟩ (work ⟨s.state, disk⟩).2 →
      ∃ reply' s' t', s.ask disk admitted work reply = (reply', s', Tx.disk t') ∧
        Moves C call.tokens call.ids ⟨s.state, disk⟩ t' ∧ Follows s t'.state s' ∧
        ∀ p ∈ s'.logins, p ∈ s.logins ∨ (∃ admitted, call = .login p.request admitted) ∧
          reply' = .waiting ∧ Begins C s.state p := by
    intro α admitted work reply hmoves
    obtain ⟨result, s', t', heq, hmoves', hfollows, hlogins, -⟩ :=
      ask_cases s disk admitted work reply hmoves
    exact ⟨_, s', t', heq, hmoves', hfollows, fun p hp => .inl (hlogins ▸ hp)⟩
  cases call with
  | login request admitted =>
    obtain ⟨reply, s', t', heq, hmoves, hfollows, hlogins⟩ := login_moves s disk request admitted
    refine ⟨reply, s', t', heq, hmoves, hfollows, fun p hp => ?_⟩
    rcases hlogins p hp with hold | ⟨rfl, hnew⟩
    · exact .inl hold
    · exact .inr ⟨⟨admitted, rfl⟩, hnew⟩
  | finishLogin p kdf admitted env =>
    obtain ⟨reply, s', t', heq, hmoves, hfollows, hlogins, -⟩ :=
      finishLogin_cases (C := C) s disk p kdf admitted env
    exact ⟨reply, s', t', heq, hmoves, hfollows, fun p hp => .inl (hlogins hp)⟩
  | setTotp request admitted prune =>
    obtain ⟨reply, s', t', heq, hmoves, hfollows, hlogins⟩ :=
      setTotp_moves s disk request admitted prune
    exact ⟨reply, s', t', heq, hmoves, hfollows, fun p hp => .inl (hlogins ▸ hp)⟩
  | finishSetTotp p kdf admitted env =>
    obtain ⟨reply, s', t', heq, hmoves, hfollows, hlogins, -⟩ :=
      finishSetTotp_cases [] [] s disk p kdf admitted env
    exact ⟨reply, s', t', heq, hmoves, hfollows, fun p hp => .inl (hlogins ▸ hp)⟩
  | access token touch now admitted prune save =>
    exact hask admitted (fun t => access C t token touch now prune save) .access
      (access_moves _ token touch now prune save).1
  | identity token now admitted prune =>
    exact hask admitted (fun t => identity C t token now prune) .identity
      (identity_moves _ token now prune).1
  | listSessions token now admitted prune =>
    exact hask admitted (fun t => listSessions C t token now prune) .sessions
      (listSessions_moves _ token now prune)
  | totpEnabled token now admitted prune =>
    exact hask admitted (fun t => totpEnabled C t token now prune) .totp
      (totpEnabled_moves _ token now prune)
  | pushLogin id now free =>
    exact ⟨_, s, ⟨s.state, disk⟩, rfl, .refl, Follows.refl s, fun p hp => .inl hp⟩
  | revoke token id now admitted prune save =>
    exact hask admitted (fun t => revoke C t token id now prune save) .revoked
      (revoke_moves _ token id now prune save)
  | logout token admitted save =>
    exact hask admitted (fun t => logout C t token save) .loggedOut
      (logout_moves _ token save)
  | closeConnections =>
    exact ⟨_, _, ⟨s.state, disk⟩, rfl, .refl, follows_cancelAll s s.state, fun p hp => .inl hp⟩
  | shutdown =>
    exact ⟨_, _, ⟨s.state, disk⟩, rfl, .refl, ⟨⟨_, rfl, fun _ => rfl⟩, fun _ => rfl⟩,
      fun p hp => .inl hp⟩
  | restart now save =>
    exact ⟨_, s, ⟨s.state, disk⟩, rfl, .refl, Follows.refl s, fun p hp => .inl hp⟩

end Hmux.Auth
