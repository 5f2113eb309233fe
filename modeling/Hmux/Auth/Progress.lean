import Hmux.Auth.Runs

namespace Hmux.Auth

open Lib

/-!
# Calls that succeed

What a call needs to succeed, and what it leaves then.  A run on given files is a chain of these.

* `length_sessionText_le` — how long a session file is at most;
* `login_waits`, `finishLogin_succeeds` — a login without a second factor;
* `setTotp_waits`, `finishSetTotp_turns`, `finishSetTotp_stays` — a change of the second factor.

The other modules say what a call found and left when it succeeded.  This one says when it does,
which is needed for the runs that show that those statements are not empty.
-/

/-! ### Room for the session file

A row has as many characters as its texts allow, and an escape takes at most six for one. -/

/-- An escape takes six characters at most. -/
theorem length_escapeChar_le (c : Char) : (Json.escapeChar c).length ≤ 6 := by
  unfold Json.escapeChar
  repeat' split
  all_goals simp [Json.hexPair]

/-- A character takes six characters at most, as Go writes it. -/
theorem length_goChar_le (c : Char) : (Json.goChar c).length ≤ 6 := by
  by_cases hescape : Json.escapeChar c = [c]
  · by_cases hspecial : c ∈ ['<', '>', '&', '\u2028', '\u2029']
    · have hall : ∀ c ∈ ['<', '>', '&', '\u2028', '\u2029'], (Json.goChar c).length ≤ 6 :=
        forall_of_all (by decide)
      exact hall c hspecial
    · rw [Json.goChar_plain hescape hspecial]
      exact Nat.le_of_ble_eq_true rfl
  · -- an escaped character is a control character, a quote or a backslash
    have hsmall : c.toNat < 128 := by
      by_contra hlarge
      rw [not_lt] at hlarge
      refine hescape ?_
      have hne : ∀ d : Char, d.toNat < 128 → c ≠ d := by
        rintro d hd rfl
        omega
      unfold Json.escapeChar
      rw [if_neg (hne _ (by decide)), if_neg (hne _ (by decide)), if_neg (hne _ (by decide)),
        if_neg (hne _ (by decide)), if_neg (hne _ (by decide)), if_neg (hne _ (by decide)),
        if_neg (hne _ (by decide)), if_neg (by omega)]
    have hall : ∀ n ∈ List.range 128, (Json.goChar (Char.ofNat n)).length ≤ 6 :=
      forall_of_all (by decide)
    rw [← Char.ofNat_toNat c]
    exact hall c.toNat (List.mem_range.mpr hsmall)

/-- A text takes six characters for each of its own at most, and its quotes. -/
theorem length_goString_le (s : String) : (Json.goString s).length ≤ 6 * s.toList.length + 2 := by
  rw [Json.goString_eq]
  induction s.toList with
  | nil => exact Nat.le_refl _
  | cons c l ih =>
    have hc := length_goChar_le c
    simp only [List.flatMap_cons, List.length_cons, List.length_append] at ih ⊢
    omega

/-- The characters of a row. -/
def PersistedSession.size (row : PersistedSession) : ℕ :=
  ([row.tokenHash, row.id, row.username, row.profile, row.credentialFingerprint, row.browser,
    row.ip, row.createdAt, row.lastSeenAt, row.expiresAt].map fun s => s.toList.length).sum

/-- A session of the file has a bounded length. -/
theorem PersistedSession.length_goJson_le (row : PersistedSession) :
    row.goJson.length ≤ 6 * row.size + 160 := by
  have h : ∀ s, (Json.goString s).length ≤ 6 * s.toList.length + 2 := length_goString_le
  have hnames : ["\x7b\"token_hash\":", ",\"id\":", ",\"username\":", ",\"profile\":",
      ",\"credential_fingerprint\":", ",\"browser\":", ",\"ip\":", ",\"created_at\":",
      ",\"last_seen_at\":", ",\"expires_at\":", "\x7d"].map (fun s : String => s.toList.length)
      = [14, 6, 12, 11, 26, 11, 6, 14, 16, 14, 1] := by decide
  simp only [List.map_cons, List.map_nil, List.cons.injEq, and_true] at hnames
  obtain ⟨n1, n2, n3, n4, n5, n6, n7, n8, n9, n10, n11⟩ := hnames
  unfold PersistedSession.goJson PersistedSession.size
  simp only [List.length_append, List.map_cons, List.map_nil, List.sum_cons, List.sum_nil,
    n1, n2, n3, n4, n5, n6, n7, n8, n9, n10, n11]
  have h1 := h row.tokenHash
  have h2 := h row.id
  have h3 := h row.username
  have h4 := h row.profile
  have h5 := h row.credentialFingerprint
  have h6 := h row.browser
  have h7 := h row.ip
  have h8 := h row.createdAt
  have h9 := h row.lastSeenAt
  have h10 := h row.expiresAt
  omega

/-- The rows of the file have a bounded length. -/
theorem PersistedSessionFile.length_goRows_le {rows : List PersistedSession} {n : ℕ}
    (h : ∀ row ∈ rows, row.size ≤ n) : (goRows rows).length ≤ rows.length * (6 * n + 161) := by
  induction rows with
  | nil => exact Nat.zero_le _
  | cons row rows ih =>
    have hrow := row.length_goJson_le
    have hsize := h row List.mem_cons_self
    have hrest := ih fun r hr => h r (List.mem_cons_of_mem _ hr)
    have hmul : (row :: rows).length * (6 * n + 161)
        = rows.length * (6 * n + 161) + (6 * n + 161) := by
      rw [List.length_cons, Nat.succ_mul]
    rw [hmul]
    cases rows with
    | nil =>
      show row.goJson.length ≤ _
      omega
    | cons next rows =>
      show (row.goJson ++ ',' :: goRows (next :: rows)).length ≤ _
      rw [List.length_append, List.length_cons]
      omega

/-- **The session file is not long** if its texts are not. -/
theorem length_sessionText_le {sessions : Table String Session} {n : ℕ}
    (h : ∀ key x, sessions.get? key = some x → (x.persisted key).size ≤ n) :
    (sessionText sessions).length ≤ 4 * (sessions.entries.length * (6 * n + 161) + 40) := by
  have hperm : (sessionRows sessions).Perm (sessions.entries.map fun e => e.2.persisted e.1) :=
    List.mergeSort_perm _ _
  have hlength : (sessionRows sessions).length = sessions.entries.length := by
    rw [hperm.length_eq, List.length_map]
  have hrows : (PersistedSessionFile.goRows (sessionRows sessions)).length
      ≤ sessions.entries.length * (6 * n + 161) := by
    rw [← hlength]
    refine PersistedSessionFile.length_goRows_le fun row hrow => ?_
    obtain ⟨⟨key, x⟩, hmem, rfl⟩ := List.mem_map.mp (hperm.mem_iff.mp hrow)
    exact h key x (Table.mem_entries.mp hmem)
  have hparts :
    ["\x7b\"version\":", toString sessionFileVersion.toInt, ",\"sessions\":", "]\x7d"].map
      (fun s : String => s.toList.length) = [11, 1, 12, 2] := by decide
  simp only [List.map_cons, List.map_nil, List.cons.injEq, and_true] at hparts
  obtain ⟨n1, n2, n3, n4⟩ := hparts
  refine le_trans (length_bytes_le _) (Nat.mul_le_mul_left 4 ?_)
  unfold PersistedSessionFile.goJson
  rw [String.toList_ofList]
  simp only [List.length_append, List.length_cons, n1, n2, n3, n4]
  omega

/-- The hash of a token has 43 characters. -/
theorem length_tokenHash (C : Crypto) (token : String) :
    (tokenHash C token).toList.length = 43 := by
  unfold tokenHash
  rw [Base64.length_urlSafeNoPad, Vector.length_toList]

/-- A fingerprint has 43 characters. -/
theorem length_fingerprint (C : Crypto) (c : Credentials) :
    (c.fingerprint C).toList.length = 43 := by
  unfold Credentials.fingerprint
  rw [Base64.length_urlSafeNoPad, Vector.length_toList]

/-- Eight sessions with 300 characters fit. -/
theorem sessionText_fits {sessions : Table String Session} (hfew : sessions.entries.length ≤ 8)
    (h : ∀ key x, sessions.get? key = some x → (x.persisted key).size ≤ 300) :
    (sessionText sessions).length ≤ sessionFileLimit := by
  have hlength := length_sessionText_le h
  have hmul := Nat.mul_le_mul_right (6 * 300 + 161) hfew
  unfold sessionFileLimit
  omega

/-! ### Logins

What a login without a second factor needs: an open store, the right password, a token that is
free, and writes that succeed. -/

variable {C : Crypto} {s : Store} {d : Disk}

/-- The store with one more login that waits. -/
def Store.waitLogin (C : Crypto) (s : Store) (request : LoginRequest) (account : Account) : Store :=
  let attempts := (allowAttempt s.state.attempts request.source request.now 1024).2
  { Store.sync { s with state := { s.state with attempts } } with
    logins := ⟨request, account.credentials, account.profile,
      account.credentials.fingerprint C⟩ :: s.logins }

/-- An account lets a login wait. -/
theorem login_waits {request : LoginRequest} {account : Account} (hclosed : s.closed = false)
    (hopen : s.state.storageFailed = false)
    (hshort : (80 < (bytes request.username).length || 128 < (bytes request.password).length)
      = false)
    (hsource : ¬ 80 < (bytes request.source).length)
    (hallowed : (allowAttempt s.state.attempts request.source request.now 1024).1 = true)
    (haccount : s.state.accounts.get? request.username = some account) :
    s.login C d request true = (.waiting, s.waitLogin C request account, d) := by
  unfold Store.login Store.transact startLogin Store.waitLogin
  simp only [hshort, hclosed, hopen, if_neg hsource, haccount, Bool.false_eq_true,
    Bool.not_true, if_false, Option.some_or]
  cases hresult : allowAttempt s.state.attempts request.source request.now 1024 with
  | mk allowed attempts =>
    rw [hresult] at hallowed
    cases hallowed
    rfl

/-- The sessions after a login. -/
def loggedInSessions (C : Crypto) (state : State) (p : PendingLogin) (account : Account)
    (token id : String) : Table String Session :=
  state.sessions.insert (tokenHash C token) (newSession C p account id state.handles)

/-- The store after a login. -/
def Store.loggedIn (C : Crypto) (s : Store) (p : PendingLogin) (account : Account)
    (token id : String) : Store :=
  Store.sync { s with
    logins := s.logins.erase p
    state := State.swap { s.state with handles := s.state.handles + 1 }
      (loggedInSessions C s.state p account token id) }

/-- A login without a second factor succeeds, if there is room and no session is expired. -/
theorem finishLogin_succeeds {p : PendingLogin} {env : LoginEnv} {account : Account}
    {token id : String} (hmem : p ∈ s.logins) (hpassed : p.passed C = true)
    (hclosed : s.closed = false) (hopen : s.state.storageFailed = false)
    (haccount : s.state.accounts.get? p.request.username = some account)
    (hprofile : account.profile = p.profile)
    (hprint : account.credentials.fingerprint C = p.fingerprint)
    (hoff : account.credentials.totpDisabled = true)
    (hlive : ∀ x ∈ s.state.sessions.values, p.request.now < x.expires)
    (hroom : s.state.sessions.entries.length < maxSessionsPerAccount)
    (htoken : drawToken (fun token => s.state.sessions.contains (tokenHash C token)) env.tokens
      = some token)
    (hid : drawToken (fun id => s.state.sessions.values.any fun x => x.id == id) env.ids = some id)
    (hrange : p.request.now + loginLifetime ≤ maxUtc)
    (hfits : (sessionText (loggedInSessions C s.state p account token id)).length
      ≤ sessionFileLimit) (hwrite : env.sessions = .done) :
    s.finishLogin C d p .done true env
      = (.login ⟨.succeeded, some token⟩, s.loggedIn C p account token id,
          { d with sessions := some (sessionText
          (loggedInSessions C s.state p account token id)) }) := by
  have hnone :
    (s.state.sessions.values.any fun x => decide (x.expires ≤ p.request.now)) = false := by
    rw [List.any_eq_false]
    intro x hx
    rw [decide_eq_true_eq, not_le]
    exact hlive x hx
  have hkeep : makeRoom s.state.sessions p.request.username env.pick = s.state.sessions := by
    unfold makeRoom
    rw [if_neg]
    rw [not_le]
    exact lt_of_le_of_lt List.countP_le_length hroom
  unfold Store.finishLogin Store.transact commitLogin spendStep mintSession insertSession Tx.prune
    Tx.saveSessions Disk.writeSessions Store.loggedIn loggedInSessions newSession
  unfold loggedInSessions newSession at hfits
  rw [hprint] at hfits
  simp only [hmem, not_true_eq_false, if_false, hpassed, Bool.not_true, Bool.false_eq_true, hclosed,
    hopen, haccount, hprofile, hprint, ne_eq, decide_false, Bool.or_self, hoff, Bool.false_and,
    if_true, hnone, Bool.not_false, hkeep, htoken, hid, not_lt.mpr hrange, Option.map_some,
    Option.getD_some, not_lt.mpr hfits, hwrite]

/-- One draw that is free. -/
theorem drawToken_free {taken : String → Bool} {drawn : Vector UInt8 32}
    (h : taken (Base64.urlSafeNoPad drawn.toList) = false) :
    drawToken taken [drawn] = some (Base64.urlSafeNoPad drawn.toList) := by
  rw [drawToken, h]
  rfl

/-! ### The second factor

A change needs a session of its own, a password and a code, and a step later than the last one. -/

/-- A file that holds the credentials is not changed. -/
theorem unchanged_self {path : Option String} {c : Credentials} (h : d.credentials path = some c) :
    d.unchanged C path c = true := by
  unfold Disk.unchanged
  rw [h, Option.any_some, beq_self_eq_true, beq_self_eq_true, Bool.and_self]

/-- Where no session has expired there is nothing to prune. -/
theorem prune_nothing {t : Tx} {now : ℤ} {w : Write} (hopen : t.state.storageFailed = false)
    (hlive : ∀ x ∈ t.state.sessions.values, now < x.expires) : t.prune now w = (true, t) := by
  have hnone : (t.state.sessions.values.any fun x => decide (x.expires ≤ now)) = false := by
    rw [List.any_eq_false]
    intro x hx
    rw [decide_eq_true_eq, not_le]
    exact hlive x hx
  unfold Tx.prune
  rw [if_neg (by rw [hopen]; exact Bool.false_ne_true), hnone, Bool.not_false, if_pos rfl]

/-- What a change asks of the store: a session of the account that made it, and the account. -/
structure Asks (C : Crypto) (s : Store) (token : String) (now : ℤ) (x : Session)
    (account : Account) : Prop where
  notClosed : s.closed = false
  notFailed : s.state.storageFailed = false
  live : ∀ y ∈ s.state.sessions.values, now < y.expires
  session : s.state.sessions.get? (tokenHash C token) = some x
  found : s.state.accounts.get? x.username = some account
  profile : x.profile = account.profile
  fingerprint : x.fingerprint = account.credentials.fingerprint C

/-- The store with one more change that waits. -/
def Store.waitChange (C : Crypto) (s : Store) (request : SecurityRequest) (x : Session)
    (account : Account) : Store :=
  let securityAttempts := (allowAttempt s.state.securityAttempts
    (x.username ++ "\x00" ++ account.profile) request.now 32).2
  { Store.sync { s with state := { s.state with securityAttempts } } with
    changes := ⟨request, x.username, account.profile, account.credentials,
      account.credentials.fingerprint C⟩ :: s.changes }

/-- A change waits. -/
theorem setTotp_waits {request : SecurityRequest} {x : Session} {account : Account} {prune : Write}
    (h : Asks C s request.token request.now x account)
    (hshort : (128 < (bytes request.password).length || 16 < (bytes request.code).length) = false)
    (hallowed : (allowAttempt s.state.securityAttempts (x.username ++ "\x00" ++ account.profile)
      request.now 32).1 = true) :
    s.setTotp C d request true prune = (.waiting, s.waitChange C request x account, d) := by
  have hprune : Tx.prune ⟨s.state, d⟩ request.now prune = (true, ⟨s.state, d⟩) :=
    prune_nothing h.notFailed h.live
  unfold Store.setTotp Store.transact total startChange Store.waitChange
  simp only [hshort, Bool.false_eq_true, if_false, h.notClosed, Bool.not_true, hprune, h.session,
    h.found, h.profile, h.fingerprint, ne_eq, not_true_eq_false, decide_false, Bool.or_self]
  cases hresult : allowAttempt s.state.securityAttempts (x.username ++ "\x00" ++ account.profile)
    request.now 32 with
  | mk allowed attempts =>
    rw [hresult] at hallowed
    cases hallowed
    rfl

/-- What a change that waits asks of the store. -/
structure Confirms (C : Crypto) (s : Store) (p : PendingChange) (env : ChangeEnv) (x : Session)
    (account : Account) : Prop extends
    Asks C s p.request.token (max p.request.now env.clock) x account where
  waits : p ∈ s.changes
  passed : p.passed C = true
  username : x.username = p.username
  samePrint : account.credentials.fingerprint C = p.fingerprint
  sameProfile : account.profile = p.profile
  later : account.credentials.lastStep < p.step C

/-- A change to what is there already is answered with `Ok`, and nothing else happens. -/
theorem finishSetTotp_stays {p : PendingChange} {env : ChangeEnv} {x : Session} {account : Account}
    (h : Confirms C s p env x account)
    (hthere : p.request.enabled ≠ account.credentials.totpDisabled) :
    s.finishSetTotp C d p .done true env
      = (.security .ok, Store.sync { s with changes := s.changes.erase p }, d) := by
  have hprune : Tx.prune ⟨s.state, d⟩ (max p.request.now env.clock) env.prune
      = (true, ⟨s.state, d⟩) := prune_nothing h.notFailed h.live
  have haccount := h.found
  rw [h.username] at haccount
  have hprofile : x.profile = p.profile := h.profile.trans h.sameProfile
  have hprint : x.fingerprint = p.fingerprint := h.fingerprint.trans h.samePrint
  unfold Store.finishSetTotp Store.transact total commitChange
  simp only [h.waits, not_true_eq_false, if_false, h.passed, Bool.not_true, Bool.false_eq_true,
    h.notClosed, hprune, h.session, h.username, hprofile, hprint, ne_eq, decide_false, Bool.or_self,
    haccount, h.sameProfile, h.samePrint, not_le.mpr h.later, hthere, not_false_eq_true, if_true]

/-- The store after a change. -/
def Store.changed (C : Crypto) (s : Store) (p : PendingChange) (account : Account) : Store :=
  Store.sync { s with
    changes := s.changes.erase p
    state := State.swap { s.state with
        accounts := s.state.accounts.modify p.username fun a =>
          { a with credentials := changedCredentials C p account } }
      (changedSessions C s.state p account) }

/-- The files after a change. -/
def changedDisk (C : Crypto) (d : Disk) (state : State) (p : PendingChange) (account : Account) :
    Disk :=
  { d.setCredentials account.path (changedCredentials C p account) with
    sessions := some (sessionText (changedSessions C state p account)) }

/-- The switch is turned, if the files are as they were read and can be written. -/
theorem finishSetTotp_turns {p : PendingChange} {env : ChangeEnv} {x : Session} {account : Account}
    (h : Confirms C s p env x account)
    (hturn : p.request.enabled = account.credentials.totpDisabled)
    (hsame : d.unchanged C account.path account.credentials = true) (hbackup : env.backup = true)
    (hcredential : env.credential = .done)
    (hfits : (sessionText (changedSessions C s.state p account)).length ≤ sessionFileLimit)
    (hsessions : env.sessions = .done) :
    s.finishSetTotp C d p .done true env
      = (.security .ok, s.changed C p account, changedDisk C d s.state p account) := by
  have hprune : Tx.prune ⟨s.state, d⟩ (max p.request.now env.clock) env.prune
      = (true, ⟨s.state, d⟩) := prune_nothing h.notFailed h.live
  have haccount := h.found
  rw [h.username] at haccount
  have hprofile : x.profile = p.profile := h.profile.trans h.sameProfile
  have hprint : x.fingerprint = p.fingerprint := h.fingerprint.trans h.samePrint
  unfold Store.finishSetTotp Store.transact total commitChange Store.changed
  simp only [h.waits, not_true_eq_false, if_false, h.passed, Bool.not_true, Bool.false_eq_true,
    h.notClosed, hprune, h.session, h.username, hprofile, hprint, ne_eq, decide_false, Bool.or_self,
    haccount, h.sameProfile, h.samePrint, not_le.mpr h.later, hturn]
  unfold applyChange Disk.writeCredential Tx.saveSessions Disk.writeSessions
  unfold changedSessions changedCredentials at hfits
  simp only [hsame, hbackup, Bool.and_self, Bool.not_true, Bool.false_eq_true, if_false,
    hcredential, not_lt.mpr hfits, hsessions]
  rfl

/-! ### An account

One account whose hashes are spelled out, so that the calls on it can be evaluated. -/

namespace Example

/-- The hashes of one account with the password `correct horse`, whose secret is the bytes 1 to 20.
    SHA-256 is that of its two fingerprint texts, which have 177 and 198 bytes, and of the two
    tokens of 32 bytes 1 and 2; HMAC-SHA1 is that of the steps around 58333333. -/
def crypto : Crypto where
  sha256 l :=
    if l.length = 177 then
      #v[205, 53, 5, 166, 54, 228, 245, 131, 151, 48, 179, 123, 18, 44, 24, 7, 141, 44, 170, 166,
        115, 250, 172, 111, 124, 53, 29, 112, 24, 44, 237, 57]
    else if l.length = 198 then
      #v[104, 199, 176, 39, 104, 123, 96, 99, 138, 90, 92, 78, 44, 125, 179, 254, 248, 255, 232, 70,
        159, 75, 6, 114, 224, 3, 64, 77, 251, 168, 15, 209]
    else if l.getD 1 0 = 81 then
      #v[86, 213, 250, 115, 51, 246, 215, 71, 219, 66, 194, 57, 64, 126, 93, 164, 195, 47, 76, 121,
        243, 93, 9, 43, 19, 79, 211, 90, 64, 45, 156, 92]
    else
      #v[108, 29, 99, 187, 218, 180, 55, 197, 67, 104, 203, 189, 136, 134, 168, 134, 167, 154, 217,
        119, 41, 126, 38, 94, 235, 241, 245, 245, 240, 21, 51, 185]
  pbkdf2 _ _ :=
    #v[110, 14, 71, 176, 127, 177, 44, 198, 96, 140, 224, 3, 236, 51, 94, 100, 232, 10, 253, 151,
      190, 41, 22, 194, 183, 94, 122, 204, 169, 86, 182, 95]
  hmacSha1 _ message :=
    if message = beBytes 58333332 then
      #v[113, 123, 212, 37, 166, 120, 102, 222, 233, 38, 141, 108, 112, 201, 92, 135, 190, 113, 119,
        244]
    else if message = beBytes 58333333 then
      #v[207, 24, 233, 85, 147, 236, 103, 92, 240, 8, 65, 0, 163, 229, 191, 155, 38, 108, 113, 77]
    else
      #v[33, 248, 186, 83, 113, 242, 226, 248, 248, 201, 220, 27, 62, 137, 68, 114, 118, 36, 30, 98]
  base32 _ := some ((List.range 20).map fun i => UInt8.ofNat (i + 1))

/-- A login reads no session file. -/
def serde : Serde := ⟨fun _ => [], fun _ => 0, fun _ => none⟩

/-- The account, with its second factor off. -/
def credentials : Credentials where
  username := "owner"
  salt := (List.range 32).map UInt8.ofNat
  hash := [110, 14, 71, 176, 127, 177, 44, 198, 96, 140, 224, 3, 236, 51, 94, 100, 232, 10, 253,
    151, 190, 41, 22, 194, 183, 94, 122, 204, 169, 86, 182, 95]
  totpSecret := "AEBAGBAFAYDQQCIKBMGA2DQPCAIREEYU"
  lastStep := 0
  totpDisabled := true

def account : Account := ⟨credentials, none, ""⟩

/-- The files: there was no login yet. -/
def disk : Disk := ⟨credentials, .empty, none⟩

/-- The 15th of June 2025, in nanoseconds. -/
def now : ℤ := 1750000000 * 1000000000

/-- No time is read. -/
def noTime : String → Option ℤ := fun _ => none

/-- The store after a start. -/
def opened : Store := .ofState (.start (Table.empty.insert "owner" account) [])

/-- The gateway starts with the owner's file. -/
theorem disk_started : World.step crypto serde noTime ⟨disk, none⟩ (.restart now .done)
    = (.started (.ok ()), ⟨disk, some opened⟩) := by
  have hvalid : credentials.valid crypto = true := by decide
  have haccounts : loadAccounts crypto disk = .ok (Table.empty.insert "owner" account) := by
    unfold loadAccounts
    rw [if_neg (by rw [show disk.primary = credentials from rfl, hvalid]; exact Bool.false_ne_true),
      if_neg (by decide)]
    rfl
  unfold World.step loadState
  rw [haccounts]
  rfl

/-- A login from an address. -/
def request (ip : String) : LoginRequest := ⟨"owner", "correct horse", "", ip, ip, "Firefox", now⟩

def pending (ip : String) : PendingLogin :=
  ⟨request ip, credentials, "", credentials.fingerprint crypto⟩

/-- The token of 32 equal bytes. -/
def token (n : UInt8) : String := Base64.urlSafeNoPad (Vector.replicate 32 n).toList

/-- A login whose writes succeed. -/
def loginEnv (n : UInt8) : LoginEnv :=
  ⟨.done, .done, .done, 0, [Vector.replicate 32 n], [Vector.replicate 32 n]⟩

/-- The password is right. -/
theorem pending_passed (ip : String) : (pending ip).passed crypto = true := rfl

/-- A token has 43 characters. -/
theorem length_token (n : UInt8) : (token n).toList.length = 43 := by
  unfold token
  rw [Base64.length_urlSafeNoPad, Vector.length_toList]

/-- A session of the account, whatever its fingerprint and the time it was seen, is short. -/
theorem session_size {key token : String} {x : Session} (hkey : key = tokenHash crypto token)
    (hid : x.id.toList.length = 43) (hname : x.username = "owner") (hprofile : x.profile = "")
    (hprint : x.fingerprint.toList.length = 43) (hbrowser : x.browser = "Firefox")
    (hip : x.ip.toList.length ≤ 10) (hcreated : x.created = now) (hseen : x.seen = now)
    (hexpires : x.expires = now + loginLifetime) : (x.persisted key).size ≤ 300 := by
  have htexts : [(goTime now), (goTime (now + loginLifetime)), "owner", "", "Firefox"].map
      (fun s : String => s.toList.length) = [30, 30, 5, 0, 7] := by decide
  simp only [List.map_cons, List.map_nil, List.cons.injEq, and_true] at htexts
  obtain ⟨n1, n2, n3, n4, n5⟩ := htexts
  unfold PersistedSession.size Session.persisted
  simp only [hkey, length_tokenHash, hid, hname, hprofile, hprint, hbrowser, hcreated, hseen,
    hexpires, List.map_cons, List.map_nil, List.sum_cons, List.sum_nil, n1, n2, n3, n4, n5]
  omega

/-- The first login waits. -/
def waiting : Store := opened.waitLogin crypto (request "127.0.0.1") account

/-- The store after the first login. -/
def first : Store := waiting.loggedIn crypto (pending "127.0.0.1") account (token 1) (token 1)

/-- The session of the first login. -/
def session : Session := newSession crypto (pending "127.0.0.1") account (token 1) 0

def firstSessions : Table String Session := Table.empty.insert (tokenHash crypto (token 1)) session

/-- The files after the first login. -/
def firstDisk : Disk := { disk with sessions := some (sessionText firstSessions) }

/-- The login waits for its hash. -/
theorem waiting_started : opened.login crypto disk (request "127.0.0.1") true
    = (.waiting, waiting, disk) :=
  login_waits rfl rfl (by decide) (by decide) (by decide) Table.get?_insert_self

/-- It succeeds with the first token. -/
theorem first_finished :
    waiting.finishLogin crypto disk (pending "127.0.0.1") .done true (loginEnv 1)
    = (.login ⟨.succeeded, some (token 1)⟩, first, firstDisk) := by
  refine finishLogin_succeeds (List.mem_singleton.mpr rfl) (pending_passed _) rfl rfl
    Table.get?_insert_self rfl rfl rfl (fun _ hx => (nomatch hx)) (by decide) rfl rfl
      (by decide) ?_ rfl
  refine sessionText_fits (by decide) fun key x hx => ?_
  rcases Table.get?_insert_some hx with ⟨rfl, rfl⟩ | hnone
  · exact session_size rfl (length_token 1) rfl rfl (length_fingerprint _ _) (by decide) (by decide)
      rfl rfl rfl
  · cases hnone

/-- Nothing happens to the account. -/
theorem first_account : first.state.accounts.get? "owner" = some account := Table.get?_insert_self

/-- One second later. -/
def later : ℤ := now + 1000000000

/-- The session of the first login asks for the switch to be on or off. -/
def change (instant : ℤ) (code : String) (enabled : Bool) : SecurityRequest :=
  ⟨token 1, "correct horse", code, enabled, instant⟩

def pendingChange (instant : ℤ) (code : String) (enabled : Bool) (c : Credentials) :
    PendingChange :=
  ⟨change instant code enabled, "owner", "", c, c.fingerprint crypto⟩

/-- A change whose writes succeed. -/
def changeEnv (instant : ℤ) : ChangeEnv := ⟨instant, true, .done, .done, .done⟩

/-- The store has one session, that of the first login. -/
structure Holds (s : Store) (x : Session) (a : Account) : Prop where
  notClosed : s.closed = false
  notFailed : s.state.storageFailed = false
  sessions : ∀ key y, s.state.sessions.get? key = some y ↔ key = tokenHash crypto (token 1) ∧ y = x
  single : s.state.sessions.entries.length ≤ 1
  found : s.state.accounts.get? "owner" = some a
  profile : a.profile = ""
  own : ∃ fingerprint, x = { session with fingerprint }
  print : x.fingerprint = a.credentials.fingerprint crypto

variable {s : Store} {x : Session} {a : Account}

/-- The state after it is one of those the calls below start from. -/
theorem first_holds : Holds first session account where
  notClosed := rfl
  notFailed := rfl
  sessions key y := by
    show (Table.empty.insert (tokenHash crypto (token 1)) session).get? key = some y ↔ _
    rw [Table.get?_insert]
    split
    · rename_i hkey
      rw [Option.some_inj, eq_comm]
      exact (and_iff_right hkey).symm
    · rename_i hkey
      exact ⟨(fun h => by cases h), fun h => absurd h.1 hkey⟩
  single := Nat.le_refl _
  found := first_account
  profile := rfl
  own := ⟨_, rfl⟩
  print := rfl

/-- The texts of the session are short, and it lives long enough. -/
theorem session_texts : session.browser = "Firefox" ∧ session.ip.toList.length ≤ 10 ∧
    later < session.expires := by decide

/-- The second instant is no earlier. -/
theorem now_le_later : now ≤ later := by decide

/-- A session of the first login has room. -/
theorem Holds.size (h : Holds s x a) : (x.persisted (tokenHash crypto (token 1))).size ≤ 300 := by
  obtain ⟨fingerprint, rfl⟩ := h.own
  refine session_size rfl (length_token 1) rfl rfl ?_ session_texts.1 session_texts.2.1 rfl rfl rfl
  rw [h.print]
  exact length_fingerprint _ _

/-- The file of such a state is not too large. -/
theorem Holds.fits (h : Holds s x a) :
    (sessionText s.state.sessions).length ≤ sessionFileLimit := by
  refine sessionText_fits (le_trans h.single (by decide)) fun key y hy => ?_
  obtain ⟨rfl, rfl⟩ := (h.sessions key y).mp hy
  exact h.size

/-- In such a state no session has expired. -/
theorem Holds.live (h : Holds s x a) {instant : ℤ} (hinstant : instant ≤ later) :
    ∀ y ∈ s.state.sessions.values, instant < y.expires := by
  intro y hy
  obtain ⟨key, hkey⟩ := Table.mem_values.mp hy
  obtain ⟨fingerprint, hx⟩ := h.own
  rw [((h.sessions key y).mp hkey).2, hx]
  exact lt_of_le_of_lt hinstant session_texts.2.2

/-- In such a state the session may ask for a change. -/
theorem Holds.asks (h : Holds s x a) {instant : ℤ} (hinstant : instant ≤ later) :
    Asks crypto s (token 1) instant x a := by
  have hsession := (h.sessions _ _).mpr ⟨rfl, rfl⟩
  have hprint := h.print
  have hlive := h.live hinstant
  obtain ⟨fingerprint, rfl⟩ := h.own
  exact ⟨h.notClosed, h.notFailed, hlive, hsession, h.found, h.profile.symm, hprint⟩

/-- A change that waits. -/
theorem Holds.confirms (h : Holds s x a) {instant : ℤ} {code : String} {enabled : Bool}
    (hinstant : instant ≤ later)
    (hwaits : pendingChange instant code enabled a.credentials ∈ s.changes)
    (hpassed : (pendingChange instant code enabled a.credentials).passed crypto = true)
    (hlater : a.credentials.lastStep <
      (pendingChange instant code enabled a.credentials).step crypto) :
    Confirms crypto s (pendingChange instant code enabled a.credentials)
    (changeEnv instant) x a := by
  have hasks : Asks crypto s (token 1) (max instant instant) x a := by
    rw [max_self]
    exact h.asks hinstant
  obtain ⟨fingerprint, rfl⟩ := h.own
  exact ⟨hasks, hwaits, hpassed, rfl, rfl, h.profile, hlater⟩

/-- It stays such a state when a login waits. -/
theorem Holds.waitLogin (h : Holds s x a) (request : LoginRequest) :
    Holds (s.waitLogin crypto request a) x a := by
  obtain ⟨state, closed, registry, _, logins, changes⟩ := s
  cases closed <;>
    exact ⟨h.notClosed, h.notFailed, h.sessions, h.single, h.found, h.profile, h.own, h.print⟩

/-- It stays such a state when a change waits. -/
theorem Holds.waitChange (h : Holds s x a) (request : SecurityRequest) :
    Holds (s.waitChange crypto request x a) x a := by
  obtain ⟨state, closed, registry, _, logins, changes⟩ := s
  cases closed <;>
    exact ⟨h.notClosed, h.notFailed, h.sessions, h.single, h.found, h.profile, h.own, h.print⟩

/-- It stays such a state when the handles are brought up to date. -/
theorem Holds.sync (h : Holds s x a) (changes : List PendingChange) :
    Holds (Store.sync { s with changes }) x a := by
  obtain ⟨state, closed, registry, _, logins, _⟩ := s
  cases closed <;>
    exact ⟨h.notClosed, h.notFailed, h.sessions, h.single, h.found, h.profile, h.own, h.print⟩

/-- After a change the session has the new fingerprint. -/
theorem Holds.changed (h : Holds s x a) (instant : ℤ) (code : String) (enabled : Bool)
    (c : Credentials) :
    Holds (s.changed crypto (pendingChange instant code enabled c) a)
      { x with fingerprint :=
        (changedCredentials crypto (pendingChange instant code enabled c) a).fingerprint crypto }
      { a with credentials :=
        changedCredentials crypto (pendingChange instant code enabled c) a } := by
  generalize hp : pendingChange instant code enabled c = p
  have htoken : p.request.token = token 1 := by rw [← hp]; rfl
  have hname : p.username = "owner" := by rw [← hp]; rfl
  -- the other sessions of the account go, and the one that asked is bound to the new fingerprint
  have hsessions : ∀ key y, (changedSessions crypto s.state p a).get? key = some y ↔
      key = tokenHash crypto (token 1) ∧
        y = { x with fingerprint := (changedCredentials crypto p a).fingerprint crypto } := by
    intro key y
    unfold changedSessions
    rw [Table.get?_modify, htoken]
    by_cases hkey : key = tokenHash crypto (token 1)
    · have hget := (h.sessions key x).mpr ⟨hkey, rfl⟩
      have hkept : (s.state.sessions.retain fun candidate y =>
          candidate == tokenHash crypto (token 1) || y.username ≠ p.username ||
            y.profile ≠ p.profile).get? key = some x :=
        Table.get?_retain.mpr ⟨hget, by simp [hkey]⟩
      rw [if_pos hkey, hkept, Option.map_some, Option.some_inj, eq_comm]
      exact (and_iff_right hkey).symm
    · rw [if_neg hkey, Table.get?_retain]
      constructor
      · rintro ⟨hget, -⟩
        exact absurd ((h.sessions key y).mp hget).1 hkey
      · rintro ⟨heq, -⟩
        exact absurd heq hkey
  -- the account has the new setting
  have haccount : (s.state.accounts.modify p.username fun b =>
      { b with credentials := changedCredentials crypto p a }).get? "owner"
      = some { a with credentials := changedCredentials crypto p a } := by
    rw [hname, Table.get?_modify, if_pos rfl, h.found]
    rfl
  have hsingle : (changedSessions crypto s.state p a).entries.length ≤ 1 := by
    unfold changedSessions
    refine le_trans (le_of_eq (List.length_map _)) (le_trans (List.length_filter_le _ _) h.single)
  have hown : ∃ fingerprint, { x with
      fingerprint := (changedCredentials crypto p a).fingerprint crypto }
      = { session with fingerprint } := by
    obtain ⟨fingerprint, rfl⟩ := h.own
    exact ⟨_, rfl⟩
  obtain ⟨state, closed, registry, _, logins, changes⟩ := s
  cases closed <;>
    exact ⟨h.notClosed, h.notFailed, hsessions, hsingle, haccount, h.profile, hown, rfl⟩

/-- The run up to the first login. -/
def firstHistory : List Entry :=
  [⟨⟨disk, some waiting⟩, .finishLogin (pending "127.0.0.1") .done true (loginEnv 1),
      .login ⟨.succeeded, some (token 1)⟩, ⟨firstDisk, some first⟩⟩,
    ⟨⟨disk, some opened⟩, .login (request "127.0.0.1") true, .waiting, ⟨disk, some waiting⟩⟩,
    ⟨⟨disk, none⟩, .restart now .done, .started (.ok ()), ⟨disk, some opened⟩⟩]

/-- The calls so far are a run. -/
theorem first_run : Run crypto serde noTime disk firstHistory ⟨firstDisk, some first⟩ := by
  have hstart : Run crypto serde noTime disk _ _ := Run.step _ _ (.restart now .done) .new
  unfold World.entry at hstart
  rw [disk_started] at hstart
  have hwait := hstart.call (.login (request "127.0.0.1") true) (fun _ _ h => (nomatch h))
    waiting_started
  exact hwait.call (.finishLogin (pending "127.0.0.1") .done true (loginEnv 1))
    (fun _ _ h => (nomatch h)) first_finished

end Example

end Hmux.Auth
