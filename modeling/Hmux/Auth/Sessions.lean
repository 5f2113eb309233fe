import Hmux.Auth.Accounts
import Hmux.Auth.Progress
import Mathlib.Data.List.MinMax

namespace Hmux.Auth

open Lib

/-!
# No session outlives its credentials

In every run of the store, whatever is interleaved and whatever fails, the sessions of a store that
has not failed belong to accounts as they are now, eight of each at most, and no two have the same
id (`Sound`).  A file only gets in if it says the same.

* `Sound.move` — one move;
* `Loads.sound` — a start;
* `sessions_current` — a whole run.

An account changes under the logins that wait for the hash and under the sessions that are stored.
Both are tied to it by its fingerprint, and the switch is part of that fingerprint; so a login that
waits while the switch is turned finds another fingerprint, and the sessions of the others are
dropped by the change itself.
-/

/-- The sessions of a state belong to its accounts. -/
structure Sound (C : Crypto) (s : State) : Prop where
  /-- The account still has the profile and the fingerprint of the session. -/
  owned : ∀ key x, s.sessions.get? key = some x → ∃ account,
    s.accounts.get? x.username = some account ∧ account.profile = x.profile ∧
      account.credentials.fingerprint C = x.fingerprint
  room : ∀ username, s.sessions.entries.countP (fun e => e.2.username == username)
    ≤ maxSessionsPerAccount
  ids : ∀ key key' x x', s.sessions.get? key = some x → s.sessions.get? key' = some x' →
    x.id = x'.id → key = key'

variable {C : Crypto} {tokens ids : List (Vector UInt8 32)} {t t' : Tx}

/-! ### The oldest session

The session that makes room is one of the account that logs in. -/

/-- There is an oldest session as long as there is one. -/
theorem oldest_some {sessions : Table String Session} {username : String} (pick : ℕ)
    (h : 0 < sessions.entries.countP fun e => e.2.username == username) :
    ∃ key x, oldest sessions username pick = some key ∧ sessions.get? key = some x ∧
      x.username = username := by
  unfold oldest
  dsimp only
  set own := sessions.entries.filter fun e => e.2.username == username with hown
  set first := own.filter fun e => own.all fun other => e.2.seen ≤ other.2.seen with hfirst
  have hne : own ≠ [] := by
    rw [List.countP_eq_length_filter, ← hown] at h
    exact List.ne_nil_of_length_pos h
  obtain ⟨e, he⟩ := Option.ne_none_iff_exists'.mp
    (mt List.argmin_eq_none.mp hne : own.argmin (fun e => e.2.seen) ≠ none)
  have hleast : ∀ other ∈ own, e.2.seen ≤ other.2.seen := by
    intro other hother
    have hle := not_lt.mp (List.not_lt_of_mem_argmin hother he)
    exact hle
  have hmem : e ∈ first := by
    rw [hfirst, List.mem_filter, List.all_eq_true]
    refine ⟨List.argmin_mem he, fun other hother => ?_⟩
    exact decide_eq_true (hleast other hother)
  have hpos : 0 < first.length := List.length_pos_of_mem hmem
  have hlt : pick % first.length < first.length := Nat.mod_lt _ hpos
  have hpicked : first[pick % first.length] ∈ first := List.getElem_mem hlt
  refine ⟨first[pick % first.length].1, first[pick % first.length].2, ?_, ?_, ?_⟩
  · rw [List.getElem?_map, List.getElem?_eq_getElem hlt]
    rfl
  · exact Table.mem_entries.mp (List.mem_filter.mp (List.mem_filter.mp hpicked).1).1
  · exact beq_iff_eq.mp (List.mem_filter.mp (List.mem_filter.mp hpicked).1).2

/-- Where room is made, only sessions of the account go. -/
theorem makeRoom_get? {sessions : Table String Session} {username key : String} {pick : ℕ}
    {x : Session} (h : (makeRoom sessions username pick).get? key = some x) :
    sessions.get? key = some x := by
  unfold makeRoom at h
  split at h
  · split at h
    · rw [Table.get?_erase] at h
      split at h
      · cases h
      · exact h
    · exact h
  · exact h

/-- There is room for one more. -/
theorem makeRoom_count {sessions : Table String Session} (username : String) (pick : ℕ)
    (h : ∀ name, sessions.entries.countP (fun e => e.2.username == name)
      ≤ maxSessionsPerAccount) (name : String) :
    (makeRoom sessions username pick).entries.countP (fun e => e.2.username == name)
      + (if name = username then 1 else 0) ≤ maxSessionsPerAccount := by
  have hle := h name
  unfold makeRoom
  split
  · rename_i hfull
    have hpos : 0 < maxSessionsPerAccount := by decide
    obtain ⟨key, x, hold, hget, hname⟩ := oldest_some pick (lt_of_lt_of_le hpos hfull)
    rw [hold]
    dsimp only
    split
    · rename_i heq
      subst heq
      have hlt := Table.countP_erase_lt (q := fun e => e.2.username == name) hget
        (beq_iff_eq.mpr hname)
      omega
    · exact le_trans (Table.countP_retain_le _ _) hle
  · rename_i hroom
    split
    · rename_i heq
      subst heq
      omega
    · exact hle

/-! ### Moves

Sessions are taken away, touched or added, and an addition comes with the account it was checked
against. -/

/-- Fewer sessions belong to the accounts too. -/
theorem Sound.retain {s : State} (h : Sound C s) (p : String → Session → Bool) :
    Sound C { s with sessions := s.sessions.retain p } where
  owned key x hx := h.owned key x (Table.get?_retain.mp hx).1
  room username := le_trans (Table.countP_retain_le p _) (h.room username)
  ids key key' x x' hx hx' := h.ids key key' x x' (Table.get?_retain.mp hx).1
    (Table.get?_retain.mp hx').1

/-- A change of one session that keeps its owner and its id. -/
theorem Sound.modify {s : State} (h : Sound C s) (key : String) (f : Session → Session)
    (hf : ∀ x, (f x).id = x.id ∧ (f x).username = x.username ∧ (f x).profile = x.profile ∧
      (f x).fingerprint = x.fingerprint) :
    Sound C { s with sessions := s.sessions.modify key f } := by
  have hget : ∀ k y, (s.sessions.modify key f).get? k = some y → ∃ x, s.sessions.get? k = some x ∧
      y.id = x.id ∧ y.username = x.username ∧ y.profile = x.profile ∧
      y.fingerprint = x.fingerprint := by
    intro k y hy
    rw [Table.get?_modify] at hy
    split at hy
    · obtain ⟨x, hx, rfl⟩ := Option.map_eq_some_iff.mp hy
      exact ⟨x, hx, hf x⟩
    · exact ⟨y, hy, rfl, rfl, rfl, rfl⟩
  refine ⟨fun k y hy => ?_, fun username => ?_, fun k k' y y' hy hy' hid => ?_⟩
  · obtain ⟨x, hx, -, hname, hprofile, hprint⟩ := hget k y hy
    rw [hname, hprofile, hprint]
    exact h.owned k x hx
  · rw [Table.countP_modify fun x _ => by rw [(hf x).2.1]]
    exact h.room username
  · obtain ⟨x, hx, hxid, -⟩ := hget k y hy
    obtain ⟨x', hx', hxid', -⟩ := hget k' y' hy'
    exact h.ids k k' x x' hx hx' (by rw [← hxid, ← hxid', hid])

/-- The sessions that take the place of others belong to the accounts. -/
theorem Sound.next {s : State} (h : Sound C s) {next : Table String Session} {handles : ℕ}
    (hnext : Next C tokens ids s next handles) : Sound C { s with sessions := next } := by
  cases hnext with
  | retain p => exact h.retain p
  | refresh key now x => exact h.modify key _ fun _ => ⟨rfl, rfl, rfl, rfl⟩
  | add p account pick token id _ _ haccount hprofile _ hfree hnew =>
    refine ⟨fun key x hx => ?_, fun username => ?_, fun key key' x x' hx hx' hid => ?_⟩
    · rw [Table.get?_insert] at hx
      split at hx
      · cases hx
        exact ⟨account, haccount, hprofile, rfl⟩
      · exact h.owned key x (makeRoom_get? hx)
    · have hroom := makeRoom_count p.request.username pick h.room username
      refine le_trans (Table.countP_insert_le _) (le_trans (Nat.add_le_add_left ?_ _) hroom)
      split
      · rename_i hname
        have hsame : p.request.username = username := beq_iff_eq.mp hname
        rw [if_pos hsame.symm]
      · exact Nat.zero_le _
    · rw [Table.get?_insert] at hx hx'
      split at hx
      · rename_i hkey
        split at hx'
        · rename_i hkey'
          rw [hkey, hkey']
        · cases hx
          exact absurd hid.symm (hnew key' x' hx')
      · split at hx'
        · cases hx'
          exact absurd hid (hnew key x hx)
        · exact h.ids key key' x x' (makeRoom_get? hx) (makeRoom_get? hx') hid

/-- The last step is not part of what a session is checked against. -/
theorem Sound.spend {s : State} (h : Sound C s) {username : String} {account : Account} (step : ℤ)
    (haccount : s.accounts.get? username = some account) :
    Sound C { s with accounts := s.accounts.modify username fun a =>
      { a with credentials := { account.credentials with lastStep := step } } } := by
  refine ⟨fun key x hx => ?_, h.room, h.ids⟩
  obtain ⟨a, ha, hprofile, hprint⟩ := h.owned key x hx
  rw [Table.get?_modify, ha]
  split
  · rename_i heq
    rw [heq, haccount] at ha
    cases ha
    exact ⟨_, rfl, hprofile, hprint⟩
  · exact ⟨a, rfl, hprofile, hprint⟩

/-- A session after a change of the switch: it made the change, or it is of another account. -/
theorem changedSessions_get? {s : State} (h : Sound C s) {p : PendingChange} {account : Account}
    (haccount : s.accounts.get? p.username = some account) (hprofile : account.profile = p.profile)
    {key : String} {y : Session} (hy : (changedSessions C s p account).get? key = some y) :
    ∃ x, s.sessions.get? key = some x ∧
      ((key = tokenHash C p.request.token ∧
        y = { x with fingerprint := (changedCredentials C p account).fingerprint C }) ∨
      (key ≠ tokenHash C p.request.token ∧ y = x ∧ x.username ≠ p.username)) := by
  unfold changedSessions at hy
  rw [Table.get?_modify] at hy
  split at hy
  · rename_i hkey
    obtain ⟨x, hx, rfl⟩ := Option.map_eq_some_iff.mp hy
    exact ⟨x, (Table.get?_retain.mp hx).1, .inl ⟨hkey, rfl⟩⟩
  · rename_i hkey
    obtain ⟨hx, hkept⟩ := Table.get?_retain.mp hy
    refine ⟨y, hx, .inr ⟨hkey, rfl, fun hname => ?_⟩⟩
    -- a session of the account has its profile
    obtain ⟨a, ha, hsame, -⟩ := h.owned key y hx
    rw [hname, haccount] at ha
    cases ha
    simp [hkey, hname, ← hsame, hprofile] at hkept

/-- After a change the sessions belong to the accounts. -/
theorem Sound.change (h : Sound C t.state) {p : PendingChange} {account : Account}
    (hturns : Turns C t p account) :
    Sound C { t.state with
      accounts := t.state.accounts.modify p.username fun a =>
        { a with credentials := changedCredentials C p account }
      sessions := changedSessions C t.state p account } := by
  have hget : ∀ key y, (changedSessions C t.state p account).get? key = some y → _ :=
    fun _ _ => changedSessions_get? h hturns.found hturns.profile
  refine ⟨fun key y hy => ?_, fun username => ?_, fun key key' y y' hy hy' hid => ?_⟩
  · obtain ⟨x, hx, ⟨hkey, rfl⟩ | ⟨-, rfl, hname⟩⟩ := hget key y hy
    · obtain ⟨x', hx', hname, hprofile⟩ := hturns.session
      have hsame : x = x' := Option.some.inj ((hkey ▸ hx).symm.trans hx')
      subst hsame
      refine ⟨{ account with credentials := changedCredentials C p account }, ?_, ?_, rfl⟩
      · show (t.state.accounts.modify _ _).get? x.username = _
        rw [hname, Table.get?_modify, if_pos rfl, hturns.found]
        rfl
      · exact hturns.profile.trans hprofile.symm
    · obtain ⟨a, ha, hrest⟩ := h.owned key y hx
      refine ⟨a, ?_, hrest⟩
      rw [Table.get?_modify, if_neg hname]
      exact ha
  · show (changedSessions C t.state p account).entries.countP _ ≤ _
    unfold changedSessions
    rw [Table.countP_modify]
    · exact le_trans (Table.countP_retain_le _ _) (h.room username)
    · intro _ _
      rfl
  · obtain ⟨x, hx, hcase⟩ := hget key y hy
    obtain ⟨x', hx', hcase'⟩ := hget key' y' hy'
    refine h.ids key key' x x' hx hx' ?_
    have hxid : y.id = x.id := by
      rcases hcase with ⟨-, rfl⟩ | ⟨-, rfl, -⟩ <;> rfl
    have hxid' : y'.id = x'.id := by
      rcases hcase' with ⟨-, rfl⟩ | ⟨-, rfl, -⟩ <;> rfl
    rw [← hxid, ← hxid', hid]

/-- **One move** keeps the sessions with their accounts. -/
theorem Sound.move (hmove : Move C tokens ids t t')
    (h : t.state.storageFailed = false → Sound C t.state)
    (hopen : t'.state.storageFailed = false) : Sound C t'.state := by
  cases hmove with
  | note attempts securityAttempts =>
    have hs := h hopen
    exact ⟨hs.owned, hs.room, hs.ids⟩
  | touch key now x hbefore => exact (h hbefore).modify key _ fun _ => ⟨rfl, rfl, rfl, rfl⟩
  | save next handles d hbefore hnext =>
    have hs := (h hbefore).next hnext
    exact ⟨hs.owned, hs.room, hs.ids⟩
  | spend username account step hbefore hspends => exact (h hbefore).spend step hspends.found
  | change p account d hbefore hturns =>
    have hs := (h hbefore).change hturns
    exact ⟨hs.owned, hs.room, hs.ids⟩
  | fail t' _ hfallen =>
    rw [hfallen.failed] at hopen
    cases hopen

/-- The table stays sound over the moves of a call. -/
theorem Sound.moves (hmoves : Moves C tokens ids t t')
    (h : t.state.storageFailed = false → Sound C t.state) :
    t'.state.storageFailed = false → Sound C t'.state := by
  induction hmoves with
  | refl => exact h
  | tail _ hmove ih => exact fun hopen => Sound.move hmove ih hopen

/-! ### Start

The rows that a start keeps are those whose account has their profile and fingerprint. -/

variable {S : Serde} {parseTime : String → Option ℤ}

/-- Every session is that of a row. -/
theorem loadSessions_mem {rows : List PersistedSession} {n : ℕ} {entries : List (String × Session)}
    (h : loadSessions parseTime rows n = some entries) {e : String × Session} (he : e ∈ entries) :
    ∃ row ∈ rows, ∃ cancel, e.1 = row.tokenHash ∧
      Session.fromRow parseTime row cancel = some e.2 := by
  induction rows generalizing n entries with
  | nil =>
    cases h
    cases he
  | cons row rows ih =>
    rw [loadSessions] at h
    split at h
    · rename_i s sessions hs hrest
      cases h
      rcases List.mem_cons.mp he with rfl | he
      · exact ⟨row, List.mem_cons_self, n, rfl, hs⟩
      · obtain ⟨r, hr, hrow⟩ := ih hrest he
        exact ⟨r, List.mem_cons_of_mem _ hr, hrow⟩
    · cases h

/-- What is the same for a row and its session is the same for all of them. -/
theorem loadSessions_map {β : Type} {f : PersistedSession → β} {g : String × Session → β}
    (hfg : ∀ row cancel x, Session.fromRow parseTime row cancel = some x →
      g (row.tokenHash, x) = f row)
    {rows : List PersistedSession} {n : ℕ} {entries : List (String × Session)}
    (h : loadSessions parseTime rows n = some entries) : entries.map g = rows.map f := by
  induction rows generalizing n entries with
  | nil =>
    cases h
    rfl
  | cons row rows ih =>
    rw [loadSessions] at h
    split at h
    · rename_i s sessions hs hrest
      cases h
      rw [List.map_cons, List.map_cons, ih hrest, hfg row n s hs]
    · cases h

/-- What a row says about its session. -/
theorem fromRow_some {row : PersistedSession} {cancel : ℕ} {x : Session}
    (h : Session.fromRow parseTime row cancel = some x) :
    x.id = row.id ∧ x.username = row.username ∧ x.profile = row.profile ∧
      x.fingerprint = row.credentialFingerprint := by
  obtain ⟨times, -, rfl⟩ := Option.map_eq_some_iff.mp h
  exact ⟨rfl, rfl, rfl, rfl⟩

/-- An account as it is looked up for a row. -/
theorem owners_get? (accounts : Table String Account) (username : String) :
    (owners accounts).get? username
      = (accounts.get? username).map fun a => (a.profile, a.credentials) := by
  unfold owners Table.get?
  rw [List.find?_map, Option.map_map, Option.map_map]
  rfl

/-- A row that is kept belongs to an account. -/
theorem kept_owned {now : ℤ} {accounts : Table String Account} {row : PersistedSession}
    (h : kept C parseTime now (owners accounts) row = true) :
    ∃ account, accounts.get? row.username = some account ∧ account.profile = row.profile ∧
      account.credentials.fingerprint C = row.credentialFingerprint := by
  unfold kept at h
  rw [owners_get?, Option.any_map] at h
  cases haccount : accounts.get? row.username with
  | none => rw [haccount] at h; cases h
  | some account =>
    rw [haccount] at h
    simp only [Option.any_some, Bool.and_eq_true, beq_iff_eq] at h
    exact ⟨account, rfl, h.1.1.symm, h.1.2.symm⟩

/-- The sessions of rows that are accepted belong to the accounts. -/
theorem start_sound {now : ℤ} {accounts : Table String Account} {rows : List PersistedSession}
    {entries : List (String × Session)}
    (hrows : RowsValid C parseTime now (owners accounts) ⟨[], [], [], false⟩ rows)
    (hentries : loadSessions parseTime (keptRows C parseTime now (owners accounts) rows) 0
      = some entries) : Sound C (State.start accounts entries) := by
  have hids : entries.map (fun e => e.2.id)
      = (keptRows C parseTime now (owners accounts) rows).map PersistedSession.id :=
    loadSessions_map (fun _ _ _ h => (fromRow_some h).1) hentries
  have hnames : entries.map (fun e => e.2.username)
      = (keptRows C parseTime now (owners accounts) rows).map PersistedSession.username :=
    loadSessions_map (fun _ _ _ h => (fromRow_some h).2.1) hentries
  refine ⟨fun key x hx => ?_, fun username => ?_, fun key key' x x' hx hx' hid => ?_⟩
  · obtain ⟨row, hmem, cancel, -, hfrom⟩ := loadSessions_mem hentries (Table.mem_ofList hx)
    obtain ⟨-, hname, hprofile, hprint⟩ := fromRow_some hfrom
    rw [hname, hprofile, hprint]
    exact kept_owned (List.mem_filter.mp hmem).2
  · have hcount : entries.countP (fun e => e.2.username == username)
        = (keptRows C parseTime now (owners accounts) rows).countP
          fun r => r.username == username := by
      have h := congrArg (List.countP (· == username)) hnames
      rw [List.countP_map, List.countP_map] at h
      exact h
    refine le_trans (Table.countP_ofList_le entries _) (hcount ▸ ?_)
    -- the rows of one account have one profile
    cases haccount : accounts.get? username with
    | none =>
      refine le_trans (le_of_eq (List.countP_eq_zero.mpr fun row hrow hname => ?_)) (Nat.zero_le _)
      obtain ⟨account, ha, -⟩ := kept_owned (List.mem_filter.mp hrow).2
      rw [beq_iff_eq.mp hname, haccount] at ha
      cases ha
    | some account =>
      have hroom := hrows.room username account.profile
      rw [List.nil_append] at hroom
      refine le_trans (le_of_eq (List.countP_congr fun row hrow => ?_)) hroom
      rw [Bool.and_eq_true, beq_iff_eq, beq_iff_eq]
      refine ⟨fun hname => ⟨hname, ?_⟩, fun h => h.1⟩
      obtain ⟨a, ha, hprofile, -⟩ := kept_owned (List.mem_filter.mp hrow).2
      rw [hname, haccount] at ha
      cases ha
      exact hprofile.symm
  · have hnodup : (entries.map fun e => e.2.id).Nodup := by
      rw [hids]
      have hall := hrows.ids
      rw [List.nil_append] at hall
      exact hall.sublist (List.filter_sublist.map _)
    have heq := List.inj_on_of_nodup_map hnodup (Table.mem_ofList hx) (Table.mem_ofList hx') hid
    exact congrArg Prod.fst heq

/-- **A start**: the sessions that are read belong to the accounts. -/
theorem Loads.sound {d d' : Disk} {now : ℤ} {state : State}
    (h : Loads C S parseTime d now (.ok state) d') :
    Sound C state ∧ state.storageFailed = false := by
  cases h with
  | fresh accounts _ _ =>
    exact ⟨⟨fun _ _ hx => (nomatch hx), fun _ => Nat.zero_le _, fun _ _ _ _ hx => (nomatch hx)⟩,
      rfl⟩
  | clean accounts rows entries hreads _ => exact ⟨start_sound hreads.valid hreads.sessions, rfl⟩
  | cleaned accounts rows entries d' hreads _ =>
    exact ⟨start_sound hreads.valid hreads.sessions, rfl⟩

/-! ### Runs

Every reachable store is sound, by the invariant rule for runs. -/

section

variable {disk : Disk} {history : List Entry} {w : World}

/-- The sessions of a running store that has not failed belong to its accounts. -/
def World.Sound (C : Crypto) (w : World) : Prop :=
  ∀ s, w.store = some s → s.state.storageFailed = false → Auth.Sound C s.state

/-- **One step of a run** keeps the sessions with their accounts. -/
theorem World.Sound.step {w' : World} {call : Call} {reply : Reply}
    (hstep : Steps C S parseTime w call reply w') (h : w.Sound C) : w'.Sound C := by
  intro s hs hopen
  cases hstep with
  | started now save state d hload =>
    cases hs
    have hsound := (loadState_cases hload).sound.1
    exact ⟨hsound.owned, hsound.room, hsound.ids⟩
  | refused => cases hs
  | stopped => exact h s hs hopen
  | called call s₀ s' reply t' hstore _ _ hmoves hfollows _ =>
    cases hs
    obtain ⟨extra, hstate, -⟩ := hfollows.cancelled
    rw [hstate] at hopen ⊢
    have hsound := Sound.moves hmoves (h s₀ hstore) hopen
    exact ⟨hsound.owned, hsound.room, hsound.ids⟩

/-- The table is sound at the end of every run. -/
theorem Run.sound (hrun : Run C S parseTime disk history w) : w.Sound C :=
  hrun.invariant (fun _ hs => (nomatch hs)) fun hstep h => h.step hstep

/-! ### Logins that wait

A login that waits is traced back to the call that started it, and the switch at that call is the
one at its end. -/

/-- Where a login that waits was started. -/
structure StartedAt (C : Crypto) (p : PendingLogin) (earlier : List Entry) (start : Entry)
    (since : List Entry) (history : List Entry) : Prop where
  split : history = since ++ start :: earlier
  call : ∃ admitted, start.call = .login p.request admitted
  reply : start.reply = .waiting
  begins : ∃ s, start.before.store = some s ∧ Begins C s.state p
  same : ∀ e ∈ since, e.sameStore

/-- Every login that waits was started since the store was. -/
theorem Run.logins (hrun : Run C S parseTime disk history w) {s : Store} (hs : w.store = some s)
    {p : PendingLogin} (hp : p ∈ s.logins) :
    ∃ earlier start since, StartedAt C p earlier start since history := by
  induction hrun generalizing s with
  | new => cases hs
  | step w history call hrun ih =>
    have hstep : Steps C S parseTime w call _ _ := World.step_cases w call
    change (w.step C S parseTime call).2.store = some s at hs
    generalize hentry : w.entry C S parseTime call = e
    have hbefore : e.before = w := by rw [← hentry]; rfl
    have hcall : e.call = call := by rw [← hentry]; rfl
    have hreply : e.reply = (w.step C S parseTime call).1 := by rw [← hentry]; rfl
    revert hstep hs hreply
    generalize (w.step C S parseTime call).1 = reply
    generalize (w.step C S parseTime call).2 = w'
    intro hstep hs hreply
    -- a call on the same process: a login that waited before it waits still
    have hkeep : e.sameStore → (∃ s, w.store = some s ∧ p ∈ s.logins) →
        ∃ earlier start since, StartedAt C p earlier start since (e :: history) := by
      rintro hsame ⟨s, hstore, hmem⟩
      obtain ⟨earlier, start, since, hstarted⟩ := ih hstore hmem
      refine ⟨earlier, start, e :: since, by rw [hstarted.split]; rfl, hstarted.call,
        hstarted.reply, hstarted.begins, fun x hx => ?_⟩
      rcases List.mem_cons.mp hx with rfl | hx
      · exact hsame
      · exact hstarted.same x hx
    cases hstep with
    | started now save state d hload =>
      cases hs
      cases hp
    | refused => cases hs
    | stopped call hstore =>
      rw [hstore] at hs
      cases hs
    | called call s₀ s' reply t' hstore hrunning _ _ _ hlogins =>
      cases hs
      -- it waited before the call, or this call admitted it
      rcases hlogins p hp with hold | ⟨⟨admitted, hlogin⟩, hwaiting, hbegins⟩
      · refine hkeep (fun now save h => ?_) ⟨s₀, hstore, hold⟩
        exact hrunning now save (hcall.symm.trans h)
      · exact ⟨history, e, [], rfl, ⟨admitted, hcall.trans hlogin⟩, hreply.trans hwaiting,
          ⟨s₀, hbefore ▸ hstore, hbegins⟩, fun x hx => (nomatch hx)⟩

/-- Whether the second factor of an account is off. -/
def World.totpDisabled (w : World) (username : String) : Option Bool :=
  w.store.bind fun s => (s.state.accounts.get? username).map fun a => a.credentials.totpDisabled

/-- The switch is part of the fingerprint of the credentials in the files: SHA-256 tells the two
    texts of an account apart. -/
def Separated (C : Crypto) (d : Disk) : Prop :=
  ∀ path c, d.credentials path = some c →
    Credentials.fingerprint C { c with totpDisabled := true }
      ≠ Credentials.fingerprint C { c with totpDisabled := false }

/-- Credentials of one account with one fingerprint have one setting of the switch. -/
theorem Separated.totpDisabled {d : Disk} (h : Separated C d) {path : Option String}
    {c c₁ c₂ : Credentials} (hc : d.credentials path = some c) (h₁ : c.Later c₁) (h₂ : c.Later c₂)
    (heq : c₁.fingerprint C = c₂.fingerprint C) : c₁.totpDisabled = c₂.totpDisabled := by
  have hseparated := h path c hc
  have hprint : ∀ {c' : Credentials}, c.Later c' → c'.fingerprint C
      = Credentials.fingerprint C { c with totpDisabled := c'.totpDisabled } := by
    intro c' hlater
    rw [hlater.same]
    rfl
  rw [hprint h₁, hprint h₂] at heq
  revert heq
  cases c₁.totpDisabled with
  | true =>
    cases c₂.totpDisabled with
    | true => exact fun _ => rfl
    | false => exact fun heq => absurd heq hseparated
  | false =>
    cases c₂.totpDisabled with
    | true => exact fun heq => absurd heq.symm hseparated
    | false => exact fun _ => rfl

/-- The account that a login found at its start, if the password was right. -/
theorem Begins.account {s : State} {d : Disk} {p : PendingLogin} (h : Begins C s p)
    (hpassed : p.passed C = true) (hfiled : Filed s.accounts d) :
    ∃ account, s.accounts.get? p.request.username = some account ∧
      p.credentials = account.credentials := by
  obtain ⟨account, hfound, hcredentials, -⟩ := h.found
  have hname : p.request.username = p.credentials.username := by
    unfold PendingLogin.passed at hpassed
    rw [Bool.and_eq_true, beq_iff_eq, beq_iff_eq] at hpassed
    exact hpassed.2
  have hsomewhere : ∃ name, s.accounts.get? name = some account := by
    rcases Option.or_eq_some_iff.mp hfound with hget | ⟨-, hfind⟩
    · exact ⟨_, hget⟩
    · exact Table.mem_values.mp (List.mem_of_find?_eq_some hfind)
  obtain ⟨name, hget⟩ := hsomewhere
  refine ⟨account, ?_, hcredentials⟩
  rw [hname, hcredentials, hfiled.named name account hget]
  exact hget

/-- A login finds the setting of its start. -/
theorem Run.login_setting (hrun : Run C S parseTime disk history w) (hsha : Separated C disk)
    {s : Store} (hs : w.store = some s) {p : PendingLogin} (hp : p ∈ s.logins)
    (hpassed : p.passed C = true) {account : Account}
    (hmatches : Matches C p ⟨s.state, w.disk⟩ account) :
    ∃ earlier start since, StartedAt C p earlier start since history ∧
      start.before.totpDisabled p.request.username = some account.credentials.totpDisabled := by
  obtain ⟨earlier, start, since, hstarted⟩ := hrun.logins hs hp
  refine ⟨earlier, start, since, hstarted, ?_⟩
  obtain ⟨s₀, hs₀, hbegins⟩ := hstarted.begins
  have hmem : start ∈ history := by
    rw [hstarted.split]
    exact List.mem_append_right _ List.mem_cons_self
  obtain ⟨_, _, _, hrun₀, _⟩ := hrun.split hmem
  have hfiled₀ := hrun₀.filed s₀ hs₀ hbegins.notFailed
  have hfiled := hrun.filed s hs hmatches.notFailed
  obtain ⟨account₀, hget₀, hcredentials⟩ := hbegins.account hpassed hfiled₀
  have hfile₀ := hfiled₀.file _ _ hget₀
  -- the account has the same file at both ends
  have hpath : account.path = account₀.path := by
    have hlater := (hrun.later.2 start hmem).1 account₀.path
    rw [hfile₀] at hlater
    generalize hc : w.disk.credentials account₀.path = c at hlater
    cases hlater with
    | some hlater =>
      obtain ⟨a, ha, hapath⟩ := hfiled.account _ _ hc
      rw [hlater.username, hfiled₀.named _ _ hget₀, hmatches.found] at ha
      cases ha
      exact hapath
  obtain ⟨c, hc, hlater⟩ := hrun.later.1.before (hfiled.file _ _ hmatches.found)
  obtain ⟨c₀, hc₀, hlater₀⟩ := hrun₀.later.1.before hfile₀
  rw [hpath, hc₀] at hc
  cases hc
  have hprint : account₀.credentials.fingerprint C = account.credentials.fingerprint C := by
    rw [hmatches.fingerprint, hbegins.fingerprint, hcredentials]
  unfold World.totpDisabled
  rw [hs₀, Option.bind_some, hget₀, Option.map_some,
    hsha.totpDisabled hc₀ hlater₀ hlater hprint]

/-- After a change the session that made it is the only one of its account. -/
theorem changed_alone {p : PendingChange} {account : Account} (h : Sound C t.state)
    (hturns : Turns C t p account) :
    (∃ x, (changedSessions C t.state p account).get? (tokenHash C p.request.token) = some x ∧
      x.username = p.username) ∧
    ∀ key y, (changedSessions C t.state p account).get? key = some y → y.username = p.username →
      key = tokenHash C p.request.token := by
  constructor
  · obtain ⟨x, hx, hname, -⟩ := hturns.session
    refine ⟨{ x with fingerprint := (changedCredentials C p account).fingerprint C }, ?_, hname⟩
    unfold changedSessions
    rw [Table.get?_modify, if_pos rfl, Table.get?_retain.mpr ⟨hx, by simp⟩]
    rfl
  · intro key y hy hname
    obtain ⟨x, -, ⟨hkey, -⟩ | ⟨-, rfl, hother⟩⟩ :=
      changedSessions_get? h hturns.found hturns.profile hy
    · exact hkey
    · exact absurd hname hother

/-- What is left of an account's sessions by a change of its switch. -/
theorem Run.change_alone (hrun : Run C S parseTime disk history w) {e : Entry} (he : e ∈ history)
    {p : PendingChange} {kdf : Kdf} {admitted : Bool} {env : ChangeEnv}
    (hcall : e.call = .finishSetTotp p kdf admitted env) (hok : e.reply = .security .ok)
    (hturn : e.before.totpDisabled p.username = some p.request.enabled) :
    ∃ s, e.after.store = some s ∧
      (∃ x, s.state.sessions.get? (tokenHash C p.request.token) = some x ∧
        x.username = p.username) ∧
      ∀ key y, s.state.sessions.get? key = some y → y.username = p.username →
        key = tokenHash C p.request.token := by
  unfold World.totpDisabled at hturn
  obtain ⟨s, hs, haccount⟩ := Option.bind_eq_some_iff.mp hturn
  obtain ⟨account₀, hget₀, hsetting⟩ := Option.map_eq_some_iff.mp haccount
  have hsame : e.sameStore := fun now save h => by rw [hcall] at h; cases h
  obtain ⟨hreply, hafter⟩ := hrun.called he hsame hs
  obtain ⟨reply, s', t', heq, -, hfollows, -, hdone⟩ :=
    finishSetTotp_cases (C := C) [] [] s e.before.disk p kdf admitted env
  have hstep : s.step C e.before.disk e.call = (reply, s', t'.disk) := by rw [hcall]; exact heq
  rw [hstep] at hreply hafter
  obtain ⟨-, -, t, account, hmoves, hpruned, hchecked, hchanged⟩ := hdone (hreply.symm.trans hok)
  refine ⟨s', by rw [hafter], ?_⟩
  cases hchanged with
  | already hthere =>
    have hget := hchecked.found
    rw [hpruned.accounts, hget₀] at hget
    cases hget
    exact absurd hsetting.symm hthere
  | turned d hturns _ =>
    obtain ⟨_, _, _, hrun₀, _⟩ := hrun.split he
    have hsound := Sound.moves hmoves (hrun₀.sound s hs) hpruned.notFailed
    obtain ⟨extra, hstate, -⟩ := hfollows.cancelled
    rw [hstate]
    exact changed_alone hsound hturns

/-- **No session outlives its credentials.**  In every reachable world whose storage has not failed
    the sessions belong to the accounts as they are now, eight of each at most, with ids and token
    hashes of their own.  A change of the second factor that was answered with `Ok` leaves its own
    session alone of the account.  A login that succeeds, or writes a session, finds the second
    factor as it was when it started. -/
theorem sessions_current (hrun : Run C S parseTime disk history w) (hsha : Separated C disk) :
    (∀ s, w.store = some s → s.state.storageFailed = false →
      Sound C s.state ∧ (s.state.sessions.entries.map Prod.fst).Nodup) ∧
    (∀ e ∈ history, ∀ p kdf admitted env, e.call = .finishSetTotp p kdf admitted env →
      e.reply = .security .ok → e.before.totpDisabled p.username = some p.request.enabled →
      ∃ s, e.after.store = some s ∧
        (∃ x, s.state.sessions.get? (tokenHash C p.request.token) = some x ∧
          x.username = p.username) ∧
        ∀ key y, s.state.sessions.get? key = some y → y.username = p.username →
          key = tokenHash C p.request.token) ∧
    ∀ later e earlier, history = later ++ e :: earlier → ∀ p kdf admitted env,
      e.call = .finishLogin p kdf admitted env →
      (∃ r, e.reply = .login r ∧ r.status = .succeeded) ∨
        e.after.disk.sessions ≠ e.before.disk.sessions →
      ∃ between start before setting, earlier = between ++ start :: before ∧
        (∃ admitted, start.call = .login p.request admitted) ∧ start.reply = .waiting ∧
        (∀ x ∈ between, x.sameStore) ∧
        start.before.totpDisabled p.request.username = some setting ∧
        e.before.totpDisabled p.request.username = some setting := by
  refine ⟨fun s hs hopen => ⟨hrun.sound s hs hopen, s.state.sessions.nodup⟩,
    fun e he p kdf admitted env hcall hok hturn => hrun.change_alone he hcall hok hturn, ?_⟩
  intro later e earlier hhistory p kdf admitted env hcall hdone
  have he : e ∈ history := by rw [hhistory]; exact List.mem_append_right _ List.mem_cons_self
  have hsame : e.sameStore := fun now save h => by rw [hcall] at h; cases h
  obtain ⟨hrun₀, -⟩ := hrun.at_entry hhistory
  -- a step can only be spent by a store that runs, and the setting is that of the account it found
  cases hs : e.before.store with
  | none =>
    obtain ⟨hreply, hafter⟩ := hrun.stopped he hsame hs
    rcases hdone with ⟨r, hr, -⟩ | hwritten
    · rw [hreply] at hr
      cases hr
    · rw [hafter] at hwritten
      exact absurd rfl hwritten
  | some s =>
    obtain ⟨hreply, hafter⟩ := hrun.called he hsame hs
    obtain ⟨reply, s', t', heq, -, -, -, hwrote, hsucceeded⟩ :=
      finishLogin_cases (C := C) s e.before.disk p kdf admitted env
    have hstep : s.step C e.before.disk e.call = (reply, s', t'.disk) := by rw [hcall]; exact heq
    rw [hstep] at hreply hafter
    -- both an answer and a written file say that the login was checked against an account
    have hfound : p ∈ s.logins ∧ p.passed C = true ∧
        ∃ account, Matches C p ⟨s.state, e.before.disk⟩ account := by
      rcases hdone with ⟨r, hr, hok⟩ | hwritten
      · obtain ⟨hmem, hpassed, account, hlogged⟩ := hsucceeded r (hreply.symm.trans hr) hok
        exact ⟨hmem, hpassed, account, hlogged.toMatches⟩
      · refine hwrote.resolve_left fun hsame => hwritten ?_
        rw [hafter]
        exact congrArg Disk.sessions hsame
    obtain ⟨hmem, hpassed, account, hmatches⟩ := hfound
    -- the login that waits was started under the same setting
    obtain ⟨before, start, between, hstarted, hsetting⟩ :=
      hrun₀.login_setting hsha hs hmem hpassed hmatches
    refine ⟨between, start, before, _, hstarted.split, hstarted.call, hstarted.reply,
      hstarted.same, hsetting, ?_⟩
    unfold World.totpDisabled
    rw [hs, Option.bind_some, hmatches.found]
    rfl

end

/-! ### A switch that is turned on and off

While a second login waits the switch is turned on and off again, which leaves the fingerprint as
it was: the login succeeds. -/

/-- The setting of the owner is that of the account. -/
theorem Example.Holds.totpDisabled {s : Store} {x : Session} {a : Account} (h : Example.Holds s x a)
    (d : Disk) : World.totpDisabled ⟨d, some s⟩ "owner" = some a.credentials.totpDisabled := by
  unfold World.totpDisabled
  rw [Option.bind_some, h.found]
  rfl

namespace SwitchExample

open Example

/-- A second login waits. -/
def waitingB : Store := first.waitLogin crypto (request "127.0.0.2") account

/-- A second login waits for its hash. -/
theorem waitingB_started : first.login crypto firstDisk (request "127.0.0.2") true
    = (.waiting, waitingB, firstDisk) :=
  login_waits rfl rfl (by decide) (by decide) (by decide) first_account

/-- The switch is turned on, and a second later off again. -/
def changeOn : PendingChange := pendingChange now "055910" true credentials

def accountOn : Account :=
  { account with credentials := changedCredentials crypto changeOn account }

def changeOff : PendingChange := pendingChange later "547186" false accountOn.credentials

def accountOff : Account :=
  { accountOn with credentials := changedCredentials crypto changeOff accountOn }

/-- The step of the first code. -/
theorem step_on : changeOn.step crypto = 58333333 := by decide

/-- The step of the second code. -/
theorem step_off : changeOff.step crypto = 58333334 := by decide

def sessionOn : Session := { session with fingerprint := accountOn.credentials.fingerprint crypto }

def asking : Store := waitingB.waitChange crypto (change now "055910" true) session account

def switchedOn : Store := asking.changed crypto changeOn account

def diskOn : Disk := changedDisk crypto firstDisk asking.state changeOn account

def askingOff : Store :=
  switchedOn.waitChange crypto (change later "547186" false) sessionOn accountOn

def switchedOff : Store := askingOff.changed crypto changeOff accountOn

def diskOff : Disk := changedDisk crypto diskOn askingOff.state changeOff accountOn

/-- The second login changes nothing yet. -/
theorem waitingB_holds : Holds waitingB session account := first_holds.waitLogin _

/-- Nor does a change that waits. -/
theorem asking_holds : Holds asking session account := waitingB_holds.waitChange _

/-- After the first change the session is still there. -/
theorem switchedOn_holds : Holds switchedOn sessionOn accountOn := asking_holds.changed _ _ _ _

/-- While the second change waits the session is there. -/
theorem askingOff_holds : Holds askingOff sessionOn accountOn := switchedOn_holds.waitChange _

/-- After the second change the session is still there. -/
theorem switchedOff_holds : Holds switchedOff
    { sessionOn with fingerprint := accountOff.credentials.fingerprint crypto } accountOff :=
  askingOff_holds.changed _ _ _ _

/-- The first change is asked for. -/
theorem asking_started : waitingB.setTotp crypto firstDisk (change now "055910" true) true .done
    = (.waiting, asking, firstDisk) :=
  setTotp_waits (waitingB_holds.asks now_le_later) (by decide) (by decide)

/-- The first change is made. -/
theorem switchedOn_finished :
    asking.finishSetTotp crypto firstDisk changeOn .done true (changeEnv now)
      = (.security .ok, switchedOn, diskOn) := by
  have hlater : account.credentials.lastStep < changeOn.step crypto :=
    lt_of_lt_of_eq (by decide) step_on.symm
  exact finishSetTotp_turns (asking_holds.confirms now_le_later List.mem_cons_self rfl hlater) rfl
    (unchanged_self rfl) rfl rfl (asking_holds.changed _ _ _ _).fits rfl

/-- The second change is asked for. -/
theorem askingOff_started :
    switchedOn.setTotp crypto diskOn (change later "547186" false) true .done
    = (.waiting, askingOff, diskOn) :=
  setTotp_waits (switchedOn_holds.asks (le_refl _)) (by decide) (by decide)

/-- The second change is made. -/
theorem switchedOff_finished :
    askingOff.finishSetTotp crypto diskOn changeOff .done true (changeEnv later)
      = (.security .ok, switchedOff, diskOff) := by
  have hlater : accountOn.credentials.lastStep < changeOff.step crypto :=
    lt_of_eq_of_lt step_on (lt_of_lt_of_eq (by decide) step_off.symm)
  exact finishSetTotp_turns (askingOff_holds.confirms (le_refl _) List.mem_cons_self rfl hlater) rfl
    (unchanged_self rfl) rfl rfl (askingOff_holds.changed _ _ _ _).fits rfl

/-- The store after the second login. -/
def both : Store := switchedOff.loggedIn crypto (pending "127.0.0.2") accountOff (token 2) (token 2)

def bothDisk : Disk :=
  { diskOff with sessions := some (sessionText (loggedInSessions crypto switchedOff.state
    (pending "127.0.0.2") accountOff (token 2) (token 2))) }

/-- The second login succeeds, with the password it was started with. -/
theorem both_finished : switchedOff.finishLogin crypto diskOff (pending "127.0.0.2") .done true
      (loginEnv 2)
    = (.login ⟨.succeeded, some (token 2)⟩, both, bothDisk) := by
  have hother : tokenHash crypto (token 2) ≠ tokenHash crypto (token 1) := by decide
  have hfree : switchedOff.state.sessions.contains (tokenHash crypto (token 2)) = false := by
    rw [Table.contains_eq_false]
    cases hget : switchedOff.state.sessions.get? (tokenHash crypto (token 2)) with
    | none => rfl
    | some y => exact absurd ((switchedOff_holds.sessions _ _).mp hget).1 hother
  have hid : (switchedOff.state.sessions.values.any fun x => x.id == token 2) = false := by
    rw [List.any_eq_false]
    intro y hy
    obtain ⟨key, hkey⟩ := Table.mem_values.mp hy
    rw [((switchedOff_holds.sessions key y).mp hkey).2]
    decide
  refine finishLogin_succeeds List.mem_cons_self (pending_passed _) rfl rfl switchedOff_holds.found
    rfl rfl rfl (switchedOff_holds.live now_le_later)
      (lt_of_le_of_lt switchedOff_holds.single (by decide))
    (drawToken_free hfree) (drawToken_free hid) (by decide) ?_ rfl
  refine sessionText_fits (le_trans Table.length_insert_le
    (le_trans (Nat.succ_le_succ switchedOff_holds.single) (by decide))) fun key x hx => ?_
  rcases Table.get?_insert_some hx with ⟨rfl, rfl⟩ | hold
  · exact session_size rfl (length_token 2) rfl rfl (length_fingerprint _ _) (by decide) (by decide)
      rfl rfl rfl
  · obtain ⟨rfl, rfl⟩ := (switchedOff_holds.sessions key x).mp hold
    exact switchedOff_holds.size

/-- The second login starts, the switch is turned on and off, and the login ends. -/
def history : List Entry :=
  [⟨⟨diskOff, some switchedOff⟩, .finishLogin (pending "127.0.0.2") .done true (loginEnv 2),
      .login ⟨.succeeded, some (token 2)⟩, ⟨bothDisk, some both⟩⟩,
    ⟨⟨diskOn, some askingOff⟩, .finishSetTotp changeOff .done true (changeEnv later), .security .ok,
      ⟨diskOff, some switchedOff⟩⟩,
    ⟨⟨diskOn, some switchedOn⟩, .setTotp (change later "547186" false) true .done, .waiting,
      ⟨diskOn, some askingOff⟩⟩,
    ⟨⟨firstDisk, some asking⟩, .finishSetTotp changeOn .done true (changeEnv now), .security .ok,
      ⟨diskOn, some switchedOn⟩⟩,
    ⟨⟨firstDisk, some waitingB⟩, .setTotp (change now "055910" true) true .done, .waiting,
      ⟨firstDisk, some asking⟩⟩,
    ⟨⟨firstDisk, some first⟩, .login (request "127.0.0.2") true, .waiting,
      ⟨firstDisk, some waitingB⟩⟩] ++ firstHistory

/-- All this is a run. -/
theorem history_run : Run crypto serde noTime disk history ⟨bothDisk, some both⟩ := by
  have hwait := first_run.call (.login (request "127.0.0.2") true) (fun _ _ h => (nomatch h))
    waitingB_started
  have hask := hwait.call (.setTotp (change now "055910" true) true .done)
    (fun _ _ h => (nomatch h))
    asking_started
  have hon := hask.call (.finishSetTotp changeOn .done true (changeEnv now))
    (fun _ _ h => (nomatch h)) switchedOn_finished
  have haskOff := hon.call (.setTotp (change later "547186" false) true .done)
    (fun _ _ h => (nomatch h)) askingOff_started
  have hoff := haskOff.call (.finishSetTotp changeOff .done true (changeEnv later))
    (fun _ _ h => (nomatch h)) switchedOff_finished
  exact hoff.call (.finishLogin (pending "127.0.0.2") .done true (loginEnv 2))
    (fun _ _ h => (nomatch h)) both_finished

/-- What is hashed for a fingerprint has a length of its own. -/
theorem length_fingerprintInput (disabled : Bool) :
    (bytes (Credentials.fingerprintInput { credentials with totpDisabled := disabled })).length
      = if disabled then 198 else 177 := by
  unfold Credentials.fingerprintInput standard64
  rw [bytes_eq_flatMap, String.toList_ofList]
  simp only [Json.goString_eq, String.toList_ofList]
  revert disabled
  decide +kernel

/-- SHA-256 of the two fingerprint texts. -/
theorem sha256_fingerprintInput (disabled : Bool) :
    (crypto.sha256 (bytes (Credentials.fingerprintInput
      { credentials with totpDisabled := disabled }))).toList.head?
      = some (if disabled then 104 else 205) := by
  have hlength := length_fingerprintInput disabled
  generalize bytes _ = l at hlength ⊢
  unfold crypto
  dsimp only
  rw [hlength]
  cases disabled <;> rfl

/-- The two settings have different fingerprints. -/
theorem disk_separated : Separated crypto disk := by
  intro path c hc hprint
  cases path with
  | none =>
    cases hc
    have hsha := congrArg List.head? (Base64.urlSafeNoPad_inj hprint)
    have htrue := sha256_fingerprintInput true
    have hfalse := sha256_fingerprintInput false
    exact absurd (htrue.symm.trans (hsha.trans hfalse)) (by decide)
  | some name => cases hc

/-- A login that started before the switch was turned succeeds after it. -/
theorem login_after_change : ¬ ∀ (C : Crypto) (S : Serde) (parseTime : String → Option ℤ)
    (disk : Disk) (history : List Entry) (w : World), Run C S parseTime disk history w →
    ∀ later e middle change early start earlier,
      history = later ++ e :: (middle ++ change :: (early ++ start :: earlier)) →
    ∀ p kdf admitted env q kdf' admitted' env', start.call = .login p.request true →
      start.reply = .waiting →
      (∀ x ∈ later ++ middle ++ early ++ earlier, ∀ b, x.call ≠ .login p.request b) →
      change.call = .finishSetTotp q kdf' admitted' env' → change.reply = .security .ok →
      q.username = p.request.username →
      change.before.totpDisabled q.username = some q.request.enabled →
      e.call = .finishLogin p kdf admitted env → ∀ r, e.reply = .login r →
      r.status ≠ .succeeded := by
  intro h
  refine h crypto serde noTime disk history _ history_run [] _ [_, _] _ [_] _ firstHistory rfl
    (pending "127.0.0.2") .done true (loginEnv 2) changeOn .done true (changeEnv now) rfl rfl ?_
    rfl rfl rfl ?_ rfl _ rfl rfl
  · -- the other login came from another address
    have hother : request "127.0.0.1" ≠ request "127.0.0.2" := by decide
    intro x hx b hcall
    simp only [firstHistory, List.nil_append, List.cons_append, List.mem_cons, List.not_mem_nil,
      or_false] at hx
    rcases hx with rfl | rfl | rfl | rfl | rfl | rfl
    · cases hcall
    · cases hcall
    · cases hcall
    · cases hcall
    · exact hother (Call.login.inj hcall).1
    · cases hcall
  · exact asking_holds.totpDisabled firstDisk

/-- What the theorem says of this run. -/
theorem switch_restored : Run crypto serde noTime disk history ⟨bothDisk, some both⟩ ∧
    Separated crypto disk ∧ ∃ between start before setting,
    history.tail = between ++ start :: before ∧
      start.before.totpDisabled "owner" = some setting ∧
      World.totpDisabled ⟨diskOff, some switchedOff⟩ "owner" = some setting := by
  refine ⟨history_run, disk_separated, ?_⟩
  obtain ⟨between, start, before, setting, hsplit, -, -, -, hstart, hend⟩ :=
    (sessions_current history_run disk_separated).2.2 [] _ _ rfl (pending "127.0.0.2") .done true
      (loginEnv 2) rfl (.inl ⟨_, rfl, rfl⟩)
  exact ⟨between, start, before, setting, hsplit, hstart, hend⟩

end SwitchExample

end Hmux.Auth
