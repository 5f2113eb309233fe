import Hmux.Auth.Revocation

namespace Hmux.Auth

open Lib

/-!
# Whom a cancellation reaches

Every access that the gateway hands out listens to the `SessionCancel` of its session.  While the
gateway runs, an access is cancelled as soon as its session is no longer stored, and as long as the
storage works and the connections are not closed, it is not cancelled before.

* `Handles`, `Run.handles` — the sessions that are stored have `SessionCancel`s of their own, and
  none of them was signalled;
* `Held`, `Move.held` — the session of an access is stored, or the access is cancelled;
* `access_cancelled` — both, over a run.

Signals are numbers here: a session has the number of its `SessionCancel`, and the state has the
numbers that were signalled.  A number is given once, so an access that holds one is cancelled when
that number is, and by nobody else's removal.
-/

variable {C : Crypto} {S : Serde} {parseTime : String → Option ℤ}
  {tokens ids : List (Vector UInt8 32)} {t t' : Tx}

/-! ### Signals

Replacing the sessions signals exactly those that are not among the new ones. -/

/-- What was signalled when some sessions took the place of others. -/
theorem State.mem_swap {s : State} {next : Table String Session} {n : ℕ} :
    n ∈ (s.swap next).cancelled ↔
      (∃ key x, s.sessions.get? key = some x ∧ next.get? key = none ∧ x.cancel = n) ∨
        n ∈ s.cancelled := by
  show n ∈ List.map _ _ ++ s.cancelled ↔ _
  rw [List.mem_append, List.mem_map]
  refine or_congr_left ⟨?_, ?_⟩
  · rintro ⟨⟨key, x⟩, he, rfl⟩
    obtain ⟨hmem, hgone⟩ := List.mem_filter.mp he
    rw [Bool.not_eq_true', Table.contains_eq_false] at hgone
    exact ⟨key, x, Table.mem_entries.mp hmem, hgone, rfl⟩
  · rintro ⟨key, x, hx, hgone, rfl⟩
    refine ⟨(key, x), List.mem_filter.mpr ⟨Table.mem_entries.mpr hx, ?_⟩, rfl⟩
    rw [Bool.not_eq_true', Table.contains_eq_false]
    exact hgone

/-- A failure of the storage signals every session. -/
theorem Fallen.cancelled (h : Fallen C tokens ids t t') :
    t'.state.cancelled = t.state.sessions.values.map Session.cancel ++ t.state.cancelled := by
  cases h <;> rfl

/-! ### Sessions that are stored

No stored session was signalled, unless the storage failed or the connections were closed, which
signals them all. -/

/-- The sessions that are stored have `SessionCancel`s of their own, and none was signalled. -/
structure Handles (s : State) : Prop where
  below : ∀ key x, s.sessions.get? key = some x → x.cancel < s.handles
  apart : ∀ key key' x x', s.sessions.get? key = some x → s.sessions.get? key' = some x' →
    x.cancel = x'.cancel → key = key'
  silent : ∀ key x, s.sessions.get? key = some x → x.cancel ∉ s.cancelled
  signalled : ∀ n ∈ s.cancelled, n < s.handles

/-- Sessions that were there before, but for one with the next `SessionCancel`, take the place of
    others. -/
theorem Handles.swap {s : State} (h : Handles s) {next : Table String Session} {handles : ℕ}
    {k : String} (hle : s.handles ≤ handles)
    (hnext : ∀ key x, next.get? key = some x → Remains s.sessions key x ∨
      (key = k ∧ x.cancel = s.handles ∧ handles = s.handles + 1)) :
    Handles { s.swap next with handles } := by
  -- an entry that stays keeps its handle, and the new one takes the next handle
  have hcases : ∀ key x, next.get? key = some x →
      (∃ y, s.sessions.get? key = some y ∧ x.cancel = y.cancel) ∨
        (key = k ∧ x.cancel = s.handles ∧ handles = s.handles + 1) := by
    intro key x hx
    rcases hnext key x hx with ⟨y, hy, -, hcancel⟩ | hnew
    · exact .inl ⟨y, hy, hcancel.symm⟩
    · exact .inr hnew
  have hsignalled : ∀ n ∈ (s.swap next).cancelled, n < s.handles := by
    intro n hn
    rcases State.mem_swap.mp hn with ⟨key, x, hx, -, rfl⟩ | hn
    · exact h.below key x hx
    · exact h.signalled n hn
  refine ⟨fun key x hx => ?_, fun key key' x x' hx hx' heq => ?_, fun key x hx hmem => ?_,
    fun n hn => Nat.lt_of_lt_of_le (hsignalled n hn) hle⟩
  · show x.cancel < handles
    rcases hcases key x hx with ⟨y, hy, hcancel⟩ | ⟨-, hcancel, hhandles⟩
    · rw [hcancel]
      exact Nat.lt_of_lt_of_le (h.below key y hy) hle
    · omega
  -- two sessions with one handle are both old, or both the new one
  · rcases hcases key x hx with ⟨y, hy, hcancel⟩ | ⟨hkey, hcancel, -⟩ <;>
      rcases hcases key' x' hx' with ⟨y', hy', hcancel'⟩ | ⟨hkey', hcancel', -⟩
    · exact h.apart key key' y y' hy hy' (by rw [← hcancel, ← hcancel', heq])
    · have hlt := h.below key y hy
      omega
    · have hlt := h.below key' y' hy'
      omega
    · rw [hkey, hkey']
  · rcases hcases key x hx with ⟨y, hy, hcancel⟩ | ⟨-, hcancel, -⟩
    · rcases State.mem_swap.mp hmem with ⟨key', z, hz, hgone, hsame⟩ | hmem
      · -- a session that went has another `SessionCancel`
        have hkey := h.apart key' key z y hz hy (hsame.trans hcancel)
        rw [hkey] at hgone
        have hstored : next.get? key = some x := hx
        rw [hgone] at hstored
        cases hstored
      · rw [hcancel] at hmem
        exact h.silent key y hy hmem
    · have hlt := hsignalled _ hmem
      omega

/-- A call only makes new handles. -/
theorem Next.handles_le {s : State} {next : Table String Session} {handles : ℕ}
    (h : Next C tokens ids s next handles) : s.handles ≤ handles := by
  cases h with
  | retain => exact Nat.le_refl _
  | refresh => exact Nat.le_refl _
  | add => exact Nat.le_succ _

/-- Every session has a handle of its own after a move. -/
theorem Move.handles (hmove : Move C tokens ids t t')
    (h : t.state.storageFailed = false → Handles t.state) (hopen : t'.state.storageFailed = false) :
    Handles t'.state := by
  cases hmove with
  | note attempts securityAttempts =>
    have hs := h hopen
    exact ⟨hs.below, hs.apart, hs.silent, hs.signalled⟩
  | touch key now x hbefore =>
    have hs := h hbefore
    -- touching changes the time only
    have hget : ∀ k y,
        (t.state.sessions.modify key fun x => { x with seen := now }).get? k = some y →
        ∃ z, t.state.sessions.get? k = some z ∧ z.cancel = y.cancel := by
      intro k y hy
      obtain ⟨z, hz, -, hcancel⟩ := remains_modify hy fun _ => ⟨rfl, rfl⟩
      exact ⟨z, hz, hcancel⟩
    refine ⟨fun k y hy => ?_, fun k k' y y' hy hy' heq => ?_, fun k y hy => ?_, hs.signalled⟩
    · obtain ⟨z, hz, hcancel⟩ := hget k y hy
      rw [← hcancel]
      exact hs.below k z hz
    · obtain ⟨z, hz, hcancel⟩ := hget k y hy
      obtain ⟨z', hz', hcancel'⟩ := hget k' y' hy'
      exact hs.apart k k' z z' hz hz' (by rw [hcancel, hcancel', heq])
    · obtain ⟨z, hz, hcancel⟩ := hget k y hy
      rw [← hcancel]
      exact hs.silent k z hz
  | save next handles d hbefore hnext =>
    obtain ⟨k, hall⟩ := hnext.remains
    -- one entry may be new, under the handle that was drawn
    refine (h hbefore).swap (k := k) hnext.handles_le fun key x hx => ?_
    rcases hall key x hx with hold | ⟨hkey, -, hcancel⟩
    · exact .inl hold
    · exact .inr ⟨hkey, hcancel⟩
  | spend username account step hbefore =>
    have hs := h hbefore
    exact ⟨hs.below, hs.apart, hs.silent, hs.signalled⟩
  | change p account d hbefore hturns =>
    have hs := h hbefore
    have haccounts : Handles { t.state with accounts := t.state.accounts.modify p.username fun a =>
        { a with credentials := changedCredentials C p account } } :=
      ⟨hs.below, hs.apart, hs.silent, hs.signalled⟩
    -- switching the factor makes no session, it drops some
    exact haccounts.swap (k := "") (Nat.le_refl _) fun key x hx =>
      .inl (changedSessions_remains hx)
  | fail t' _ hfallen =>
    -- a store that failed is not open
    rw [hfallen.failed] at hopen
    cases hopen

/-- Every session has a handle of its own after all moves of a call. -/
theorem Moves.handles (hmoves : Moves C tokens ids t t')
    (h : t.state.storageFailed = false → Handles t.state) :
    t'.state.storageFailed = false → Handles t'.state := by
  induction hmoves with
  | refl => exact h
  | tail _ hmove ih => exact fun hopen => hmove.handles ih hopen

/-- The sessions that are loaded are numbered. -/
theorem loadSessions_cancel {rows : List PersistedSession} {n : ℕ}
    {entries : List (String × Session)}
    (h : loadSessions parseTime rows n = some entries) :
    entries.map (fun e => e.2.cancel) = List.range' n entries.length := by
  induction rows generalizing n entries with
  | nil =>
    cases h
    rfl
  | cons row rows ih =>
    rw [loadSessions] at h
    split at h
    · next s sessions hs hrest =>
      cases h
      obtain ⟨times, -, rfl⟩ := Option.map_eq_some_iff.mp hs
      rw [List.map_cons, ih hrest, List.length_cons, List.range'_succ]
    · cases h

/-- A start gives each session that it reads a handle of its own. -/
theorem start_handles {accounts : Table String Account} {rows : List PersistedSession}
    {entries : List (String × Session)} (h : loadSessions parseTime rows 0 = some entries) :
    Handles (State.start accounts entries) := by
  have hcancels := loadSessions_cancel h
  refine ⟨fun key x hx => ?_, fun key key' x x' hx hx' heq => ?_, fun _ _ _ h => (by cases h),
    fun _ h => (by cases h)⟩
  · have hmem : x.cancel ∈ entries.map fun e => e.2.cancel :=
      List.mem_map_of_mem (f := fun e : String × Session => e.2.cancel) (Table.mem_ofList hx)
    rw [hcancels, List.mem_range'_1] at hmem
    show x.cancel < entries.length
    omega
  · have hnodup : (entries.map fun e => e.2.cancel).Nodup := by
      rw [hcancels]
      exact List.nodup_range'
    exact congrArg Prod.fst
      (List.inj_on_of_nodup_map hnodup (Table.mem_ofList hx) (Table.mem_ofList hx') heq)

/-- Every session has a handle of its own after a start. -/
theorem Loads.handles {d d' : Disk} {now : ℤ} {state : State}
    (h : Loads C S parseTime d now (.ok state) d') : Handles state := by
  cases h with
  | fresh accounts _ _ =>
    exact ⟨fun _ _ hx => (by cases hx), fun _ _ _ _ hx => (by cases hx), fun _ _ hx =>
      (by cases hx), fun _ hn => (by cases hn)⟩
  | clean accounts rows entries hreads _ => exact start_handles hreads.sessions
  | cleaned accounts rows entries d' hreads _ => exact start_handles hreads.sessions

/-- While the storage works and the connections are not closed, the sessions are not cancelled. -/
def World.Handles (w : World) : Prop :=
  ∀ s, w.store = some s → s.registryClosed = false → s.state.storageFailed = false →
    Auth.Handles s.state

/-- **Step lemma.** Every session has a handle of its own after every call. -/
theorem World.Handles.step {w w' : World} {call : Call} {reply : Reply}
    (hstep : Steps C S parseTime w call reply w') (h : w.Handles) : w'.Handles := by
  intro s hs hclosed hopen
  cases hstep with
  | started now save state d hload =>
    cases hs
    exact (loadState_cases hload).handles
  | refused => cases hs
  | stopped => exact h s hs hclosed hopen
  | called call s₀ s' reply t' hstore _ _ hmoves hfollows _ =>
    cases hs
    obtain ⟨extra, hstate, hextra⟩ := hfollows.cancelled
    have hbefore : s₀.registryClosed = false := by
      by_contra hwas
      rw [Bool.not_eq_false] at hwas
      rw [hfollows.closed hwas] at hclosed
      cases hclosed
    have hnone : extra = [] := by
      by_contra hsome
      rw [hextra hsome] at hclosed
      cases hclosed
    rw [hstate] at hopen ⊢
    rw [hnone]
    exact Moves.handles hmoves (h s₀ hstore hbefore) hopen

/-- Every session has a handle of its own in every run. -/
theorem Run.handles {disk : Disk} {history : List Entry} {w : World}
    (hrun : Run C S parseTime disk history w) : w.Handles :=
  hrun.invariant (fun s hs => by cases hs) fun hstep h => h.step hstep

/-! ### The session of an access

An access keeps its number, and its session keeps it too for as long as it is stored. -/

/-- The session with this key and this `SessionCancel` is stored, or it was signalled. -/
def Held (key id : String) (n : ℕ) (s : State) : Prop :=
  n ∈ s.cancelled ∨ (s.storageFailed = false ∧
    ∃ x, s.sessions.get? key = some x ∧ x.id = id ∧ x.cancel = n)

variable {key id : String} {n : ℕ}

/-- A session whose key is not drawn keeps its place or leaves it empty. -/
theorem Next.kept {s : State} {next : Table String Session} {handles : ℕ}
    (h : Next C tokens ids s next handles)
    (htokens : ∀ token ∈ tokens, tokenHash C (Base64.urlSafeNoPad token.toList) ≠ key) {x : Session}
    (hx : s.sessions.get? key = some x) :
    next.get? key = none ∨ ∃ y, next.get? key = some y ∧ y.id = x.id ∧ y.cancel = x.cancel := by
  cases hnext : next.get? key with
  | none => exact .inl rfl
  | some y =>
    obtain ⟨k, hall⟩ := h.remains
    refine .inr ⟨y, rfl, ?_⟩
    rcases hall key y hnext with ⟨z, hz, hid, hcancel⟩ | ⟨-, ⟨token, htoken, -, -, hkey, -⟩, -⟩
    · rw [hx] at hz
      cases hz
      exact ⟨hid.symm, hcancel.symm⟩
    · exact absurd hkey.symm (htokens token htoken)

/-- **One move** cancels an access when its session goes. -/
theorem Move.held (hmove : Move C tokens ids t t')
    (htokens : ∀ token ∈ tokens, tokenHash C (Base64.urlSafeNoPad token.toList) ≠ key)
    (h : Held key id n t.state) : Held key id n t'.state := by
  have hswap : ∀ (s : State) (next : Table String Session) (handles : ℕ), s.storageFailed = false →
      Held key id n s → (∀ x, s.sessions.get? key = some x → next.get? key = none ∨
        ∃ y, next.get? key = some y ∧ y.id = x.id ∧ y.cancel = x.cancel) →
      Held key id n { s.swap next with handles } := by
    intro s next handles hopen hheld hnext
    -- signalled already, or still stored: then it is kept or its going is signalled
    rcases hheld with hmem | ⟨-, x, hx, hid, hcancel⟩
    · exact .inl (State.mem_swap.mpr (.inr hmem))
    · rcases hnext x hx with hgone | ⟨y, hy, hid', hcancel'⟩
      · exact .inl (State.mem_swap.mpr (.inl ⟨key, x, hx, hgone, hcancel⟩))
      · exact .inr ⟨hopen, y, hy, hid'.trans hid, hcancel'.trans hcancel⟩
  cases hmove with
  | note attempts securityAttempts => exact h
  | touch k now x hopen =>
    rcases h with hmem | ⟨-, y, hy, hid, hcancel⟩
    · exact .inl hmem
    · refine .inr ⟨hopen, ?_⟩
      show ∃ z, (t.state.sessions.modify k _).get? key = some z ∧ _
      rw [Table.get?_modify, hy]
      split
      · exact ⟨_, rfl, hid, hcancel⟩
      · exact ⟨y, rfl, hid, hcancel⟩
  | save next handles d hopen hnext =>
    exact hswap t.state next handles hopen h fun x hx => hnext.kept htokens hx
  | spend username account step hopen => exact h
  | change p account d hopen hturns =>
    refine hswap { t.state with accounts := t.state.accounts.modify p.username fun a =>
      { a with credentials := changedCredentials C p account } } _ _ hopen h fun x hx => ?_
    cases hchanged : (changedSessions C t.state p account).get? key with
    | none => exact .inl hchanged
    | some y =>
      obtain ⟨z, hz, hid, hcancel⟩ := changedSessions_remains hchanged
      rw [show t.state.sessions.get? key = some x from hx] at hz
      cases hz
      exact .inr ⟨y, hchanged, hid.symm, hcancel.symm⟩
  -- the store fell: every session that it had is signalled
  | fail t' hopen hfallen =>
    left
    rw [hfallen.cancelled]
    rcases h with hmem | ⟨-, x, hx, -, rfl⟩
    · exact List.mem_append_right _ hmem
    · exact List.mem_append_left _ (List.mem_map_of_mem (Table.mem_values.mpr ⟨key, hx⟩))

/-- **Run lemma** for the moves of a call: a handle stays with its session. -/
theorem Moves.held (hmoves : Moves C tokens ids t t')
    (htokens : ∀ token ∈ tokens, tokenHash C (Base64.urlSafeNoPad token.toList) ≠ key)
    (h : Held key id n t.state) : Held key id n t'.state := by
  induction hmoves with
  | refl => exact h
  | tail _ hmove ih => exact hmove.held htokens ih

/-- More may be cancelled. -/
theorem Held.cancel {s : State} (h : Held key id n s) (extra : List ℕ) :
    Held key id n (s.cancel extra) := by
  rcases h with hmem | hstored
  · exact .inl (List.mem_append_right _ hmem)
  · exact .inr hstored

/-- **One step of a run** cancels an access when its session goes, as long as the gateway runs. -/
theorem Held.step {w w' : World} {call : Call} {reply : Reply}
    (hstep : Steps C S parseTime w call reply w') (hsame : ∀ now save, call ≠ .restart now save)
    (htokens : ∀ token ∈ call.tokens, tokenHash C (Base64.urlSafeNoPad token.toList) ≠ key)
    (h : ∀ s, w.store = some s → Held key id n s.state) :
    ∀ s, w'.store = some s → Held key id n s.state := by
  intro s hs
  cases hstep with
  | started now save => exact absurd rfl (hsame now save)
  | refused now save => exact absurd rfl (hsame now save)
  | stopped => exact h s hs
  | called call s₀ s' reply t' hstore _ _ hmoves hfollows _ =>
    cases hs
    obtain ⟨extra, hstate, -⟩ := hfollows.cancelled
    rw [hstate]
    exact (Moves.held hmoves htokens (h s₀ hstore)).cancel extra

section

variable {disk : Disk} {history : List Entry} {w : World}

/-- **Run lemma.** It does so for as long as the process runs. -/
theorem Run.held (hrun : Run C S parseTime disk history w) {later base : List Entry}
    (hsplit : history = later ++ base)
    (hbase : ∀ w, Run C S parseTime disk base w → ∀ s, w.store = some s → Held key id n s.state)
    (hsame : ∀ e ∈ later, e.sameStore)
    (htokens : ∀ e ∈ later, ∀ token ∈ e.call.tokens,
      tokenHash C (Base64.urlSafeNoPad token.toList) ≠ key) :
    ∀ s, w.store = some s → Held key id n s.state := by
  induction hrun generalizing later with
  | new => exact fun s hs => by cases hs
  | step w history call hrun ih =>
    cases later with
    | nil =>
      rw [List.nil_append] at hsplit
      refine hbase _ ?_
      rw [← hsplit]
      exact .step w history call hrun
    | cons e later =>
      obtain ⟨rfl, hrest⟩ := List.cons.inj hsplit
      have hbefore := ih hrest (fun e he => hsame e (List.mem_cons_of_mem _ he))
        fun e he => htokens e (List.mem_cons_of_mem _ he)
      exact Held.step (World.step_cases w call) (hsame _ List.mem_cons_self)
        (htokens _ List.mem_cons_self) hbefore

/-- The session of an access that a call handed out is stored after the call, in a storage that
    works; a lookup by a token finds it under the key of the token. -/
theorem Run.granted (hrun : Run C S parseTime disk history w) {later earlier : List Entry}
    {e : Entry}
    (hsplit : history = later ++ e :: earlier) {a : SessionAccess}
    (hreply : e.reply = .access (.ok (some a))) :
    ∃ s key x csrf, e.after.store = some s ∧ s.state.storageFailed = false ∧
      s.state.sessions.get? key = some x ∧ a = x.access csrf ∧
      ∀ token touch now admitted prune save, e.call = .access token touch now admitted prune save →
        key = tokenHash C token := by
  have hanswer : e.reply ≠ .none ∧ ∀ result, e.reply ≠ .started result := by
    rw [hreply]
    exact ⟨fun h => (by cases h), fun _ h => (by cases h)⟩
  -- the reply was made by one call of one store
  obtain ⟨s₀, s, d, -, hs, hstep, -⟩ := hrun.answered hsplit hanswer
  rw [hreply] at hstep
  generalize e.call = call at hstep ⊢
  cases call with
  | access token touch now admitted prune save =>
    -- an access is granted for a stored session
    obtain ⟨hmoves, hstored⟩ : Moves C [] [] ⟨s₀.state, e.before.disk⟩ _ ∧ _ :=
      access_moves ⟨s₀.state, e.before.disk⟩ token touch now prune save
    obtain ⟨result, s', t', heq, -, hfollows, -, hvalue⟩ := ask_cases s₀ e.before.disk admitted
      (fun t => Auth.access C t token touch now prune save) .access hmoves
    have hask : s₀.ask e.before.disk admitted
      (fun t => Auth.access C t token touch now prune save) .access =
        (.access (.ok (some a)), s, d) := hstep
    rw [heq] at hask
    cases hask
    obtain ⟨rfl, hwork⟩ := hvalue _ rfl
    obtain ⟨hopen, x, csrf, hx, rfl⟩ := hstored a hwork
    obtain ⟨extra, hstate, -⟩ := hfollows.cancelled
    refine ⟨s, _, x, csrf, hs, by rw [hstate]; exact hopen, by rw [hstate]; exact hx, rfl, ?_⟩
    intro _ _ _ _ _ _ hcall
    cases hcall
    rfl
  -- a push login is granted for the session with that id
  | pushLogin id now free =>
    have hlookup : s₀.pushLogin C id now free = .ok (some a) ∧ s₀ = s := by
      injection hstep with hfirst hrest
      injection hrest with hstore _
      exact ⟨Reply.access.inj hfirst, hstore⟩
    obtain ⟨hfound, rfl⟩ := hlookup
    unfold Store.pushLogin at hfound
    split at hfound
    · cases hfound
    split at hfound
    · cases hfound
    unfold pushLoginById at hfound
    split at hfound
    · cases hfound
    rename_i hopen
    rw [Bool.not_eq_true] at hopen
    split at hfound
    · cases hfound
    rename_i x hx
    split at hfound
    · cases hfound
    split at hfound
    · cases hfound
    obtain ⟨key, hkey⟩ := Table.mem_values.mp (List.mem_of_find?_eq_some hx)
    cases hfound
    exact ⟨s₀, key, x, "", hs, hopen, hkey, rfl, fun _ _ _ _ _ _ hcall => by cases hcall⟩
  -- the other calls grant no access
  | login request admitted =>
    have h : (s₀.login C e.before.disk request admitted).1 = .access (.ok (some a)) :=
      congrArg Prod.fst hstep
    unfold Store.login at h
    split at h
    · cases h
    · split at h <;> cases h
  | finishLogin p kdf admitted env =>
    have h : (s₀.finishLogin C e.before.disk p kdf admitted env).1 = .access (.ok (some a)) :=
      congrArg Prod.fst hstep
    unfold Store.finishLogin at h
    split at h
    · cases h
    · dsimp only at h
      split at h
      · cases h
      · cases h
      · split at h
        · cases h
        · split at h <;> cases h
  | setTotp request admitted prune =>
    have h : (s₀.setTotp C e.before.disk request admitted prune).1 = .access (.ok (some a)) :=
      congrArg Prod.fst hstep
    unfold Store.setTotp at h
    split at h
    · cases h
    · split at h <;> cases h
  | finishSetTotp p kdf admitted env =>
    have h : (s₀.finishSetTotp C e.before.disk p kdf admitted env).1 = .access (.ok (some a)) :=
      congrArg Prod.fst hstep
    unfold Store.finishSetTotp at h
    split at h
    · cases h
    · dsimp only at h
      split at h
      · cases h
      · cases h
      · split at h
        · cases h
        · split at h <;> cases h
  | identity | listSessions | totpEnabled | revoke | logout | closeConnections | shutdown
  | restart => cases hstep

/-- A session that is stored after a call is stored later or cancelled, while the gateway runs.  As
    long as the storage works and the connections are not closed, it is cancelled exactly if it is
    not stored any more. -/
theorem Run.held_later (hrun : Run C S parseTime disk history w) {later earlier : List Entry}
    {e : Entry} (hsplit : history = later ++ e :: earlier) {s₁ : Store}
    (hafter : e.after.store = some s₁) (hworks : s₁.state.storageFailed = false) {x : Session}
    (hx : s₁.state.sessions.get? key = some x) (hsame : ∀ e' ∈ later, e'.sameStore)
    (htokens : ∀ e' ∈ later, ∀ drawn ∈ e'.call.tokens,
      tokenHash C (Base64.urlSafeNoPad drawn.toList) ≠ key) {s : Store} (hs : w.store = some s) :
    Held key x.id x.cancel s.state ∧
      (s.registryClosed = false → s.state.storageFailed = false →
        (x.cancel ∈ s.state.cancelled ↔ ¬ ∃ y, s.state.sessions.get? key = some y ∧
          y.id = x.id ∧ y.cancel = x.cancel)) := by
  have hbase : ∀ w, Run C S parseTime disk (e :: earlier) w → ∀ s, w.store = some s →
      Held key x.id x.cancel s.state := by
    intro w hw s' hs'
    have hworld : w = e.after := by
      cases hw
      rfl
    rw [hworld, hafter] at hs'
    obtain rfl := Option.some.inj hs'
    exact .inr ⟨hworks, x, hx, rfl, rfl⟩
  have hheld := hrun.held hsplit hbase hsame htokens s hs
  refine ⟨hheld, fun hclosed hopen => ⟨?_, fun hgone => ?_⟩⟩
  · rintro hmem ⟨y, hy, -, hcancel⟩
    rw [← hcancel] at hmem
    exact (hrun.handles s hs hclosed hopen).silent _ y hy hmem
  · rcases hheld with hmem | ⟨-, hstored⟩
    · exact hmem
    · exact absurd hstored hgone

/-- **Whom a cancellation reaches.**  An access that the gateway handed out, while it runs: it is
    cancelled or its session is still stored, in a storage that works.  As long as the storage works
    and the connections are not closed, it is cancelled exactly if its session is not stored any
    more, under its key and with its id. -/
theorem access_cancelled (hrun : Run C S parseTime disk history w) {later earlier : List Entry}
    {e : Entry} (hsplit : history = later ++ e :: earlier) {token : String} {touch : Bool} {now : ℤ}
    {admitted : Bool} {prune save : Write} {a : SessionAccess}
    (hcall : e.call = .access token touch now admitted prune save)
    (hreply : e.reply = .access (.ok (some a))) (hsame : ∀ e' ∈ later, e'.sameStore)
    (htokens : ∀ e' ∈ later, ∀ drawn ∈ e'.call.tokens,
      tokenHash C (Base64.urlSafeNoPad drawn.toList) ≠ tokenHash C token) {s : Store}
    (hs : w.store = some s) :
    Held (tokenHash C token) a.id a.cancelled s.state ∧
      (s.registryClosed = false → s.state.storageFailed = false →
        (a.cancelled ∈ s.state.cancelled ↔ ¬ ∃ x, s.state.sessions.get?
        (tokenHash C token) = some x ∧
          x.id = a.id ∧ x.cancel = a.cancelled)) := by
  obtain ⟨s₁, key, x, csrf, hafter, hworks, hx, rfl, hkey⟩ := hrun.granted hsplit hreply
  obtain rfl := hkey _ _ _ _ _ _ hcall
  exact hrun.held_later hsplit hafter hworks hx hsame htokens hs

end

/-! ### A logout

The first login is used once and then logged out, which cancels what that use handed out. -/

namespace Example

variable {s : Store} {x : Session} {a : Account}

/-- What a request with the token of the first login gets. -/
def granted : SessionAccess := session.access (csrfToken crypto (token 1))

/-- The access is granted. -/
theorem Holds.access (h : Holds s session a) :
    s.step crypto firstDisk accessCall = (.access (.ok (some granted)), Store.sync s,
    firstDisk) := by
  have hprune : Tx.prune ⟨s.state, firstDisk⟩ now .done = (true, ⟨s.state, firstDisk⟩) :=
    prune_nothing h.notFailed (h.live now_le_later)
  have haccess : Auth.access crypto ⟨s.state, firstDisk⟩ (token 1) false now .done .done =
      (.ok (some granted), ⟨s.state, firstDisk⟩) := by
    unfold Auth.access
    rw [hprune]
    dsimp only
    rw [h.stored]
    rfl
  unfold accessCall Store.step Store.ask Store.transact total
  dsimp only
  rw [if_neg (by rw [h.notClosed]; exact Bool.false_ne_true), Bool.not_true,
    if_neg Bool.false_ne_true, haccess]
  rfl

/-- It changes nothing that the calls below need. -/
theorem Holds.accessed (h : Holds s x a) : Holds (Store.sync s) x a := h.sync s.changes

/-- The store after a request. -/
def accessed : Store := Store.sync first

/-- So the state after it is one of those. -/
theorem accessed_holds : Holds accessed session account := first_holds.accessed

/-- The run up to a logout after the request. -/
def cancelHistory : List Entry :=
  [⟨⟨firstDisk, some accessed⟩, logoutCall, .loggedOut (.ok ()), ⟨outDisk, some (out accessed)⟩⟩] ++
    ⟨⟨firstDisk, some first⟩, accessCall, .access (.ok (some granted)),
      ⟨firstDisk, some accessed⟩⟩ ::
      firstHistory

/-- The access and the logout are a run. -/
theorem cancel_run : Run crypto serde noTime disk cancelHistory ⟨outDisk, some (out accessed)⟩ :=
  (first_run.call accessCall (fun _ _ h => (by cases h)) first_holds.access).call logoutCall
    (fun _ _ h => (by cases h)) accessed_holds.logout

/-- The request is cancelled. -/
theorem granted_cancelled : granted.cancelled ∈ (out accessed).state.cancelled := by
  have hsplit : cancelHistory = [_] ++ _ :: firstHistory := rfl
  refine ((access_cancelled cancel_run hsplit rfl rfl ?_ ?_ rfl).2 rfl
    accessed_holds.notFailed).mpr ?_
  · intro e he
    rw [List.mem_singleton.mp he]
    exact fun _ _ h => (by cases h)
  · intro e he drawn hdrawn
    rw [List.mem_singleton.mp he] at hdrawn
    cases hdrawn
  · rintro ⟨x, hx, -⟩
    rw [out_gone] at hx
    cases hx

end Example

end Hmux.Auth
