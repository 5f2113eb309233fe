import Hmux.Auth.Calls

namespace Hmux.Auth

open Lib

/-!
# Runs of the gateway

A run is any sequence of calls and starts from some files.  The two transactions of a login or of a
change are calls of their own, so every interleaving of them is a run.

* `loadState_cases` — what a start reads and writes;
* `Run.split` — every entry of a run is a step from a world that was reached before;
* `World.step_cases` — a step is a start, or a sequence of moves of the running store;
* `Run.invariant` — what every step keeps holds in every reachable world.

The history keeps what every call was asked, what it answered and the worlds around it, so that a
statement about two calls of a run can be made by splitting the history at them.
-/

/-! ### Starts

A start that succeeds has read accounts and sessions; it writes the session file again when it
dropped a row. -/

/-- What a start reads: the accounts, the rows of the session file and the sessions of those it
    keeps. -/
structure Reads (C : Crypto) (S : Serde) (parseTime : String → Option ℤ) (d : Disk) (now : ℤ)
    (accounts : Table String Account) (rows : List PersistedSession)
    (entries : List (String × Session)) : Prop where
  loaded : loadAccounts C d = .ok accounts
  text : ∃ raw file, d.sessions = some raw ∧ parseSessionFile S raw = .ok file ∧
    file.sessions.getD [] = rows
  valid : RowsValid C parseTime now (owners accounts) ⟨[], [], [], false⟩ rows
  sessions : loadSessions parseTime (keptRows C parseTime now (owners accounts) rows) 0
    = some entries

/-- How a start may end. -/
inductive Loads (C : Crypto) (S : Serde) (parseTime : String → Option ℤ) (d : Disk) (now : ℤ) :
    Except String State → Disk → Prop
  | refused (message : String) : Loads C S parseTime d now (.error message) d
  /-- There is no session file. -/
  | fresh (accounts : Table String Account) : loadAccounts C d = .ok accounts →
      d.sessions = none → Loads C S parseTime d now (.ok (State.start accounts [])) d
  /-- Every row is kept. -/
  | clean (accounts : Table String Account) (rows : List PersistedSession)
      (entries : List (String × Session)) :
      Reads C S parseTime d now accounts rows entries →
      (∀ row ∈ rows, kept C parseTime now (owners accounts) row = true) →
      Loads C S parseTime d now (.ok (State.start accounts entries)) d
  /-- The rows that are kept are written. -/
  | cleaned (accounts : Table String Account) (rows : List PersistedSession)
      (entries : List (String × Session)) (d' : Disk) :
      Reads C S parseTime d now accounts rows entries →
      d.Saves (State.start accounts entries).sessions d' →
      Loads C S parseTime d now (.ok (State.start accounts entries)) d'
  /-- They are written, and yet the write fails. -/
  | failed (message : String) (accounts : Table String Account) (rows : List PersistedSession)
      (entries : List (String × Session)) (d' : Disk) :
      Reads C S parseTime d now accounts rows entries →
      d.Saves (State.start accounts entries).sessions d' →
      Loads C S parseTime d now (.error message) d'

theorem loadState_cases {C : Crypto} {S : Serde} {parseTime : String → Option ℤ} {d d' : Disk}
    {now : ℤ} {w : Write} {result : Except String State}
    (h : loadState C S parseTime d now w = (result, d')) : Loads C S parseTime d now result d' := by
  unfold loadState at h
  split at h
  · cases h
    exact .refused _
  -- the session file is missing, or it is read, checked and its entries looked up
  rename_i accounts haccounts
  split at h
  · rename_i hnone
    cases h
    exact .fresh accounts haccounts hnone
  rename_i raw hraw
  split at h
  · cases h
    exact .refused _
  rename_i file hfile
  split at h
  · cases h
    exact .refused _
  rename_i validated hvalidated
  obtain ⟨-, hrows, rfl⟩ := validateSessionFile_ok.mp hvalidated
  split at h
  · cases h
    exact .refused _
  rename_i entries hentries
  have hreads : Reads C S parseTime d now accounts (file.sessions.getD []) entries :=
    ⟨haccounts, ⟨raw, file, hraw, hfile, rfl⟩, hrows, hentries⟩
  dsimp only at h
  split at h
  · -- the file is written again
    unfold Disk.writeSessions at h
    by_cases hfits : sessionFileLimit < (sessionText (State.start accounts entries).sessions).length
    · rw [if_pos hfits] at h
      cases h
      exact .refused _
    · rw [if_neg hfits] at h
      have hsaves : d.Saves (State.start accounts entries).sessions _ := ⟨rfl, not_lt.mp hfits⟩
      cases w with
      | done =>
        cases h
        exact .cleaned accounts _ entries _ hreads hsaves
      | before =>
        cases h
        exact .refused _
      | after =>
        cases h
        exact .failed _ accounts _ entries _ hreads hsaves
  -- no entry was dropped, so the file stays as it is
  · rename_i hclean
    rw [Bool.not_eq_true, List.any_eq_false] at hclean
    cases h
    refine .clean accounts _ entries hreads fun row hrow => ?_
    have hkept := hclean row hrow
    rw [Bool.not_eq_true, Bool.not_eq_false'] at hkept
    exact hkept

/-! ### Runs

A world is reached by calls and by starts, in any order; after a start everything that was in
memory is gone. -/

/-- A call of a run, its reply and the worlds around it. -/
structure Entry where
  before : World
  call : Call
  reply : Reply
  after : World

variable (C : Crypto) (S : Serde) (parseTime : String → Option ℤ)

/-- The entry of one call. -/
def World.entry (w : World) (call : Call) : Entry :=
  ⟨w, call, (w.step C S parseTime call).1, (w.step C S parseTime call).2⟩

/-- A run from some files, the newest call first. -/
inductive Run (disk : Disk) : List Entry → World → Prop
  | new : Run disk [] ⟨disk, none⟩
  | step (w : World) (history : List Entry) (call : Call) : Run disk history w →
      Run disk (w.entry C S parseTime call :: history) (w.entry C S parseTime call).after

variable {C S parseTime} {disk : Disk} {history : List Entry} {w : World}

/-- An entry is a step from a world of an earlier run. -/
theorem Run.at_entry (hrun : Run C S parseTime disk history w) {later earlier : List Entry}
    {e : Entry} (h : history = later ++ e :: earlier) :
    Run C S parseTime disk earlier e.before ∧ e = e.before.entry C S parseTime e.call := by
  induction hrun generalizing later with
  | new => exact absurd h.symm (by simp)
  | step w history call hrun ih =>
    cases later with
    | nil =>
      cases h
      exact ⟨hrun, rfl⟩
    | cons e' later => exact ih (List.cons.inj h).2

theorem Run.split (hrun : Run C S parseTime disk history w) {e : Entry} (he : e ∈ history) :
    ∃ later earlier, history = later ++ e :: earlier ∧ Run C S parseTime disk earlier e.before ∧
      e = e.before.entry C S parseTime e.call := by
  obtain ⟨later, earlier, hsplit⟩ := List.append_of_mem he
  exact ⟨later, earlier, hsplit, hrun.at_entry hsplit⟩

/-- What a call does: a start reads the files, and a running store moves. -/
inductive Steps (C : Crypto) (S : Serde) (parseTime : String → Option ℤ) (w : World) :
    Call → Reply → World → Prop
  | started (now : ℤ) (save : Write) (state : State) (d : Disk) :
      loadState C S parseTime w.disk now save = (.ok state, d) →
      Steps C S parseTime w (.restart now save) (.started (.ok ())) ⟨d, some (.ofState state)⟩
  | refused (now : ℤ) (save : Write) (message : String) (d : Disk) :
      loadState C S parseTime w.disk now save = (.error message, d) →
      Steps C S parseTime w (.restart now save) (.started (.error message)) ⟨d, none⟩
  | stopped (call : Call) : w.store = none → Steps C S parseTime w call .none w
  | called (call : Call) (s s' : Store) (reply : Reply) (t' : Tx) : w.store = some s →
      (∀ now save, call ≠ .restart now save) →
      s.step C w.disk call = (reply, s', t'.disk) →
      Moves C call.tokens call.ids ⟨s.state, w.disk⟩ t' → Follows s t'.state s' →
      (∀ p ∈ s'.logins, p ∈ s.logins ∨
        (∃ admitted, call = .login p.request admitted) ∧ reply = .waiting ∧ Begins C s.state p) →
      Steps C S parseTime w call reply ⟨t'.disk, some s'⟩

/-- A call without a store does nothing. -/
theorem World.step_stopped {w : World} {call : Call} (hstore : w.store = none)
    (hcall : ∀ now save, call ≠ .restart now save) : w.step C S parseTime call = (.none, w) := by
  obtain ⟨d, store⟩ := w
  cases hstore
  cases call <;> first | rfl | exact absurd rfl (hcall _ _)

/-- A call of a running store. -/
theorem World.step_called {w : World} {s : Store} {call : Call} (hstore : w.store = some s)
    (hcall : ∀ now save, call ≠ .restart now save) :
    w.step C S parseTime call = ((s.step C w.disk call).1,
      ⟨(s.step C w.disk call).2.2, some (s.step C w.disk call).2.1⟩) := by
  obtain ⟨d, store⟩ := w
  cases hstore
  cases call <;> first | rfl | exact absurd rfl (hcall _ _)

/-- **One step of a run.** -/
theorem World.step_cases (w : World) (call : Call) :
    Steps C S parseTime w call (w.step C S parseTime call).1 (w.step C S parseTime call).2 := by
  have hrunning : (∀ now save, call ≠ .restart now save) →
      Steps C S parseTime w call (w.step C S parseTime call).1 (w.step C S parseTime call).2 := by
    intro hcall
    cases hstore : w.store with
    | none =>
      rw [World.step_stopped hstore hcall]
      exact .stopped call hstore
    | some s =>
      obtain ⟨reply, s', t', heq, hmoves, hfollows, hlogins⟩ :=
        Store.step_moves (C := C) s w.disk call
      rw [World.step_called hstore hcall, heq]
      exact .called call s s' reply t' hstore hcall heq hmoves hfollows hlogins
  cases call with
  | restart now save =>
    unfold World.step
    dsimp only
    cases hload : loadState C S parseTime w.disk now save with
    | mk result d =>
      cases result with
      | error message => exact .refused now save message d hload
      | ok state => exact .started now save state d hload
  | _ => exact hrunning fun _ _ h => (nomatch h)

/-- The call of an entry is not a start. -/
def Entry.sameStore (e : Entry) : Prop := ∀ now save, e.call ≠ .restart now save

/-- An entry of a call without a store. -/
theorem Run.stopped (hrun : Run C S parseTime disk history w) {e : Entry} (he : e ∈ history)
    (hsame : e.sameStore) (hs : e.before.store = none) : e.reply = .none ∧ e.after = e.before := by
  obtain ⟨_, _, _, _, hentry⟩ := hrun.split he
  have hstep : e.before.step C S parseTime e.call = _ := World.step_stopped hs hsame
  have hreply := congrArg Entry.reply hentry
  have hafter := congrArg Entry.after hentry
  unfold World.entry at hreply hafter
  dsimp only at hreply hafter
  rw [hstep] at hreply hafter
  exact ⟨hreply, hafter⟩

/-- An entry of a call of a running store. -/
theorem Run.called (hrun : Run C S parseTime disk history w) {e : Entry} (he : e ∈ history)
    (hsame : e.sameStore) {s : Store} (hs : e.before.store = some s) :
    e.reply = (s.step C e.before.disk e.call).1 ∧
      e.after = ⟨(s.step C e.before.disk e.call).2.2, some
      (s.step C e.before.disk e.call).2.1⟩ := by
  obtain ⟨_, _, _, _, hentry⟩ := hrun.split he
  have hstep : e.before.step C S parseTime e.call = _ := World.step_called hs hsame
  have hreply := congrArg Entry.reply hentry
  have hafter := congrArg Entry.after hentry
  unfold World.entry at hreply hafter
  dsimp only at hreply hafter
  rw [hstep] at hreply hafter
  exact ⟨hreply, hafter⟩

/-- A run goes on with a call of its store. -/
theorem Run.call {d d' : Disk} {s s' : Store} {reply : Reply}
    (hrun : Run C S parseTime disk history ⟨d, some s⟩) (call : Call)
    (hcall : ∀ now save, call ≠ .restart now save) (hstep : s.step C d call = (reply, s', d')) :
    Run C S parseTime disk (⟨⟨d, some s⟩, call, reply, ⟨d', some s'⟩⟩ :: history)
    ⟨d', some s'⟩ := by
  have hnext := hrun.step _ _ call
  have hworld : World.step C S parseTime ⟨d, some s⟩ call = _ := World.step_called rfl hcall
  unfold World.entry at hnext
  rw [hworld, hstep] at hnext
  exact hnext

/-- **What every step keeps holds in every reachable world.** -/
theorem Run.invariant {P : World → Prop} (hnew : P ⟨disk, none⟩)
    (hstep : ∀ {w w' : World} {call : Call} {reply : Reply},
      Steps C S parseTime w call reply w' → P w → P w')
    (hrun : Run C S parseTime disk history w) : P w := by
  induction hrun with
  | new => exact hnew
  | step w history call hrun ih => exact hstep (World.step_cases w call) ih

end Hmux.Auth
