import Hmux.Auth.Runs
import Mathlib.Data.Option.Basic

namespace Hmux.Auth

open Lib

/-!
# The accounts and their files

While the storage has not failed, the accounts in memory are the credentials of the files (`Filed`).
A file keeps all but its last step and the switch, and its last step never gets smaller (`Later`),
whatever fails: a step is written over the credentials it was compared with.

* `Filed.move`, `Move.later` — one move;
* `loadAccounts_filed` — a start;
* `Run.filed`, `Run.later` — a run.

Every later statement about credentials goes through this module.  A step of the second factor that
is written stays written, since no move ever puts an older file in its place; and what a login
compares in memory is what a restart would read.
-/

/-! ### Credentials that change

Only two fields of a credential file ever change, the last step and the switch, and `Later` says
how. -/

/-- The credentials of the same account, as they are later. -/
structure Credentials.Later (c c' : Credentials) : Prop where
  same : c' = { c with lastStep := c'.lastStep, totpDisabled := c'.totpDisabled }
  step : c.lastStep ≤ c'.lastStep

/-- Credentials are no later than themselves. -/
theorem Credentials.Later.refl (c : Credentials) : c.Later c := ⟨rfl, le_refl _⟩

/-- Later than later ones is later. -/
theorem Credentials.Later.trans {c c' c'' : Credentials} (h : c.Later c') (h' : c'.Later c'') :
    c.Later c'' := by
  refine ⟨?_, le_trans h.step h'.step⟩
  rw [h'.same, h.same]

/-- The name stays. -/
theorem Credentials.Later.username {c c' : Credentials} (h : c.Later c') :
    c'.username = c.username := by
  rw [h.same]

/-- Every file is there and holds the credentials of the same account. -/
def Disk.Later (d d' : Disk) : Prop :=
  ∀ path, Option.Rel Credentials.Later (d.credentials path) (d'.credentials path)

/-- Files that do not change are no later. -/
theorem Disk.Later.of_eq {d d' : Disk} (h : d'.credentials = d.credentials) : d.Later d' := by
  intro path
  rw [h]
  cases d.credentials path with
  | none => exact .none
  | some c => exact .some (.refl c)

/-- A disk is no later than itself. -/
theorem Disk.Later.refl (d : Disk) : d.Later d := .of_eq rfl

/-- Later than later ones is later. -/
theorem Disk.Later.trans {d d' d'' : Disk} (h : d.Later d') (h' : d'.Later d'') : d.Later d'' := by
  intro path
  have hpath := h path
  have hpath' := h' path
  revert hpath hpath'
  generalize d.credentials path = c
  generalize d'.credentials path = c'
  generalize d''.credentials path = c''
  rintro (⟨hlater⟩ | _) hpath'
  · cases hpath' with
    | some hlater' => exact .some (hlater.trans hlater')
  · cases hpath'
    exact .none

/-- What a later file holds was there before. -/
theorem Disk.Later.before {d d' : Disk} (h : d.Later d') {path : Option String} {c' : Credentials}
    (hc : d'.credentials path = some c') : ∃ c, d.credentials path = some c ∧ c.Later c' := by
  have hpath := h path
  rw [hc] at hpath
  generalize hd : d.credentials path = c at hpath
  cases hpath with
  | some hlater => exact ⟨_, rfl, hlater⟩

/-- One file is replaced, if it is there. -/
theorem credentials_setCredentials (d : Disk) (path path' : Option String) (c : Credentials) :
    (d.setCredentials path c).credentials path'
      = if path' = path then (d.credentials path).map fun _ => c else d.credentials path' := by
  cases path with
  | none => cases path' <;> rfl
  | some name =>
    cases path' with
    | none => rfl
    | some name' =>
      show (d.users.modify name fun _ => c).get? name' = _
      rw [Table.get?_modify]
      by_cases hname : name' = name
      · rw [if_pos hname, if_pos (congrArg some hname), hname]
        rfl
      · rw [if_neg hname, if_neg fun h => hname (Option.some.inj h)]
        rfl

/-- Writing the session file leaves the credentials alone. -/
theorem Disk.Saves.credentials {d d' : Disk} {next : Table String Session} (h : d.Saves next d') :
    d'.credentials = d.credentials := by
  rw [h.1]
  funext path
  cases path <;> rfl

/-- Later credentials are written over those of a file. -/
theorem Disk.later_setCredentials {d : Disk} {path : Option String} {c c' : Credentials}
    (h : d.credentials path = some c) (hlater : c.Later c') :
    d.Later (d.setCredentials path c') := by
  intro path'
  rw [credentials_setCredentials]
  split
  · rename_i heq
    rw [heq, h]
    exact .some hlater
  · cases d.credentials path' with
    | none => exact .none
    | some c => exact .some (.refl c)

/-! ### Accounts in memory

The account of a name is the credentials of its file, and no two accounts share a file. -/

/-- The accounts in memory are those of the files. -/
structure Filed (accounts : Table String Account) (d : Disk) : Prop where
  named : ∀ name a, accounts.get? name = some a → a.credentials.username = name
  file : ∀ name a, accounts.get? name = some a → d.credentials a.path = some a.credentials
  account : ∀ path c, d.credentials path = some c →
    ∃ a, accounts.get? c.username = some a ∧ a.path = path

/-- The accounts depend on their files alone. -/
theorem Filed.congr {accounts : Table String Account} {d d' : Disk} (h : Filed accounts d)
    (hd : d'.credentials = d.credentials) : Filed accounts d' where
  named := h.named
  file name a ha := by rw [hd]; exact h.file name a ha
  account path c hc := h.account path c (by rw [← hd]; exact hc)

/-- A file is the file of one account. -/
theorem Filed.path_inj {accounts : Table String Account} {d : Disk} (h : Filed accounts d)
    {name name' : String} {a a' : Account} (ha : accounts.get? name = some a)
    (ha' : accounts.get? name' = some a') (hpath : a.path = a'.path) : name = name' := by
  have hfile := h.file name a ha
  rw [hpath, h.file name' a' ha'] at hfile
  rw [← h.named name a ha, ← h.named name' a' ha', Option.some.inj hfile]

/-- The credentials of an account are replaced in memory and in its file. -/
theorem Filed.replace {accounts : Table String Account} {d : Disk} (h : Filed accounts d)
    {name : String} {a : Account} (ha : accounts.get? name = some a) {c : Credentials}
    (hc : c.username = a.credentials.username) :
    Filed (accounts.modify name fun a => { a with credentials := c })
    (d.setCredentials a.path c) := by
  have hname := h.named name a ha
  refine ⟨fun name' a' ha' => ?_, fun name' a' ha' => ?_, fun path c' hc' => ?_⟩
  -- in memory: the account under this name has the new credentials
  · rw [Table.get?_modify] at ha'
    split at ha'
    · rename_i heq
      rw [heq, ha] at ha'
      cases ha'
      rw [heq, ← hname]
      exact hc
    · exact h.named name' a' ha'
  -- on disk: its file has them too, and no other account has this file
  · rw [Table.get?_modify] at ha'
    rw [credentials_setCredentials]
    split at ha'
    · rename_i heq
      rw [heq, ha] at ha'
      cases ha'
      rw [if_pos rfl, h.file name a ha]
      rfl
    · rename_i hne
      rw [if_neg fun hpath => hne (h.path_inj ha' ha hpath)]
      exact h.file name' a' ha'
  -- and every file still belongs to an account
  · rw [credentials_setCredentials] at hc'
    split at hc'
    · rename_i heq
      rw [h.file name a ha] at hc'
      cases hc'
      refine ⟨{ a with credentials := c }, ?_, heq.symm⟩
      rw [hc, hname, Table.get?_modify, if_pos rfl, ha]
      rfl
    · rename_i hne
      obtain ⟨a', ha', hpath⟩ := h.account path c' hc'
      refine ⟨a', ?_, hpath⟩
      rw [Table.get?_modify, if_neg]
      · exact ha'
      · intro heq
        rw [heq, ha] at ha'
        cases ha'
        exact hne hpath.symm

variable {C : Crypto} {tokens ids : List (Vector UInt8 32)} {t t' : Tx}

/-! ### Moves

A move writes at most one credential file, and writes it only over the text it has read; a write
that failed may have left either of the two. -/

/-- Spending a step moves it on. -/
theorem Spends.later_credentials {username : String} {account : Account} {step : ℤ}
    (h : Spends C t username account step) :
    account.credentials.Later { account.credentials with lastStep := step } :=
  ⟨rfl, le_of_lt h.later⟩

/-- So does turning the second factor on or off. -/
theorem Turns.later_credentials {p : PendingChange} {account : Account} (h : Turns C t p account) :
    account.credentials.Later (changedCredentials C p account) :=
  ⟨rfl, le_of_lt h.later⟩

/-- A failure leaves later steps in the files too. -/
theorem Fallen.later (h : Fallen C tokens ids t t') (hfiled : Filed t.state.accounts t.disk) :
    t.disk.Later t'.disk := by
  cases h with
  | still => exact .refl _
  | saved next handles d _ hd =>
    rcases hd with rfl | hd
    · exact .refl _
    · exact .of_eq hd.credentials
  | spent username account step hspends =>
    exact Disk.later_setCredentials (hfiled.file _ _ hspends.found) hspends.later_credentials
  | changed p account accounts d hturns hd =>
    have hlater := Disk.later_setCredentials (hfiled.file _ _ hturns.found) hturns.later_credentials
    rcases hd with rfl | hd
    · exact hlater
    · exact hlater.trans (.of_eq hd.credentials)

/-- **One move** writes later steps only. -/
theorem Move.later (hmove : Move C tokens ids t t')
    (hfiled : t.state.storageFailed = false → Filed t.state.accounts t.disk) :
    t.disk.Later t'.disk := by
  cases hmove with
  | note => exact .refl _
  | touch => exact .refl _
  | save next handles d _ _ hd => exact .of_eq hd.credentials
  | spend username account step hopen hspends =>
    exact Disk.later_setCredentials ((hfiled hopen).file _ _ hspends.found)
      hspends.later_credentials
  | change p account d hopen hturns hd =>
    exact (Disk.later_setCredentials ((hfiled hopen).file _ _ hturns.found)
      hturns.later_credentials).trans (.of_eq hd.credentials)
  | fail t' hopen hfallen => exact hfallen.later (hfiled hopen)

/-- **One move** changes accounts and files alike. -/
theorem Filed.move (hmove : Move C tokens ids t t')
    (h : t.state.storageFailed = false → Filed t.state.accounts t.disk)
    (hopen' : t'.state.storageFailed = false) : Filed t'.state.accounts t'.disk := by
  cases hmove with
  | note => exact h hopen'
  | touch _ _ _ hopen => exact h hopen
  | save next handles d hopen _ hd => exact (h hopen).congr hd.credentials
  | spend username account step hopen hspends => exact (h hopen).replace hspends.found rfl
  | change p account d hopen hturns hd =>
    have hreplaced := (h hopen).replace (c := changedCredentials C p account) hturns.found rfl
    exact hreplaced.congr hd.credentials
  | fail t' _ hfallen =>
    rw [hfallen.failed] at hopen'
    cases hopen'

/-- **Run lemma** for the moves of a call: the accounts stay those of their files, which move on. -/
theorem Filed.moves (hmoves : Moves C tokens ids t t')
    (h : t.state.storageFailed = false → Filed t.state.accounts t.disk) :
    (t'.state.storageFailed = false → Filed t'.state.accounts t'.disk) ∧
      t.disk.Later t'.disk := by
  induction hmoves with
  | refl => exact ⟨h, .refl _⟩
  | tail _ hmove ih => exact ⟨Filed.move hmove ih.1, ih.2.trans (hmove.later ih.1)⟩

/-! ### Start

The accounts are read one file after the other, so the invariant is one of the fold over the files.
-/

/-- The accounts that are read from the extra files. -/
theorem loadAccounts_fold {d : Disk} {entries : List (String × Credentials)}
    (hentries : ∀ e ∈ entries, d.users.get? e.1 = some e.2)
    {accounts accounts' : Table String Account}
    (hnamed : ∀ name a, accounts.get? name = some a → a.credentials.username = name)
    (hfile : ∀ name a, accounts.get? name = some a → d.credentials a.path = some a.credentials)
    (h : entries.foldlM (fun accounts e =>
        if !e.2.valid C then Except.error "invalid credentials file"
        else if accounts.contains e.2.username then .error "duplicate account"
        else .ok (accounts.insert e.2.username ⟨e.2, some e.1, accountProfile C e.2.username⟩))
      accounts = .ok accounts') :
    (∀ name a, accounts'.get? name = some a → a.credentials.username = name) ∧
    (∀ name a, accounts'.get? name = some a → d.credentials a.path = some a.credentials) ∧
    (∀ name a, accounts.get? name = some a → accounts'.get? name = some a) ∧
    ∀ e ∈ entries, ∃ a, accounts'.get? e.2.username = some a ∧ a.path = some e.1 := by
  induction entries generalizing accounts with
  | nil =>
    cases h
    exact ⟨hnamed, hfile, fun _ _ ha => ha, fun _ he => (nomatch he)⟩
  | cons e entries ih =>
    rw [List.foldlM_cons] at h
    split at h
    · cases h
    split at h
    · cases h
    rename_i hfree
    rw [Bool.not_eq_true, Table.contains_eq_false] at hfree
    -- the new account stands beside those that were there
    have hget : ∀ name, (accounts.insert e.2.username
        ⟨e.2, some e.1, accountProfile C e.2.username⟩).get? name
        = if name = e.2.username then some ⟨e.2, some e.1, accountProfile C e.2.username⟩
          else accounts.get? name := fun name => Table.get?_insert
    have hrest : ∀ x ∈ entries, d.users.get? x.1 = some x.2 :=
      fun x hx => hentries x (List.mem_cons_of_mem _ hx)
    obtain ⟨hnamed', hfile', hkeep, hall⟩ := ih hrest
      (fun name a ha => by
        rw [hget] at ha
        split at ha
        · rename_i heq
          cases ha
          exact heq.symm
        · exact hnamed name a ha)
      (fun name a ha => by
        rw [hget] at ha
        split at ha
        · cases ha
          exact hentries e List.mem_cons_self
        · exact hfile name a ha) h
    refine ⟨hnamed', hfile', fun name a ha => hkeep name a ?_, fun x hx => ?_⟩
    · -- the name of a new account is not taken
      rw [hget, if_neg]
      · exact ha
      · intro heq
        rw [heq, hfree] at ha
        cases ha
    · rcases List.mem_cons.mp hx with rfl | hx
      · exact ⟨_, hkeep _ _ Table.get?_insert_self, rfl⟩
      · exact hall x hx

/-- **A start**: the accounts that are read are those of the files. -/
theorem loadAccounts_filed {d : Disk} {accounts : Table String Account}
    (h : loadAccounts C d = .ok accounts) : Filed accounts d := by
  unfold loadAccounts at h
  split at h
  · cases h
  split at h
  · cases h
  have hone :
    ∀ name a, (Table.empty.insert d.primary.username (⟨d.primary, none, ""⟩ : Account)).get? name
      = some a → name = d.primary.username ∧ a = ⟨d.primary, none, ""⟩ := by
    intro name a ha
    rw [Table.get?_insert] at ha
    split at ha
    · rename_i heq
      cases ha
      exact ⟨heq, rfl⟩
    · cases ha
  have hentries : ∀ e ∈ d.users.entries, d.users.get? e.1 = some e.2 :=
    fun e he => Table.mem_entries.mp he
  obtain ⟨hnamed, hfile, hkeep, hall⟩ := loadAccounts_fold hentries
    (fun name a ha => by
      obtain ⟨rfl, rfl⟩ := hone name a ha
      rfl)
    (fun name a ha => by
      obtain ⟨rfl, rfl⟩ := hone name a ha
      rfl) h
  refine ⟨hnamed, hfile, fun path c hc => ?_⟩
  cases path with
  | none =>
    cases hc
    exact ⟨_, hkeep _ _ Table.get?_insert_self, rfl⟩
  | some name => exact hall (name, c) (Table.mem_entries.mpr hc)

variable {S : Serde} {parseTime : String → Option ℤ}

/-- A start leaves the credentials alone, and reads them when it succeeds. -/
theorem Loads.filed {d d' : Disk} {now : ℤ} {result : Except String State}
    (h : Loads C S parseTime d now result d') :
    d'.credentials = d.credentials ∧ ∀ state, result = .ok state → Filed state.accounts d' := by
  cases h with
  | refused message => exact ⟨rfl, fun _ h => (nomatch h)⟩
  | fresh accounts haccounts _ =>
    refine ⟨rfl, fun state hstate => ?_⟩
    cases hstate
    exact loadAccounts_filed haccounts
  | clean accounts rows entries hreads _ =>
    refine ⟨rfl, fun state hstate => ?_⟩
    cases hstate
    exact loadAccounts_filed hreads.loaded
  | cleaned accounts rows entries d' hreads hsaves =>
    refine ⟨hsaves.credentials, fun state hstate => ?_⟩
    cases hstate
    exact (loadAccounts_filed hreads.loaded).congr hsaves.credentials
  | failed message accounts rows entries d' hreads hsaves =>
    exact ⟨hsaves.credentials, fun _ h => (nomatch h)⟩

/-! ### Runs

A restart reads what the files have, and every other step of a run is a sequence of moves. -/

variable {disk : Disk} {history : List Entry} {w : World}

/-- The accounts of a running store are those of the files. -/
def World.Filed (w : World) : Prop :=
  ∀ s, w.store = some s → s.state.storageFailed = false → Auth.Filed s.state.accounts w.disk

/-- **One step of a run** keeps accounts and files together and writes later steps only. -/
theorem World.Filed.step {w' : World} {call : Call} {reply : Reply}
    (hstep : Steps C S parseTime w call reply w') (h : w.Filed) :
    w'.Filed ∧ w.disk.Later w'.disk := by
  cases hstep with
  | started now save state d hload =>
    obtain ⟨hd, hfiled⟩ := (loadState_cases hload).filed
    refine ⟨fun s hs _ => ?_, .of_eq hd⟩
    cases hs
    exact hfiled state rfl
  | refused now save message d hload =>
    exact ⟨fun _ hs => (nomatch hs), .of_eq (loadState_cases hload).filed.1⟩
  | stopped call hstore => exact ⟨h, .refl _⟩
  | called call s s' reply t' hstore _ _ hmoves hfollows =>
    obtain ⟨hfiled, hlater⟩ := Auth.Filed.moves hmoves (h s hstore)
    refine ⟨fun s₁ hs₁ hopen => ?_, hlater⟩
    cases hs₁
    obtain ⟨extra, hstate, -⟩ := hfollows.cancelled
    rw [hstate] at hopen ⊢
    exact hfiled hopen

/-- **Every reachable world**: the accounts are those of the files. -/
theorem Run.filed (hrun : Run C S parseTime disk history w) : w.Filed :=
  hrun.invariant (fun _ hs => (nomatch hs)) fun hstep h => (h.step hstep).1

/-- **A whole run**: its files hold later steps than those it began with, and than those of every
    earlier world. -/
theorem Run.later (hrun : Run C S parseTime disk history w) :
    disk.Later w.disk ∧ ∀ e ∈ history, e.before.disk.Later w.disk ∧ e.after.disk.Later w.disk := by
  induction hrun with
  | new => exact ⟨.refl _, fun _ he => (nomatch he)⟩
  | step w history call hrun ih =>
    have hstep : w.disk.Later (w.entry C S parseTime call).after.disk :=
      (hrun.filed.step (World.step_cases w call)).2
    refine ⟨ih.1.trans hstep, fun e he => ?_⟩
    rcases List.mem_cons.mp he with rfl | he
    · exact ⟨hstep, .refl _⟩
    · exact ⟨(ih.2 e he).1.trans hstep, (ih.2 e he).2.trans hstep⟩

end Hmux.Auth
