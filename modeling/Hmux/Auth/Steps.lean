import Hmux.Auth.Sessions

namespace Hmux.Auth

open Lib

/-!
# Steps of the second factor

A code of the second factor stands for a step of thirty seconds.  A call that succeeds with a code
writes its step to the file of the account before it answers, and takes only later steps than the
one that is written: so no step is taken twice, whatever runs at the same time, fails or starts
again.

There is one exception in the code.  A change to what is there already is answered with `Ok` once
its code is checked, but its step is not written (`Entry.Idle`).

* `Idles.answer`, `finishSetTotp_ok` — a call is such a change if and only if it is answered so;
* `Run.spent` — the steps of a run are not later than those of the files;
* `steps_spent_once` — a run without such a change takes every step once.
-/

/-- The account and the step of a call that succeeded with a code. -/
def Entry.matched (C : Crypto) (e : Entry) : Option (String × ℤ) :=
  match e.call, e.reply with
  | .finishLogin p _ _ _, .login ⟨.succeeded, _⟩ =>
    if e.before.totpDisabled p.request.username = some false then
      some (p.request.username, p.step C)
    else none
  | .finishSetTotp p _ _ _, .security .ok => some (p.username, p.step C)
  | _, _ => none

/-- The expired sessions can be removed: the storage has not failed, and there are none or the rest
    is written. -/
def Tx.CanPrune (t : Tx) (now : ℤ) (w : Write) : Prop :=
  t.state.storageFailed = false ∧
    ((∀ key x, t.state.sessions.get? key = some x → now < x.expires) ∨
      w = .done ∧ (sessionText (t.state.sessions.retain fun _ x => now < x.expires)).length ≤
        sessionFileLimit)

/-- A change that may be answered with `Ok`: it waits, the store is open, the expired sessions can
    be removed, its password and its code are right, its session and its account are still those it
    started with, and its step is later than that of the account. -/
structure Confirmed (C : Crypto) (s : Store) (disk : Disk) (p : PendingChange) (env : ChangeEnv)
    (account : Account) : Prop where
  waits : p ∈ s.changes
  notClosed : s.closed = false
  prunes : Tx.CanPrune ⟨s.state, disk⟩ (max p.request.now env.clock) env.prune
  passed : p.passed C = true
  session : ∃ x, s.state.sessions.get? (tokenHash C p.request.token) = some x ∧
    max p.request.now env.clock < x.expires ∧ x.username = p.username ∧ x.profile = p.profile ∧
      x.fingerprint = p.fingerprint
  found : s.state.accounts.get? p.username = some account
  profile : account.profile = p.profile
  fingerprint : account.credentials.fingerprint C = p.fingerprint
  later : account.credentials.lastStep < p.step C

/-- Such a change asks for what is there already. -/
structure Idles (C : Crypto) (s : Store) (disk : Disk) (p : PendingChange) (env : ChangeEnv)
    (account : Account) : Prop extends Confirmed C s disk p env account where
  there : p.request.enabled ≠ account.credentials.totpDisabled

/-- The call of an entry is a change, with its hash done and admitted, that asks for what is there
    already. -/
def Entry.Idle (C : Crypto) (e : Entry) : Prop :=
  ∃ p env s account, e.call = .finishSetTotp p .done true env ∧ e.before.store = some s ∧
    Idles C s e.before.disk p env account

/-! ### What a change finds

The checks of a change, in the order of the source, with what each of them needs. -/

section

variable {C : Crypto} {t : Tx} {now : ℤ} {w : Write} {s : Store} {disk : Disk} {p : PendingChange}
  {env : ChangeEnv} {account : Account}

/-- **Removing the expired sessions** succeeds when it can, and leaves the rest. -/
theorem prune_ok : (t.prune now w).1 = true ↔ t.CanPrune now w := by
  unfold Tx.prune Tx.CanPrune
  cases hfailed : t.state.storageFailed with
  | true => simp
  | false =>
    rw [if_neg Bool.false_ne_true]
    split
    · rename_i hlive
      rw [Bool.not_eq_true', List.any_eq_false] at hlive
      -- nothing has expired, so nothing is written
      refine iff_of_true rfl ⟨rfl, .inl fun key x hx => ?_⟩
      have hnot := hlive x (Table.mem_values.mpr ⟨key, hx⟩)
      rw [decide_eq_true_eq] at hnot
      exact not_le.mp hnot
    · rename_i hexpired
      rw [Bool.not_eq_true', Bool.not_eq_false, List.any_eq_true] at hexpired
      obtain ⟨x, hx, hold⟩ := hexpired
      obtain ⟨key, hkey⟩ := Table.mem_values.mp hx
      rw [decide_eq_true_eq] at hold
      -- something has expired, so it depends on whether the sessions fit and are written
      have hnot : ¬ ∀ key x, t.state.sessions.get? key = some x → now < x.expires :=
        fun hall => absurd (hall key x hkey) (not_lt.mpr hold)
      unfold Tx.saveSessions Disk.writeSessions
      dsimp only
      by_cases hfits : sessionFileLimit <
          (sessionText (t.state.sessions.retain fun _ x => now < x.expires)).length
      · rw [if_pos hfits]
        refine iff_of_false Bool.false_ne_true ?_
        rintro ⟨-, hall | ⟨-, hle⟩⟩
        · exact hnot hall
        · exact absurd hfits (not_lt.mpr hle)
      · rw [if_neg hfits]
        cases w with
        | done => exact iff_of_true rfl ⟨rfl, .inr ⟨rfl, not_lt.mp hfits⟩⟩
        | before =>
          refine iff_of_false Bool.false_ne_true ?_
          rintro ⟨-, hall | ⟨hdone, -⟩⟩
          · exact hnot hall
          · cases hdone
        | after =>
          refine iff_of_false Bool.false_ne_true ?_
          rintro ⟨-, hall | ⟨hdone, -⟩⟩
          · exact hnot hall
          · cases hdone

/-- What is left once they are removed. -/
theorem prune_left {t' : Tx} (h : t.prune now w = (true, t')) :
    (∀ key x, t'.state.sessions.get? key = some x ↔
      t.state.sessions.get? key = some x ∧ now < x.expires) ∧
    t'.state.accounts = t.state.accounts ∧ t'.disk.credentials = t.disk.credentials := by
  unfold Tx.prune at h
  split at h
  · cases h
  split at h
  · rename_i hlive
    cases h
    rw [Bool.not_eq_true', List.any_eq_false] at hlive
    refine ⟨fun key x => ⟨fun hx => ⟨hx, ?_⟩, And.left⟩, rfl, rfl⟩
    have hnot := hlive x (Table.mem_values.mpr ⟨key, hx⟩)
    rw [decide_eq_true_eq] at hnot
    exact not_le.mp hnot
  · dsimp only at h
    rcases saveSessions_cases t (t.state.sessions.retain fun _ x => decide (now < x.expires)) w with
      ⟨d, heq, hsaves⟩ | ⟨d, heq, -⟩
    · rw [heq] at h
      cases h
      refine ⟨fun key x => ?_, rfl, ?_⟩
      · show (t.state.sessions.retain _).get? key = some x ↔ _
        rw [Table.get?_retain, decide_eq_true_eq]
      · show d.credentials = _
        rw [hsaves.1]
        rfl
    · rw [heq] at h
      cases h

/-- A change that is answered with `Ok` is confirmed. -/
theorem finishSetTotp_ok {kdf : Kdf} {admitted : Bool}
    (h : (s.finishSetTotp C disk p kdf admitted env).1 = .security .ok) :
    kdf = .done ∧ admitted = true ∧ ∃ account, Confirmed C s disk p env account := by
  unfold Store.finishSetTotp at h
  -- the change waits, and its key was derived
  split at h
  · cases h
  rename_i hwaits
  rw [not_not] at hwaits
  cases kdf with
  | refused => cases h
  | failed => cases h
  | done =>
    -- its password and its code are right
    dsimp only at h
    split at h
    · cases h
    rename_i hpassed
    rw [Bool.not_eq_true, Bool.not_eq_false'] at hpassed
    -- the transaction is admitted by an open store
    unfold Store.transact total at h
    dsimp only at h
    cases hclosed : s.closed with
    | true =>
      rw [hclosed] at h
      cases h
    | false =>
      rw [hclosed, if_neg Bool.false_ne_true] at h
      cases admitted with
      | false => cases h
      | true =>
        rw [Bool.not_true, if_neg Bool.false_ne_true] at h
        dsimp only at h
        have hcommit : (commitChange C ⟨s.state, disk⟩ p env).1 = .ok := Reply.security.inj h
        -- its first move prunes, and then it checks what it was asked for
        unfold commitChange at hcommit
        cases hprune : Tx.prune ⟨s.state, disk⟩ (max p.request.now env.clock) env.prune with
        | mk pruned t =>
          rw [hprune] at hcommit
          cases pruned with
          | false => cases hcommit
          | true =>
            obtain ⟨hsessions, haccounts, -⟩ := prune_left hprune
            dsimp only at hcommit
            split at hcommit
            · cases hcommit
            -- the session is still there
            rename_i x hx
            obtain ⟨hsession, hlive⟩ := (hsessions _ x).mp hx
            split at hcommit
            · cases hcommit
            -- it is that of the change
            rename_i hown
            simp only [Bool.or_eq_true, decide_eq_true_eq, not_or, not_not] at hown
            obtain ⟨⟨husername, hprofile⟩, hprint⟩ := hown
            split at hcommit
            · cases hcommit
            -- the account is still there
            rename_i account hfound
            -- its credentials are those the change started with
            split at hcommit
            · cases hcommit
            rename_i hsame
            simp only [Bool.or_eq_true, decide_eq_true_eq, not_or, not_not] at hsame
            -- the step of the change is a later one
            split at hcommit
            · cases hcommit
            rename_i hlater
            exact ⟨rfl, rfl, account, hwaits, hclosed, prune_ok.mp (by rw [hprune]), hpassed,
              ⟨x, hsession, hlive, husername, hprofile, hprint⟩, haccounts ▸ hfound, hsame.1,
              hsame.2, not_le.mp hlater⟩

/-- **A change to what is there already is answered with `Ok`**, and its step is not written. -/
theorem Idles.answer (h : Idles C s disk p env account) :
    (s.finishSetTotp C disk p .done true env).1 = .security .ok ∧
      (s.finishSetTotp C disk p .done true env).2.2.credentials = disk.credentials := by
  have hpruned := prune_ok.mpr h.prunes
  cases hprune : Tx.prune ⟨s.state, disk⟩ (max p.request.now env.clock) env.prune with
  | mk pruned t =>
    rw [hprune] at hpruned
    dsimp only at hpruned
    subst hpruned
    obtain ⟨hsessions, haccounts, hcredentials⟩ := prune_left hprune
    obtain ⟨x, hsession, hlive, husername, hprofile, hprint⟩ := h.session
    have hx := (hsessions _ x).mpr ⟨hsession, hlive⟩
    have hfound : t.state.accounts.get? p.username = some account := by
      rw [haccounts]
      exact h.found
    have hcommit : commitChange C ⟨s.state, disk⟩ p env = (.ok, t) := by
      unfold commitChange
      simp only [hprune, hx, husername, hprofile, hprint, hfound, h.profile, h.fingerprint, ne_eq,
        not_true_eq_false, decide_false, Bool.or_self, Bool.false_eq_true, if_false,
        not_le.mpr h.later, h.there, not_false_eq_true, if_true]
    unfold Store.finishSetTotp Store.transact total
    simp only [h.waits, not_true_eq_false, if_false, h.passed, Bool.not_true, Bool.false_eq_true,
      h.notClosed, hcommit]
    exact ⟨trivial, hcredentials⟩

end

/-- A step is not later than that of the file of its account. -/
def Disk.Spent (d : Disk) (step : String × ℤ) : Prop :=
  ∀ path c, d.credentials path = some c → c.username = step.1 → step.2 ≤ c.lastStep

theorem Disk.Spent.later {d d' : Disk} {step : String × ℤ} (h : d.Spent step)
    (hlater : d.Later d') : d'.Spent step := by
  intro path c' hc' hname
  obtain ⟨c, hc, hcredentials⟩ := hlater.before hc'
  rw [hcredentials.username] at hname
  exact le_trans (h path c hc hname) hcredentials.step

/-- What is in memory is spent. -/
theorem Filed.spent {accounts : Table String Account} {d : Disk} (h : Filed accounts d)
    {name : String} {a : Account} (ha : accounts.get? name = some a) {step : ℤ}
    (hstep : step ≤ a.credentials.lastStep) : d.Spent (name, step) := by
  intro path c hc hname
  obtain ⟨a', ha', hpath⟩ := h.account path c hc
  rw [hname, ha] at ha'
  cases ha'
  have hfile := h.file name a ha
  rw [hpath, hc] at hfile
  cases hfile
  exact hstep

/-- What a call that succeeded with a code found and left: its step is later than that of the
    account, and it is written. -/
structure Takes (w w' : World) (step : String × ℤ) : Prop where
  found : ∃ s a, w.store = some s ∧ s.state.storageFailed = false ∧
    s.state.accounts.get? step.1 = some a ∧ a.credentials.lastStep < step.2
  left : w'.disk.Spent step

variable {C : Crypto} {S : Serde} {parseTime : String → Option ℤ} {disk : Disk}
  {history : List Entry} {w : World}

/-- A login that succeeds with a code takes its step. -/
theorem Run.takes_login (hrun : Run C S parseTime disk history w) {e : Entry} (he : e ∈ history)
    {p : PendingLogin} {kdf : Kdf} {admitted : Bool} {env : LoginEnv}
    (hcall : e.call = .finishLogin p kdf admitted env) {r : LoginResult}
    (hreply : e.reply = .login r) (hok : r.status = .succeeded)
    (hon : e.before.totpDisabled p.request.username = some false) :
    Takes e.before e.after (p.request.username, p.step C) := by
  unfold World.totpDisabled at hon
  obtain ⟨s, hs, haccount⟩ := Option.bind_eq_some_iff.mp hon
  obtain ⟨a, ha, hsetting⟩ := Option.map_eq_some_iff.mp haccount
  have hsame : e.sameStore := fun now save h => by rw [hcall] at h; cases h
  obtain ⟨hanswer, hafter⟩ := hrun.called he hsame hs
  obtain ⟨reply, s', t', heq, hmoves, -, -, -, hsucceeded⟩ :=
    finishLogin_cases (C := C) s e.before.disk p kdf admitted env
  have hstep : s.step C e.before.disk e.call = (reply, s', t'.disk) := by rw [hcall]; exact heq
  rw [hstep] at hanswer hafter
  obtain ⟨-, -, account, hlogged⟩ := hsucceeded r (hanswer.symm.trans hreply) hok
  have hfound := hlogged.found
  rw [ha] at hfound
  cases hfound
  obtain ⟨hlater, hleft⟩ := hlogged.spent hsetting
  obtain ⟨_, _, _, hrun₀, _⟩ := hrun.split he
  refine ⟨⟨s, a, hs, hlogged.notFailed, ha, hlater⟩, ?_⟩
  rw [hafter]
  exact ((Filed.moves hmoves (hrun₀.filed s hs)).1 hlogged.after).spent hleft (le_refl _)

/-- A change that is answered with `Ok` takes its step, or asks for what is there. -/
theorem Run.takes_change (hrun : Run C S parseTime disk history w) {e : Entry} (he : e ∈ history)
    {p : PendingChange} {kdf : Kdf} {admitted : Bool} {env : ChangeEnv}
    (hcall : e.call = .finishSetTotp p kdf admitted env) (hreply : e.reply = .security .ok) :
    e.Idle C ∨ Takes e.before e.after (p.username, p.step C) := by
  have hsame : e.sameStore := fun now save h => by rw [hcall] at h; cases h
  cases hs : e.before.store with
  | none =>
    rw [(hrun.stopped he hsame hs).1] at hreply
    cases hreply
  | some s =>
    obtain ⟨hanswer, hafter⟩ := hrun.called he hsame hs
    obtain ⟨reply, s', t', heq, hmoves, -, -, hdone⟩ :=
      finishSetTotp_cases (C := C) [] [] s e.before.disk p kdf admitted env
    have hstep : s.step C e.before.disk e.call = (reply, s', t'.disk) := by rw [hcall]; exact heq
    rw [hstep] at hanswer hafter
    have hok : reply = .security .ok := hanswer.symm.trans hreply
    obtain ⟨rfl, rfl, account, hconfirmed⟩ := finishSetTotp_ok (by rw [heq]; exact hok)
    obtain ⟨-, -, t, account', hprune, hpruned, hchecked, hchanged⟩ := hdone hok
    have hfound := hchecked.found
    rw [hpruned.accounts, hconfirmed.found] at hfound
    obtain rfl : account = account' := Option.some.inj hfound
    cases hchanged with
    | already hthere => exact .inl ⟨p, env, s, account, hcall, hs, hconfirmed, hthere⟩
    | turned d hturns hsaves =>
      obtain ⟨_, _, _, hrun₀, _⟩ := hrun.split he
      refine .inr ⟨⟨s, account, hs, hconfirmed.prunes.1, hconfirmed.found, hconfirmed.later⟩, ?_⟩
      rw [hafter]
      have hfiled := (Filed.moves hmoves (hrun₀.filed s hs)).1 hpruned.notFailed
      refine hfiled.spent (a := { account with credentials := changedCredentials C p account }) ?_
        (le_refl _)
      show (t.state.accounts.modify p.username _).get? p.username = _
      rw [Table.get?_modify, if_pos rfl, hchecked.found]
      rfl

/-- **A call that succeeds with a code takes its step**, unless it asks for what is there. -/
theorem Run.takes (hrun : Run C S parseTime disk history w) {e : Entry} (he : e ∈ history)
    {step : String × ℤ} (hmatched : e.matched C = some step) :
    e.Idle C ∨ Takes e.before e.after step := by
  unfold Entry.matched at hmatched
  split at hmatched
  · rename_i p kdf admitted env token hcall hreply
    split at hmatched
    · rename_i hon
      cases hmatched
      exact .inr (hrun.takes_login he hcall hreply rfl hon)
    · cases hmatched
  · rename_i p kdf admitted env hcall hreply
    cases hmatched
    exact hrun.takes_change he hcall hreply
  · cases hmatched

/-- The steps of a run, the newest first. -/
def matchedSteps (C : Crypto) (history : List Entry) : List (String × ℤ) :=
  history.filterMap (Entry.matched C)

/-- **A whole run**: its steps are spent and no two are the same. -/
theorem Run.spent (hrun : Run C S parseTime disk history w)
    (hidle : ∀ e ∈ history, ¬ e.Idle C) :
    (∀ step ∈ matchedSteps C history, w.disk.Spent step) ∧ (matchedSteps C history).Nodup := by
  induction hrun with
  | new => exact ⟨fun _ h => (nomatch h), List.nodup_nil⟩
  | step w history call hrun ih =>
    obtain ⟨hspent, hnodup⟩ := ih fun e he => hidle e (List.mem_cons_of_mem _ he)
    have hnext : Run C S parseTime disk (w.entry C S parseTime call :: history) _ :=
      .step w history call hrun
    have hlater : w.disk.Later (w.entry C S parseTime call).after.disk :=
      (hrun.filed.step (World.step_cases w call)).2
    unfold matchedSteps at hspent hnodup ⊢
    rw [List.filterMap_cons]
    cases hmatched : (w.entry C S parseTime call).matched C with
    | none => exact ⟨fun step hstep => (hspent step hstep).later hlater, hnodup⟩
    | some step =>
      have htakes := (hnext.takes List.mem_cons_self hmatched).resolve_left
        (hidle _ List.mem_cons_self)
      constructor
      · intro step' hstep'
        rcases List.mem_cons.mp hstep' with rfl | hold
        · exact htakes.left
        · exact (hspent step' hold).later hlater
      · refine List.nodup_cons.mpr ⟨fun hmem => ?_, hnodup⟩
        -- a step that is spent is not later than that of the account
        obtain ⟨s, a, hs, hopen, ha, hnew⟩ := htakes.found
        have hfiled := hrun.filed s hs hopen
        have hle := hspent step hmem a.path a.credentials (hfiled.file _ _ ha)
          (hfiled.named _ _ ha)
        exact absurd hnew (not_lt.mpr hle)

/-- **A step is spent once.**  In a run without a change to what is there already, no step of an
    account is that of two calls that succeed.  In every run the last step of a file never gets
    smaller, and the accounts in memory are those of the files until the storage fails. -/
theorem steps_spent_once (hrun : Run C S parseTime disk history w)
    (hidle : ∀ e ∈ history, ¬ e.Idle C) :
    (matchedSteps C history).Nodup ∧
    (∀ e ∈ history, ∀ path c, e.before.disk.credentials path = some c →
      ∃ c', e.after.disk.credentials path = some c' ∧ c'.username = c.username ∧
        c.lastStep ≤ c'.lastStep) ∧
    ∀ s, w.store = some s → s.state.storageFailed = false →
      ∀ name a, s.state.accounts.get? name = some a →
        a.credentials.username = name ∧ w.disk.credentials a.path = some a.credentials := by
  refine ⟨(hrun.spent hidle).2, fun e he path c hc => ?_, fun s hs hopen name a ha => ?_⟩
  · obtain ⟨later, earlier, _, hrun₀, hentry⟩ := hrun.split he
    have hlater : e.before.disk.Later (e.before.entry C S parseTime e.call).after.disk :=
      (hrun₀.filed.step (World.step_cases e.before e.call)).2
    rw [← hentry] at hlater
    have hpath := hlater path
    rw [hc] at hpath
    generalize hafter : e.after.disk.credentials path = found at hpath
    cases hpath with
    | some hcredentials => exact ⟨_, rfl, hcredentials.username, hcredentials.step⟩
  · have hfiled := hrun.filed s hs hopen
    exact ⟨hfiled.named name a ha, hfiled.file name a ha⟩

/-! ### A change to what is there already

The same code is accepted twice by a change that asks for what is there. -/

namespace IdleExample

open Example

/-- The session of the first login asks for the switch to be off, which it is. -/
def changeIdle : PendingChange := pendingChange now "055910" false credentials

def asking : Store := first.waitChange crypto (change now "055910" false) session account

/-- After the answer. -/
def answered : Store := Store.sync { asking with changes := asking.changes.erase changeIdle }

def askingAgain : Store := answered.waitChange crypto (change now "055910" false) session account

def answeredAgain : Store :=
  Store.sync { askingAgain with changes := askingAgain.changes.erase changeIdle }

theorem idle_step : changeIdle.step crypto = 58333333 := by decide

theorem asking_holds : Holds asking session account := first_holds.waitChange _

theorem answered_holds : Holds answered session account := asking_holds.sync _

theorem askingAgain_holds : Holds askingAgain session account := answered_holds.waitChange _

theorem idle_later : account.credentials.lastStep < changeIdle.step crypto :=
  lt_of_lt_of_eq (by decide) idle_step.symm

theorem asking_started : first.setTotp crypto firstDisk (change now "055910" false) true .done
    = (.waiting, asking, firstDisk) :=
  setTotp_waits (first_holds.asks now_le_later) (by decide) (by decide)

theorem asking_answered :
    asking.finishSetTotp crypto firstDisk changeIdle .done true (changeEnv now)
      = (.security .ok, answered, firstDisk) :=
  finishSetTotp_stays (asking_holds.confirms now_le_later List.mem_cons_self rfl idle_later)
    (by decide)

theorem askingAgain_started :
    answered.setTotp crypto firstDisk (change now "055910" false) true .done
    = (.waiting, askingAgain, firstDisk) :=
  setTotp_waits (answered_holds.asks now_le_later) (by decide) (by decide)

theorem askingAgain_answered :
    askingAgain.finishSetTotp crypto firstDisk changeIdle .done true (changeEnv now)
      = (.security .ok, answeredAgain, firstDisk) :=
  finishSetTotp_stays (askingAgain_holds.confirms now_le_later List.mem_cons_self rfl idle_later)
    (by decide)

/-- The same code is taken twice. -/
theorem step_spent_twice : ¬ ∀ (C : Crypto) (S : Serde) (parseTime : String → Option ℤ)
    (disk : Disk) (history : List Entry) (w : World), Run C S parseTime disk history w →
    (matchedSteps C history).Nodup := by
  intro h
  have hask := first_run.call (.setTotp (change now "055910" false) true .done)
    (fun _ _ h => (nomatch h)) asking_started
  have hanswer := hask.call (.finishSetTotp changeIdle .done true (changeEnv now))
    (fun _ _ h => (nomatch h)) asking_answered
  have hagain := hanswer.call (.setTotp (change now "055910" false) true .done)
    (fun _ _ h => (nomatch h)) askingAgain_started
  have hrun := hagain.call (.finishSetTotp changeIdle .done true (changeEnv now))
    (fun _ _ h => (nomatch h)) askingAgain_answered
  have hnodup := h _ _ _ _ _ _ hrun
  unfold matchedSteps at hnodup
  rw [List.filterMap_cons, List.filterMap_cons, List.filterMap_cons] at hnodup
  exact (List.nodup_cons.mp hnodup).1 List.mem_cons_self

/-- The run that turns the switch on and off takes two steps. -/
theorem switch_steps : (∀ e ∈ SwitchExample.history, ¬ e.Idle crypto) ∧
    (matchedSteps crypto SwitchExample.history).Nodup := by
  have hidle : ∀ e ∈ SwitchExample.history, ¬ e.Idle crypto := by
    rintro e he ⟨p, env, s, a, hcall, hs, hidles⟩
    have ha := hidles.found
    have hthere := hidles.there
    simp only [SwitchExample.history, firstHistory, List.cons_append, List.nil_append,
      List.mem_cons, List.not_mem_nil, or_false] at he
    rcases he with rfl | rfl | rfl | rfl | rfl | rfl | rfl | rfl | rfl
    · cases hcall
    · cases hcall
      cases hs
      cases SwitchExample.askingOff_holds.found.symm.trans ha
      exact hthere rfl
    · cases hcall
    · cases hcall
      cases hs
      cases SwitchExample.asking_holds.found.symm.trans ha
      exact hthere rfl
    · cases hcall
    · cases hcall
    · cases hcall
    · cases hcall
    · cases hcall
  exact ⟨hidle, (steps_spent_once SwitchExample.history_run hidle).1⟩

end IdleExample

end Hmux.Auth
