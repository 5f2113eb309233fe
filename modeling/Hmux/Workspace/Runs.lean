import Hmux.Workspace.Reconcile

namespace Hmux.Workspace

/-!
# Shared workspace — whole runs

Every device sends its edit until it gets an answer, so the same `Change` may reach
`reconcile` many times, with other devices' edits in between.  This file proves that it is
merged at most once, although the snapshot remembers only the last 64 operation ids.

* `reconcile_cases` — what one successful call can do to the history and the revision;
* `Spent op rev s` — the invariant behind the retry guard: the operation id is still in the
  history with enough revisions spent on the younger entries, or the revision is already
  out of the guard's reach;
* `spent_step`, `spent_run` — every call, whatever it carries, keeps an operation spent;
* `reconcile_spent` — a spent change is answered as a poll, with or without a conflict;
* `reconcile_exactly_once` — the run theorem.
-/

/-- One call of a run: an optional change and the catalog it was checked against. -/
abbrev Call := Option Change × List SessionLineage

/-- The stored state after one call; a failed call stores nothing. -/
def step (s : Snapshot) (call : Call) : Snapshot :=
  match reconcile s call.1 call.2 with
  | .ok t => t.state
  | .error _ => s

/-- The stored state after a whole run. -/
def run (s : Snapshot) (calls : List Call) : Snapshot := calls.foldl step s

/-- The call merges the change into the tabs: its operation id is new, and the call is
    neither refused as a conflict nor failed. -/
def Merges (s : Snapshot) (change : Change) (sessions : List SessionLineage) : Prop :=
  change.operationId ∉ s.applied ∧
    ∃ t, reconcile s (some change) sessions = .ok t ∧ t.conflict = false

/-! ### One call

A call that merges pushes its operation id and takes a new revision; every other call leaves the
history alone. -/

/-- The history and the revision a snapshot carries through `merge`. -/
theorem merge_frame {current next : Snapshot} {change : Change}
    (h : merge current change = .ok next) :
    next.applied = current.applied ∧ next.revision = current.revision := by
  obtain ⟨-, -, -, -, heq⟩ := merge_ok h
  rw [heq]
  exact ⟨rfl, rfl⟩

/-- A merge attempt that was not refused: the change was not newer than the state. -/
theorem tryMerge_some {current next : Snapshot} {change : Change} {sessions : List SessionLineage}
    (h : tryMerge current change sessions = some next) :
    change.revision.toNat ≤ current.revision.toNat ∧
      merge current (change.rebased sessions) = .ok next := by
  rw [tryMerge] at h
  split at h
  · cases h
  rename_i hguard
  dsimp only at h
  split at h
  · cases h
  simp only [Bool.or_eq_true, decide_eq_true_eq, not_or] at hguard
  refine ⟨by simpa [UInt64.lt_iff_toNat_lt] using hguard.1.2, ?_⟩
  cases hm : merge current (change.rebased sessions) with
  | error e => rw [hm] at h; cases h
  | ok s => rw [hm] at h; injection h with h; rw [h]

/-- The end of a successful call: the history is that of the next snapshot, and the revision
    grows by one exactly when the snapshot changed. -/
theorem commit_ok {before next : Snapshot} {conflict : Bool} {t : Transition}
    (h : commit before next conflict = .ok t) :
    t.conflict = conflict ∧ t.state.applied = next.applied ∧
      (next = before ∧ t.state = before ∨
        next ≠ before ∧ t.state.revision.toNat = before.revision.toNat + 1) := by
  rw [commit] at h
  split at h
  · cases h
  split at h
  · rename_i heq
    injection h with h
    subst h
    exact ⟨rfl, rfl, Or.inl ⟨heq, heq⟩⟩
  · rename_i hne
    cases hr : Lib.checkedSucc before.revision with
    | none => rw [hr] at h; cases h
    | some r =>
      rw [hr] at h
      injection h with h
      subst h
      exact ⟨rfl, rfl, Or.inr ⟨hne, Lib.checkedSucc_some hr⟩⟩

/-- What happens between the rebase and the end: nothing to the history, or a merge of a
    change with a new operation id. -/
theorem applyChange_cases (s : Snapshot) (change : Option Change)
    (sessions : List SessionLineage) :
    ((applyChange s change sessions).1.applied = s.applied ∧
        ∀ c, change = some c → c.operationId ∉ s.applied →
          (applyChange s change sessions).2 = true) ∨
      (∃ c, change = some c ∧ c.operationId ∉ s.applied ∧
        (applyChange s change sessions).2 = false ∧ c.revision.toNat ≤ s.revision.toNat ∧
        (applyChange s change sessions).1.applied
          = Lib.History.push history s.applied c.operationId) := by
  cases change with
  | none => exact Or.inl ⟨rfl, fun c hc => by cases hc⟩
  | some c =>
    by_cases hin : c.operationId ∈ s.applied
    · refine Or.inl ⟨by simp [applyChange, hin], fun c' hc' hnew => absurd ?_ hnew⟩
      injection hc' with hc'
      rw [← hc']
      exact hin
    · cases hm : tryMerge s c sessions with
      | none =>
        refine Or.inl ⟨?_, fun _ _ _ => ?_⟩ <;> simp [applyChange, hin, hm]
      | some next =>
        obtain ⟨hcr, hmerge⟩ := tryMerge_some hm
        refine Or.inr ⟨c, rfl, hin, ?_, hcr, ?_⟩
        · simp [applyChange, hin, hm]
        · simp [applyChange, hin, hm, (merge_frame hmerge).1]

/-- **What one call can do.**  It either leaves the history alone and never lowers the
    revision, or it merged a change with a new operation id: the id is pushed on the history
    and the revision grew by exactly one. -/
theorem reconcile_cases {s : Snapshot} {change : Option Change} {sessions : List SessionLineage}
    {t : Transition} (h : reconcile s change sessions = .ok t) :
    (t.state.applied = s.applied ∧ s.revision.toNat ≤ t.state.revision.toNat ∧
        ∀ c, change = some c → c.operationId ∉ s.applied → t.conflict = true) ∨
      (∃ c, change = some c ∧ c.operationId ∉ s.applied ∧ t.conflict = false ∧
        c.revision.toNat ≤ s.revision.toNat ∧
        t.state.applied = Lib.History.push history s.applied c.operationId ∧
        t.state.revision.toNat = s.revision.toNat + 1) := by
  rw [reconcile] at h
  split at h
  · cases h
  obtain ⟨hconf, happ, hrev⟩ := commit_ok h
  rcases applyChange_cases (s.rebased sessions) change sessions with
    ⟨hsame, hrefused⟩ | ⟨c, rfl, hnew, hok, hcr, hpush⟩
  · refine Or.inl ⟨happ.trans hsame, ?_, fun c hc hnew => hconf.trans (hrefused c hc hnew)⟩
    rcases hrev with ⟨-, hs⟩ | ⟨-, hs⟩
    · rw [hs]
    · omega
  · refine Or.inr ⟨c, rfl, hnew, hconf.trans hok, hcr, happ.trans hpush, ?_⟩
    -- the pushed id was not in the old history, so the snapshot did change
    rcases hrev with ⟨heq, -⟩ | ⟨-, hs⟩
    · refine absurd ?_ hnew
      have hmem := Lib.History.mem_push_self history (s.rebased sessions).applied c.operationId
      rw [← hpush, heq] at hmem
      exact hmem
    · exact hs

theorem step_ok {s : Snapshot} (call : Call) {t : Transition}
    (h : reconcile s call.1 call.2 = .ok t) : step s call = t.state := by
  rw [step, h]

theorem step_error {s : Snapshot} (call : Call) {e : Error}
    (h : reconcile s call.1 call.2 = .error e) : step s call = s := by
  rw [step, h]

/-! ### Spent operations

Revisions grow with every push, so an id that was evicted is one whose revision is too old for the
guard. -/

/-- The operation was merged at some revision from `rev` on, and no retry at revision `rev`
    can be merged any more: either its id is still recorded and every younger entry has cost
    a revision of its own, or the revision has left the guard's window. -/
def Spent (op : String) (rev : ℕ) (s : Snapshot) : Prop :=
  (∃ k, Lib.History.Within s.applied op k ∧ rev + 1 + k ≤ s.revision.toNat) ∨
    rev + history < s.revision.toNat

/-- A call that merges an operation leaves it spent. -/
theorem spent_of_merges {s : Snapshot} {change : Change} {sessions : List SessionLineage}
    (h : Merges s change sessions) :
    Spent change.operationId change.revision.toNat (step s (some change, sessions)) := by
  obtain ⟨hnew, t, ht, hconf⟩ := h
  rw [step_ok (some change, sessions) ht]
  rcases reconcile_cases ht with ⟨-, -, hrefused⟩ | ⟨c, hc, -, -, hcr, happ, hrev⟩
  · rw [hrefused change rfl hnew] at hconf
    cases hconf
  · injection hc with hc
    subst hc
    refine Or.inl ⟨0, ?_, by omega⟩
    rw [happ]
    exact Lib.History.within_push_self _ _ _

/-- **Step lemma.**  No call un-spends an operation: a push that evicts the id happens only
    after 64 younger pushes, each of which cost a revision. -/
theorem spent_step {op : String} {rev : ℕ} {s : Snapshot} (call : Call) (h : Spent op rev s) :
    Spent op rev (step s call) := by
  cases hr : reconcile s call.1 call.2 with
  | error e => rw [step_error _ hr]; exact h
  | ok t =>
    rw [step_ok _ hr]
    rcases reconcile_cases hr with ⟨happ, hle, -⟩ | ⟨c, -, -, -, -, happ, hrev⟩
    · rcases h with ⟨k, hk, hkr⟩ | hfar
      · exact Or.inl ⟨k, by rw [happ]; exact hk, by omega⟩
      · exact Or.inr (by omega)
    · rcases h with ⟨k, hk, hkr⟩ | hfar
      · rcases Lib.History.within_push history c.operationId hk with hstill | hevicted
        · exact Or.inl ⟨k + 1, by rw [happ]; exact hstill, by omega⟩
        · exact Or.inr (by omega)
      · exact Or.inr (by omega)

/-- **Run lemma.** -/
theorem spent_run {op : String} {rev : ℕ} {s : Snapshot} (calls : List Call)
    (h : Spent op rev s) : Spent op rev (run s calls) :=
  List.foldlRecOn calls step h fun _ hs call _ => spent_step call hs

/-! ### Answering a spent change

The two guards of the source: the history, and the distance of the revision. -/

/-- The same outcome, reported as a conflict. -/
def Transition.withConflict (t : Transition) : Transition := { t with conflict := true }

/-- A recorded change is answered as a poll. -/
theorem reconcile_recorded {s : Snapshot} {change : Change} (sessions : List SessionLineage)
    (h : change.operationId ∈ s.applied) :
    reconcile s (some change) sessions = reconcile s none sessions := by
  have happly : applyChange (s.rebased sessions) (some change) sessions
      = applyChange (s.rebased sessions) none sessions := by
    simp [applyChange, Snapshot.rebased, h]
  rw [reconcile, reconcile, happly]

/-- Reporting a conflict does not change what is stored. -/
theorem commit_conflict (before next : Snapshot) :
    commit before next true = (commit before next false).map Transition.withConflict := by
  rw [commit, commit]
  split
  · rfl
  split
  · rfl
  · cases Lib.checkedSucc before.revision <;> rfl

/-- A change outside the guard's window is answered as a poll that reports a conflict. -/
theorem reconcile_stale {s : Snapshot} {change : Change} (sessions : List SessionLineage)
    (hnew : change.operationId ∉ s.applied)
    (h : change.revision.toNat + history < s.revision.toNat) :
    reconcile s (some change) sessions
      = (reconcile s none sessions).map Transition.withConflict := by
  have hsub : (s.revision - change.revision).toNat > history := by
    rw [UInt64.toNat_sub_of_le _ _ (UInt64.le_iff_toNat_le.mpr (by omega))]
    omega
  have hnone : tryMerge (s.rebased sessions) change sessions = none := by
    rw [tryMerge, if_pos]
    simp [Snapshot.rebased, hsub]
  have happly : applyChange (s.rebased sessions) (some change) sessions
      = ((applyChange (s.rebased sessions) none sessions).1, true) := by
    have hnew' : change.operationId ∉ (s.rebased sessions).applied := hnew
    simp [applyChange, hnone, hnew']
  rw [reconcile, reconcile, happly]
  split
  · rfl
  · exact commit_conflict s _

/-- **A spent change is never merged again.**  It is answered as a poll when its id is still
    recorded, and as a poll that reports a conflict when it is not. -/
theorem reconcile_spent {s : Snapshot} {change : Change} (sessions : List SessionLineage)
    (h : Spent change.operationId change.revision.toNat s) :
    (change.operationId ∈ s.applied ∧
        reconcile s (some change) sessions = reconcile s none sessions) ∨
      (change.operationId ∉ s.applied ∧
        reconcile s (some change) sessions
          = (reconcile s none sessions).map Transition.withConflict) := by
  by_cases hin : change.operationId ∈ s.applied
  · exact Or.inl ⟨hin, reconcile_recorded sessions hin⟩
  · rcases h with ⟨k, hk, -⟩ | hfar
    · exact absurd hk.mem hin
    · exact Or.inr ⟨hin, reconcile_stale sessions hin hfar⟩

/-- **Exactly-once edits.**  In every run from the empty workspace, once a change was merged,
    any later call that carries the same operation id and revision merges nothing: its id is
    still in the history and the call is a poll, or the call is a poll that reports a
    conflict — also after the 64-entry history has forgotten the id. -/
theorem reconcile_exactly_once (before between : List Call) (change resent : Change)
    (sessions later : List SessionLineage)
    (hop : resent.operationId = change.operationId) (hrev : resent.revision = change.revision)
    (hmerged : Merges (run Snapshot.empty before) change sessions) :
    let s := run (step (run Snapshot.empty before) (some change, sessions)) between
    ¬ Merges s resent later ∧
      ((resent.operationId ∈ s.applied ∧
          reconcile s (some resent) later = reconcile s none later) ∨
        (resent.operationId ∉ s.applied ∧
          reconcile s (some resent) later
            = (reconcile s none later).map Transition.withConflict)) := by
  intro s
  have hspent : Spent resent.operationId resent.revision.toNat s := by
    rw [hop, hrev]
    exact spent_run between (spent_of_merges hmerged)
  have hanswer := reconcile_spent later hspent
  refine ⟨?_, hanswer⟩
  rintro ⟨hnew, t, ht, hconf⟩
  rcases hanswer with ⟨hin, -⟩ | ⟨-, hpoll⟩
  · exact hnew hin
  · rw [hpoll] at ht
    cases hp : reconcile s none later with
    | error e => rw [hp] at ht; cases ht
    | ok t' =>
      rw [hp] at ht
      injection ht with ht
      subst ht
      cases hconf

namespace RunsExample

/-- A device opens the only live session. -/
def opens : Change :=
  { operationId := "operation-opens-1", revision := 0, base := [], tabs := [⟨"$1", 7⟩],
    selected := none }

/-- The catalog while it does so. -/
def catalog : List SessionLineage := [⟨"$1", 7, none⟩]

theorem merges_opens : Merges (run Snapshot.empty []) opens catalog :=
  ⟨by decide,
    { state := { Snapshot.empty with
                   applied := ["operation-opens-1"], initialized := true, revision := 1,
                   tabs := [⟨"$1", 7⟩] },
      changed := true, conflict := false }, by decide, rfl⟩

/-- Sent again after the session was closed and polled away, the edit merges nothing. -/
theorem reconcile_exactly_once_opens :
    ¬ Merges (run (step (run Snapshot.empty []) (some opens, catalog)) [(none, [])]) opens
        catalog :=
  (reconcile_exactly_once [] [(none, [])] opens opens catalog catalog rfl rfl merges_opens).1

end RunsExample

end Hmux.Workspace
