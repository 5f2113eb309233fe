import Hmux.Lib.Machine
import Hmux.Workspace.Merge

namespace Hmux.Workspace

/-!
# Shared workspace — reconciliation with the live catalog

`reconcile` is the one transition of the stored workspace.  It moves every tab to the
session that was restored from it (`resolve`, `rebase`), applies an optional `Change`, and
refuses a result that is not valid.

* `reconcile_none` — a poll (no change) succeeds exactly when the rebased tabs are valid;
* `rebase_distinct_iff` — over a well-formed catalog the rebased tabs have distinct tmux ids
  exactly when no restored session sits on the tmux id of a saved tab that is gone;
* `reconcile_poll_iff` — hence the exact condition under which a poll keeps the workspace.
-/

/-- `live`: the catalog lists exactly this lifetime. -/
def live (id : SessionIdentity) (sessions : List SessionLineage) : Bool :=
  sessions.any fun s => s.id == id.id && s.createdAt == id.createdAt

/-- `resolve`: only a unique restore lineage can change a lifetime. -/
def resolve (id : SessionIdentity) (sessions : List SessionLineage) : SessionIdentity :=
  if live id sessions then id
  else
    match sessions.filter fun s => s.restoredFrom == some id with
    | [s] => s.identity
    | _ => id

/-- `rebase`: resolve every identity, keeping the first of equal results. -/
def rebase (ids : List SessionIdentity) (sessions : List SessionLineage) :
    List SessionIdentity :=
  ids.foldl (fun result id =>
    if result.contains (resolve id sessions) then result
    else result ++ [resolve id sessions]) []

/-- The outcome of a successful `reconcile`. -/
structure Transition where
  state : Snapshot
  changed : Bool
  conflict : Bool
  deriving DecidableEq, Repr

/-- `Transition::reply`: a conflict is reported, never stored. -/
def Transition.reply (t : Transition) : Snapshot :=
  if t.conflict then { t.state with conflict := "workspace_conflict" } else t.state

/-- The change with its lists moved to the live sessions. -/
def Change.rebased (change : Change) (sessions : List SessionLineage) : Change :=
  { change with base := rebase change.base sessions, tabs := rebase change.tabs sessions,
                selected := none }

/-- The conflict test and the merge of a change whose operation id is not in the history. -/
def tryMerge (current : Snapshot) (change : Change) (sessions : List SessionLineage) :
    Option Snapshot :=
  if !change.valid || change.revision > current.revision ||
      (current.revision - change.revision).toNat > history then none
  else
    let rebased := change.rebased sessions
    if rebased.tabs.any fun id => !rebased.base.contains id && !live id sessions then none
    else (merge current rebased).toOption

/-- The part of `reconcile` between the rebase and the final validity check: the next
    snapshot and whether the change was refused as a conflict. -/
def applyChange (current : Snapshot) (change : Option Change) (sessions : List SessionLineage) :
    Snapshot × Bool :=
  match change with
  | none => (current, false)
  | some change =>
    if current.applied.contains change.operationId then (current, false)
    else
      match tryMerge current change sessions with
      | none => (current, true)
      | some next =>
        ({ next with applied := Lib.History.push history next.applied change.operationId },
          false)

/-- The snapshot `reconcile` starts from: rebased tabs, no focus, no stored conflict. -/
def Snapshot.rebased (current : Snapshot) (sessions : List SessionLineage) : Snapshot :=
  { current with tabs := rebase current.tabs sessions, selected := none, conflict := "" }

/-- The end of `reconcile`: refuse an invalid result, and give a changed one a new revision. -/
def commit (before next : Snapshot) (conflict : Bool) : Except Error Transition :=
  if !next.valid then .error .invalid
  else if next = before then .ok { state := next, changed := false, conflict := conflict }
  else
    match Lib.checkedSucc before.revision with
    | none => .error .revisionExhausted
    | some revision =>
      .ok { state := { next with revision := revision }, changed := true, conflict := conflict }

/-- `reconcile`. -/
def reconcile (current : Snapshot) (change : Option Change) (sessions : List SessionLineage) :
    Except Error Transition :=
  if !current.valid then .error .invalid
  else
    let applied := applyChange (current.rebased sessions) change sessions
    commit current applied.1 applied.2

/-! ### Resolving and rebasing

A tab is live, was restored, or is gone; of tabs that resolve to one session the first one is kept.
-/

variable {sessions : List SessionLineage} {ids : List SessionIdentity} {id : SessionIdentity}

theorem live_iff :
    live id sessions = true ↔ ∃ s ∈ sessions, s.identity = id := by
  rw [live, List.any_eq_true]
  refine exists_congr fun s => and_congr_right fun _ => ?_
  rw [Bool.and_eq_true, beq_iff_eq, beq_iff_eq, SessionLineage.identity, SessionIdentity.mk.injEq]

variable (sessions) in
/-- The rebase loop from an arbitrary start: it appends what is new, in order. -/
theorem foldl_rebase (ids result : List SessionIdentity) (hres : result.Nodup) :
    let out := ids.foldl (fun result id =>
      if result.contains (resolve id sessions) then result
      else result ++ [resolve id sessions]) result
    out.Nodup ∧ out.length ≤ result.length + ids.length ∧
      ∀ x, x ∈ out ↔ x ∈ result ∨ ∃ id ∈ ids, resolve id sessions = x := by
  induction ids generalizing result with
  | nil => exact ⟨hres, le_refl _, fun x => by simp⟩
  | cons y ids ih =>
    rw [List.foldl_cons]
    by_cases hy : resolve y sessions ∈ result
    · rw [if_pos (by simpa using hy)]
      obtain ⟨hnd, hlen, hmem⟩ := ih result hres
      refine ⟨hnd, ?_, fun x => ?_⟩
      · rw [List.length_cons]; omega
      · rw [hmem x, List.exists_mem_cons_iff]
        constructor
        · exact Or.imp_right Or.inr
        · rintro (hx | rfl | hx)
          · exact Or.inl hx
          · exact Or.inl hy
          · exact Or.inr hx
    · rw [if_neg (by simpa using hy)]
      have hres' : (result ++ [resolve y sessions]).Nodup := by
        rw [List.nodup_append]
        exact ⟨hres, List.nodup_singleton _, by
          intro a ha b hb hab
          rw [List.mem_singleton] at hb
          exact hy (hb ▸ hab ▸ ha)⟩
      obtain ⟨hnd, hlen, hmem⟩ := ih _ hres'
      refine ⟨hnd, ?_, fun x => ?_⟩
      · rw [List.length_append, List.length_singleton] at hlen
        rw [List.length_cons]; omega
      · rw [hmem x, List.exists_mem_cons_iff, List.mem_append, List.mem_singleton, or_assoc,
          eq_comm (a := x)]

theorem mem_rebase (x : SessionIdentity) :
    x ∈ rebase ids sessions ↔ ∃ id ∈ ids, resolve id sessions = x := by
  rw [rebase, (foldl_rebase sessions ids [] List.nodup_nil).2.2 x]
  simp

theorem rebase_nodup (ids : List SessionIdentity) (sessions : List SessionLineage) :
    (rebase ids sessions).Nodup :=
  (foldl_rebase sessions ids [] List.nodup_nil).1

theorem length_rebase_le (ids : List SessionIdentity) (sessions : List SessionLineage) :
    (rebase ids sessions).length ≤ ids.length := by
  have h := (foldl_rebase sessions ids [] List.nodup_nil).2.1
  rw [List.length_nil, Nat.zero_add] at h
  exact h

/-- Rebased tabs have distinct tmux ids exactly when resolving never brings two different
    lifetimes to one tmux id. -/
theorem rebase_distinct :
    DistinctIds (rebase ids sessions) ↔
      ∀ a ∈ ids, ∀ b ∈ ids, (resolve a sessions).id = (resolve b sessions).id →
        resolve a sessions = resolve b sessions := by
  rw [DistinctIds, List.nodup_map_iff_inj_on (rebase_nodup ids sessions)]
  simp only [mem_rebase, forall_exists_index, and_imp, forall_apply_eq_imp_iff₂]

/-! ### Well-formed catalogs

A tmux id is held by one lifetime, and no identity was restored twice. -/

/-- What the restore bookkeeping promises about a catalog. -/
structure WellFormedLineage (sessions : List SessionLineage) : Prop where
  /-- Every listed session has a valid identity. -/
  valid : ∀ s ∈ sessions, ValidIdentity s.identity
  /-- A tmux id is held by one lifetime. -/
  oneLifetime : ∀ s ∈ sessions, ∀ s' ∈ sessions, s.id = s'.id → s.createdAt = s'.createdAt
  /-- No identity was restored twice. -/
  restoredOnce : (sessions.filterMap (·.restoredFrom)).Nodup

/-- A saved tab whose session was restored: it is gone itself and has a unique successor. -/
def RestoredAs (tab : SessionIdentity) (s : SessionLineage) (sessions : List SessionLineage) :
    Prop :=
  live tab sessions = false ∧ (sessions.filter fun s => s.restoredFrom == some tab) = [s]

/-- A saved tab that is neither live nor restored. -/
def Gone (tab : SessionIdentity) (sessions : List SessionLineage) : Prop :=
  live tab sessions = false ∧ ∀ s ∈ sessions, s.restoredFrom ≠ some tab

/-- When each identity is restored at most once, an entry restored from `tab` is the only one. -/
theorem filter_restoredFrom (h : (sessions.filterMap (·.restoredFrom)).Nodup)
    {s : SessionLineage} (hs : s ∈ sessions) (hfrom : s.restoredFrom = some id) :
    (sessions.filter fun s => s.restoredFrom == some id) = [s] := by
  induction sessions with
  | nil => cases hs
  | cons s₀ rest ih =>
    by_cases h₀ : s₀.restoredFrom = some id
    · -- the head is restored from `id`, so no later entry is
      rw [List.filterMap_cons_some h₀, List.nodup_cons] at h
      have hnone : ∀ s' ∈ rest, s'.restoredFrom ≠ some id := fun s' hs' h' =>
        h.1 (List.mem_filterMap.mpr ⟨s', hs', h'⟩)
      rw [List.filter_cons_of_pos (by simpa using h₀)]
      rcases List.mem_cons.mp hs with rfl | hs
      · rw [List.filter_eq_nil_iff.mpr (fun s' hs' => by simpa using hnone s' hs')]
      · exact absurd hfrom (hnone s hs)
    · have hrest : (rest.filterMap (·.restoredFrom)).Nodup := by
        rw [List.filterMap_cons] at h
        split at h
        · exact h
        · exact (List.nodup_cons.mp h).2
      rw [List.filter_cons_of_neg (by simpa using h₀)]
      rcases List.mem_cons.mp hs with rfl | hs
      · exact absurd hfrom h₀
      · exact ih hrest hs

theorem resolve_live (h : live id sessions = true) : resolve id sessions = id := by
  rw [resolve, if_pos h]

theorem resolve_restored {s : SessionLineage} (h : RestoredAs id s sessions) :
    resolve id sessions = s.identity := by
  rw [resolve, if_neg (by simp [h.1]), h.2]

theorem resolve_gone (h : Gone id sessions) : resolve id sessions = id := by
  rw [resolve, if_neg (by simp [h.1]), List.filter_eq_nil_iff.mpr]
  intro s hs
  simpa using h.2 s hs

/-- Over a well-formed catalog a saved tab is live, restored or gone. -/
theorem tab_cases (hw : WellFormedLineage sessions) (id : SessionIdentity) :
    live id sessions = true ∨ (∃ s ∈ sessions, RestoredAs id s sessions) ∨ Gone id sessions := by
  by_cases hl : live id sessions = true
  · exact Or.inl hl
  rw [Bool.not_eq_true] at hl
  by_cases hs : ∃ s ∈ sessions, s.restoredFrom = some id
  · obtain ⟨s, hs, hfrom⟩ := hs
    exact Or.inr (Or.inl ⟨s, hs, hl, filter_restoredFrom hw.restoredOnce hs hfrom⟩)
  · exact Or.inr (Or.inr ⟨hl, fun s hs' hfrom => hs ⟨s, hs', hfrom⟩⟩)

/-- A live or restored tab resolves to a listed session. -/
theorem resolve_listed (h : live id sessions = true ∨ ∃ s ∈ sessions, RestoredAs id s sessions) :
    ∃ s ∈ sessions, resolve id sessions = s.identity := by
  rcases h with hl | ⟨s, hs, hres⟩
  · obtain ⟨s, hs, hid⟩ := live_iff.mp hl
    exact ⟨s, hs, by rw [resolve_live hl, hid]⟩
  · exact ⟨s, hs, resolve_restored hres⟩

/-- A restored session sits on the tmux id of a saved tab that is gone. -/
def TakesOver (tabs : List SessionIdentity) (sessions : List SessionLineage) : Prop :=
  ∃ a ∈ tabs, ∃ s ∈ sessions, RestoredAs a s sessions ∧
    ∃ b ∈ tabs, Gone b sessions ∧ s.id = b.id

/-- **Where a rebase goes wrong.**  Among tabs with distinct tmux ids, resolving brings two
    lifetimes to one tmux id exactly when a restored session takes over a gone tab's id:
    listed sessions never disagree on a tmux id, and unresolved tabs keep theirs. -/
theorem rebase_distinct_iff (hw : WellFormedLineage sessions) (hd : DistinctIds ids) :
    DistinctIds (rebase ids sessions) ↔ ¬ TakesOver ids sessions := by
  rw [rebase_distinct]
  constructor
  · rintro h ⟨a, ha, s, hs, hres, b, hb, hgone, hid⟩
    have heq := h a ha b hb (by rw [resolve_restored hres, resolve_gone hgone]; exact hid)
    rw [resolve_restored hres, resolve_gone hgone] at heq
    have hlive : live b sessions = true := live_iff.mpr ⟨s, hs, heq⟩
    rw [hgone.1] at hlive
    cases hlive
  · intro hno
    -- two listed sessions with one tmux id are one lifetime
    have hlisted : ∀ a b, (∃ s ∈ sessions, resolve a sessions = s.identity) →
        (∃ s ∈ sessions, resolve b sessions = s.identity) →
        (resolve a sessions).id = (resolve b sessions).id →
        resolve a sessions = resolve b sessions := by
      rintro a b ⟨s, hs, ha⟩ ⟨s', hs', hb⟩ hid
      rw [ha, hb] at hid ⊢
      rw [SessionLineage.identity, SessionLineage.identity, SessionIdentity.mk.injEq]
      exact ⟨hid, hw.oneLifetime s hs s' hs' hid⟩
    -- a tab that is gone only meets a listed session that is live, and that one is a tab too
    have hgone : ∀ a ∈ ids, ∀ b ∈ ids, Gone b sessions → ¬ Gone a sessions →
        (resolve a sessions).id = (resolve b sessions).id → False := by
      intro a ha b hb hgb hga hid
      rw [resolve_gone hgb] at hid
      rcases tab_cases hw a with hl | ⟨s, hs, hres⟩ | hga'
      · rw [resolve_live hl] at hid
        rw [hd.eq_of_id_eq ha hb hid, hgb.1] at hl
        cases hl
      · rw [resolve_restored hres] at hid
        exact hno ⟨a, ha, s, hs, hres, b, hb, hgb, hid⟩
      · exact hga hga'
    have hres : ∀ a, ¬ Gone a sessions → ∃ s ∈ sessions, resolve a sessions = s.identity := by
      intro a hga
      rcases tab_cases hw a with hl | hres | hga'
      · exact resolve_listed (Or.inl hl)
      · exact resolve_listed (Or.inr hres)
      · exact absurd hga' hga
    intro a ha b hb hid
    by_cases hga : Gone a sessions
    · by_cases hgb : Gone b sessions
      · rw [resolve_gone hga, resolve_gone hgb] at hid ⊢
        exact hd.eq_of_id_eq ha hb hid
      · exact (hgone b hb a ha hga hgb hid.symm).elim
    · by_cases hgb : Gone b sessions
      · exact (hgone a ha b hb hgb hga hid).elim
      · exact hlisted a b (hres a hga) (hres b hgb) hid

/-! ### Polling

A poll only rebases, so what can go wrong with it is what can go wrong with a rebase. -/

/-- Every rebased identity is well formed on its own. -/
theorem rebase_valid (hw : WellFormedLineage sessions) (hids : ∀ id ∈ ids, ValidIdentity id) :
    ∀ x ∈ rebase ids sessions, ValidIdentity x := by
  intro x hx
  obtain ⟨id, hid, rfl⟩ := (mem_rebase x).mp hx
  rcases tab_cases hw id with hl | ⟨s, hs, hres⟩ | hgone
  · rw [resolve_live hl]; exact hids id hid
  · rw [resolve_restored hres]; exact hw.valid s hs
  · rw [resolve_gone hgone]; exact hids id hid

/-- Rebasing keeps everything about a valid snapshot but, possibly, its distinct tmux ids. -/
theorem rebased_valid_iff {current : Snapshot} (hv : current.valid = true)
    (hw : WellFormedLineage sessions) :
    (current.rebased sessions).valid = true ↔ DistinctIds (rebase current.tabs sessions) := by
  obtain ⟨hlen, hids, -⟩ := Snapshot.valid_tabs hv
  have htabs : validIds (rebase current.tabs sessions) = true ↔
      DistinctIds (rebase current.tabs sessions) := by
    rw [validIds_iff]
    exact ⟨fun h => h.2.2, fun h =>
      ⟨le_trans (length_rebase_le _ _) hlen, rebase_valid hw hids, h⟩⟩
  rw [← htabs]
  rw [Snapshot.valid] at hv
  simp only [Bool.and_eq_true] at hv
  rw [Snapshot.valid]
  simp only [Snapshot.rebased, Bool.and_eq_true, hv.1.1.2, Option.all_none, and_true, true_and,
    beq_self_eq_true, Bool.true_or]
  exact and_iff_right hv.1.1.1.2

variable (sessions) in
/-- A poll of a valid snapshot whose revision can still grow succeeds exactly when the rebased
    snapshot is valid, and then stores it. -/
theorem reconcile_none {current : Snapshot} (hv : current.valid = true)
    (hr : current.revision.toNat < 2 ^ 64 - 1) :
    ((current.rebased sessions).valid = true ∧
        ∃ t, reconcile current none sessions = .ok t ∧ t.state.valid = true ∧
          t.state.tabs = rebase current.tabs sessions) ∨
      ((current.rebased sessions).valid = false ∧
        reconcile current none sessions = .error .invalid) := by
  have hstep : reconcile current none sessions =
      if !(current.rebased sessions).valid then .error .invalid
      else if current.rebased sessions = current then
        .ok { state := current.rebased sessions, changed := false, conflict := false }
      else .ok { state := { current.rebased sessions with revision := current.revision + 1 },
                 changed := true, conflict := false } := by
    rw [reconcile, if_neg (by simp [hv])]
    simp only [applyChange, commit, Lib.checkedSucc]
    rw [if_pos (by omega)]
    rfl
  rw [hstep]
  cases hval : (current.rebased sessions).valid with
  | false => exact Or.inr ⟨rfl, rfl⟩
  | true =>
    refine Or.inl ⟨rfl, ?_⟩
    rw [Bool.not_true, if_neg Bool.false_ne_true]
    split
    · exact ⟨_, rfl, hval, rfl⟩
    · exact ⟨_, rfl, hval, rfl⟩

/-- A poll keeps the workspace usable: it succeeds with a valid state whose tmux ids are
    distinct, and every tab that is live or has a unique successor is in it. -/
def KeepsTabs (current : Snapshot) (sessions : List SessionLineage) : Prop :=
  ∃ t, reconcile current none sessions = .ok t ∧ t.state.valid = true ∧
    DistinctIds t.state.tabs ∧
    ∀ tab ∈ current.tabs, (live tab sessions = true ∨ ∃ s, RestoredAs tab s sessions) →
      resolve tab sessions ∈ t.state.tabs

/-- **Exactly when a poll keeps the workspace.**  Over a well-formed catalog a poll of a valid
    workspace succeeds, with every live or restored tab under its resolved identity, if and
    only if no restored session took over the tmux id of a saved tab that is gone. -/
theorem reconcile_poll_iff (current : Snapshot) (sessions : List SessionLineage)
    (hv : current.valid = true) (hr : current.revision.toNat < 2 ^ 64 - 1)
    (hw : WellFormedLineage sessions) :
    KeepsTabs current sessions ↔ ¬ TakesOver current.tabs sessions := by
  rw [← rebase_distinct_iff hw (Snapshot.valid_tabs hv).2.2, ← rebased_valid_iff hv hw]
  rcases reconcile_none sessions hv hr with ⟨hval, t, ht, htv, htabs⟩ | ⟨hval, herr⟩
  · rw [hval]
    refine iff_of_true ⟨t, ht, htv, (Snapshot.valid_tabs htv).2.2, fun tab htab _ => ?_⟩ rfl
    rw [htabs]
    exact (mem_rebase _).mpr ⟨tab, htab, rfl⟩
  · rw [hval]
    refine iff_of_false ?_ Bool.false_ne_true
    rintro ⟨t, ht, -⟩
    rw [herr] at ht
    cases ht

namespace ReconcileExample

/-- Two tabs saved before a reboot. -/
def saved : Snapshot := { Snapshot.empty with tabs := [⟨"$1", 100⟩, ⟨"$2", 200⟩] }

/-- After the reboot only the first session was restored, and tmux numbered it `$2`. -/
def rebooted : List SessionLineage := [⟨"$2", 300, some ⟨"$1", 100⟩⟩]

/-- After the reboot the restored session got a tmux id no saved tab holds. -/
def renumbered : List SessionLineage := [⟨"$3", 300, some ⟨"$1", 100⟩⟩]

theorem rebooted_wellFormed : WellFormedLineage rebooted where
  valid := by unfold ValidIdentity; decide
  oneLifetime := by decide
  restoredOnce := by decide

theorem renumbered_wellFormed : WellFormedLineage renumbered where
  valid := by unfold ValidIdentity; decide
  oneLifetime := by decide
  restoredOnce := by decide

/-- The reboot above leaves a workspace that every poll refuses. -/
theorem reconcile_poll_rebooted :
    saved.valid = true ∧ saved.revision.toNat < 2 ^ 64 - 1 ∧ WellFormedLineage rebooted ∧
      reconcile saved none rebooted = .error .invalid ∧ ¬ KeepsTabs saved rebooted := by
  have herr : reconcile saved none rebooted = .error .invalid := by decide
  refine ⟨by decide, by decide, rebooted_wellFormed, herr, ?_⟩
  rintro ⟨t, ht, -⟩
  rw [herr] at ht
  cases ht

/-- With a fresh tmux id the same workspace survives. -/
theorem reconcile_poll_renumbered :
    ¬ TakesOver saved.tabs renumbered ∧ KeepsTabs saved renumbered := by
  have hfree : ¬ TakesOver saved.tabs renumbered := by
    rintro ⟨a, -, s, hs, -, b, hb, -, hid⟩
    have hfresh : ∀ s ∈ renumbered, ∀ b ∈ saved.tabs, s.id ≠ b.id := by decide
    exact hfresh s hs b hb hid
  exact ⟨hfree, (reconcile_poll_iff saved renumbered (by decide) (by decide)
    renumbered_wellFormed).mpr hfree⟩

end ReconcileExample

end Hmux.Workspace
