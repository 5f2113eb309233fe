import Hmux.Protocol.UsageModel

namespace Hmux.Protocol.Snapshots

open Lib Lib.Proto Pb

/-!
# The two validators of usage snapshots

`validate_usage_inner` checks the message, `hmux_usage::transport::validate` the model; the two
are written separately.  The check of a message that was made from a snapshot is the check of the
snapshot, one part after the other, and every message that is accepted has a snapshot.

* `usageChecks_to` — the two validators agree;
* `fromUsage_ok`, `fromUsage_toUsage` — accepted messages and valid snapshots are converted;
* `usage_validators_agree` — all of it, with the conversions in both directions.
-/

section

variable {parseTime : String → Option DateTime}

/-! ### Part by part

The same check in two languages: one over the fields of the message, one over those of the
snapshot. -/

theorem usageProviderFrom_to (p : Usage.Provider) :
    usageProviderFrom (usageProviderTo p) = .ok p := by
  cases p <;> rfl

theorem usageProviderTo_beq (p q : Usage.Provider) :
    (usageProviderTo p == usageProviderTo q) = (p == q) := by
  cases p <;> cases q <;> rfl

/-- The retry times are compared as differences on one side and as nanoseconds on the other. -/
theorem usageRetry_to (s : Usage.Snapshot) :
    usageRetry parseTime (toUsage s) (toStatus s.status) = Usage.retry parseTime s := by
  have hgenerated : (toUsage s).generatedAtUtc = s.generatedAtUtc := by
    rw [toUsage_eq]
    rfl
  unfold usageRetry Usage.retry
  rw [hgenerated]
  have hretry : (toStatus s.status).retryAt = s.status.retryAt := rfl
  rw [hretry]
  cases s.status.retryAt with
  | none => rfl
  | some raw =>
    dsimp only
    refine if_congr Iff.rfl rfl ?_
    cases parseTime raw with
    | none => rfl
    | some reset =>
      cases parseTime s.generatedAtUtc with
      | none => rfl
      | some generated =>
        exact TimeDelta.numNanoseconds_any (le_refl 0) (by decide) (reset.since generated)

theorem usageFields_to (s : Usage.Snapshot) :
    (usageFields parseTime (toUsage s) (toWindow s.rolling5h) (toWindow s.weekly)
        (toStatus s.status) && decide (s.accounts.length ≤ Usage.maxAccounts) &&
      decide (s.sources.length ≤ 2)) = Usage.fields parseTime s := by
  unfold usageFields Usage.fields
  rw [usageRetry_to, toUsage_eq]
  rfl

theorem usageAccountWindow_to (w : Option Usage.AccountWindow) :
    usageAccountWindow (w.map toAccountWindow) = Usage.accountWindow w := by
  cases w <;> rfl

theorem usageAccount_to (provider : Usage.Provider) (before : List Usage.Account)
    (a : Usage.Account) :
    usageAccount provider (before.map toAccount) (toAccount a)
      = Usage.account provider before a := by
  have hbefore : ((before.map toAccount).any fun prev => prev.number == (toAccount a).number)
      = before.any fun prev => prev.number == a.number := by
    rw [List.any_map]
    rfl
  unfold usageAccount Usage.account
  rw [hbefore]
  show (_ && usageAccountWindow (a.fiveHour.map toAccountWindow) &&
    usageAccountWindow (a.sevenDay.map toAccountWindow) && _ && _ && _ && _ && _) = _
  rw [usageAccountWindow_to, usageAccountWindow_to]
  rfl

theorem usageAccounts_to (provider : Usage.Provider) (accounts : List Usage.Account) :
    (∀ p ∈ (accounts.map toAccount).zipIdx,
        usageAccount provider ((accounts.map toAccount).take p.2) p.1 = true) ↔
      ∀ p ∈ accounts.zipIdx, Usage.account provider (accounts.take p.2) p.1 = true := by
  rw [List.zipIdx_map]
  simp only [List.forall_mem_map, Prod.map_fst, Prod.map_snd, id_eq, ← List.map_take,
    usageAccount_to]

/-- The sources of a map have distinct names, so the message is not refused for them. -/
theorem usageSources_to {inner : UsageSnapshot → Except SnapshotError Unit}
    {inner' : Usage.Snapshot → Except Usage.Error Unit} {s : Usage.Snapshot}
    (hsorted : OrderedMap.Sorted s.sources)
    (hinner : ∀ p ∈ s.sources,
      inner (toUsage p.2) = .ok () ↔ p.2.sources = [] ∧ inner' p.2 = .ok ()) :
    (∀ p ∈ (toUsage s).sources.zipIdx,
        usageSource inner (toUsage s) s.provider ((toUsage s).sources.take p.2) p.1 = .ok ()) ↔
      ∀ p ∈ s.sources, Usage.source s p.1 p.2 = true ∧ inner' p.2 = .ok () := by
  have hsources : (toUsage s).sources = s.sources.map fun p => ⟨p.1, some (toUsage p.2)⟩ := by
    rw [toUsage_eq, ← toSources_eq]
    rfl
  have hprovider : ∀ t : Usage.Snapshot, (toUsage t).provider = usageProviderTo t.provider ∧
      (toUsage t).status = some (toStatus t.status) := by
    intro t
    rw [toUsage_eq]
    exact ⟨rfl, rfl⟩
  -- what is left of the check of one source once its name is known to be new
  have hone : ∀ (i : ℕ) (p : String × Usage.Snapshot), s.sources[i]? = some p →
      (usageSource inner (toUsage s) s.provider ((toUsage s).sources.take i)
          ⟨p.1, some (toUsage p.2)⟩ = .ok () ↔
        Usage.source s p.1 p.2 = true ∧ inner' p.2 = .ok ()) := by
    intro i p hp
    obtain ⟨hi, hget⟩ := List.getElem?_eq_some_iff.mp hp
    have hmem : p ∈ s.sources := hget ▸ List.getElem_mem hi
    have hbefore : (((toUsage s).sources.take i).any fun prior => prior.name == p.1) = false := by
      rw [List.any_eq_false]
      intro prior hprior
      rw [hsources, ← List.map_take] at hprior
      obtain ⟨q, hq, rfl⟩ := List.mem_map.mp hprior
      obtain ⟨k, hk, rfl⟩ := List.mem_take_iff_getElem.mp hq
      have hlt := List.pairwise_iff_getElem.mp hsorted k i (by omega) hi (by omega)
      rw [hget] at hlt
      simpa using hlt.ne
    have hchild := hinner p hmem
    rw [usageSource_ok]
    dsimp only
    unfold Usage.source
    simp only [Bool.and_eq_true, List.isEmpty_iff]
    constructor
    · rintro ⟨-, -, nested, status, hnested, hstatus, hallowed, hok⟩
      cases hnested
      rw [(hprovider p.2).2] at hstatus
      cases hstatus
      rw [(hprovider p.2).1, (hprovider s).1, usageProviderTo_beq] at hallowed
      obtain ⟨hnil, hok⟩ := hchild.mp hok
      exact ⟨⟨hallowed, hnil⟩, hok⟩
    · rintro ⟨⟨⟨hname, hprov⟩, hnil⟩, hok⟩
      refine ⟨?_, hbefore, toUsage p.2, toStatus p.2.status, rfl, (hprovider p.2).2, ?_,
        hchild.mpr ⟨hnil, hok⟩⟩
      · unfold checkText
        rw [require_ok, decide_eq_true_eq]
        exact Usage.sourceAllowed_len hname
      · rw [(hprovider p.2).1, (hprovider s).1, usageProviderTo_beq]
        exact ⟨hname, hprov⟩
  rw [hsources] at hone ⊢
  rw [List.zipIdx_map]
  simp only [List.forall_mem_map, Prod.map_fst, Prod.map_snd, id_eq]
  constructor
  · intro h p hp
    obtain ⟨i, hi, rfl⟩ := List.getElem_of_mem hp
    have hmem : (s.sources[i], i) ∈ s.sources.zipIdx := by simp [List.mem_zipIdx_iff_getElem?]
    exact (hone i _ (List.getElem?_eq_getElem hi)).mp (h _ hmem)
  · rintro h ⟨p, i⟩ hp
    have hget : s.sources[i]? = some p := List.mem_zipIdx_iff_getElem?.mp hp
    exact (hone i p hget).mpr (h p (List.mem_of_getElem? hget))

/-- **The two validators agree**, with the checks of nested snapshots given. -/
theorem usageChecks_to {inner : UsageSnapshot → Except SnapshotError Unit}
    {inner' : Usage.Snapshot → Except Usage.Error Unit} {s : Usage.Snapshot} {child : Bool}
    (hsorted : OrderedMap.Sorted s.sources)
    (hinner : ∀ p ∈ s.sources,
      inner (toUsage p.2) = .ok () ↔ p.2.sources = [] ∧ inner' p.2 = .ok ()) :
    usageChecks parseTime inner (toUsage s) child = .ok () ↔
      (child = true → s.sources = []) ∧ Usage.checks parseTime inner' s = .ok () := by
  have hsources := usageSources_to hsorted hinner
  have haccounts := usageAccounts_to s.provider s.accounts
  have hfields : _ = Usage.fields parseTime s := usageFields_to s
  have hproj : (toUsage s).provider = usageProviderTo s.provider ∧
      (toUsage s).rolling5h = some (toWindow s.rolling5h) ∧
      (toUsage s).weekly = some (toWindow s.weekly) ∧
      (toUsage s).status = some (toStatus s.status) ∧
      (toUsage s).accounts = s.accounts.map toAccount ∧
      (toUsage s).sources = toSources s.sources := by
    rw [toUsage_eq]
    exact ⟨rfl, rfl, rfl, rfl, rfl, rfl⟩
  obtain ⟨hp, hr, hw, hs, ha, hsrc⟩ := hproj
  have hlen : (toUsage s).sources.length = s.sources.length := by
    rw [hsrc, toSources_eq, List.length_map]
  have hnil : (toUsage s).sources = [] ↔ s.sources = [] := by
    rw [← List.length_eq_zero_iff, hlen, List.length_eq_zero_iff]
  rw [usageChecks_ok, Usage.checks_ok, ← hfields, ← hsources, ← haccounts, hnil, hlen, hp, hr, hw,
    hs, ha, usageProviderFrom_to, List.length_map]
  simp only [Bool.and_eq_true, decide_eq_true_eq]
  constructor
  · rintro ⟨hchild, hlen, hmax, provider, rolling, weekly, status, hprovider, hrolling, hweekly,
      hstatus, hf, hacc, hsrcs⟩
    cases hprovider
    cases hrolling
    cases hweekly
    cases hstatus
    exact ⟨hchild, ⟨⟨hf, hmax⟩, hlen⟩, hsrcs, hacc⟩
  · rintro ⟨hchild, ⟨⟨hf, hmax⟩, hlen⟩, hsrcs, hacc⟩
    exact ⟨hchild, hlen, hmax, s.provider, toWindow s.rolling5h, toWindow s.weekly,
      toStatus s.status, rfl, rfl, rfl, rfl, hf, hacc, hsrcs⟩

/-- A source is checked the same way. -/
theorem validateUsageChild_to (s : Usage.Snapshot) :
    validateUsageChild parseTime (toUsage s) = .ok () ↔
      s.sources = [] ∧ Usage.checks parseTime (fun _ => .ok ()) s = .ok () := by
  by_cases hnil : s.sources = []
  · have hsorted : OrderedMap.Sorted s.sources := by
      rw [hnil]
      exact List.Pairwise.nil
    have hinner : ∀ p ∈ s.sources, (.ok () : Except SnapshotError Unit) = .ok () ↔
        p.2.sources = [] ∧ (.ok () : Except Usage.Error Unit) = .ok () := by
      rw [hnil]
      intro p hp
      exact absurd hp List.not_mem_nil
    have h : validateUsageChild parseTime (toUsage s) = .ok () ↔
        (true = true → s.sources = []) ∧ Usage.checks parseTime (fun _ => .ok ()) s = .ok () :=
      usageChecks_to hsorted hinner
    rw [h]
    exact and_congr_left fun _ => ⟨fun h => h rfl, fun h _ => h⟩
  · refine iff_of_false (fun h => ?_) fun h => hnil h.1
    have hchild := (usageChecks_ok.mp h).1 rfl
    rw [toUsage_eq] at hchild
    have hempty : toSources s.sources = [] := hchild
    rw [toSources_eq, List.map_eq_nil_iff] at hempty
    exact hnil hempty

/-- `validate_usage_inner` of a message made from a snapshot. -/
theorem validateUsageInner_to {s : Usage.Snapshot} (hsorted : OrderedMap.Sorted s.sources) :
    usageChecks parseTime (validateUsageChild parseTime) (toUsage s) false = .ok () ↔
      Usage.validate parseTime s = .ok () := by
  have h : usageChecks parseTime (validateUsageChild parseTime) (toUsage s) false = .ok () ↔
      (false = true → s.sources = []) ∧ Usage.validate parseTime s = .ok () :=
    usageChecks_to hsorted fun p _ => validateUsageChild_to p.2
  rw [h]
  exact and_iff_right Bool.noConfusion

/-! ### Conversions of what is accepted

A message that passes its check has a provider, two windows and a status, so the conversion finds
what it needs. -/

/-- A source is converted to this entry of the map. -/
def SourceFrom (inner : UsageSnapshot → Except SnapshotError Usage.Snapshot) (src : UsageSource)
    (e : String × Usage.Snapshot) : Prop :=
  src.name = e.1 ∧ checkText src.name 16 = .ok () ∧
    ∃ nested, src.snapshot = some nested ∧ inner nested = .ok e.2

/-- Sources with distinct names that can be converted go into the map. -/
theorem fromSources_eq {inner : UsageSnapshot → Except SnapshotError Usage.Snapshot}
    {l : List UsageSource} {entries map : List (String × Usage.Snapshot)}
    (h : List.Forall₂ (SourceFrom inner) l entries)
    (hnodup : ((entries ++ map).map Prod.fst).Nodup) :
    fromSources inner map l
      = .ok (entries.foldl (fun map e => OrderedMap.insert e.1 e.2 map) map) := by
  induction h generalizing map with
  | nil => rfl
  | @cons src e l entries hsrc _ ih =>
    obtain ⟨hname, htext, nested, hnested, hinner⟩ := hsrc
    rw [List.cons_append, List.map_cons, List.nodup_cons, List.map_append, List.mem_append,
      not_or] at hnodup
    obtain ⟨⟨hentries, hmap⟩, hrest⟩ := hnodup
    have hany : (map.any fun x => x.1 == src.name) = false := by
      rw [List.any_eq_false]
      intro x hx heq
      rw [beq_iff_eq, hname] at heq
      exact hmap (List.mem_map.mpr ⟨x, hx, heq⟩)
    have hperm : (entries ++ OrderedMap.insert e.1 e.2 map).Perm (e :: (entries ++ map)) :=
      ((OrderedMap.insert_perm hmap).append_left entries).trans List.perm_middle
    have hnodup' : ((entries ++ OrderedMap.insert e.1 e.2 map).map Prod.fst).Nodup := by
      rw [(hperm.map Prod.fst).nodup_iff, List.map_cons, List.nodup_cons, List.map_append,
        List.mem_append, not_or]
      exact ⟨⟨hentries, hmap⟩, hrest⟩
    rw [fromSources, htext, hnested]
    dsimp only
    rw [hinner]
    dsimp only
    rw [hany, if_neg Bool.false_ne_true, hname, List.foldl_cons]
    exact ih hnodup'

/-- `from_usage` of a message whose sources can be converted. -/
theorem fromUsageOf_eq {inner : UsageSnapshot → Except SnapshotError Usage.Snapshot}
    {check : UsageSnapshot → Except SnapshotError Unit} {x : UsageSnapshot} {child : Bool}
    {entries : List (String × Usage.Snapshot)}
    (h : usageChecks parseTime check x child = .ok ())
    (hentries : List.Forall₂ (SourceFrom inner) x.sources entries) :
    fromUsageOf inner x child = fromUsageWith x (OrderedMap.collect entries) := by
  obtain ⟨hchild, hlen, haccounts, provider, -, -, -, -, -, -, -, -, -, hsources⟩ :=
    usageChecks_ok.mp h
  have hnot : ¬(child && !x.sources.isEmpty) = true := by
    cases child with
    | false => simp
    | true => simp [hchild rfl]
  have hsize :
    ¬(decide (2 < x.sources.length) || decide (Usage.maxAccounts < x.accounts.length)) = true := by
    simp only [Bool.or_eq_true, decide_eq_true_eq, not_or, Nat.not_lt]
    exact ⟨hlen, haccounts⟩
  have hnames : entries.map Prod.fst = x.sources.map UsageSource.name := by
    clear h hsources hlen hnot hsize hchild
    generalize x.sources = l at hentries
    induction hentries with
    | nil => rfl
    | cons hsrc _ ih => rw [List.map_cons, List.map_cons, ih, hsrc.1]
  have hfrom : fromSources inner [] x.sources = .ok (OrderedMap.collect entries) := by
    refine fromSources_eq hentries ?_
    rw [List.append_nil, hnames]
    exact nodup_of_checks hsources
  unfold fromUsageOf
  rw [if_neg hnot, if_neg hsize, hfrom]

theorem fromUsageWith_ok {check : UsageSnapshot → Except SnapshotError Unit} {x : UsageSnapshot}
    {child : Bool} (h : usageChecks parseTime check x child = .ok ())
    (sources : List (String × Usage.Snapshot)) : ∃ m, fromUsageWith x sources = .ok m := by
  obtain ⟨-, -, -, provider, rolling, weekly, status, hprovider, hrolling, hweekly, hstatus, -⟩ :=
    usageChecks_ok.mp h
  unfold fromUsageWith
  rw [hprovider, hrolling, hweekly, hstatus]
  exact ⟨_, rfl⟩

/-- An accepted source is converted. -/
theorem fromUsageChild_ok {x : UsageSnapshot} (h : validateUsageChild parseTime x = .ok ()) :
    ∃ m, fromUsageChild x = .ok m := by
  have hnil : x.sources = [] := (usageChecks_ok.mp h).1 rfl
  have hentries : fromUsageChild x = fromUsageWith x (OrderedMap.collect []) := by
    refine fromUsageOf_eq h ?_
    rw [hnil]
    exact .nil
  rw [hentries]
  exact fromUsageWith_ok h _

/-- **An accepted message is converted.** -/
theorem fromUsage_ok {x : UsageSnapshot}
    (h : usageChecks parseTime (validateUsageChild parseTime) x false = .ok ()) :
    ∃ m, fromUsage x = .ok m := by
  obtain ⟨-, -, -, provider, -, -, -, -, -, -, -, -, -, hsources⟩ := usageChecks_ok.mp h
  have hall : ∀ src ∈ x.sources, ∃ e, SourceFrom fromUsageChild src e := by
    intro src hsrc
    obtain ⟨i, hi, rfl⟩ := List.getElem_of_mem hsrc
    have hmem : (x.sources[i], i) ∈ x.sources.zipIdx := by simp [List.mem_zipIdx_iff_getElem?]
    obtain ⟨htext, -, nested, -, hnested, -, -, hinner⟩ := usageSource_ok.mp (hsources _ hmem)
    obtain ⟨m, hm⟩ := fromUsageChild_ok hinner
    exact ⟨(x.sources[i].name, m), rfl, htext, nested, hnested, hm⟩
  obtain ⟨entries, hentries⟩ : ∃ entries,
      List.Forall₂ (SourceFrom fromUsageChild) x.sources entries := by
    clear h hsources
    generalize x.sources = l at hall
    induction l with
    | nil => exact ⟨[], .nil⟩
    | cons src l ih =>
      obtain ⟨e, he⟩ := hall src List.mem_cons_self
      obtain ⟨entries, hentries⟩ := ih fun s hs => hall s (List.mem_cons_of_mem _ hs)
      exact ⟨e :: entries, .cons he hentries⟩
  unfold fromUsage
  rw [fromUsageOf_eq h hentries]
  exact fromUsageWith_ok h _

/-- The own fields of a message made from a snapshot. -/
theorem fromUsageWith_to (s : Usage.Snapshot) (sources : List (String × Usage.Snapshot)) :
    fromUsageWith (toUsage s) sources = .ok { s with sources } := by
  have hwindow : ∀ x : Option Usage.AccountWindow,
      (x.map toAccountWindow).map fromAccountWindow = x := by
    intro x
    cases x <;> rfl
  have haccount : ∀ a : Usage.Account, fromAccount (toAccount a) = a := by
    intro a
    unfold fromAccount toAccount
    dsimp only
    rw [hwindow, hwindow]
  have haccounts : (s.accounts.map toAccount).map fromAccount = s.accounts := by
    rw [List.map_map]
    exact (List.map_congr_left fun a _ => haccount a).trans (List.map_id _)
  rw [toUsage_eq]
  unfold fromUsageWith toUsageWith
  dsimp only
  rw [usageProviderFrom_to]
  dsimp only
  rw [haccounts]
  rfl

/-- **A valid snapshot** is what its message is converted to. -/
theorem fromUsage_toUsage {s : Usage.Snapshot} (hsorted : OrderedMap.Sorted s.sources)
    (h : Usage.validate parseTime s = .ok ()) : fromUsage (toUsage s) = .ok s := by
  have hself : ∀ (t : Usage.Snapshot) (l : List (String × Usage.Snapshot)), t.sources = l →
      { t with sources := l } = t := by
    rintro ⟨⟩ l rfl
    rfl
  have hchecks := (validateUsageInner_to hsorted).mpr h
  have hchild : ∀ p ∈ s.sources, fromUsageChild (toUsage p.2) = .ok p.2 ∧
      checkText p.1 16 = .ok () := by
    intro p hp
    obtain ⟨hsource, hinner⟩ := (Usage.checks_ok.mp h).2.1 p hp
    unfold Usage.source at hsource
    simp only [Bool.and_eq_true, List.isEmpty_iff] at hsource
    obtain ⟨⟨hname, -⟩, hnil⟩ := hsource
    have hp' := (validateUsageChild_to p.2).mpr ⟨hnil, hinner⟩
    have heq :
      fromUsageChild (toUsage p.2) = fromUsageWith (toUsage p.2) (OrderedMap.collect []) := by
      refine fromUsageOf_eq hp' ?_
      rw [(usageChecks_ok.mp hp').1 rfl]
      exact .nil
    refine ⟨?_, ?_⟩
    · rw [heq, fromUsageWith_to]
      exact congrArg Except.ok (hself p.2 [] hnil)
    · unfold checkText
      rw [require_ok, decide_eq_true_eq]
      exact Usage.sourceAllowed_len hname
  have hentries : List.Forall₂ (SourceFrom fromUsageChild) (toUsage s).sources s.sources := by
    have hsources : (toUsage s).sources = s.sources.map fun p => ⟨p.1, some (toUsage p.2)⟩ := by
      rw [toUsage_eq, ← toSources_eq]
      rfl
    rw [hsources, List.forall₂_map_left_iff, List.forall₂_same]
    intro p hp
    exact ⟨rfl, (hchild p hp).2, toUsage p.2, rfl, (hchild p hp).1⟩
  unfold fromUsage
  rw [fromUsageOf_eq hchecks hentries, OrderedMap.collect_of_sorted hsorted, fromUsageWith_to]
  exact congrArg Except.ok (hself s s.sources rfl)

/-! ### Both directions

The conversions check before and after, and neither of the two checks can fail when the other one
passed. -/

/-- `validate_usage` is `validate_usage_inner` and the limit of the encoded size. -/
theorem validateUsage_ok {x : UsageSnapshot} :
    validateUsage parseTime x = .ok () ↔
      usageChecks parseTime (validateUsageChild parseTime) x false = .ok () ∧
      encodedLen ((UsageSnapshot.part recursionLimit).put x) ≤ maxUsageBytes := by
  unfold validateUsage
  rw [allOk_ok]
  simp only [List.mem_cons, List.not_mem_nil, or_false, forall_eq_or_imp, forall_eq, require_ok,
    decide_eq_true_eq]

/-- A valid snapshot can only be too large to be sent. -/
theorem usageToProto_eq {s : Usage.Snapshot} (hsorted : OrderedMap.Sorted s.sources)
    (h : Usage.validate parseTime s = .ok ()) :
    usageToProto parseTime s
      = if maxUsageBytes < encodedLen ((UsageSnapshot.part recursionLimit).put (toUsage s))
        then .error .limit else .ok (toUsage s) := by
  have hchecks := (validateUsageInner_to hsorted).mpr h
  unfold usageToProto
  rw [h]
  dsimp only
  by_cases hlarge : maxUsageBytes < encodedLen ((UsageSnapshot.part recursionLimit).put (toUsage s))
  · have herror : validateUsage parseTime (toUsage s) = .error .limit := by
      unfold validateUsage require
      rw [hchecks, if_neg (by rw [decide_eq_true_eq]; omega)]
      rfl
    rw [if_pos hlarge, herror]
  · rw [if_neg hlarge, validateUsage_ok.mpr ⟨hchecks, Nat.le_of_not_lt hlarge⟩]

/-- The snapshot of an accepted message is valid. -/
theorem fromUsage_valid {x : UsageSnapshot} (h : validateUsage parseTime x = .ok ()) :
    ∃ s, fromUsage x = .ok s ∧ OrderedMap.Sorted s.sources ∧
      Usage.validate parseTime s = .ok () := by
  obtain ⟨s, hs⟩ := fromUsage_ok (validateUsage_ok.mp h).1
  obtain ⟨hback, hsorted⟩ := toUsage_fromUsage hs
  refine ⟨s, hs, hsorted, (validateUsageInner_to hsorted).mp ?_⟩
  rw [hback]
  exact (validateUsage_ok.mp (validateUsage_sorted h)).1

/-- An accepted message is converted: the second check of `usage_from_proto` passes. -/
theorem usageFromProto_eq {x : UsageSnapshot} {s : Usage.Snapshot}
    (h : validateUsage parseTime x = .ok ()) (hs : fromUsage x = .ok s)
    (hvalid : Usage.validate parseTime s = .ok ()) : usageFromProto parseTime x = .ok s := by
  unfold usageFromProto
  rw [h]
  dsimp only
  rw [hs]
  dsimp only
  rw [hvalid]

end

/-- **The two validators of usage snapshots agree and the conversion is lossless.**  A snapshot
    passes one check exactly if its message passes the other; an accepted message has a valid
    snapshot; so a conversion can only fail after the first check because the message is too
    large.  A snapshot comes back as it is, a message up to the order of its sources. -/
theorem usage_validators_agree (parseTime : String → Option DateTime) :
    (∀ s : Usage.Snapshot, OrderedMap.Sorted s.sources →
      (usageChecks parseTime (validateUsageChild parseTime) (toUsage s) false = .ok () ↔
        Usage.validate parseTime s = .ok ())) ∧
    (∀ x : UsageSnapshot, validateUsage parseTime x = .ok () →
      ∃ s, fromUsage x = .ok s ∧ Usage.validate parseTime s = .ok () ∧
        usageFromProto parseTime x = .ok s) ∧
    (∀ s : Usage.Snapshot, OrderedMap.Sorted s.sources → Usage.validate parseTime s = .ok () →
      usageToProto parseTime s
        = if maxUsageBytes < encodedLen ((UsageSnapshot.part recursionLimit).put (toUsage s))
          then .error .limit else .ok (toUsage s)) ∧
    (∀ (s : Usage.Snapshot) (x : UsageSnapshot), OrderedMap.Sorted s.sources →
      usageToProto parseTime s = .ok x → usageFromProto parseTime x = .ok s) ∧
    (∀ (x : UsageSnapshot) (s : Usage.Snapshot), usageFromProto parseTime x = .ok s →
      ∃ sources, sources.Perm x.sources ∧ usageToProto parseTime s = .ok { x with sources }) := by
  refine ⟨fun s hsorted => validateUsageInner_to hsorted, fun x h => ?_,
    fun s hsorted h => usageToProto_eq hsorted h, fun s x hsorted h => ?_, fun x s h => ?_⟩
  · obtain ⟨s, hs, -, hvalid⟩ := fromUsage_valid h
    exact ⟨s, hs, hvalid, usageFromProto_eq h hs hvalid⟩
  · unfold usageToProto at h
    split at h
    · cases h
    · rename_i hvalid
      split at h
      · cases h
      · rename_i hproto
        cases h
        exact usageFromProto_eq hproto (fromUsage_toUsage hsorted hvalid) hvalid
  · have hvalid : validateUsage parseTime x = .ok () := by
      unfold usageFromProto at h
      split at h
      · cases h
      · assumption
    obtain ⟨-, -, -, _, _, _, _, -, -, -, -, -, -, hsources⟩ :=
      usageChecks_ok.mp (validateUsage_ok.mp hvalid).1
    exact ⟨sortSources x.sources, sortSources_perm (nodup_of_checks hsources),
      (usageToProto_fromProto h).1⟩

namespace UsageExample

/-- The two times of the snapshot below. -/
def times (s : String) : Option DateTime :=
  if s = "1970-01-01T00:00:00.000Z" then some (.ofNanos 0)
  else if s = "1970-01-01T00:05:00.000Z" then some (.ofNanos 300000000000)
  else none

/-- A rate-limited snapshot with these sources. -/
def limited (quota : String) (sources : List (String × Usage.Snapshot)) : Usage.Snapshot :=
  { schema := 1, seq := 7, generatedAtUtc := "1970-01-01T00:00:00.000Z", provider := .claude,
    planType := "pro", burnRatePerMin := ⟨0⟩, burnState := "idle", todayTotalTokens := 0,
    todaySessions := 0, rolling5h := default, weekly := default, rolling5hObserved := false,
    weeklyObserved := false,
    status := ⟨"", "rateLimited", "api_only", quota, false, none, some "1970-01-01T00:05:00.000Z"⟩,
    accounts := [], accountsUpdatedAt := none, sources }

/-- The snapshot with two sources of its own. -/
def snapshot : Usage.Snapshot :=
  limited "oauth_api" [("cli", limited "oauth_api" []), ("cswap", limited "claude_swap" [])]

/-- It is valid, so its message is accepted and gives it back. -/
theorem snapshot_agrees :
    Usage.validate times snapshot = .ok () ∧
      usageFromProto times (toUsage snapshot) = .ok snapshot := by
  have hsorted : OrderedMap.Sorted snapshot.sources := by
    show [("cli", _), ("cswap", _)].Pairwise _
    simp only [List.pairwise_cons, List.mem_singleton, forall_eq, List.not_mem_nil, false_implies,
      implies_true, List.Pairwise.nil, and_true]
    decide
  have hvalid : Usage.validate times snapshot = .ok () := by decide +kernel
  obtain ⟨-, -, hto, hfrom, -⟩ := usage_validators_agree times
  refine ⟨hvalid, hfrom snapshot _ hsorted ?_⟩
  rw [hto snapshot hsorted hvalid, if_neg (by decide +kernel)]

end UsageExample

end Hmux.Protocol.Snapshots
