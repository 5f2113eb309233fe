import Hmux.Protocol.Snapshots
import Hmux.Usage.Transport

namespace Hmux.Protocol.Snapshots

open Lib Lib.Proto Pb

/-!
# Usage snapshots between the transports

The conversions of `snapshots.rs` between the usage snapshots of the two transports.  The
message keeps its sources in a list, the model in a map by name, so they come back in the order
of their names.

* `toUsage_fromUsage` — apart from that order, nothing changes;
* `validateUsage_sorted` — a valid snapshot is valid in that order;
* `usageToProto_fromProto` — a snapshot there and back.
-/

/-! ### Conversions

Field by field, in both directions; a nested snapshot is converted with the same functions, one
level down. -/

/-- `usage_provider_to`. -/
def usageProviderTo : Usage.Provider → Int32
  | .claude => 1
  | .codex => 2

/-- `to_window`. -/
def toWindow (w : Usage.Window) : UsageWindow := ⟨w.usedPct, w.remainingSeconds, w.resetsAt⟩

/-- `from_window`. -/
def fromWindow (w : UsageWindow) : Usage.Window := ⟨w.usedPct, w.remainingSeconds, w.resetsAt⟩

/-- `to_account_window`. -/
def toAccountWindow (w : Usage.AccountWindow) : UsageAccountWindow := ⟨w.usedPct, w.resetsAt⟩

/-- `from_account_window`. -/
def fromAccountWindow (w : UsageAccountWindow) : Usage.AccountWindow := ⟨w.usedPct, w.resetsAt⟩

/-- `to_status`. -/
def toStatus (s : Usage.Status) : UsageStatus :=
  { state := s.state, dataSource := s.dataSource, quotaSource := s.quotaSource, stale := s.stale,
    quotaObservedAt := s.quotaObservedAt, retryAt := s.retryAt,
    quotaWeighting := s.quotaWeighting }

/-- `from_status`. -/
def fromStatus (s : UsageStatus) : Usage.Status :=
  { state := s.state, dataSource := s.dataSource, quotaSource := s.quotaSource, stale := s.stale,
    quotaObservedAt := s.quotaObservedAt, retryAt := s.retryAt,
    quotaWeighting := s.quotaWeighting }

/-- `to_account`. -/
def toAccount (a : Usage.Account) : UsageAccount :=
  { number := a.number, email := a.email, displayName := a.displayName, active := a.active,
    status := a.status, fiveHour := a.fiveHour.map toAccountWindow,
    sevenDay := a.sevenDay.map toAccountWindow, tokensPerHour := a.tokensPerHour,
    totalTokens := a.totalTokens, lastRefreshAt := a.lastRefreshAt,
    quotaObservedAt := a.quotaObservedAt, planType := a.planType }

/-- `from_account`. -/
def fromAccount (a : UsageAccount) : Usage.Account :=
  { number := a.number, email := a.email, displayName := a.displayName, active := a.active,
    status := a.status, fiveHour := a.fiveHour.map fromAccountWindow,
    sevenDay := a.sevenDay.map fromAccountWindow, tokensPerHour := a.tokensPerHour,
    totalTokens := a.totalTokens, lastRefreshAt := a.lastRefreshAt,
    quotaObservedAt := a.quotaObservedAt, planType := a.planType }

/-- The message of a snapshot, with these sources. -/
def toUsageWith (s : Usage.Snapshot) (sources : List UsageSource) : UsageSnapshot :=
  { schema := s.schema, seq := s.seq, generatedAtUtc := s.generatedAtUtc,
    provider := usageProviderTo s.provider, planType := s.planType,
    burnRatePerMin := s.burnRatePerMin, burnState := s.burnState,
    todayTotalTokens := s.todayTotalTokens, todaySessions := s.todaySessions,
    rolling5h := some (toWindow s.rolling5h), weekly := some (toWindow s.weekly),
    rolling5hObserved := s.rolling5hObserved, weeklyObserved := s.weeklyObserved,
    status := some (toStatus s.status), accounts := s.accounts.map toAccount,
    accountsUpdatedAt := s.accountsUpdatedAt, sources }

mutual

/-- `to_usage`. -/
def toUsage : Usage.Snapshot → UsageSnapshot
  | ⟨schema, seq, generatedAtUtc, provider, planType, burnRatePerMin, burnState,
      todayTotalTokens, todaySessions, rolling5h, weekly, rolling5hObserved, weeklyObserved,
      status, accounts, accountsUpdatedAt, sources⟩ =>
    toUsageWith ⟨schema, seq, generatedAtUtc, provider, planType, burnRatePerMin, burnState,
      todayTotalTokens, todaySessions, rolling5h, weekly, rolling5hObserved, weeklyObserved,
      status, accounts, accountsUpdatedAt, []⟩ (toSources sources)

/-- The sources of `to_usage`. -/
def toSources : List (String × Usage.Snapshot) → List UsageSource
  | [] => []
  | (name, snapshot) :: rest => ⟨name, some (toUsage snapshot)⟩ :: toSources rest

end

/-- The snapshot of a message, with these sources. -/
def fromUsageWith (s : UsageSnapshot) (sources : List (String × Usage.Snapshot)) :
    Except SnapshotError Usage.Snapshot :=
  match usageProviderFrom s.provider with
  | .error e => .error e
  | .ok provider =>
    match s.rolling5h, s.weekly, s.status with
    | some rolling, some weekly, some status =>
      .ok { schema := s.schema, seq := s.seq, generatedAtUtc := s.generatedAtUtc, provider,
            planType := s.planType, burnRatePerMin := s.burnRatePerMin, burnState := s.burnState,
            todayTotalTokens := s.todayTotalTokens, todaySessions := s.todaySessions,
            rolling5h := fromWindow rolling, weekly := fromWindow weekly,
            rolling5hObserved := s.rolling5hObserved, weeklyObserved := s.weeklyObserved,
            status := fromStatus status, accounts := s.accounts.map fromAccount,
            accountsUpdatedAt := s.accountsUpdatedAt, sources }
    | _, _, _ => .error .invalid

/-- The sources of `from_usage`, one after the other into the map. -/
def fromSources (inner : UsageSnapshot → Except SnapshotError Usage.Snapshot) :
    List (String × Usage.Snapshot) → List UsageSource →
      Except SnapshotError (List (String × Usage.Snapshot))
  | sources, [] => .ok sources
  | sources, src :: rest =>
    match checkText src.name 16 with
    | .error e => .error e
    | .ok _ =>
      match src.snapshot with
      | none => .error .invalid
      | some nested =>
        match inner nested with
        | .error e => .error e
        | .ok snapshot =>
          if sources.any fun e => e.1 == src.name then .error .invalid
          else fromSources inner (OrderedMap.insert src.name snapshot sources) rest

/-- `from_usage`, with the conversion of a nested snapshot given. -/
def fromUsageOf (inner : UsageSnapshot → Except SnapshotError Usage.Snapshot) (s : UsageSnapshot)
    (child : Bool) : Except SnapshotError Usage.Snapshot :=
  if child && !s.sources.isEmpty then .error .invalid
  else if 2 < s.sources.length || Usage.maxAccounts < s.accounts.length then .error .limit
  else
    match fromSources inner [] s.sources with
    | .error e => .error e
    | .ok sources => fromUsageWith s sources

/-- `from_usage` of a child, which has no sources and so no nested snapshot. -/
def fromUsageChild (s : UsageSnapshot) : Except SnapshotError Usage.Snapshot :=
  fromUsageOf (fun _ => .error .invalid) s true

/-- `from_usage`. -/
def fromUsage (s : UsageSnapshot) : Except SnapshotError Usage.Snapshot :=
  fromUsageOf fromUsageChild s false

section

variable (parseTime : String → Option DateTime)

/-- `usage_to_proto`. -/
def usageToProto (s : Usage.Snapshot) : Except SnapshotError UsageSnapshot :=
  match Usage.validate parseTime s with
  | .error _ => .error .invalid
  | .ok _ =>
    match validateUsage parseTime (toUsage s) with
    | .error e => .error e
    | .ok _ => .ok (toUsage s)

/-- `usage_from_proto`. -/
def usageFromProto (s : UsageSnapshot) : Except SnapshotError Usage.Snapshot :=
  match validateUsage parseTime s with
  | .error e => .error e
  | .ok _ =>
    match fromUsage s with
    | .error e => .error e
    | .ok out =>
      match Usage.validate parseTime out with
      | .error _ => .error .invalid
      | .ok _ => .ok out

end

/-! ### There and back

What comes back is the message with its sources in another order. -/

theorem toSources_eq (l : List (String × Usage.Snapshot)) :
    toSources l = l.map fun p => ⟨p.1, some (toUsage p.2)⟩ := by
  induction l with
  | nil => rw [toSources, List.map_nil]
  | cons p l ih =>
    obtain ⟨name, snapshot⟩ := p
    rw [toSources, ih, List.map_cons]

theorem toUsage_eq (s : Usage.Snapshot) : toUsage s = toUsageWith s (toSources s.sources) := by
  obtain ⟨⟩ := s
  rw [toUsage]
  rfl

theorem usageProviderTo_from {n : Int32} {provider : Usage.Provider}
    (h : usageProviderFrom n = .ok provider) : usageProviderTo provider = n := by
  unfold usageProviderFrom at h
  split at h
  · rename_i hn
    cases h
    exact hn.symm
  · split at h
    · rename_i hn
      cases h
      exact hn.symm
    · cases h

theorem toAccount_fromAccount (a : UsageAccount) : toAccount (fromAccount a) = a := by
  have hwindow : ∀ x : Option UsageAccountWindow,
      (x.map fromAccountWindow).map toAccountWindow = x := by
    intro x
    cases x <;> rfl
  unfold toAccount fromAccount
  dsimp only
  rw [hwindow, hwindow]

/-- The own fields of a snapshot there and back. -/
theorem toUsageWith_from {s : UsageSnapshot} {sources : List (String × Usage.Snapshot)}
    {m : Usage.Snapshot} (h : fromUsageWith s sources = .ok m) :
    m.sources = sources ∧ ∀ l, toUsageWith m l = { s with sources := l } := by
  unfold fromUsageWith at h
  split at h
  · cases h
  · rename_i provider hprovider
    split at h
    · rename_i rolling weekly status hrolling hweekly hstatus
      cases h
      refine ⟨rfl, fun l => ?_⟩
      have haccounts : (s.accounts.map fromAccount).map toAccount = s.accounts := by
        rw [List.map_map]
        exact (List.map_congr_left fun a _ => toAccount_fromAccount a).trans (List.map_id _)
      unfold toUsageWith
      dsimp only
      rw [usageProviderTo_from hprovider, haccounts, hrolling, hweekly, hstatus]
      rfl
    · cases h

/-- What `from_usage` did, when it succeeds. -/
theorem fromUsageOf_ok {inner : UsageSnapshot → Except SnapshotError Usage.Snapshot}
    {s : UsageSnapshot} {child : Bool} {m : Usage.Snapshot}
    (h : fromUsageOf inner s child = .ok m) :
    (child = true → s.sources = []) ∧
      ∃ sources, fromSources inner [] s.sources = .ok sources ∧
      fromUsageWith s sources = .ok m := by
  unfold fromUsageOf at h
  split at h
  · cases h
  · rename_i hchild
    split at h
    · cases h
    · split at h
      · cases h
      · rename_i sources hsources
        refine ⟨fun hc => ?_, sources, hsources, h⟩
        simpa [hc] using hchild

/-- A child there and back. -/
theorem toUsage_fromUsageChild {s : UsageSnapshot} {m : Usage.Snapshot}
    (h : fromUsageChild s = .ok m) : toUsage m = s := by
  obtain ⟨hchild, sources, hsources, hm⟩ := fromUsageOf_ok h
  have hnil := hchild rfl
  rw [hnil] at hsources
  cases hsources
  obtain ⟨hsources, hwith⟩ := toUsageWith_from hm
  rw [toUsage_eq, hsources, toSources, hwith, ← hnil]
  obtain ⟨⟩ := s
  rfl

/-- Sources in the order of their names. -/
def sortSources (l : List UsageSource) : List UsageSource :=
  (OrderedMap.collect (l.map fun x => (x.name, x.snapshot))).map fun p => ⟨p.1, p.2⟩

/-- A snapshot as it comes back. -/
def sortedUsage (s : UsageSnapshot) : UsageSnapshot := { s with sources := sortSources s.sources }

/-- The sources there and back: they go into the map by their names. -/
theorem fromSources_ok {l : List UsageSource} {map sources : List (String × Usage.Snapshot)}
    (h : fromSources fromUsageChild map l = .ok sources) :
    sources.map (Prod.map id fun m => some (toUsage m))
      = (l.map fun x => (x.name, x.snapshot)).foldl (fun map e => OrderedMap.insert e.1 e.2 map)
          (map.map (Prod.map id fun m => some (toUsage m))) ∧
      ∃ entries : List (String × Usage.Snapshot), sources
        = entries.foldl (fun map e => OrderedMap.insert e.1 e.2 map) map := by
  induction l generalizing map with
  | nil =>
    cases h
    exact ⟨rfl, [], rfl⟩
  | cons src rest ih =>
    rw [fromSources] at h
    split at h
    · cases h
    · split at h
      · cases h
      · rename_i nested hnested
        split at h
        · cases h
        · rename_i snapshot hsnapshot
          split at h
          · cases h
          · obtain ⟨hmap, entries, hentries⟩ := ih h
            refine ⟨?_, (src.name, snapshot) :: entries, hentries⟩
            rw [hmap, OrderedMap.insert_map, List.map_cons, List.foldl_cons, hnested,
              toUsage_fromUsageChild hsnapshot]

/-- **There and back**, only the order of the sources may change. -/
theorem toUsage_fromUsage {s : UsageSnapshot} {m : Usage.Snapshot} (h : fromUsage s = .ok m) :
    toUsage m = sortedUsage s ∧ OrderedMap.Sorted m.sources := by
  obtain ⟨-, sources, hsources, hm⟩ := fromUsageOf_ok h
  obtain ⟨hmap, entries, hentries⟩ := fromSources_ok hsources
  obtain ⟨hms, hwith⟩ := toUsageWith_from hm
  refine ⟨?_, ?_⟩
  · rw [toUsage_eq, hwith, hms, toSources_eq]
    have hcollect : sources.map (Prod.map id fun m => some (toUsage m))
        = OrderedMap.collect (s.sources.map fun x => (x.name, x.snapshot)) := hmap
    have hsorted : sources.map (fun p => (⟨p.1, some (toUsage p.2)⟩ : UsageSource))
        = sortSources s.sources := by
      unfold sortSources
      rw [← hcollect, List.map_map]
      rfl
    rw [hsorted]
    rfl
  · rw [hms, hentries]
    exact OrderedMap.foldl_sorted List.Pairwise.nil

/-! ### The order of the sources

The checks do not depend on the order of the sources, and neither does the length of the message.
-/

section

variable {parseTime : String → Option DateTime}

/-- The sources are the same, in another order. -/
theorem sortSources_perm {l : List UsageSource} (h : (l.map UsageSource.name).Nodup) :
    (sortSources l).Perm l := by
  have hnodup : ((l.map fun x => (x.name, x.snapshot)).map Prod.fst).Nodup := by
    rw [List.map_map]
    exact h
  have hperm := (OrderedMap.collect_perm hnodup).map fun p => (⟨p.1, p.2⟩ : UsageSource)
  rw [List.map_map] at hperm
  refine hperm.trans ?_
  refine List.Perm.of_eq (Eq.trans ?_ (List.map_id l))
  refine List.map_congr_left fun x _ => ?_
  obtain ⟨⟩ := x
  rfl

/-- The names of accepted sources are distinct. -/
theorem nodup_of_checks {inner : UsageSnapshot → Except SnapshotError Unit} {s : UsageSnapshot}
    {provider : Usage.Provider}
    (h : ∀ p ∈ s.sources.zipIdx, usageSource inner s provider (s.sources.take p.2) p.1 = .ok ()) :
    (s.sources.map UsageSource.name).Nodup := by
  rw [List.nodup_iff_pairwise_ne, List.pairwise_map, List.pairwise_iff_getElem]
  intro i j hi hj hij heq
  have hp := h (s.sources[j], j) (by simp [List.mem_zipIdx_iff_getElem?])
  obtain ⟨-, hbefore, -⟩ := usageSource_ok.mp hp
  rw [List.any_eq_false] at hbefore
  refine hbefore s.sources[i] ?_ (beq_iff_eq.mpr heq)
  rw [List.mem_take_iff_getElem]
  exact ⟨i, by omega, rfl⟩

/-- Accepted sources are accepted in any order. -/
theorem usageChecks_perm {inner : UsageSnapshot → Except SnapshotError Unit} {s : UsageSnapshot}
    {l : List UsageSource} (hperm : l.Perm s.sources)
    (h : usageChecks parseTime inner s false = .ok ()) :
    usageChecks parseTime inner { s with sources := l } false = .ok () := by
  obtain ⟨-, hlen, haccounts, provider, rolling, weekly, status, hprovider, hrolling, hweekly,
    hstatus, hfields, hall, hsources⟩ := usageChecks_ok.mp h
  have hnodup : (l.map UsageSource.name).Nodup :=
    (hperm.map UsageSource.name).nodup_iff.mpr (nodup_of_checks hsources)
  refine usageChecks_ok.mpr ⟨Bool.noConfusion, ?_, haccounts, provider, rolling, weekly, status,
    hprovider, hrolling, hweekly, hstatus, hfields, hall, ?_⟩
  · show l.length ≤ 2
    rw [hperm.length_eq]
    exact hlen
  · rintro ⟨source, i⟩ hp
    have hp' : (source, i) ∈ l.zipIdx := hp
    rw [List.mem_zipIdx_iff_getElem?] at hp'
    obtain ⟨hi, hget⟩ := List.getElem?_eq_some_iff.mp hp'
    dsimp only at hi hget
    have hmem : source ∈ s.sources := hperm.mem_iff.mp (hget ▸ List.getElem_mem hi)
    obtain ⟨j, hj, hjget⟩ := List.getElem_of_mem hmem
    have hj' := hsources (source, j) (by simp [List.mem_zipIdx_iff_getElem?, ← hjget])
    obtain ⟨hname, -, hrest⟩ := usageSource_ok.mp hj'
    refine usageSource_ok.mpr ⟨hname, ?_, hrest⟩
    show ((l.take i).any fun prior => prior.name == source.name) = false
    rw [List.any_eq_false]
    intro prior hprior heq
    obtain ⟨k, hk, rfl⟩ := List.mem_take_iff_getElem.mp hprior
    have hne := List.pairwise_iff_getElem.mp
      (List.pairwise_map.mp (List.nodup_iff_pairwise_ne.mp hnodup)) k i (by omega) hi (by omega)
    rw [hget] at hne
    exact hne (beq_iff_eq.mp heq)

/-- The length of an encoding does not depend on the order of the sources. -/
theorem encodedLen_perm {s : UsageSnapshot} {l : List UsageSource} (hperm : l.Perm s.sources) :
    encodedLen ((UsageSnapshot.part recursionLimit).put { s with sources := l })
      = encodedLen ((UsageSnapshot.part recursionLimit).put s) := by
  have hsources : ∀ f : UsageSource → ℕ × Val,
      (encodeWire (l.map f)).length = (encodeWire (s.sources.map f)).length := by
    intro f
    rw [length_encodeWire, length_encodeWire]
    exact ((hperm.map f).map _).sum_eq
  show encodedLen ((UsageSnapshot.partOf _ _).put _) = encodedLen ((UsageSnapshot.partOf _ _).put _)
  simp only [UsageSnapshot.partOf, Lib.Proto.Part.map, Lib.Proto.Part.and, Lib.Proto.Part.messages,
    encodedLen,
    encodeWire_append, List.length_append, List.map_map, hsources]

theorem validateUsage_checks {s : UsageSnapshot} (h : validateUsage parseTime s = .ok ()) :
    usageChecks parseTime (validateUsageChild parseTime) s false = .ok () := by
  unfold validateUsage at h
  rw [allOk_ok] at h
  exact h _ List.mem_cons_self

/-- A valid snapshot is valid in the order of the names. -/
theorem validateUsage_sorted {s : UsageSnapshot} (h : validateUsage parseTime s = .ok ()) :
    validateUsage parseTime (sortedUsage s) = .ok () := by
  unfold validateUsage at h ⊢
  rw [allOk_ok] at h ⊢
  simp only [List.mem_cons, List.not_mem_nil, or_false, forall_eq_or_imp, forall_eq] at h ⊢
  obtain ⟨hchecks, hlen⟩ := h
  obtain ⟨-, -, -, _, _, _, _, -, -, -, -, -, -, hsources⟩ := usageChecks_ok.mp hchecks
  have hperm := sortSources_perm (nodup_of_checks hsources)
  refine ⟨usageChecks_perm hperm hchecks, ?_⟩
  unfold sortedUsage
  rwa [encodedLen_perm hperm]

/-- **A usage snapshot there and back**: its sources are in the order of their names. -/
theorem usageToProto_fromProto {s : UsageSnapshot} {out : Usage.Snapshot}
    (h : usageFromProto parseTime s = .ok out) :
    usageToProto parseTime out = .ok (sortedUsage s) ∧ OrderedMap.Sorted out.sources := by
  unfold usageFromProto at h
  split at h
  · cases h
  · rename_i hvalid
    split at h
    · cases h
    · rename_i m hm
      split at h
      · cases h
      · rename_i hout
        cases h
        obtain ⟨hback, hsorted⟩ := toUsage_fromUsage hm
        refine ⟨?_, hsorted⟩
        unfold usageToProto
        rw [hout]
        dsimp only
        rw [hback, validateUsage_sorted hvalid]

end

end Hmux.Protocol.Snapshots
