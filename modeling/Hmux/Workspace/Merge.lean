import Hmux.Workspace.Snapshot

namespace Hmux.Workspace

/-!
# Shared workspace — the three-way merge

`merge` folds one device's `Change` into the current tabs: drop what the device closed,
insert what it opened next to a neighbour it saw, and take over its order when it
reordered the tabs it had.

* `mergeTab` — one turn of the insertion loop;
* `mem_mergeTabs` — the loop read as a set: the kept tabs whose tmux id was not taken over,
  together with the tabs the device opened;
* `mem_reorder` — the reordering pass moves tabs, it neither adds nor drops one;
* `mem_merge` — both together, for a successful `merge`;
* `merge_comm_mem` — two devices editing from the same base commute on the tab set.
-/

/-- One turn of the loop over `change.tabs`: the tab `id` at position `index`.  A tab of the
    base is never re-inserted; a new tab takes the place of an old lifetime of its tmux id
    and goes before the next (else after the previous) tab of the device that is open. -/
def mergeTab (change : Change) (tabs : List SessionIdentity) (p : SessionIdentity × ℕ) :
    List SessionIdentity :=
  if change.base.contains p.1 || tabs.contains p.1 then tabs
  else
    let tabs := tabs.filter fun old => old.id != p.1.id
    let before := (change.tabs.drop (p.2 + 1)).findSome? fun next =>
      tabs.findIdx? (· == next)
    let after := (change.tabs.take p.2).reverse.findSome? fun previous =>
      (tabs.findIdx? (· == previous)).map (· + 1)
    tabs.insertIdx ((before <|> after).getD tabs.length) p.1

/-- The tabs after the closes and the insertion loop. -/
def mergeTabs (tabs : List SessionIdentity) (change : Change) : List SessionIdentity :=
  change.tabs.zipIdx.foldl (mergeTab change)
    (tabs.filter fun id => !change.base.contains id || change.tabs.contains id)

/-- The device's order of the tabs that are open, then every other tab. -/
def reorder (tabs : List SessionIdentity) (change : Change) : List SessionIdentity :=
  tabs.foldl (fun ordered id => if ordered.contains id then ordered else ordered ++ [id])
    (change.tabs.filter tabs.contains)

/-- Whether the device kept the relative order of the base tabs it kept. -/
def sameOrder (change : Change) : Bool :=
  change.base.filter change.tabs.contains == change.tabs.filter change.base.contains

/-- The tabs `merge` ends with, before it counts them. -/
def mergedTabs (tabs : List SessionIdentity) (change : Change) : List SessionIdentity :=
  if sameOrder change then mergeTabs tabs change else reorder (mergeTabs tabs change) change

/-- `merge`. -/
def merge (current : Snapshot) (change : Change) : Except Error Snapshot :=
  if !current.valid || !change.valid then .error .invalid
  else
    let tabs := mergedTabs current.tabs change
    if tabs.length > maxTabs then .error .tooManyTabs
    else .ok { current with version := 1, initialized := true, tabs := tabs, selected := none }

/-! ### One turn of the loop

A tab of the base is skipped; a new one goes next to a neighbour that is there, and what had its
tmux id goes. -/

variable {change : Change} {tabs : List SessionIdentity}

/-- The insertion position never lies past the end of the list. -/
theorem insertPosition_le (l : List SessionIdentity) (next previous : List SessionIdentity) :
    ((next.findSome? (fun n => l.findIdx? (· == n)) <|>
      previous.findSome? (fun n => (l.findIdx? (· == n)).map (· + 1))).getD l.length)
      ≤ l.length := by
  have hpos : ∀ n i, l.findIdx? (· == n) = some i → i < l.length := by
    intro n i h
    obtain ⟨hi, -⟩ := List.findIdx?_eq_some_iff_getElem.mp h
    exact hi
  cases hb : next.findSome? (fun n => l.findIdx? (· == n)) with
  | some i =>
    obtain ⟨n, -, hn⟩ := List.exists_of_findSome?_eq_some hb
    simpa using le_of_lt (hpos n i hn)
  | none =>
    cases ha : previous.findSome? (fun n => (l.findIdx? (· == n)).map (· + 1)) with
    | none => simp
    | some i =>
      obtain ⟨n, -, hn⟩ := List.exists_of_findSome?_eq_some ha
      obtain ⟨j, hj, rfl⟩ := Option.map_eq_some_iff.mp hn
      exact Nat.succ_le_of_lt (hpos n j hj)

/-- A turn on a base tab, or on a tab that is already open, changes nothing. -/
theorem mergeTab_skip {p : SessionIdentity × ℕ} (h : p.1 ∈ change.base ∨ p.1 ∈ tabs) :
    mergeTab change tabs p = tabs := by
  rw [mergeTab, if_pos]
  simpa using h

variable (change) in
/-- A turn on a new tab: the other lifetimes of its tmux id go, the tab comes. -/
theorem mergeTab_insert {p : SessionIdentity × ℕ} (hb : p.1 ∉ change.base) (ht : p.1 ∉ tabs) :
    ∃ i ≤ (tabs.filter fun old => old.id != p.1.id).length,
      mergeTab change tabs p
        = (tabs.filter fun old => old.id != p.1.id).insertIdx i p.1 := by
  refine ⟨_, insertPosition_le _ (change.tabs.drop (p.2 + 1)) (change.tabs.take p.2).reverse, ?_⟩
  rw [mergeTab, if_neg]
  simp [hb, ht]

/-- A turn seen as a set, on tabs with distinct tmux ids: an old tab stays unless the new
    tab takes over its tmux id. -/
theorem mem_mergeTab {p : SessionIdentity × ℕ} (hd : DistinctIds tabs) (x : SessionIdentity) :
    x ∈ mergeTab change tabs p ↔
      (x ∈ tabs ∧ (p.1 ∉ change.base → p.1.id = x.id → p.1 = x)) ∨
        (x = p.1 ∧ p.1 ∉ change.base) := by
  by_cases hb : p.1 ∈ change.base
  · rw [mergeTab_skip (Or.inl hb)]
    simp [hb]
  by_cases ht : p.1 ∈ tabs
  · rw [mergeTab_skip (Or.inr ht)]
    constructor
    · exact fun hx => Or.inl ⟨hx, fun _ hid => hd.eq_of_id_eq ht hx hid⟩
    · rintro (⟨hx, -⟩ | ⟨rfl, -⟩)
      · exact hx
      · exact ht
  · obtain ⟨i, hi, heq⟩ := mergeTab_insert change hb ht
    rw [heq, List.mem_insertIdx hi, List.mem_filter, bne_iff_ne]
    constructor
    · rintro (rfl | ⟨hx, hne⟩)
      · exact Or.inr ⟨rfl, hb⟩
      · exact Or.inl ⟨hx, fun _ hid => absurd hid.symm hne⟩
    · rintro (⟨hx, hkeep⟩ | ⟨rfl, -⟩)
      · refine Or.inr ⟨hx, fun hid => ht ?_⟩
        rw [hkeep hb hid.symm]
        exact hx
      · exact Or.inl rfl

/-- A turn keeps the tmux ids distinct. -/
theorem mergeTab_distinct {p : SessionIdentity × ℕ} (hd : DistinctIds tabs) :
    DistinctIds (mergeTab change tabs p) := by
  by_cases hb : p.1 ∈ change.base
  · rwa [mergeTab_skip (Or.inl hb)]
  by_cases ht : p.1 ∈ tabs
  · rwa [mergeTab_skip (Or.inr ht)]
  obtain ⟨i, hi, heq⟩ := mergeTab_insert change hb ht
  have hperm := (List.perm_insertIdx p.1 _ hi).map SessionIdentity.id
  rw [heq, DistinctIds, hperm.nodup_iff, List.map_cons, List.nodup_cons]
  refine ⟨?_, hd.sublist List.filter_sublist⟩
  rw [List.mem_map]
  rintro ⟨old, hold, hid⟩
  rw [List.mem_filter, bne_iff_ne] at hold
  exact hold.2 hid

/-! ### The loop and the reordering pass

By induction on the tabs of the change, with what was inserted so far as the accumulator. -/

variable (change) in
/-- The loop invariant, over the part of `change.tabs` still to come: distinct tmux ids stay
    distinct, and the outcome as a set is the old tabs not taken over plus the new ones. -/
theorem foldl_mergeTab (rest : List (SessionIdentity × ℕ)) (tabs : List SessionIdentity)
    (hd : DistinctIds tabs) (hrest : DistinctIds (rest.map Prod.fst)) :
    DistinctIds (rest.foldl (mergeTab change) tabs) ∧
      ∀ x, x ∈ rest.foldl (mergeTab change) tabs ↔
        (x ∈ tabs ∧ ∀ y ∈ rest.map Prod.fst, y ∉ change.base → y.id = x.id → y = x) ∨
          (x ∈ rest.map Prod.fst ∧ x ∉ change.base) := by
  induction rest generalizing tabs with
  | nil => exact ⟨hd, fun x => by simp⟩
  | cons p rest ih =>
    rw [DistinctIds, List.map_cons, List.map_cons, List.nodup_cons] at hrest
    obtain ⟨hp, hrest⟩ := hrest
    obtain ⟨hdist, hmem⟩ := ih (mergeTab change tabs p) (mergeTab_distinct hd) hrest
    refine ⟨hdist, fun x => ?_⟩
    rw [List.foldl_cons, hmem x, mem_mergeTab hd x]
    -- no later tab of the device takes over the tmux id of `p`
    have hlater : ∀ y ∈ rest.map Prod.fst, y.id ≠ p.1.id := fun y hy hid =>
      hp (List.mem_map.mpr ⟨y, hy, hid⟩)
    simp only [List.map_cons, List.mem_cons, forall_eq_or_imp]
    constructor
    · rintro (⟨⟨hx, hfst⟩ | ⟨rfl, hb⟩, hkeep⟩ | ⟨hx, hb⟩)
      · exact Or.inl ⟨hx, hfst, hkeep⟩
      · exact Or.inr ⟨Or.inl rfl, hb⟩
      · exact Or.inr ⟨Or.inr hx, hb⟩
    · rintro (⟨hx, hfst, hkeep⟩ | ⟨rfl | hx, hb⟩)
      · exact Or.inl ⟨Or.inl ⟨hx, hfst⟩, hkeep⟩
      · exact Or.inl ⟨Or.inr ⟨rfl, hb⟩, fun y hy _ hid => absurd hid (hlater y hy)⟩
      · exact Or.inr ⟨hx, hb⟩

/-- **The loop as a set.** -/
theorem mem_mergeTabs (hd : DistinctIds tabs) (hc : DistinctIds change.tabs)
    (x : SessionIdentity) :
    x ∈ mergeTabs tabs change ↔
      (x ∈ tabs ∧ (x ∉ change.base ∨ x ∈ change.tabs) ∧
          ∀ y ∈ change.tabs, y ∉ change.base → y.id = x.id → y = x) ∨
        (x ∈ change.tabs ∧ x ∉ change.base) := by
  have hfst : change.tabs.zipIdx.map Prod.fst = change.tabs := by simp
  have h := (foldl_mergeTab change change.tabs.zipIdx _
    (hd.sublist (List.filter_sublist (p := fun id =>
      !change.base.contains id || change.tabs.contains id))) (by rw [hfst]; exact hc)).2 x
  rw [hfst] at h
  rw [mergeTabs, h, List.mem_filter]
  simp only [Bool.or_eq_true, Bool.not_eq_true', List.contains_eq_mem, decide_eq_false_iff_not,
    decide_eq_true_eq, and_assoc]

/-- Appending the missing tabs one by one. -/
theorem mem_foldl_append (rest ordered : List SessionIdentity) (x : SessionIdentity) :
    x ∈ rest.foldl (fun ordered id => if ordered.contains id then ordered else ordered ++ [id])
        ordered ↔ x ∈ ordered ∨ x ∈ rest := by
  induction rest generalizing ordered with
  | nil => simp
  | cons y rest ih =>
    rw [List.foldl_cons, ih]
    by_cases hy : y ∈ ordered
    · rw [if_pos (by simpa using hy), List.mem_cons]
      constructor
      · exact Or.imp_right Or.inr
      · rintro (hx | rfl | hx)
        · exact Or.inl hx
        · exact Or.inl hy
        · exact Or.inr hx
    · rw [if_neg (by simpa using hy), List.mem_append, List.mem_singleton, List.mem_cons, or_assoc]

/-- The reordering pass neither adds nor drops a tab. -/
theorem mem_reorder (tabs : List SessionIdentity) (change : Change) (x : SessionIdentity) :
    x ∈ reorder tabs change ↔ x ∈ tabs := by
  rw [reorder, mem_foldl_append, List.mem_filter]
  simp only [List.contains_eq_mem, decide_eq_true_eq]
  exact ⟨fun h => h.elim And.right id, Or.inr⟩

/-! ### A successful merge

A merge that succeeds has valid tabs on both sides, so no tmux id occurs twice in either. -/

/-- What a successful merge did: both arguments were valid and only the listed fields moved. -/
theorem merge_ok {current next : Snapshot} (h : merge current change = .ok next) :
    current.valid = true ∧ change.valid = true ∧
      next.tabs = mergedTabs current.tabs change ∧ next.tabs.length ≤ maxTabs ∧
      next = { current with version := 1, initialized := true, tabs := next.tabs,
                            selected := none } := by
  rw [merge] at h
  split at h
  · cases h
  rename_i hvalid
  dsimp only at h
  split at h
  · cases h
  rename_i hlen
  simp only [Bool.or_eq_true, Bool.not_eq_true', not_or, Bool.not_eq_false] at hvalid
  injection h with h
  subst h
  exact ⟨hvalid.1, hvalid.2, rfl, not_lt.mp hlen, rfl⟩

/-- **The merge as a set.**  A tab survives when it was open and not closed by the device and
    no newly opened tab took over its tmux id; the tabs the device opened are there. -/
theorem mem_merge {current next : Snapshot} (h : merge current change = .ok next)
    (x : SessionIdentity) :
    x ∈ next.tabs ↔
      (x ∈ current.tabs ∧ (x ∉ change.base ∨ x ∈ change.tabs) ∧
          ∀ y ∈ change.tabs, y ∉ change.base → y.id = x.id → y = x) ∨
        (x ∈ change.tabs ∧ x ∉ change.base) := by
  obtain ⟨hcur, hch, htabs, -, -⟩ := merge_ok h
  rw [← mem_mergeTabs (Snapshot.valid_tabs hcur).2.2 (Change.valid_tabs hch).2 x, htabs, mergedTabs]
  split
  · rfl
  · exact mem_reorder _ _ x

/-! ### Two devices

Both orders of merging give the same set of tabs; their order on the screen may differ. -/

/-- No two distinct identities of the list share a tmux id. -/
def NoSharedIds (ids : List SessionIdentity) : Prop :=
  ∀ a ∈ ids, ∀ b ∈ ids, a.id = b.id → a = b

/-- Without shared tmux ids no tab is ever taken over, so the merge is the plain three-way
    set merge. -/
theorem mem_merge_of_noSharedIds {current next : Snapshot} (h : merge current change = .ok next)
    (hids : ∀ a ∈ current.tabs, ∀ b ∈ change.tabs, b.id = a.id → b = a) (x : SessionIdentity) :
    x ∈ next.tabs ↔
      (x ∈ current.tabs ∧ (x ∉ change.base ∨ x ∈ change.tabs)) ∨
        (x ∈ change.tabs ∧ x ∉ change.base) := by
  rw [mem_merge h x]
  constructor
  · rintro (⟨hx, hkept, -⟩ | hnew)
    · exact Or.inl ⟨hx, hkept⟩
    · exact Or.inr hnew
  · rintro (⟨hx, hkept⟩ | hnew)
    · exact Or.inl ⟨hx, hkept, fun y hy _ hid => hids x hx y hy hid⟩
    · exact Or.inr hnew

/-- The tabs after two merges from one base, as a set. -/
theorem mem_merge_merge {s s₁ s₁₂ : Snapshot} {c₁ c₂ : Change} (hbase : c₁.base = c₂.base)
    (hids : NoSharedIds (s.tabs ++ c₁.base ++ c₁.tabs ++ c₂.tabs))
    (h₁ : merge s c₁ = .ok s₁) (h₂ : merge s₁ c₂ = .ok s₁₂) (x : SessionIdentity) :
    x ∈ s₁₂.tabs ↔
      (x ∈ s.tabs ∧ (x ∉ c₁.base ∨ x ∈ c₁.tabs ∧ x ∈ c₂.tabs)) ∨
        ((x ∈ c₁.tabs ∨ x ∈ c₂.tabs) ∧ x ∉ c₁.base) := by
  have hfirst := mem_merge_of_noSharedIds h₁ (fun a ha b hb hid =>
    hids b (by simp [hb]) a (by simp [ha]) hid)
  have hsecond := mem_merge_of_noSharedIds h₂ (fun a ha b hb hid => by
    refine hids b (by simp [hb]) a ?_ hid
    rcases (hfirst a).mp ha with ⟨ha, -⟩ | ⟨ha, -⟩ <;> simp [ha])
  rw [hsecond x, hfirst x, ← hbase]
  by_cases hb : x ∈ c₁.base
  · simp only [hb, not_true_eq_false, false_or, and_false, or_false, and_assoc]
  · simp only [hb, not_false_eq_true, true_or, and_true]
    exact or_assoc

/-- **Concurrent edits commute on the tab set.**  Two devices start from the same base; if
    both orders of merging succeed (so the snapshot and both changes are valid) they reach
    the same set of tabs. -/
theorem merge_comm_mem (s s₁ s₂ s₁₂ s₂₁ : Snapshot) (c₁ c₂ : Change)
    (hbase : c₁.base = c₂.base)
    (hids : NoSharedIds (s.tabs ++ c₁.base ++ c₁.tabs ++ c₂.tabs))
    (h₁ : merge s c₁ = .ok s₁) (h₁₂ : merge s₁ c₂ = .ok s₁₂)
    (h₂ : merge s c₂ = .ok s₂) (h₂₁ : merge s₂ c₁ = .ok s₂₁) (x : SessionIdentity) :
    x ∈ s₁₂.tabs ↔ x ∈ s₂₁.tabs := by
  have hids' : NoSharedIds (s.tabs ++ c₂.base ++ c₂.tabs ++ c₁.tabs) := by
    intro a ha b hb
    refine hids a ?_ b ?_
    · simp only [List.mem_append, ← hbase] at ha ⊢
      tauto
    · simp only [List.mem_append, ← hbase] at hb ⊢
      tauto
  rw [mem_merge_merge hbase hids h₁ h₁₂ x, mem_merge_merge hbase.symm hids' h₂ h₂₁ x, ← hbase,
    and_comm (a := x ∈ c₁.tabs), or_comm (a := x ∈ c₁.tabs)]

namespace MergeExample

/-- The `n`-th identity of a small run of sessions. -/
def tab (id : String) : SessionIdentity := ⟨id, 7⟩

/-- One tab open. -/
def start : Snapshot := { Snapshot.empty with tabs := [tab "$1"] }

/-- A device that opens `$2` before the tab it saw. -/
def opens : Change :=
  { operationId := "operation-opens-2", revision := 0, base := [tab "$1"],
    tabs := [tab "$2", tab "$1"], selected := none }

/-- A device that closes the tab it saw and opens `$3`. -/
def closes : Change :=
  { operationId := "operation-closes-1", revision := 0, base := [tab "$1"],
    tabs := [tab "$3"], selected := none }

/-- The workspace with the given tabs, once a change was merged. -/
def merged (tabs : List SessionIdentity) : Snapshot :=
  { start with initialized := true, tabs := tabs }

/-- The two devices meet in the tab set `{$2, $3}` whichever of them comes first. -/
theorem merge_comm_mem_opens_closes :
    merge (merged [tab "$2", tab "$1"]) closes = .ok (merged [tab "$2", tab "$3"]) ∧
      merge (merged [tab "$3"]) opens = .ok (merged [tab "$3", tab "$2"]) ∧
      (tab "$2" ∈ (merged [tab "$2", tab "$3"]).tabs ↔
        tab "$2" ∈ (merged [tab "$3", tab "$2"]).tabs) := by
  have h₁₂ : merge (merged [tab "$2", tab "$1"]) closes = .ok (merged [tab "$2", tab "$3"]) := by
    decide
  have h₂₁ : merge (merged [tab "$3"]) opens = .ok (merged [tab "$3", tab "$2"]) := by
    decide
  refine ⟨h₁₂, h₂₁, ?_⟩
  exact merge_comm_mem start (merged [tab "$2", tab "$1"]) (merged [tab "$3"]) _ _ opens closes rfl
    (by unfold NoSharedIds; decide) (by decide) h₁₂ (by decide) h₂₁ _

end MergeExample

end Hmux.Workspace
