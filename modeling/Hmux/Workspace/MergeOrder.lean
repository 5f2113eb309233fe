import Hmux.Workspace.Merge
import Mathlib.Data.List.Perm.Subperm

namespace Hmux.Workspace

/-!
# Shared workspace — the order of merged tabs

What `merge` does beyond the set of tabs: no tmux id is there twice, and the tabs stand where the
devices expect them.

* `mergedTabs_distinct` — one tab for each tmux id, also after the reordering pass;
* `filter_mergeTabs` — the insertion loop keeps the order of the tabs that were open;
* `merge_spec` — the whole three-way merge;
* `mergeTabs_of_base` — the insertion loop on a device that was up to date;
* `merge_fast_forward` — such a device gets exactly what it asked for.
-/

variable {change : Change} {tabs : List SessionIdentity}

/-! ### One tab for each tmux id

A new tab takes the place of an old lifetime of its id, and the loop does not bring the old one
back. -/

/-- Appending the missing tabs one by one repeats none. -/
theorem nodup_foldl_append (rest ordered : List SessionIdentity) (h : ordered.Nodup) :
    (rest.foldl (fun ordered id => if ordered.contains id then ordered else ordered ++ [id])
      ordered).Nodup := by
  induction rest generalizing ordered with
  | nil => exact h
  | cons y rest ih =>
    rw [List.foldl_cons]
    apply ih
    by_cases hy : y ∈ ordered
    · rwa [if_pos (by simpa using hy)]
    · rw [if_neg (by simpa using hy)]
      refine List.nodup_append.mpr ⟨h, List.nodup_singleton y, ?_⟩
      intro a ha b hb
      rw [List.mem_singleton.mp hb]
      exact fun heq => hy (heq ▸ ha)

/-- Tabs without repetition out of tabs with distinct tmux ids. -/
theorem distinctIds_of_subset {tabs' : List SessionIdentity} (hd : DistinctIds tabs)
    (hsub : ∀ x ∈ tabs', x ∈ tabs) (hnodup : tabs'.Nodup) : DistinctIds tabs' :=
  hnodup.map_on fun a ha b hb hid => hd.eq_of_id_eq (hsub a ha) (hsub b hb) hid

theorem mergeTabs_distinct (hd : DistinctIds tabs) (hc : DistinctIds change.tabs) :
    DistinctIds (mergeTabs tabs change) := by
  have hfst : change.tabs.zipIdx.map Prod.fst = change.tabs := by simp
  unfold mergeTabs
  refine (foldl_mergeTab change change.tabs.zipIdx _ (hd.sublist List.filter_sublist) ?_).1
  rwa [hfst]

/-- **One tab for each tmux id.** -/
theorem mergedTabs_distinct (hd : DistinctIds tabs) (hc : DistinctIds change.tabs) :
    DistinctIds (mergedTabs tabs change) := by
  have hloop := mergeTabs_distinct hd hc
  unfold mergedTabs
  split
  · exact hloop
  · refine distinctIds_of_subset hloop (fun x hx => (mem_reorder _ _ x).mp hx) ?_
    exact nodup_foldl_append _ _ (hc.nodup.filter _)

/-! ### The order of the open tabs

An insertion between open tabs leaves them in their order. -/

/-- What an insertion leaves of the elements of a kind that the new one is not of. -/
theorem filter_insertIdx {α : Type} {l : List α} {p : α → Bool} {a : α} (ha : p a = false) (i : ℕ) :
    (l.insertIdx i a).filter p = l.filter p := by
  induction l generalizing i with
  | nil =>
    cases i with
    | zero => rw [List.insertIdx_zero, List.filter_cons_of_neg
        (by rw [ha]; exact Bool.false_ne_true)]
    | succ i => rw [List.insertIdx_succ_nil]
  | cons b l ih =>
    cases i with
    | zero => rw [List.insertIdx_zero, List.filter_cons_of_neg
        (by rw [ha]; exact Bool.false_ne_true)]
    | succ i =>
      rw [List.insertIdx_succ_cons, List.filter_cons, List.filter_cons, ih]

/-- A turn of the loop leaves the open tabs in their order, as long as a tab that is still to come
    and was open is there. -/
theorem mergeTab_sublist {p : SessionIdentity × ℕ} {open_ : List SessionIdentity}
    (h : (tabs.filter open_.contains).Sublist open_)
    (hp : p.1 ∈ open_ → p.1 ∉ change.base → p.1 ∈ tabs) :
    ((mergeTab change tabs p).filter open_.contains).Sublist open_ := by
  by_cases hb : p.1 ∈ change.base
  · rwa [mergeTab_skip (Or.inl hb)]
  by_cases ht : p.1 ∈ tabs
  · rwa [mergeTab_skip (Or.inr ht)]
  obtain ⟨i, -, heq⟩ := mergeTab_insert change hb ht
  have hnew : open_.contains p.1 = false := by
    rw [List.contains_eq_mem, decide_eq_false_iff_not]
    exact fun hmem => ht (hp hmem hb)
  rw [heq, filter_insertIdx hnew]
  exact (List.filter_sublist.filter _).trans h

/-- The loop invariant for the order: what is left to insert is not open, unless it is there. -/
theorem foldl_mergeTab_sublist (rest : List (SessionIdentity × ℕ)) {open_ : List SessionIdentity}
    (hd : DistinctIds tabs) (hrest : DistinctIds (rest.map Prod.fst))
    (h : (tabs.filter open_.contains).Sublist open_)
    (hopen : ∀ x ∈ rest.map Prod.fst, x ∈ open_ → x ∉ change.base → x ∈ tabs) :
    ((rest.foldl (mergeTab change) tabs).filter open_.contains).Sublist open_ := by
  induction rest generalizing tabs with
  | nil => exact h
  | cons p rest ih =>
    rw [DistinctIds, List.map_cons, List.map_cons, List.nodup_cons] at hrest
    rw [List.map_cons] at hopen
    refine ih (mergeTab_distinct hd) hrest.2 (mergeTab_sublist h (hopen p.1 List.mem_cons_self)) ?_
    intro x hx hxopen hxbase
    -- no later tab shares the tmux id of `p`, so none is taken over
    have hne : p.1.id ≠ x.id := fun hid => hrest.1 (List.mem_map.mpr ⟨x, hx, hid.symm⟩)
    have hmem := hopen x (List.mem_cons_of_mem _ hx) hxopen hxbase
    exact (mem_mergeTab hd x).mpr (.inl ⟨hmem, fun _ hid => absurd hid hne⟩)

/-- Two parts of the same tabs in the same order. -/
theorem filter_eq_of_sublist {l open_ : List SessionIdentity} (hopen : open_.Nodup)
    (h : (l.filter open_.contains).Sublist open_) :
    l.filter open_.contains = open_.filter l.contains := by
  have hself : (l.filter open_.contains).filter l.contains = l.filter open_.contains := by
    rw [List.filter_eq_self]
    intro x hx
    rw [List.contains_eq_mem, decide_eq_true_eq]
    exact (List.mem_filter.mp hx).1
  have hsub : (l.filter open_.contains).Sublist (open_.filter l.contains) := by
    have hfiltered := h.filter l.contains
    rwa [hself] at hfiltered
  refine hsub.eq_of_length_le ?_
  have hsubset : open_.filter l.contains ⊆ l.filter open_.contains := by
    intro x hx
    rw [List.mem_filter, List.contains_eq_mem, decide_eq_true_eq] at hx ⊢
    exact ⟨hx.2, hx.1⟩
  have hnodup : (open_.filter l.contains).Nodup := hopen.filter _
  exact (List.Nodup.subperm hnodup hsubset).length_le

/-- **The insertion loop keeps the order of the open tabs.** -/
theorem filter_mergeTabs (hd : DistinctIds tabs) (hc : DistinctIds change.tabs) :
    (mergeTabs tabs change).filter tabs.contains = tabs.filter
    (mergeTabs tabs change).contains := by
  have hfst : change.tabs.zipIdx.map Prod.fst = change.tabs := by simp
  apply filter_eq_of_sublist hd.nodup
  unfold mergeTabs
  refine foldl_mergeTab_sublist _ (hd.sublist List.filter_sublist) (by rwa [hfst]) ?_ ?_
  · exact List.filter_sublist.trans List.filter_sublist
  · intro x _ hx hbase
    rw [List.mem_filter, Bool.or_eq_true, Bool.not_eq_true', List.contains_eq_mem,
      decide_eq_false_iff_not]
    exact ⟨hx, .inl hbase⟩

/-- **The three-way merge.**  One tab for each tmux id; as a set, the open tabs that the device did
    not close and whose tmux id no new tab took over, together with the tabs it opened.  A tab that
    the device still has but that is no longer open stays closed, a tab that another device opened
    stays open unless a new tab took over its tmux id, and a device that did not reorder the tabs it
    kept leaves the open tabs in their order. -/
theorem merge_spec (current next : Snapshot) (change : Change)
    (h : merge current change = .ok next) :
    DistinctIds next.tabs ∧
      (∀ x, x ∈ next.tabs ↔
        (x ∈ current.tabs ∧ ¬(x ∈ change.base ∧ x ∉ change.tabs) ∧
            ¬∃ y ∈ change.tabs, y ∉ change.base ∧ y.id = x.id ∧ y ≠ x) ∨
          (x ∈ change.tabs ∧ x ∉ change.base)) ∧
      (∀ x ∈ change.base, x ∈ change.tabs → x ∉ current.tabs → x ∉ next.tabs) ∧
      (∀ x ∈ current.tabs, x ∉ change.base → x ∈ next.tabs ∨
        ∃ y ∈ change.tabs, y ∉ change.base ∧ y.id = x.id ∧ y ≠ x ∧ y ∈ next.tabs) ∧
      (change.base.filter change.tabs.contains = change.tabs.filter change.base.contains →
        next.tabs.filter current.tabs.contains = current.tabs.filter next.tabs.contains) := by
  -- every part but the order follows from what the merged tabs are
  have hmem : ∀ x, x ∈ next.tabs ↔
      (x ∈ current.tabs ∧ ¬(x ∈ change.base ∧ x ∉ change.tabs) ∧
          ¬∃ y ∈ change.tabs, y ∉ change.base ∧ y.id = x.id ∧ y ≠ x) ∨
        (x ∈ change.tabs ∧ x ∉ change.base) := by
    intro x
    rw [mem_merge h x]
    have hkept : (x ∉ change.base ∨ x ∈ change.tabs) ↔ ¬(x ∈ change.base ∧ x ∉ change.tabs) := by
      rw [not_and_or, not_not]
    have hover : (∀ y ∈ change.tabs, y ∉ change.base → y.id = x.id → y = x) ↔
        ¬∃ y ∈ change.tabs, y ∉ change.base ∧ y.id = x.id ∧ y ≠ x := by
      constructor
      · rintro hall ⟨y, hy, hbase, hid, hne⟩
        exact hne (hall y hy hbase hid)
      · intro hnone y hy hbase hid
        by_contra hne
        exact hnone ⟨y, hy, hbase, hid, hne⟩
    rw [hkept, hover]
  obtain ⟨hcur, hch, htabs, -, -⟩ := merge_ok h
  have hd := (Snapshot.valid_tabs hcur).2.2
  have hc := (Change.valid_tabs hch).2
  refine ⟨?_, hmem, ?_, ?_, ?_⟩
  · rw [htabs]
    exact mergedTabs_distinct hd hc
  · intro x hbase _ hclosed hx
    rcases (hmem x).mp hx with ⟨hopen, -⟩ | ⟨-, hnew⟩
    · exact hclosed hopen
    · exact hnew hbase
  · intro x hx hbase
    by_cases hover : ∃ y ∈ change.tabs, y ∉ change.base ∧ y.id = x.id ∧ y ≠ x
    · obtain ⟨y, hy, hnew, hid, hne⟩ := hover
      exact .inr ⟨y, hy, hnew, hid, hne, (hmem y).mpr (.inr ⟨hy, hnew⟩)⟩
    · exact .inl ((hmem x).mpr (.inl ⟨hx, fun hclosed => hbase hclosed.1, hover⟩))
  -- the tabs were not reordered, so the loop's result is kept
  · intro horder
    have hsame : sameOrder change = true := beq_iff_eq.mpr horder
    have hloop : next.tabs = mergeTabs current.tabs change := by
      rw [htabs, mergedTabs, if_pos hsame]
    rw [hloop]
    exact filter_mergeTabs hd hc

/-! ### A device that was up to date

Every new tab finds the neighbour before it where the device saw it, so it is inserted at its own
place. -/

/-- Where a tab stands in a list that starts with other tabs. -/
theorem findIdx?_append_cons {pre rest : List SessionIdentity} {id : SessionIdentity}
    (h : id ∉ pre) :
    (pre ++ id :: rest).findIdx? (· == id) = some pre.length := by
  rw [List.findIdx?_append, List.findIdx?_eq_none_iff.mpr ?_, Option.none_or, List.findIdx?_cons]
  · simp
  · intro x hx
    rw [beq_eq_false_iff_ne]
    rintro rfl
    exact h hx

/-- The place of a tab, when the tabs before it are in place and those after it are a part of the
    ones that follow: right between them. -/
theorem insertPosition_inPlace {pre rest : List SessionIdentity} (h : (pre ++ rest).Nodup)
    (p : SessionIdentity → Bool) :
    ((rest.findSome? (fun next => (pre ++ rest.filter p).findIdx? (· == next)) <|>
      pre.reverse.findSome? (fun previous =>
        ((pre ++ rest.filter p).findIdx? (· == previous)).map (· + 1))).getD
        (pre ++ rest.filter p).length) = pre.length := by
  obtain ⟨hpre, -, hdisjoint⟩ := List.nodup_append.mp h
  have hmiss : ∀ next ∈ rest, p next = false →
      (pre ++ rest.filter p).findIdx? (· == next) = none := by
    intro next hnext hp
    rw [List.findIdx?_eq_none_iff]
    intro x hx
    rw [beq_eq_false_iff_ne]
    rintro rfl
    rcases List.mem_append.mp hx with hx | hx
    · exact hdisjoint x hx x hnext rfl
    · exact absurd (List.mem_filter.mp hx).2 (by rw [hp]; exact Bool.false_ne_true)
  cases hkept : rest.filter p with
  | cons b more =>
    -- the first tab that follows and is open stands right after those before it
    obtain ⟨skipped, rest', hsplit, hskipped, -, -⟩ := List.filter_eq_cons_iff.mp hkept
    have hb : b ∈ rest := hsplit ▸ List.mem_append_right _ List.mem_cons_self
    have hnone :
      skipped.findSome? (fun next => (pre ++ b :: more).findIdx? (· == next)) = none := by
      rw [List.findSome?_eq_none_iff]
      intro next hnext
      rw [← hkept]
      exact hmiss next (hsplit ▸ List.mem_append_left _ hnext)
        (eq_false_of_ne_true (hskipped next hnext))
    have hfound : (pre ++ b :: more).findIdx? (· == b) = some pre.length :=
      findIdx?_append_cons fun hmem => hdisjoint b hmem b hb rfl
    rw [hsplit, List.findSome?_append, hnone, Option.none_or, List.findSome?_cons, hfound]
    rfl
  | nil =>
    have hnone : rest.findSome? (fun next => (pre ++ []).findIdx? (· == next)) = none := by
      rw [List.findSome?_eq_none_iff]
      intro next hnext
      rw [← hkept]
      refine hmiss next hnext (eq_false_of_ne_true fun hp => ?_)
      exact List.ne_nil_of_mem (List.mem_filter.mpr ⟨hnext, hp⟩) hkept
    rw [hnone]
    -- nothing follows: the tab goes after the last of those before it
    induction pre using List.reverseRecOn with
    | nil => rfl
    | append_singleton pre last _ =>
      have hlast : last ∉ pre := by
        intro hmem
        exact (List.nodup_append.mp hpre).2.2 last hmem last (List.mem_singleton_self last) rfl
      have hfound : (pre ++ [last] ++ []).findIdx? (· == last) = some pre.length := by
        rw [List.append_nil]
        exact findIdx?_append_cons hlast
      rw [List.reverse_append, List.reverse_singleton, List.singleton_append, List.findSome?_cons,
        hfound]
      show pre.length + 1 = (pre ++ [last]).length
      rw [List.length_append, List.length_singleton]

theorem insertIdx_append_cons {α : Type} (pre rest : List α) (a : α) :
    (pre ++ rest).insertIdx pre.length a = pre ++ a :: rest := by
  induction pre with
  | nil => rfl
  | cons b pre ih => rw [List.cons_append, List.length_cons, List.insertIdx_succ_cons, ih,
      List.cons_append]

/-- A turn on a new tab, when everything before it is in place and what comes after it are the base
    tabs that were kept: the tab comes in between. -/
theorem mergeTab_inPlace {pre rest : List SessionIdentity} {id : SessionIdentity}
    (htabs : change.tabs = pre ++ id :: rest) (hc : DistinctIds change.tabs) :
    mergeTab change (pre ++ (id :: rest).filter change.base.contains) (id, pre.length)
      = pre ++ id :: rest.filter change.base.contains := by
  by_cases hb : id ∈ change.base
  · rw [mergeTab_skip (Or.inl hb), List.filter_cons_of_pos (by simpa using hb)]
  have hnodup := hc.nodup
  rw [htabs] at hnodup
  obtain ⟨hpre, hcons, hdisjoint⟩ := List.nodup_append.mp hnodup
  obtain ⟨hrest, hnodupRest⟩ := List.nodup_cons.mp hcons
  have hfilter : (id :: rest).filter change.base.contains = rest.filter change.base.contains :=
    List.filter_cons_of_neg (by simpa using hb)
  have hnot : id ∉ pre ++ rest.filter change.base.contains := by
    rw [List.mem_append, List.mem_filter]
    rintro (hmem | ⟨hmem, -⟩)
    · exact hdisjoint id hmem id List.mem_cons_self rfl
    · exact hrest hmem
  -- no other tab of the device has the tmux id of the new one
  have hself : ((pre ++ rest.filter change.base.contains).filter fun old => old.id != id.id)
      = pre ++ rest.filter change.base.contains := by
    rw [List.filter_eq_self]
    intro x hx
    rw [bne_iff_ne]
    intro hid
    have hxtabs : x ∈ change.tabs := by
      rw [htabs]
      rcases List.mem_append.mp hx with hx | hx
      · exact List.mem_append_left _ hx
      · exact List.mem_append_right _ (List.mem_cons_of_mem _ (List.mem_filter.mp hx).1)
    have hidtabs : id ∈ change.tabs := htabs ▸ List.mem_append_right _ List.mem_cons_self
    exact hnot (hc.eq_of_id_eq hxtabs hidtabs hid ▸ hx)
  have hdrop : change.tabs.drop (pre.length + 1) = rest := by
    rw [htabs, ← List.drop_drop, List.drop_left, List.drop_one, List.tail_cons]
  have htake : change.tabs.take pre.length = pre := by
    rw [htabs, List.take_left]
  have hboth : (pre ++ rest).Nodup := by
    refine List.nodup_append.mpr ⟨hpre, hnodupRest, fun a ha b hb' => ?_⟩
    exact hdisjoint a ha b (List.mem_cons_of_mem _ hb')
  have hnew : ¬(change.base.contains id || (pre ++ rest.filter change.base.contains).contains id)
      = true := by
    rw [Bool.or_eq_true, List.contains_eq_mem, List.contains_eq_mem, decide_eq_true_eq,
      decide_eq_true_eq]
    exact fun h => h.elim hb hnot
  rw [hfilter, mergeTab, if_neg hnew]
  dsimp only
  rw [hself, hdrop, htake, insertPosition_inPlace hboth, insertIdx_append_cons]

/-- The loop invariant: what was visited is in place, and of the rest the base tabs are there. -/
theorem foldl_mergeTab_inPlace (rest pre : List SessionIdentity)
    (htabs : change.tabs = pre ++ rest) (hc : DistinctIds change.tabs) :
    (rest.zipIdx pre.length).foldl (mergeTab change) (pre ++ rest.filter change.base.contains)
      = pre ++ rest := by
  induction rest generalizing pre with
  | nil => rfl
  | cons id rest ih =>
    have hnext : change.tabs = (pre ++ [id]) ++ rest := by
      rw [htabs, List.append_assoc, List.singleton_append]
    have hih := ih (pre ++ [id]) hnext
    rw [List.length_append, List.length_singleton, List.append_assoc, List.append_assoc,
      List.singleton_append, List.singleton_append] at hih
    rw [List.zipIdx_cons, List.foldl_cons, mergeTab_inPlace htabs hc, hih]

/-- **The insertion loop on a device that was up to date** and kept the order of its tabs. -/
theorem mergeTabs_of_base (hbase : change.base = tabs) (hc : DistinctIds change.tabs)
    (horder : sameOrder change = true) : mergeTabs tabs change = change.tabs := by
  have hkept : (tabs.filter fun id => !change.base.contains id || change.tabs.contains id)
      = change.tabs.filter change.base.contains := by
    rw [← beq_iff_eq.mp horder, hbase]
    refine List.filter_congr fun x hx => ?_
    have hmem : tabs.contains x = true := List.contains_iff_mem.mpr hx
    rw [hmem, Bool.not_true, Bool.false_or]
  have hloop := foldl_mergeTab_inPlace change.tabs [] rfl hc
  unfold mergeTabs
  rw [hkept]
  exact hloop

/-- The device's order, when it has every tab. -/
theorem reorder_of_mem (hmem : ∀ x, x ∈ tabs ↔ x ∈ change.tabs) :
    reorder tabs change = change.tabs := by
  have hall : change.tabs.filter tabs.contains = change.tabs := by
    rw [List.filter_eq_self]
    intro x hx
    exact List.contains_iff_mem.mpr ((hmem x).mpr hx)
  have hnone : ∀ rest : List SessionIdentity, (∀ x ∈ rest, x ∈ change.tabs) →
      rest.foldl (fun ordered id => if ordered.contains id then ordered else ordered ++ [id])
        change.tabs = change.tabs := by
    intro rest hrest
    induction rest with
    | nil => rfl
    | cons y rest ih =>
      rw [List.foldl_cons, if_pos (by simpa using hrest y List.mem_cons_self)]
      exact ih fun x hx => hrest x (List.mem_cons_of_mem _ hx)
  unfold reorder
  rw [hall]
  exact hnone tabs fun x hx => (hmem x).mp hx

/-- **Fast-forward.**  A device that was up to date gets exactly the tabs it asked for, in its
    order. -/
theorem merge_fast_forward (current : Snapshot) (change : Change) (hcurrent : current.valid = true)
    (hchange : change.valid = true) (hbase : change.base = current.tabs) :
    ∃ next, merge current change = .ok next ∧ next.tabs = change.tabs := by
  have hd := (Snapshot.valid_tabs hcurrent).2.2
  have hc := (Change.valid_tabs hchange).2
  have htabs : mergedTabs current.tabs change = change.tabs := by
    unfold mergedTabs
    split
    · rename_i horder
      exact mergeTabs_of_base hbase hc horder
    · apply reorder_of_mem
      intro x
      rw [mem_mergeTabs hd hc x, ← hbase]
      constructor
      · rintro (⟨hx, hkept, -⟩ | ⟨hx, -⟩)
        · exact hkept.resolve_left fun hnot => hnot hx
        · exact hx
      · intro hx
        by_cases hb : x ∈ change.base
        · exact .inl ⟨hb, .inr hx, fun y hy _ hid => hc.eq_of_id_eq hy hx hid⟩
        · exact .inr ⟨hx, hb⟩
  have hlen : ¬maxTabs < change.tabs.length := by
    have hvalid := hchange
    rw [Change.valid] at hvalid
    simp only [Bool.and_eq_true] at hvalid
    exact not_lt.mpr ((validIds_iff _).mp hvalid.1.2).1
  refine ⟨{ current with version := 1, initialized := true, tabs := change.tabs, selected := none },
    ?_, rfl⟩
  rw [merge, hcurrent, hchange]
  dsimp only
  rw [if_neg (by decide), htabs, if_neg hlen]

/-! ### A device that reorders, closes and replaces

Two changes of one workspace, one by a device that has seen it and one by a device that has not. -/

namespace FastForwardExample

/-- The identity of a session of this name and lifetime. -/
def tab (id : String) (createdAt : Int64) : SessionIdentity := ⟨id, createdAt⟩

def current : Snapshot := { Snapshot.empty with tabs := [tab "$1" 7, tab "$2" 7, tab "$3" 7] }

/-- It swaps `$2` and `$3`, has a new lifetime of `$1` and opens `$4`. -/
def reorders : Change :=
  { operationId := "operation-reorders", revision := 0, base := current.tabs,
    tabs := [tab "$3" 7, tab "$1" 8, tab "$2" 7, tab "$4" 7], selected := none }

theorem fast_forward_reorders :
    ∃ next, merge current reorders = .ok next ∧
      next.tabs = [tab "$3" 7, tab "$1" 8, tab "$2" 7, tab "$4" 7] :=
  merge_fast_forward current reorders (by decide) (by decide) rfl

/-- A device that saw `$1` and `$9` only, closes `$1` and opens `$4`. -/
def stale : Change :=
  { operationId := "operation-is-stale", revision := 0, base := [tab "$1" 7, tab "$9" 7],
    tabs := [tab "$9" 7, tab "$4" 7], selected := none }

/-- The tab `$9` is not opened again, and the other tabs keep their order. -/
theorem merge_stale : ∃ next, merge current stale = .ok next ∧
    next.tabs = [tab "$2" 7, tab "$3" 7, tab "$4" 7] ∧ DistinctIds next.tabs ∧
    tab "$9" 7 ∉ next.tabs ∧
    next.tabs.filter current.tabs.contains = current.tabs.filter next.tabs.contains := by
  have hmerge : merge current stale = .ok { current with
      initialized := true, tabs := [tab "$2" 7, tab "$3" 7, tab "$4" 7] } := by decide
  obtain ⟨hdistinct, -, hclosed, -, horder⟩ := merge_spec current _ stale hmerge
  exact ⟨_, hmerge, rfl, hdistinct,
    hclosed (tab "$9" 7) (by decide) (by decide) (by decide),
    horder (by decide)⟩

end FastForwardExample

end Hmux.Workspace
