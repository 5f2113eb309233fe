import Mathlib.Data.List.Basic
import Mathlib.Data.List.Nodup
import Mathlib.Data.List.Perm.Basic
import Mathlib.Tactic.Common

namespace Hmux.Lib

/-!
# Finite maps with unique keys

The entries of a `HashMap` in some order of iteration.  That no two entries have the same key is
part of the type, so a lookup (`get?`) and membership of an entry are the same thing:

* `mem_entries` — an entry is what a lookup finds;
* `get?_insert`, `get?_erase`, `get?_retain`, `get?_modify` — what a lookup finds after an update;
* `countP_insert_le`, `countP_retain_le`, `countP_modify` — how many entries there are of a kind.

The order of the entries is that of some iteration and means nothing; no lemma but those about
`values` and the number of entries mentions it.  `BTreeMap` is the other map of this library: it
has the same lookups and an order that callers rely on.
-/

/-- In entries with unique keys, an entry is what is found first under its key. -/
theorem mem_iff_find? {κ α : Type} [DecidableEq κ] {entries : List (κ × α)}
    (hnodup : (entries.map Prod.fst).Nodup) {key : κ} {value : α} :
    (key, value) ∈ entries ↔ (entries.find? fun e => e.1 = key).map Prod.snd = some value := by
  induction entries with
  | nil => simp
  | cons e entries ih =>
    rw [List.map_cons, List.nodup_cons] at hnodup
    by_cases hkey : e.1 = key
    · rw [List.find?_cons_of_pos (by simpa using hkey), List.mem_cons, Option.map_some]
      constructor
      · rintro (rfl | hmem)
        · rfl
        · exact absurd (List.mem_map_of_mem hmem) (hkey ▸ hnodup.1)
      · intro h
        left
        rw [← hkey, ← Option.some.inj h]
    · rw [List.find?_cons_of_neg (by simpa using hkey), List.mem_cons, ← ih hnodup.2]
      refine or_iff_right fun h => hkey ?_
      rw [← h]

/-- A finite map. -/
structure Table (κ α : Type) where
  entries : List (κ × α)
  nodup : (entries.map Prod.fst).Nodup

namespace Table

variable {κ α : Type} [DecidableEq κ]

/-- The map without entries. -/
def empty : Table κ α := ⟨[], List.nodup_nil⟩

/-- `get`. -/
def get? (t : Table κ α) (key : κ) : Option α :=
  (t.entries.find? fun e => e.1 = key).map Prod.snd

/-- `contains_key`. -/
def contains (t : Table κ α) (key : κ) : Bool := (t.get? key).isSome

/-- `values`. -/
def values (t : Table κ α) : List α := t.entries.map Prod.snd

/-- `retain`. -/
def retain (t : Table κ α) (p : κ → α → Bool) : Table κ α where
  entries := t.entries.filter fun e => p e.1 e.2
  nodup := t.nodup.sublist (List.filter_sublist.map _)

/-- `remove`. -/
def erase (t : Table κ α) (key : κ) : Table κ α := t.retain fun k _ => k ≠ key

/-- `insert`. -/
def insert (t : Table κ α) (key : κ) (value : α) : Table κ α where
  entries := (key, value) :: (t.erase key).entries
  nodup := by
    rw [List.map_cons, List.nodup_cons]
    refine ⟨fun h => ?_, (t.erase key).nodup⟩
    obtain ⟨e, he, hkey⟩ := List.mem_map.mp h
    have hne := (List.mem_filter.mp he).2
    rw [decide_eq_true_eq] at hne
    exact hne hkey

/-- An entry that is there is changed. -/
def modify (t : Table κ α) (key : κ) (f : α → α) : Table κ α where
  entries := t.entries.map fun e => (e.1, if e.1 = key then f e.2 else e.2)
  nodup := by
    rw [List.map_map]
    exact t.nodup

/-- `collect`. -/
def ofList (entries : List (κ × α)) : Table κ α :=
  entries.foldl (fun t e => t.insert e.1 e.2) empty

variable {t : Table κ α} {key k : κ} {value v : α}

/-- **An entry is what a lookup finds.** -/
theorem mem_entries : (key, value) ∈ t.entries ↔ t.get? key = some value :=
  mem_iff_find? t.nodup

/-- Tables with the same entries under a key find the same there. -/
theorem get?_ext {t' : Table κ α} (h : ∀ value, (key, value) ∈ t.entries ↔
    (key, value) ∈ t'.entries) :
    t.get? key = t'.get? key := by
  apply Option.ext
  intro value
  rw [← mem_entries, ← mem_entries, h]

@[simp] theorem get?_empty : (empty : Table κ α).get? key = none := rfl

/-- A key is contained when something is found under it. -/
theorem contains_iff : t.contains key = true ↔ ∃ value, t.get? key = some value := by
  unfold contains
  rw [Option.isSome_iff_exists]

/-- It is not when nothing is. -/
theorem contains_eq_false : t.contains key = false ↔ t.get? key = none := by
  unfold contains
  rw [Option.isSome_eq_false_iff, Option.isNone_iff_eq_none]

/-- A value is found under some key. -/
theorem mem_values : value ∈ t.values ↔ ∃ key, t.get? key = some value := by
  unfold values
  rw [List.mem_map]
  constructor
  · rintro ⟨⟨key, v⟩, hmem, rfl⟩
    exact ⟨key, mem_entries.mp hmem⟩
  · rintro ⟨key, h⟩
    exact ⟨(key, value), mem_entries.mpr h, rfl⟩

/-- What is found after `retain` was found before and is kept. -/
theorem get?_retain {p : κ → α → Bool} :
    (t.retain p).get? key = some value ↔ t.get? key = some value ∧ p key value = true := by
  rw [← mem_entries, ← mem_entries]
  exact List.mem_filter

/-- Nothing is found under a key that was removed; other keys do not change. -/
theorem get?_erase : (t.erase key).get? k = if k = key then none else t.get? k := by
  apply Option.ext
  intro v
  unfold erase
  rw [get?_retain, decide_eq_true_eq]
  split
  · rename_i heq
    simp [heq]
  · rename_i hne
    simp [hne]

@[simp] theorem get?_insert_self : (t.insert key value).get? key = some value :=
  mem_entries.mp List.mem_cons_self

/-- The new value is found under its key; other keys do not change. -/
theorem get?_insert : (t.insert key value).get? k = if k = key then some value else t.get? k := by
  split
  · rename_i heq
    rw [heq, get?_insert_self]
  · rename_i hne
    have herase : (t.erase key).get? k = t.get? k := by rw [get?_erase, if_neg hne]
    rw [← herase]
    apply get?_ext
    intro v
    unfold insert
    rw [List.mem_cons]
    refine or_iff_right fun h => hne ?_
    exact congrArg Prod.fst h

/-- What is found after an insertion is the new value or was found before. -/
theorem get?_insert_some (h : (t.insert key value).get? k = some v) :
    (k = key ∧ v = value) ∨ t.get? k = some v := by
  rw [get?_insert] at h
  split at h
  · rename_i heq
    exact .inl ⟨heq, (Option.some.inj h).symm⟩
  · exact .inr h

/-- The value of one key is changed, if there is one. -/
theorem get?_modify {f : α → α} :
    (t.modify key f).get? k = if k = key then (t.get? k).map f else t.get? k := by
  apply Option.ext
  intro v
  have hmem : (k, v) ∈ (t.modify key f).entries ↔
      ∃ x, t.get? k = some x ∧ (if k = key then f x else x) = v := by
    unfold modify
    dsimp only
    rw [List.mem_map]
    constructor
    · rintro ⟨⟨k', x⟩, hx, heq⟩
      cases heq
      exact ⟨x, mem_entries.mp hx, rfl⟩
    · rintro ⟨x, hx, rfl⟩
      exact ⟨(k, x), mem_entries.mpr hx, rfl⟩
  rw [← mem_entries, hmem]
  split
  · rw [Option.map_eq_some_iff]
  · simp

/-- There is one entry with a key at most. -/
theorem filter_key : t.entries.filter (fun e => e.1 = key)
    = ((t.get? key).map fun value => (key, value)).toList := by
  obtain ⟨entries, hnodup⟩ := t
  unfold get?
  dsimp only
  induction entries with
  | nil => rfl
  | cons e entries ih =>
    rw [List.map_cons, List.nodup_cons] at hnodup
    by_cases hkey : e.1 = key
    · have hnone : entries.filter (fun e => e.1 = key) = [] := by
        rw [List.filter_eq_nil_iff]
        intro x hx heq
        rw [decide_eq_true_eq] at heq
        exact hnodup.1 (List.mem_map.mpr ⟨x, hx, heq.trans hkey.symm⟩)
      rw [List.filter_cons_of_pos (by simpa using hkey),
        List.find?_cons_of_pos (by simpa using hkey), hnone, ← hkey]
      rfl
    · rw [List.filter_cons_of_neg (by simpa using hkey),
        List.find?_cons_of_neg (by simpa using hkey), ih hnodup.2]

/-! ### Numbers of entries

Bounds on how many entries of a kind there are after an update, by what the update does to one
entry. -/

omit [DecidableEq κ] in
/-- `retain` makes no entry. -/
theorem countP_retain_le (p : κ → α → Bool) (q : κ × α → Bool) :
    (t.retain p).entries.countP q ≤ t.entries.countP q :=
  List.filter_sublist.countP_le

/-- An insertion makes one entry at most. -/
theorem length_insert_le :
    (t.insert key value).entries.length ≤ t.entries.length + 1 :=
  Nat.succ_le_succ (List.length_filter_le _ _)

/-- An insertion makes one entry of a kind at most. -/
theorem countP_insert_le (q : κ × α → Bool) :
    (t.insert key value).entries.countP q ≤ t.entries.countP q +
    if q (key, value) then 1 else 0 := by
  have hle := countP_retain_le (t := t) (fun k _ => k ≠ key) q
  unfold insert
  rw [List.countP_cons]
  exact Nat.add_le_add_right hle _

/-- A change that stays within a kind does not change how many there are. -/
theorem countP_modify {f : α → α} {q : κ × α → Bool}
    (h : ∀ value, t.get? key = some value → q (key, f value) = q (key, value)) :
    (t.modify key f).entries.countP q = t.entries.countP q := by
  unfold modify
  dsimp only
  rw [List.countP_map]
  apply List.countP_congr
  rintro ⟨k, v⟩ hmem
  rw [Function.comp_apply]
  dsimp only
  split
  · rename_i heq
    subst heq
    rw [h v (mem_entries.mp hmem)]
  · exact Iff.rfl

/-- Less entries of a kind remain when one is removed. -/
theorem countP_erase_lt {q : κ × α → Bool} (h : t.get? key = some value)
    (hq : q (key, value) = true) :
    (t.erase key).entries.countP q < t.entries.countP q := by
  have hmem := mem_entries.mpr h
  obtain ⟨before, after, heq⟩ := List.append_of_mem hmem
  have hsub : (t.erase key).entries.Sublist (before ++ after) := by
    have hfilter : (t.erase key).entries = t.entries.filter fun e => decide (e.1 ≠ key) := rfl
    rw [hfilter, heq, List.filter_append, List.filter_cons_of_neg (by simp)]
    exact List.filter_sublist.append List.filter_sublist
  have hle := hsub.countP_le (p := q)
  rw [heq, List.countP_append, List.countP_cons_of_pos hq]
  rw [List.countP_append] at hle
  omega

/-- An entry that is there makes room for its successor. -/
theorem length_insert_of_get? (h : t.get? key = some v) :
    (t.insert key value).entries.length ≤ t.entries.length := by
  have hlt := countP_erase_lt (q := fun _ => true) h rfl
  rwa [List.countP_true] at hlt

/-- What is in a collected map was one of the entries. -/
theorem mem_ofList {entries : List (κ × α)} (h : (ofList entries).get? key = some value) :
    (key, value) ∈ entries := by
  have hfold : ∀ (entries : List (κ × α)) (t : Table κ α),
      (entries.foldl (fun t e => t.insert e.1 e.2) t).get? key = some value →
      (key, value) ∈ entries ∨ t.get? key = some value := by
    intro entries
    induction entries with
    | nil => intro t h; exact .inr h
    | cons e entries ih =>
      intro t h
      rcases ih _ h with hmem | hget
      · exact .inl (List.mem_cons_of_mem _ hmem)
      · rw [get?_insert] at hget
        split at hget
        · rename_i heq
          left
          rw [heq, ← Option.some.inj hget]
          exact List.mem_cons_self
        · exact .inr hget
  rcases hfold entries empty h with hmem | hget
  · exact hmem
  · cases hget

/-- With unique keys every entry is in the collected map. -/
theorem get?_ofList {entries : List (κ × α)} (hnodup : (entries.map Prod.fst).Nodup)
    (h : (key, value) ∈ entries) : (ofList entries).get? key = some value := by
  have hfold : ∀ (entries : List (κ × α)) (t : Table κ α), (entries.map Prod.fst).Nodup →
      ((key, value) ∈ entries ∨ (key ∉ entries.map Prod.fst ∧ t.get? key = some value)) →
      (entries.foldl (fun t e => t.insert e.1 e.2) t).get? key = some value := by
    intro entries
    induction entries with
    | nil =>
      rintro t - (h | h)
      · cases h
      · exact h.2
    | cons e entries ih =>
      intro t hnodup h
      rw [List.map_cons, List.nodup_cons] at hnodup
      refine ih _ hnodup.2 ?_
      rcases h with h | ⟨hnot, h⟩
      · rcases List.mem_cons.mp h with rfl | h
        · exact .inr ⟨hnodup.1, get?_insert_self⟩
        · exact .inl h
      · rw [List.map_cons, List.mem_cons, not_or] at hnot
        refine .inr ⟨hnot.2, ?_⟩
        rw [get?_insert, if_neg hnot.1]
        exact h
  exact hfold entries empty hnodup (.inl h)

/-- A collected map has no more entries of a kind than the list. -/
theorem countP_ofList_le (entries : List (κ × α)) (q : κ × α → Bool) :
    (ofList entries).entries.countP q ≤ entries.countP q := by
  have hfold : ∀ (entries : List (κ × α)) (t : Table κ α),
      (entries.foldl (fun t e => t.insert e.1 e.2) t).entries.countP q
        ≤ entries.countP q + t.entries.countP q := by
    intro entries
    induction entries with
    | nil => intro t; simp
    | cons e entries ih =>
      intro t
      have hstep := ih (t.insert e.1 e.2)
      have hinsert : (t.insert e.1 e.2).entries.countP q
          ≤ t.entries.countP q + if q e then 1 else 0 := countP_insert_le q
      rw [List.foldl_cons, List.countP_cons]
      omega
  exact hfold entries empty

/-! ### Other values

Changing the values commutes with every other update that goes by the keys. -/

section

variable {β : Type}

/-- The same keys with other values. -/
def mapValues (f : α → β) (t : Table κ α) : Table κ β where
  entries := t.entries.map fun e => (e.1, f e.2)
  nodup := by
    rw [List.map_map]
    exact t.nodup

variable {f : α → β}

omit [DecidableEq κ] in
/-- A map is its entries. -/
theorem ext_entries {t t' : Table κ α} (h : t.entries = t'.entries) : t = t' := by
  cases t
  cases t'
  cases h
  rfl

omit [DecidableEq κ] in
@[simp] theorem length_mapValues : (t.mapValues f).entries.length = t.entries.length :=
  List.length_map _

/-- What is found among the other values is the image of what was found. -/
theorem get?_mapValues : (t.mapValues f).get? key = (t.get? key).map f := by
  unfold get? mapValues
  dsimp only
  rw [List.find?_map, Option.map_map, Option.map_map]
  rfl

omit [DecidableEq κ] in
/-- `retain` may be done before the values are changed. -/
theorem retain_mapValues {p : κ → β → Bool} :
    (t.mapValues f).retain p = (t.retain fun k a => p k (f a)).mapValues f :=
  ext_entries List.filter_map

/-- An insertion may be done before the values are changed. -/
theorem insert_mapValues :
    (t.mapValues f).insert key (f value) = (t.insert key value).mapValues f := by
  apply ext_entries
  show _ :: ((t.mapValues f).retain _).entries = _ :: List.map _ (t.retain _).entries
  rw [retain_mapValues]
  rfl

end

end Table

end Hmux.Lib
