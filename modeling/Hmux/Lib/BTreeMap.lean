import Hmux.Lib.Json.Codec
import Hmux.Lib.OrderedMap
import Hmux.Lib.Table
import Mathlib.Data.String.Basic

namespace Hmux.Lib

/-!
# Ordered maps

A `BTreeMap`: its entries in the order of their keys.  That they are in order is part of the type,
so that a lookup (`get?`) and membership of an entry are the same thing.

* `mem_entries` — an entry is what a lookup finds;
* `get?_insert`, `get?_erase`, `get?_retain`, `get?_mapValues` — what a lookup finds after an
  update;
* `length_insert`, `length_erase_lt` — how many entries there are;
* `Codec.btreeMap_reads` — a map of texts is read back from its JSON when its values are.

The entries are kept as a list, so that what iteration yields is the list itself; most proofs only
use the lemmas about lookups.  Two maps with the same lookups are the same entries in the same
order, which is why no lemma about the order of an update is needed.
-/

/-- A map in the order of its keys. -/
structure BTreeMap (κ α : Type) [LinearOrder κ] where
  entries : List (κ × α)
  sorted : OrderedMap.Sorted entries

namespace BTreeMap

variable {κ α : Type} [LinearOrder κ]

/-- The map without entries. -/
def empty : BTreeMap κ α := ⟨[], List.Pairwise.nil⟩

instance : Inhabited (BTreeMap κ α) := ⟨empty⟩

/-- `get`. -/
def get? (m : BTreeMap κ α) (key : κ) : Option α :=
  (m.entries.find? fun e => e.1 = key).map Prod.snd

/-- `contains_key`. -/
def contains (m : BTreeMap κ α) (key : κ) : Bool := (m.get? key).isSome

/-- `values`. -/
def values (m : BTreeMap κ α) : List α := m.entries.map Prod.snd

/-- `len`. -/
def length (m : BTreeMap κ α) : ℕ := m.entries.length

/-- `insert`. -/
def insert (m : BTreeMap κ α) (key : κ) (value : α) : BTreeMap κ α where
  entries := OrderedMap.insert key value m.entries
  sorted := OrderedMap.insert_sorted m.sorted

/-- `retain`. -/
def retain (m : BTreeMap κ α) (p : κ → α → Bool) : BTreeMap κ α where
  entries := m.entries.filter fun e => p e.1 e.2
  sorted := m.sorted.sublist List.filter_sublist

/-- `remove`. -/
def erase (m : BTreeMap κ α) (key : κ) : BTreeMap κ α := m.retain fun k _ => k ≠ key

/-- Every value is changed, as through `values_mut`. -/
def mapValues (m : BTreeMap κ α) (f : α → α) : BTreeMap κ α where
  entries := m.entries.map fun e => (e.1, f e.2)
  sorted := by
    have hsorted : m.entries.Pairwise fun a b => a.1 < b.1 := m.sorted
    exact List.pairwise_map.mpr hsorted

variable {m : BTreeMap κ α} {key k : κ} {value v : α}

/-- Keys in order are distinct. -/
theorem nodup (m : BTreeMap κ α) : (m.entries.map Prod.fst).Nodup := by
  have hne : m.entries.Pairwise fun a b => a.1 ≠ b.1 := m.sorted.imp fun h => ne_of_lt h
  exact List.pairwise_map.mpr hne

/-- **An entry is what a lookup finds.** -/
theorem mem_entries : (key, value) ∈ m.entries ↔ m.get? key = some value :=
  mem_iff_find? m.nodup

@[simp] theorem get?_empty : (empty : BTreeMap κ α).get? key = none := rfl

@[simp] theorem length_empty : (empty : BTreeMap κ α).length = 0 := rfl

/-- A key is contained when something is found under it. -/
theorem contains_iff : m.contains key = true ↔ ∃ value, m.get? key = some value := by
  unfold contains
  rw [Option.isSome_iff_exists]

/-- It is not when nothing is. -/
theorem contains_eq_false : m.contains key = false ↔ m.get? key = none := by
  unfold contains
  rw [Option.isSome_eq_false_iff, Option.isNone_iff_eq_none]

/-- A value is found under some key. -/
theorem mem_values : value ∈ m.values ↔ ∃ key, m.get? key = some value := by
  unfold values
  rw [List.mem_map]
  constructor
  · rintro ⟨⟨key, v⟩, hmem, rfl⟩
    exact ⟨key, mem_entries.mp hmem⟩
  · rintro ⟨key, h⟩
    exact ⟨(key, value), mem_entries.mpr h, rfl⟩

/-- What is found after `retain` was found before and is kept. -/
theorem get?_retain {p : κ → α → Bool} :
    (m.retain p).get? key = some value ↔ m.get? key = some value ∧ p key value = true := by
  rw [← mem_entries, ← mem_entries]
  exact List.mem_filter

/-- Nothing is found under a key that was removed; other keys do not change. -/
theorem get?_erase : (m.erase key).get? k = some value ↔ m.get? k = some value ∧ k ≠ key := by
  unfold erase
  rw [get?_retain, decide_eq_true_eq]

/-- What is found among the changed values is the image of what was found. -/
theorem get?_mapValues {f : α → α} : (m.mapValues f).get? key = (m.get? key).map f := by
  apply Option.ext
  intro value
  rw [← mem_entries, Option.map_eq_some_iff]
  unfold mapValues
  dsimp only
  rw [List.mem_map]
  constructor
  · rintro ⟨⟨k, v⟩, hmem, heq⟩
    obtain ⟨rfl, rfl⟩ := Prod.mk.inj heq
    exact ⟨v, mem_entries.mp hmem, rfl⟩
  · rintro ⟨v, hv, rfl⟩
    exact ⟨(key, v), mem_entries.mpr hv, rfl⟩

/-- The new value is found under its key; other keys do not change. -/
theorem get?_insert : (m.insert key value).get? k = if k = key then some value else m.get? k := by
  unfold get? insert
  dsimp only
  induction m.entries with
  | nil =>
    rw [OrderedMap.insert, List.find?_singleton]
    split
    · rename_i h
      rw [if_pos (of_decide_eq_true h).symm, Option.map_some]
    · rename_i h
      rw [if_neg fun heq => h (decide_eq_true heq.symm), List.find?_nil]
  | cons e entries ih =>
    obtain ⟨k', v'⟩ := e
    rw [OrderedMap.insert]
    by_cases hk : k = key
    · subst hk
      rw [if_pos rfl] at ih ⊢
      split
      · simp
      · rename_i hne
        split
        · simp
        · rw [List.find?_cons_of_neg (by simpa using Ne.symm hne), ih]
    · rw [if_neg hk] at ih ⊢
      split
      · rename_i heq
        subst heq
        rw [List.find?_cons_of_neg (by simpa using Ne.symm hk),
          List.find?_cons_of_neg (by simpa using Ne.symm hk)]
      · split
        · rw [List.find?_cons_of_neg (by simpa using Ne.symm hk)]
        · rw [List.find?_cons, List.find?_cons]
          split
          · rfl
          · exact ih

@[simp] theorem get?_insert_self : (m.insert key value).get? key = some value := by
  rw [get?_insert, if_pos rfl]

/-- Under another key nothing changes. -/
theorem get?_insert_ne (h : k ≠ key) : (m.insert key value).get? k = m.get? k := by
  rw [get?_insert, if_neg h]

/-! ### Number of entries

An update that enters a key of its own makes the map one longer, one that replaces an entry leaves
the length as it was, and a removal makes it shorter when there was something to remove. -/

/-- `retain` makes no entry. -/
theorem length_retain_le (p : κ → α → Bool) : (m.retain p).length ≤ m.length :=
  List.length_filter_le _ _

@[simp] theorem length_mapValues (f : α → α) : (m.mapValues f).length = m.length :=
  List.length_map _

/-- Removing an entry that is there leaves fewer. -/
theorem length_erase_lt (h : m.contains key = true) : (m.erase key).length < m.length := by
  obtain ⟨value, hvalue⟩ := contains_iff.mp h
  apply List.length_filter_lt_length_iff_exists.mpr
  exact ⟨(key, value), mem_entries.mpr hvalue, by simp⟩

/-- A new key is one entry more. -/
theorem length_insert (h : m.get? key = none) : (m.insert key value).length = m.length + 1 := by
  have hnotMem : key ∉ m.entries.map Prod.fst := by
    intro hmem
    obtain ⟨⟨k, v⟩, he, rfl⟩ := List.mem_map.mp hmem
    rw [mem_entries.mp he] at h
    cases h
  exact (OrderedMap.insert_perm hnotMem).length_eq

/-- A key that is there keeps its place. -/
theorem length_insert_of_contains (h : m.contains key = true) :
    (m.insert key value).length = m.length := by
  obtain ⟨v, hv⟩ := contains_iff.mp h
  have hsorted := m.sorted
  rw [← mem_entries] at hv
  unfold length insert
  dsimp only
  generalize m.entries = entries at hsorted hv
  induction entries with
  | nil => cases hv
  | cons e entries ih =>
    obtain ⟨k', v'⟩ := e
    obtain ⟨hfirst, hsorted⟩ := List.pairwise_cons.mp hsorted
    rw [OrderedMap.insert]
    split
    · rfl
    · rename_i hne
      have hmem : (key, v) ∈ entries := by
        rcases List.mem_cons.mp hv with heq | hmem
        · exact absurd (congrArg Prod.fst heq) hne
        · exact hmem
      have hlt : k' < key := hfirst (key, v) hmem
      rw [if_neg (not_lt.mpr hlt.le), List.length_cons, ih hsorted hmem, List.length_cons]

end BTreeMap

/-! ### As JSON

A map of texts is an object whose keys are the map's.  The writer goes through it in order, the
reader takes whatever order it finds and lets a later entry replace an earlier one. -/

namespace Codec

variable {α : Type}

/-- A `BTreeMap` of texts: an object, where a later entry replaces an earlier one. -/
def btreeMap (c : Codec α) : Codec (BTreeMap String α) where
  write m := .obj (m.entries.map fun e => (e.1, c.write e.2))
  read
    | .obj fields =>
      (fields.mapM fun e => (c.read e.2).map fun a => (e.1, a)).map fun entries =>
        ⟨OrderedMap.collect entries, OrderedMap.collect_sorted⟩
    | _ => none

/-- **A map is read back** when its values are. -/
theorem btreeMap_reads {c : Codec α} {m : BTreeMap String α} (h : ∀ a ∈ m.values, c.Reads a) :
    c.btreeMap.Reads m := by
  have hentries : ∀ entries : List (String × α), (∀ e ∈ entries, c.Reads e.2) →
      (entries.map fun e => (e.1, c.write e.2)).mapM
        (fun e => (c.read e.2).map fun a => (e.1, a)) = some entries := by
    intro entries hentries
    induction entries with
    | nil => rfl
    | cons e entries ih =>
      have he : c.read (c.write e.2) = some e.2 := hentries e List.mem_cons_self
      rw [List.map_cons, List.mapM_cons, he, ih fun x hx => hentries x (List.mem_cons_of_mem _ hx)]
      rfl
  have hread := hentries m.entries fun e he => h e.2 (List.mem_map_of_mem he)
  show Option.map _ (List.mapM _ (m.entries.map fun e => (e.1, c.write e.2))) = some m
  rw [hread, Option.map_some]
  obtain ⟨entries, hsorted⟩ := m
  congr
  exact OrderedMap.collect_of_sorted hsorted

end Codec

end Hmux.Lib
