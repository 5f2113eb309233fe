import Mathlib.Data.List.Perm.Basic
import Mathlib.Order.Basic
import Mathlib.Order.Defs.LinearOrder
import Mathlib.Order.Lattice

namespace Hmux.Lib.OrderedMap

/-!
# Maps in the order of their keys

A map as the list of its entries in the order of their keys, which is what iteration over a
`BTreeMap` yields.

* `insert_sorted`, `insert_perm` — what an insertion does;
* `collect_perm` — entries with distinct keys are put in order;
* `collect_of_sorted` — entries in order stay as they are.

The lemmas are used where the entries of a message have to be put in the order in which a writer
emits them: entries with distinct keys come out sorted, whatever order they came in, and entries
that are sorted come out as they are.
-/

variable {κ α β : Type} [LinearOrder κ]

/-- `BTreeMap::insert`. -/
def insert (key : κ) (value : α) : List (κ × α) → List (κ × α)
  | [] => [(key, value)]
  | (k, v) :: rest =>
    if key = k then (key, value) :: rest
    else if key < k then (key, value) :: (k, v) :: rest
    else (k, v) :: insert key value rest

/-- The map of these entries. -/
def collect (entries : List (κ × α)) : List (κ × α) :=
  entries.foldl (fun map e => insert e.1 e.2 map) []

/-- The keys are in order. -/
def Sorted (entries : List (κ × α)) : Prop := entries.Pairwise fun a b => a.1 < b.1

variable {key : κ} {value : α} {map entries : List (κ × α)}

theorem mem_insert {e : κ × α} (h : e ∈ insert key value map) : e = (key, value) ∨ e ∈ map := by
  induction map with
  | nil => exact .inl (List.mem_singleton.mp h)
  | cons head rest ih =>
    obtain ⟨k, v⟩ := head
    rw [insert] at h
    split at h
    · rcases List.mem_cons.mp h with h | h
      · exact .inl h
      · exact .inr (List.mem_cons_of_mem _ h)
    · split at h
      · exact List.mem_cons.mp h
      · rcases List.mem_cons.mp h with h | h
        · exact .inr (h ▸ List.mem_cons_self)
        · exact (ih h).imp_right (List.mem_cons_of_mem _)

theorem insert_sorted (h : Sorted map) : Sorted (insert key value map) := by
  unfold Sorted at h ⊢
  induction map with
  | nil => exact List.pairwise_singleton _ _
  | cons head rest ih =>
    obtain ⟨k, v⟩ := head
    obtain ⟨hk, hrest⟩ := List.pairwise_cons.mp h
    rw [insert]
    split
    · rename_i heq
      exact List.pairwise_cons.mpr ⟨fun e he => heq ▸ hk e he, hrest⟩
    · rename_i hne
      split
      · rename_i hlt
        refine List.pairwise_cons.mpr ⟨fun e he => ?_, h⟩
        rcases List.mem_cons.mp he with rfl | he
        · exact hlt
        · exact lt_trans hlt (hk e he)
      · rename_i hlt
        refine List.pairwise_cons.mpr ⟨fun e he => ?_, ih hrest⟩
        rcases mem_insert he with rfl | he
        · exact lt_of_le_of_ne (le_of_not_gt hlt) (Ne.symm hne)
        · exact hk e he

theorem insert_perm (h : key ∉ map.map Prod.fst) :
    (insert key value map).Perm ((key, value) :: map) := by
  induction map with
  | nil => exact List.Perm.refl _
  | cons head rest ih =>
    obtain ⟨k, v⟩ := head
    rw [List.map_cons, List.mem_cons, not_or] at h
    rw [insert, if_neg h.1]
    split
    · exact List.Perm.refl _
    · exact ((ih h.2).cons (k, v)).trans (List.Perm.swap _ _ _)

/-- A key after all others goes to the end. -/
theorem insert_of_last (h : ∀ e ∈ map, e.1 < key) :
    insert key value map = map ++ [(key, value)] := by
  induction map with
  | nil => rfl
  | cons head rest ih =>
    obtain ⟨k, v⟩ := head
    have hk : k < key := h (k, v) List.mem_cons_self
    rw [insert, if_neg hk.ne', if_neg hk.le.not_gt, ih fun e he => h e (List.mem_cons_of_mem _ he),
      List.cons_append]

theorem foldl_sorted (h : Sorted map) :
    Sorted (entries.foldl (fun map e => insert e.1 e.2 map) map) := by
  induction entries generalizing map with
  | nil => exact h
  | cons e entries ih => exact ih (insert_sorted h)

theorem collect_sorted : Sorted (collect entries) := foldl_sorted List.Pairwise.nil

theorem foldl_perm (h : ((entries ++ map).map Prod.fst).Nodup) :
    (entries.foldl (fun map e => insert e.1 e.2 map) map).Perm (entries ++ map) := by
  induction entries generalizing map with
  | nil => exact List.Perm.refl _
  | cons e entries ih =>
    rw [List.cons_append, List.map_cons, List.nodup_cons, List.map_append, List.mem_append,
      not_or] at h
    have hinsert : (insert e.1 e.2 map).Perm (e :: map) := insert_perm h.1.2
    have hswap : (entries ++ insert e.1 e.2 map).Perm (e :: (entries ++ map)) :=
      (hinsert.append_left entries).trans List.perm_middle
    have hnodup : ((entries ++ insert e.1 e.2 map).map Prod.fst).Nodup := by
      rw [(hswap.map Prod.fst).nodup_iff, List.map_cons, List.nodup_cons, List.map_append,
        List.mem_append, not_or]
      exact h
    exact (ih hnodup).trans hswap

/-- **Entries with distinct keys** are put in order. -/
theorem collect_perm (h : (entries.map Prod.fst).Nodup) : (collect entries).Perm entries := by
  have hperm : (collect entries).Perm (entries ++ []) :=
    foldl_perm (by rwa [List.append_nil])
  rwa [List.append_nil] at hperm

/-- **Entries in order** stay as they are. -/
theorem collect_of_sorted (h : Sorted entries) : collect entries = entries := by
  have hfold : ∀ map : List (κ × α), Sorted (map ++ entries) →
      entries.foldl (fun map e => insert e.1 e.2 map) map = map ++ entries := by
    clear h
    induction entries with
    | nil => intro map _; simp
    | cons e entries ih =>
      intro map h
      have hlast : ∀ x ∈ map, x.1 < e.1 := fun x hx =>
        (List.pairwise_append.mp h).2.2 x hx e List.mem_cons_self
      rw [List.foldl_cons, insert_of_last hlast, ih]
      · rw [List.append_assoc, List.singleton_append]
      · rwa [List.append_assoc, List.singleton_append]
  exact hfold [] h

/-- Values may be changed before or after. -/
theorem insert_map (f : α → β) : (insert key value map).map (Prod.map id f)
    = insert key (f value) (map.map (Prod.map id f)) := by
  induction map with
  | nil => rfl
  | cons head rest ih =>
    obtain ⟨k, v⟩ := head
    rw [List.map_cons, Prod.map_apply, id_eq, insert, insert]
    split
    · rfl
    · split
      · rfl
      · rw [List.map_cons, ih, Prod.map_apply, id_eq]

theorem collect_map (f : α → β) :
    (collect entries).map (Prod.map id f) = collect (entries.map (Prod.map id f)) := by
  have hfold : ∀ map : List (κ × α),
      (entries.foldl (fun map e => insert e.1 e.2 map) map).map (Prod.map id f)
        = (entries.map (Prod.map id f)).foldl (fun map e => insert e.1 e.2 map)
          (map.map (Prod.map id f)) := by
    induction entries with
    | nil => intro map; rfl
    | cons e entries ih =>
      intro map
      rw [List.foldl_cons, ih, insert_map, List.map_cons, List.foldl_cons]
      rfl
  exact hfold []

end Hmux.Lib.OrderedMap
