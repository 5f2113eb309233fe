import Mathlib.Data.List.Perm.Subperm
import Mathlib.Data.String.Basic
import Hmux.Lib.Json.Value
import Hmux.Lib.OrderedMap

namespace Hmux.Lib.Json

/-!
# Members of JSON objects

`Value::Object` as a map in the order of its keys: `get`, `OrderedMap.insert` and `remove` are the
operations of the map, and `member` follows a path of names through objects.

* `member_insert`, `member_remove` — which paths an operation changes;
* `ordered_insert`, `ordered_remove` — the keys stay in order, and no value becomes deeper than its
  parts;
* `integral_insert`, `integral_remove` — numbers stay as they are.

Programs that edit a settings file change one member of an object and have to leave the others
alone.  With paths this can be said: an insertion changes what stands at its name and below it, and
nothing that stands elsewhere.
-/

/-- The fields of an object. -/
abbrev Map := List (String × Json)

/-- `Map::get`. -/
def Map.get (m : Map) (key : String) : Option Json := m.lookup key

/-- `Map::remove`: what stays. -/
def Map.remove (m : Map) (key : String) : Map := m.filter fun e => e.1 ≠ key

/-- `Map::insert`. -/
def Map.insert (m : Map) (key : String) (j : Json) : Map := OrderedMap.insert key j m

/-- `Value::as_str`. -/
def asStr : Json → Option String
  | .str s => some s
  | _ => none

/-- `Value::get` with a name. -/
def get (j : Json) (key : String) : Option Json :=
  match j with
  | .obj m => Map.get m key
  | _ => none

/-- What stands at a path of names. -/
def member (j : Json) : List String → Option Json
  | [] => some j
  | key :: path => (j.get key).bind fun child => child.member path

/-! ### Keys in order

The reader of the source keeps an object as a map, so what it hands out is in the order of the
keys; the writer goes through that map, so what is written is in the same order. -/

mutual

/-- Every object is in the order of its keys, and lists and objects are nested at most this deep. -/
def ordered (depth : ℕ) : Json → Bool
  | .arr items => decide (0 < depth) && orderedItems (depth - 1) items
  | .obj fields =>
    decide (0 < depth) && (decide (fields.Pairwise fun a b => a.1 < b.1) &&
      orderedFields (depth - 1) fields)
  | _ => true

def orderedItems (depth : ℕ) : List Json → Bool
  | [] => true
  | j :: items => ordered depth j && orderedItems depth items

def orderedFields (depth : ℕ) : List (String × Json) → Bool
  | [] => true
  | (_, j) :: fields => ordered depth j && orderedFields depth fields

end

mutual

/-- Every number is an integer in the range of `i64` or of `u64`. -/
def integral : Json → Bool
  | .int n => decide (-2 ^ 63 ≤ n ∧ n < 2 ^ 64)
  | .float _ => false
  | .arr items => integralItems items
  | .obj fields => integralFields fields
  | _ => true

def integralItems : List Json → Bool
  | [] => true
  | j :: items => integral j && integralItems items

def integralFields : List (String × Json) → Bool
  | [] => true
  | (_, j) :: fields => integral j && integralFields fields

end

section

variable {depth : ℕ} {j : Json} {items : List Json} {m : Map} {key name : String}
  {path : List String}

/-- The items of an array are all ordered to this depth. -/
theorem orderedItems_iff :
    orderedItems depth items = true ↔ ∀ j ∈ items, ordered depth j = true := by
  induction items with
  | nil => simp [orderedItems]
  | cons j items ih => rw [orderedItems, Bool.and_eq_true, ih, List.forall_mem_cons]

/-- The values of an object are all ordered to this depth. -/
theorem orderedFields_iff : orderedFields depth m = true ↔ ∀ e ∈ m, ordered depth e.2 = true := by
  induction m with
  | nil => simp [orderedFields]
  | cons e m ih => rw [orderedFields, Bool.and_eq_true, ih, List.forall_mem_cons]

/-- The items of an array have integral numbers only. -/
theorem integralItems_iff : integralItems items = true ↔ ∀ j ∈ items, integral j = true := by
  induction items with
  | nil => simp [integralItems]
  | cons j items ih => rw [integralItems, Bool.and_eq_true, ih, List.forall_mem_cons]

/-- The values of an object have integral numbers only. -/
theorem integralFields_iff : integralFields m = true ↔ ∀ e ∈ m, integral e.2 = true := by
  induction m with
  | nil => simp [integralFields]
  | cons e m ih => rw [integralFields, Bool.and_eq_true, ih, List.forall_mem_cons]

/-- An array is ordered when its items are, one level deeper. -/
theorem ordered_arr :
    ordered (depth + 1) (.arr items) = true ↔ ∀ j ∈ items, ordered depth j = true := by
  rw [ordered, Bool.and_eq_true, decide_eq_true_iff, Nat.add_sub_cancel, orderedItems_iff]
  exact and_iff_right (Nat.succ_pos _)

/-- An object is ordered when its keys are in order and its values are ordered. -/
theorem ordered_obj : ordered (depth + 1) (.obj m) = true ↔
    OrderedMap.Sorted m ∧ ∀ e ∈ m, ordered depth e.2 = true := by
  rw [ordered, Bool.and_eq_true, Bool.and_eq_true, decide_eq_true_iff, decide_eq_true_iff,
    Nat.add_sub_cancel, orderedFields_iff]
  exact and_iff_right (Nat.succ_pos _)

theorem integral_arr : integral (.arr items) = true ↔ ∀ j ∈ items, integral j = true := by
  rw [integral, integralItems_iff]

theorem integral_obj : integral (.obj m) = true ↔ ∀ e ∈ m, integral e.2 = true := by
  rw [integral, integralFields_iff]

theorem ordered_str (s : String) : ordered depth (.str s) = true := by
  unfold ordered
  rfl

theorem ordered_bool (b : Bool) : ordered depth (.bool b) = true := by
  unfold ordered
  rfl

theorem integral_str (s : String) : integral (.str s) = true := by
  unfold integral
  rfl

theorem integral_bool (b : Bool) : integral (.bool b) = true := by
  unfold integral
  rfl

/-! ### Operations on a map

What each operation leaves at every path, and that it keeps the order, the depth and the numbers.
-/

/-- What is found under a key is an entry. -/
theorem mem_of_get (h : m.get key = some j) : (key, j) ∈ m := by
  induction m with
  | nil => cases h
  | cons e m ih =>
    obtain ⟨k, v⟩ := e
    unfold Map.get at h ih
    rw [List.lookup_cons] at h
    split at h
    · next heq =>
      rw [Option.some.inj h, eq_of_beq heq]
      exact List.mem_cons_self
    · exact List.mem_cons_of_mem _ (ih h)

/-- An entry after an insertion is the new one or was there. -/
theorem mem_insert {e : String × Json} (h : e ∈ m.insert key j) : e = (key, j) ∨ e ∈ m :=
  OrderedMap.mem_insert h

/-- An entry after a removal was there. -/
theorem mem_remove {e : String × Json} (h : e ∈ m.remove key) : e ∈ m := List.mem_of_mem_filter h

/-- Keys stay in order when one is inserted. -/
theorem sorted_insert (h : OrderedMap.Sorted m) : OrderedMap.Sorted (m.insert key j) :=
  OrderedMap.insert_sorted h

/-- Keys stay in order when one is removed. -/
theorem sorted_remove (h : OrderedMap.Sorted m) : OrderedMap.Sorted (m.remove key) :=
  List.Pairwise.filter _ h

/-- A key that no entry has is not found. -/
theorem get_eq_none (h : ∀ e ∈ m, e.1 ≠ key) : m.get key = none := by
  unfold Map.get
  rw [List.lookup_eq_none_iff]
  intro e he
  exact bne_iff_ne.mpr (h e he).symm

/-- What is found after an insertion. -/
theorem get_insert (h : OrderedMap.Sorted m) :
    (m.insert key j).get name = if name = key then some j else m.get name := by
  unfold Map.insert
  induction m with
  | nil =>
    by_cases hname : name = key
    · subst hname
      simp [OrderedMap.insert, Map.get]
    · simp [OrderedMap.insert, Map.get, List.lookup_cons, hname, beq_false_of_ne hname]
  | cons e m ih =>
    obtain ⟨k, v⟩ := e
    obtain ⟨hk, hrest⟩ := List.pairwise_cons.mp h
    have ih := ih hrest
    unfold Map.get at ih ⊢
    rw [OrderedMap.insert]
    by_cases hkey : key = k
    · rw [if_pos hkey, List.lookup_cons, List.lookup_cons]
      by_cases hname : name = key
      · rw [if_pos hname, hname, beq_self_eq_true]
      · rw [if_neg hname, beq_false_of_ne hname, ← hkey, beq_false_of_ne hname]
    · rw [if_neg hkey]
      by_cases hlt : key < k
      · rw [if_pos hlt, List.lookup_cons]
        by_cases hname : name = key
        · rw [if_pos hname, hname, beq_self_eq_true]
        · rw [if_neg hname, beq_false_of_ne hname]
      · rw [if_neg hlt, List.lookup_cons, List.lookup_cons, ih]
        by_cases hname : name = key
        · subst hname
          rw [if_pos rfl, if_pos rfl, beq_false_of_ne hkey]
        · rw [if_neg hname, if_neg hname]

/-- What is found after a removal. -/
theorem get_remove : (m.remove key).get name = if name = key then none else m.get name := by
  by_cases hname : name = key
  · rw [if_pos hname]
    refine get_eq_none fun e he => ?_
    have hne := List.of_mem_filter he
    rw [hname]
    exact of_decide_eq_true hne
  · rw [if_neg hname]
    unfold Map.get Map.remove
    induction m with
    | nil => rfl
    | cons e m ih =>
      obtain ⟨k, v⟩ := e
      rw [List.filter_cons]
      by_cases hk : k = key
      · have hfalse : decide (k ≠ key) = false := decide_eq_false (not_not.mpr hk)
        rw [hfalse, if_neg Bool.noConfusion, ih, List.lookup_cons, hk, beq_false_of_ne hname]
      · rw [decide_eq_true hk, if_pos rfl, List.lookup_cons, List.lookup_cons, ih]

/-- A path leads through the value of its first key. -/
theorem member_cons :
    member (.obj m) (key :: path) = (m.get key).bind fun child => child.member path :=
  rfl

/-- **An insertion** changes what stands at the name and below it. -/
theorem member_insert (h : OrderedMap.Sorted m) : member (.obj (m.insert key j)) (name :: path) =
    if name = key then j.member path else member (.obj m) (name :: path) := by
  rw [member_cons, get_insert h]
  split
  · rfl
  · rfl

/-- **A removal** leaves nothing at the name. -/
theorem member_remove : member (.obj (m.remove key)) (name :: path) =
    if name = key then none else member (.obj m) (name :: path) := by
  rw [member_cons, get_remove]
  split
  · rfl
  · rfl

/-- No path leads into an empty object. -/
theorem member_nil_obj : member (.obj []) (name :: path) = none := rfl

/-- What is inserted is not deeper than a field may be. -/
theorem ordered_insert (h : ordered (depth + 1) (.obj m) = true) (hj : ordered depth j = true) :
    ordered (depth + 1) (.obj (m.insert key j)) = true := by
  rw [ordered_obj] at h ⊢
  refine ⟨OrderedMap.insert_sorted h.1, fun e he => ?_⟩
  rcases mem_insert he with rfl | he
  · exact hj
  · exact h.2 e he

/-- An ordered object stays one without an entry. -/
theorem ordered_remove (h : ordered (depth + 1) (.obj m) = true) :
    ordered (depth + 1) (.obj (m.remove key)) = true := by
  rw [ordered_obj] at h ⊢
  exact ⟨sorted_remove h.1, fun e he => h.2 e (mem_remove he)⟩

/-- Numbers stay integral when an integral value is inserted. -/
theorem integral_insert (h : integral (.obj m) = true) (hj : integral j = true) :
    integral (.obj (m.insert key j)) = true := by
  rw [integral_obj] at h ⊢
  intro e he
  rcases mem_insert he with rfl | he
  · exact hj
  · exact h e he

/-- Numbers stay integral when a value is removed. -/
theorem integral_remove (h : integral (.obj m) = true) :
    integral (.obj (m.remove key)) = true := by
  rw [integral_obj] at h ⊢
  exact fun e he => h e (mem_remove he)

/-- A value of an ordered object is ordered one level less deep. -/
theorem ordered_get (h : ordered (depth + 1) (.obj m) = true) (hget : m.get key = some j) :
    ordered depth j = true :=
  (ordered_obj.mp h).2 _ (mem_of_get hget)

/-- A value of an object with integral numbers has such numbers. -/
theorem integral_get (h : integral (.obj m) = true) (hget : m.get key = some j) :
    integral j = true :=
  integral_obj.mp h _ (mem_of_get hget)

/-- Two maps in order with the same values are the same. -/
theorem map_ext {m' : Map} (h : OrderedMap.Sorted m) (h' : OrderedMap.Sorted m')
    (hget : ∀ key, m.get key = m'.get key) : m = m' := by
  have hmem : ∀ {l : Map}, OrderedMap.Sorted l → ∀ e ∈ l, l.get e.1 = some e.2 := by
    intro l hl e he
    induction l with
    | nil => cases he
    | cons x l ih =>
      obtain ⟨hx, hrest⟩ := List.pairwise_cons.mp hl
      unfold Map.get at ih ⊢
      rw [List.lookup_cons]
      rcases List.mem_cons.mp he with rfl | he
      · rw [beq_self_eq_true]
      · rw [beq_false_of_ne (hx e he).ne']
        exact ih hrest he
  have hsub : ∀ {l l' : Map}, OrderedMap.Sorted l → (∀ key, l.get key = l'.get key) → l ⊆ l' := by
    intro l l' hl hget e he
    have hvalue := hmem hl e he
    rw [hget] at hvalue
    exact mem_of_get hvalue
  have hnodup : ∀ {l : Map}, OrderedMap.Sorted l → l.Nodup := by
    intro l hl
    exact hl.imp fun hlt heq => absurd (heq ▸ hlt) (lt_irrefl _)
  have hperm : m.Perm m' :=
    (List.subperm_of_subset (hnodup h) (hsub h hget)).antisymm
      (List.subperm_of_subset (hnodup h') (hsub h' fun key => (hget key).symm))
  exact hperm.eq_of_pairwise (fun a b _ _ hab hba => absurd (lt_trans hab hba) (lt_irrefl _)) h h'

end

end Hmux.Lib.Json
