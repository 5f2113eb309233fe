import Hmux.Lib.Json.Codec
import Hmux.Lib.Json.Unspaced

namespace Hmux.Lib.Json

/-!
# Values without special characters

A value is free when none of its strings and keys has one of the five characters that a cautious
writer escapes.

* `free` — the value is free;
* `Codec.Free`, `Fields.Free` — what is written is free, with a simp set that takes a structure
  apart into its texts.

Whether a value is free is decided at its texts, and the codec of a structure says which texts
these are.  So one `simp` with this set turns a statement about the text of a frame into one about
the texts of its body.
-/

/-- The text has no special character. -/
def htmlFree (s : String) : Bool := s.toList.all fun c => !htmlChars.contains c

mutual

/-- No string and no key has a special character. -/
def free : Json → Bool
  | .str s => htmlFree s
  | .arr items => freeItems items
  | .obj fields => freeFields fields
  | _ => true

def freeItems : List Json → Bool
  | [] => true
  | j :: items => free j && freeItems items

def freeFields : List (String × Json) → Bool
  | [] => true
  | (key, j) :: fields => htmlFree key && free j && freeFields fields

end

/-- A free text has none of the five characters. -/
theorem htmlFree_iff {s : String} : htmlFree s = true ↔ ∀ c ∈ s.toList, c ∉ htmlChars := by
  unfold htmlFree
  rw [List.all_eq_true]
  simp

@[simp] theorem htmlFree_empty : htmlFree "" = true := rfl

/-- An array is free when its items are. -/
theorem freeItems_iff {items : List Json} :
    freeItems items = true ↔ ∀ j ∈ items, free j = true := by
  induction items with
  | nil => simp [freeItems]
  | cons j items ih => rw [freeItems, Bool.and_eq_true, ih, List.forall_mem_cons]

/-- An object is free when its keys and values are. -/
theorem freeFields_iff {fields : List (String × Json)} : freeFields fields = true ↔
    ∀ e ∈ fields, htmlFree e.1 = true ∧ free e.2 = true := by
  induction fields with
  | nil => simp [freeFields]
  | cons e fields ih =>
    rw [freeFields, Bool.and_eq_true, Bool.and_eq_true, ih, List.forall_mem_cons]

end Json

open Json

variable {α β : Type}

namespace Codec

/-- What is written is free. -/
def Free (c : Codec α) (a : α) : Prop := free (c.write a) = true

variable {c : Codec α}

/-- The text itself decides. -/
@[simp] theorem string_free {s : String} : string.Free s ↔ htmlFree s = true := by
  show free (.str s) = true ↔ _
  rw [free]

@[simp] theorem bool_free {b : Bool} : bool.Free b ↔ True := by
  show free (.bool b) = true ↔ _
  rw [free]
  · exact iff_of_true rfl trivial
  all_goals exact nofun

@[simp] theorem int64_free {n : Int64} : int64.Free n ↔ True := by
  show free (.int n.toInt) = true ↔ _
  rw [free]
  · exact iff_of_true rfl trivial
  all_goals exact nofun

@[simp] theorem uint64_free {n : UInt64} : uint64.Free n ↔ True := by
  show free (.int n.toNat) = true ↔ _
  rw [free]
  · exact iff_of_true rfl trivial
  all_goals exact nofun

@[simp] theorem uint32_free {n : UInt32} : uint32.Free n ↔ True := by
  show free (.int n.toNat) = true ↔ _
  rw [free]
  · exact iff_of_true rfl trivial
  all_goals exact nofun

/-- A number has no text of its own. -/
@[simp] theorem double_free {ofInt : ℤ → UInt64} {bits : UInt64} :
    (double ofInt).Free bits ↔ True := by
  have hwrite : (double ofInt).write bits = if finite bits then .float bits else .null := rfl
  unfold Free
  rw [hwrite]
  split
  · exact iff_of_true rfl trivial
  · exact iff_of_true rfl trivial

/-- Only what is written matters. -/
@[simp] theorem map_free {f : α → β} {g : β → α} {b : β} : (c.map f g).Free b ↔ c.Free (g b) :=
  Iff.rfl

/-- Every element has to be free. -/
@[simp] theorem list_free {l : List α} : (list c).Free l ↔ ∀ a ∈ l, c.Free a := by
  show free (.arr (l.map c.write)) = true ↔ _
  rw [free, freeItems_iff]
  simp only [List.mem_map, forall_exists_index, and_imp, forall_apply_eq_imp_iff₂]
  rfl

/-- A missing value is free. -/
@[simp] theorem option_free {x : Option α} : (option c).Free x ↔ ∀ a ∈ x, c.Free a := by
  cases x with
  | none => exact iff_of_true rfl nofun
  | some a =>
    show c.Free a ↔ _
    simp

@[simp] theorem nullDefault_free {a d : α} : (nullDefault c d).Free a ↔ c.Free a := Iff.rfl

end Codec

namespace Fields

/-- What is put is free. -/
def Free (f : Fields α) (a : α) : Prop := ∀ j, some j ∈ f.put a → free j = true

variable {c : Codec α} {key : String}

/-- Both groups of fields have to be free. -/
@[simp] theorem and_free {p : Fields α} {q : Fields β} {x : α × β} :
    (p.and q).Free x ↔ p.Free x.1 ∧ q.Free x.2 := by
  have hput : (p.and q).put x = p.put x.1 ++ q.put x.2 := rfl
  unfold Free
  rw [hput]
  simp only [List.mem_append, or_imp, forall_and]

@[simp] theorem map_free {p : Fields α} {f : α → β} {g : β → α} {b : β} :
    (p.map f g).Free b ↔ p.Free (g b) := Iff.rfl

/-- A field that is left out is free. -/
theorem slot_free {skip : α → Bool} {missing ended : Option α} {a : α} :
    (slot key c skip missing ended).Free a ↔ (skip a = false → c.Free a) := by
  unfold Free
  have hput : (slot key c skip missing ended).put a = [if skip a then none else some (c.write a)] :=
    rfl
  rw [hput]
  simp only [List.mem_singleton]
  cases skip a with
  | true => simp
  | false =>
    simp only [Bool.false_eq_true, if_false, Option.some.injEq, forall_eq, forall_const]
    rfl

/-- A field that is always written. -/
@[simp] theorem required_free {a : α} : (required key c).Free a ↔ c.Free a := by
  rw [required, slot_free]
  simp

@[simp] theorem defaulted_free {a d : α} : (defaulted key c d).Free a ↔ c.Free a := by
  rw [defaulted, slot_free]
  simp

/-- A field that is left out for some values. -/
@[simp] theorem skipped_free {a d : α} {skip : α → Bool} :
    (skipped key c d skip).Free a ↔ (skip a = false → c.Free a) := by
  rw [skipped, slot_free]

/-- What is skipped would be free. -/
theorem skipped_free_of {a d : α} {skip : α → Bool} (h : skip a = true → c.Free a) :
    (skipped key c d skip).Free a ↔ c.Free a := by
  rw [skipped_free]
  cases hskip : skip a with
  | true => exact iff_of_true nofun (h hskip)
  | false => exact forall_prop_of_true rfl

@[simp] theorem text_free {s : String} : (text key).Free s ↔ htmlFree s = true := by
  simp [text]

/-- An empty text is free, so that leaving it out makes no difference. -/
@[simp] theorem omitEmpty_free {s : String} : (omitEmpty key).Free s ↔ htmlFree s = true := by
  rw [omitEmpty, skipped_free_of, Codec.string_free]
  intro hs
  rw [beq_iff_eq.mp hs, Codec.string_free, htmlFree_empty]

@[simp] theorem number_free {n : Int64} : (number key).Free n ↔ True := by
  simp [number]

@[simp] theorem omitZero_free {n : Int64} : (omitZero key).Free n ↔ True := by
  simp [omitZero]

@[simp] theorem flag_free {b : Bool} : (flag key).Free b ↔ True := by
  simp [flag]

@[simp] theorem omitFalse_free {b : Bool} : (omitFalse key).Free b ↔ True := by
  simp [omitFalse]

/-- A list that is left out when it has no elements. -/
@[simp] theorem omitNil_free {l : List α} : (omitNil key c).Free l ↔ ∀ a ∈ l, c.Free a := by
  rw [omitNil, skipped_free, Codec.list_free]
  cases l with
  | nil => simp
  | cons a l => simp

/-- A value that is left out when there is none. -/
@[simp] theorem omitNone_free {x : Option α} : (omitNone key c).Free x ↔ ∀ a ∈ x, c.Free a := by
  rw [omitNone, skipped_free, Codec.option_free]
  cases x with
  | none => simp
  | some a => simp

/-- The pairs of free keys are free when what is put is. -/
theorem freeFields_pairs {keys : List String} {l : List (Option Json)}
    (hkeys : ∀ key ∈ keys, htmlFree key = true) (hlen : l.length = keys.length) :
    freeFields (pairs keys l) = true ↔ ∀ j, some j ∈ l → free j = true := by
  induction keys generalizing l with
  | nil =>
    rw [List.length_nil, List.length_eq_zero_iff] at hlen
    rw [hlen]
    simp [pairs, freeFields]
  | cons key keys ih =>
    cases l with
    | nil => cases hlen
    | cons o l =>
      have ih := ih (fun k hk => hkeys k (List.mem_cons_of_mem _ hk)) (Nat.succ.inj hlen)
      cases o with
      | none =>
        rw [pairs, ih]
        simp
      | some j =>
        rw [pairs, freeFields, Bool.and_eq_true, Bool.and_eq_true, ih,
          hkeys key List.mem_cons_self]
        simp

end Fields

namespace Codec

/-- **A structure is free** when its fields are. -/
theorem free_pairs {f : Fields α} (hkeys : (f.keys.all htmlFree) = true) {a : α} :
    free (.obj (Fields.pairs f.keys (f.put a))) = true ↔ f.Free a := by
  rw [free, Fields.freeFields_pairs (List.all_eq_true.mp hkeys) (f.length_put a)]
  rfl

/-- An object with free keys is free when its fields are. -/
theorem object_free {f : Fields α} (hkeys : (f.keys.all htmlFree) = true) {a : α} :
    (object f).Free a ↔ f.Free a := free_pairs hkeys

/-- So is one for which `null` may stand. -/
theorem objectOrNull_free {f : Fields α} (hkeys : (f.keys.all htmlFree) = true) {a d : α} :
    (objectOrNull f d).Free a ↔ f.Free a := free_pairs hkeys

end Codec

end Hmux.Lib
