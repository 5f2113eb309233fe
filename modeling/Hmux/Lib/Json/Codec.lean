import Mathlib.Data.List.Nodup
import Hmux.Lib.Json.Value

namespace Hmux.Lib

/-!
# Types as JSON values

A `Codec` writes a type as a JSON value and reads it back, as derived serializers do.  A
structure is a sequence of `Fields`: each has a key, may be left out when it is written and
may be missing when it is read.  Unknown and duplicate keys are refused.

`Reads` says of one value that it is read back as it was written; there is one lemma for each
way of building a codec, and all of them are equivalences that `simp` can follow.

* `Codec.object_reads` — a structure is read back when its fields are;
* `Fields.and_reads`, `Fields.map_reads` — fields are read back one by one.

A codec of a structure of the source is written once, from its fields, and the proof that it reads
back what it writes is a `simp` with these lemmas.  What remains of such a proof are the facts
about single values: that a number is in its range, that a text is one of those the type knows.
-/

variable {α β : Type}

/-- A type as JSON. -/
structure Codec (α : Type) where
  write : α → Json
  read : Json → Option α

namespace Codec

/-- This value is read back as it was written. -/
def Reads (c : Codec α) (a : α) : Prop := c.read (c.write a) = some a

/-! ### Values

The codecs of the types that a derived serializer takes from the library, each with the lemma that
says when a value of it is read back. -/

/-- A text. -/
def string : Codec String where
  write s := .str s
  read
    | .str s => some s
    | _ => none

/-- A truth value. -/
def bool : Codec Bool where
  write b := .bool b
  read
    | .bool b => some b
    | _ => none

/-- `i64`. -/
def int64 : Codec Int64 where
  write n := .int n.toInt
  read
    | .int n => if -2 ^ 63 ≤ n ∧ n < 2 ^ 63 then some (Int64.ofInt n) else none
    | _ => none

/-- `i32`. -/
def int32 : Codec Int32 where
  write n := .int n.toInt
  read
    | .int n => if -2 ^ 31 ≤ n ∧ n < 2 ^ 31 then some (Int32.ofInt n) else none
    | _ => none

/-- `u64`. -/
def uint64 : Codec UInt64 where
  write n := .int n.toNat
  read
    | .int n => if 0 ≤ n ∧ n < 2 ^ 64 then some (UInt64.ofNat n.toNat) else none
    | _ => none

/-- `u32`. -/
def uint32 : Codec UInt32 where
  write n := .int n.toNat
  read
    | .int n => if 0 ≤ n ∧ n < 2 ^ 32 then some (UInt32.ofNat n.toNat) else none
    | _ => none

/-- The exponent of the double is not the largest. -/
def finite (bits : UInt64) : Bool := bits.toNat / 2 ^ 52 % 2048 ≠ 2047

/-- `f64`: a double that is not finite is written as a null. -/
def double (ofInt : ℤ → UInt64) : Codec UInt64 where
  write bits := if finite bits then .float bits else .null
  read
    | .float bits => some bits
    | .int n => some (ofInt n)
    | _ => none

/-- `Option`: nothing is a null. -/
def option (c : Codec α) : Codec (Option α) where
  write
    | none => .null
    | some a => c.write a
  read
    | .null => some none
    | j => (c.read j).map some

/-- `Vec`. -/
def list (c : Codec α) : Codec (List α) where
  write l := .arr (l.map c.write)
  read
    | .arr items => items.mapM c.read
    | _ => none

/-- A list of at most `max` items. -/
def bounded (c : Codec α) (max : ℕ) : Codec (List α) where
  write l := .arr (l.map c.write)
  read
    | .arr items => if items.length ≤ max then items.mapM c.read else none
    | _ => none

/-- A null is read as this value. -/
def nullDefault (c : Codec α) (d : α) : Codec α where
  write := c.write
  read
    | .null => some d
    | j => c.read j

/-- Another type for the same values. -/
def map (c : Codec α) (f : α → β) (g : β → α) : Codec β where
  write b := c.write (g b)
  read j := (c.read j).map f

section

variable {c : Codec α}

@[simp] theorem string_write (s : String) : string.write s = .str s := rfl

@[simp] theorem bool_write (b : Bool) : bool.write b = .bool b := rfl

@[simp] theorem int64_write (n : Int64) : int64.write n = .int n.toInt := rfl

@[simp] theorem uint64_write (n : UInt64) : uint64.write n = .int n.toNat := rfl

@[simp] theorem list_write (l : List α) : (list c).write l = .arr (l.map c.write) := rfl

@[simp] theorem nullDefault_write (a d : α) : (nullDefault c d).write a = c.write a := rfl

@[simp] theorem map_write (f : α → β) (g : β → α) (b : β) : (c.map f g).write b = c.write (g b) :=
  rfl

/-- A text is read back. -/
@[simp] theorem string_reads (s : String) : string.Reads s := rfl

/-- A truth value is read back. -/
@[simp] theorem bool_reads (b : Bool) : bool.Reads b := rfl

/-- Every integer of 64 bits is read back. -/
@[simp] theorem int64_reads (n : Int64) : int64.Reads n := by
  have hrange : -2 ^ 63 ≤ n.toInt ∧ n.toInt < 2 ^ 63 := ⟨n.le_toInt, n.toInt_lt⟩
  show (if -2 ^ 63 ≤ n.toInt ∧ n.toInt < 2 ^ 63 then some (Int64.ofInt n.toInt) else none) = _
  rw [if_pos hrange, Int64.ofInt_toInt]

/-- Every integer of 32 bits is read back. -/
@[simp] theorem int32_reads (n : Int32) : int32.Reads n := by
  have hrange : -2 ^ 31 ≤ n.toInt ∧ n.toInt < 2 ^ 31 := ⟨n.le_toInt, n.toInt_lt⟩
  show (if -2 ^ 31 ≤ n.toInt ∧ n.toInt < 2 ^ 31 then some (Int32.ofInt n.toInt) else none) = _
  rw [if_pos hrange, Int32.ofInt_toInt]

/-- Every integer of 64 bits without a sign is read back. -/
@[simp] theorem uint64_reads (n : UInt64) : uint64.Reads n := by
  have hrange : (0 : ℤ) ≤ n.toNat ∧ (n.toNat : ℤ) < 2 ^ 64 := by
    have := n.toNat_lt
    omega
  unfold Reads uint64
  dsimp only
  rw [if_pos hrange, Int.toNat_natCast, UInt64.ofNat_toNat]

/-- The same with 32 bits. -/
@[simp] theorem uint32_reads (n : UInt32) : uint32.Reads n := by
  have hrange : (0 : ℤ) ≤ n.toNat ∧ (n.toNat : ℤ) < 2 ^ 32 := by
    have := n.toNat_lt
    omega
  unfold Reads uint32
  dsimp only
  rw [if_pos hrange, Int.toNat_natCast, UInt32.ofNat_toNat]

/-- A finite number is written as a number. -/
theorem double_write {ofInt : ℤ → UInt64} {bits : UInt64} (h : finite bits = true) :
    (double ofInt).write bits = .float bits := if_pos h

/-- A finite number is read back. -/
theorem double_reads {ofInt : ℤ → UInt64} {bits : UInt64} (h : finite bits = true) :
    (double ofInt).Reads bits := by
  unfold Reads
  rw [double_write h]
  rfl

/-- A missing value is read back: nothing else is written as `null`. -/
@[simp] theorem option_reads_none : (option c).Reads none := rfl

/-- A value that is there is read back unless it is written as `null`. -/
@[simp] theorem option_reads_some (a : α) :
    (option c).Reads (some a) ↔ c.write a ≠ .null ∧ c.Reads a := by
  unfold Reads option
  dsimp only
  cases h : c.write a with
  | null => simp
  | _ => simp [Option.map_eq_some_iff]

/-- What is read as a value was not `null`. -/
theorem option_read_some {j : Json} {a : α} (h : (option c).read j = some (some a)) :
    c.read j = some a := by
  unfold option at h
  dsimp only at h
  split at h
  · cases h
  · obtain ⟨b, hb, heq⟩ := Option.map_eq_some_iff.mp h
    rw [hb, Option.some.inj heq]

/-- An optional value that is never written as a null. -/
theorem option_reads (h : ∀ a, c.write a ≠ .null) (hreads : ∀ a, c.Reads a) (x : Option α) :
    (option c).Reads x := by
  cases x with
  | none => rfl
  | some a => exact (option_reads_some a).mpr ⟨h a, hreads a⟩

/-- A list is read back when its elements are. -/
theorem list_reads {l : List α} (h : ∀ a ∈ l, c.Reads a) : (list c).Reads l := by
  show (l.map c.write).mapM c.read = some l
  induction l with
  | nil => rfl
  | cons a l ih =>
    have ha : c.read (c.write a) = some a := h a List.mem_cons_self
    rw [List.map_cons, List.mapM_cons, ha, ih fun b hb => h b (List.mem_cons_of_mem _ hb)]
    rfl

/-- A value that is not written as `null` is read back beside a default for `null`. -/
theorem nullDefault_reads {a d : α} (h : c.write a ≠ .null) (hreads : c.Reads a) :
    (nullDefault c d).Reads a := by
  unfold Reads nullDefault at *
  dsimp only
  cases hw : c.write a with
  | null => exact absurd hw h
  | _ =>
    rw [hw] at hreads
    exact hreads

/-- A value is read back through a map when its image is and the map undoes it. -/
theorem map_reads {f : α → β} {g : β → α} {b : β} (hfg : f (g b) = b) (h : c.Reads (g b)) :
    (c.map f g).Reads b := by
  show (c.read (c.write (g b))).map f = some b
  rw [show c.read (c.write (g b)) = some (g b) from h, Option.map_some, hfg]

end

end Codec

/-! ### Structures

Fields are put together two at a time, so that a lemma about two groups of fields is enough for all
of them; the keys of a structure only have to be different when the fields become an object. -/

/-- What is there for a field: a value, or none since its key is missing or since the
    sequence that stands for the structure is too short. -/
inductive Slot
  | present (j : Json)
  | missing
  | ended

/-- A field that was written or left out. -/
def Slot.ofOption : Option Json → Slot
  | some j => .present j
  | none => .missing

/-- Fields in the order of their declaration. -/
structure Fields (α : Type) where
  keys : List String
  put : α → List (Option Json)
  get : List Slot → Option α
  length_put : ∀ a, (put a).length = keys.length

namespace Fields

/-- These fields are read back as they were written. -/
def Reads (f : Fields α) (a : α) : Prop := f.get ((f.put a).map Slot.ofOption) = some a

/-- One field: when it is left out, and what it is when it is missing. -/
def slot (key : String) (c : Codec α) (skip : α → Bool) (missing ended : Option α) : Fields α where
  keys := [key]
  put a := [if skip a then none else some (c.write a)]
  get
    | [.present j] => c.read j
    | [.missing] => missing
    | [.ended] => ended
    | _ => none
  length_put _ := rfl

/-- A field that must be there. -/
def required (key : String) (c : Codec α) : Fields α := slot key c (fun _ => false) none none

/-- An optional field: a missing key is nothing. -/
def optional (key : String) (c : Codec α) : Fields (Option α) :=
  slot key c.option (fun _ => false) (some none) none

/-- `default`. -/
def defaulted (key : String) (c : Codec α) (d : α) : Fields α :=
  slot key c (fun _ => false) (some d) (some d)

/-- `default` and left out when `skip` says so. -/
def skipped (key : String) (c : Codec α) (d : α) (skip : α → Bool) : Fields α :=
  slot key c skip (some d) (some d)

/-- Two groups of fields. -/
def and (p : Fields α) (q : Fields β) : Fields (α × β) where
  keys := p.keys ++ q.keys
  put a := p.put a.1 ++ q.put a.2
  get l :=
    match p.get (l.take p.keys.length), q.get (l.drop p.keys.length) with
    | some a, some b => some (a, b)
    | _, _ => none
  length_put a := by rw [List.length_append, List.length_append, p.length_put, q.length_put]

/-- The structure with these fields. -/
def map (p : Fields α) (f : α → β) (g : β → α) : Fields β where
  keys := p.keys
  put b := p.put (g b)
  get l := (p.get l).map f
  length_put b := p.length_put (g b)

/-- A field is read back when its value is; if it is left out, the value that stands for a missing
    field has to be this one. -/
@[simp] theorem slot_reads {key : String} {c : Codec α} {skip : α → Bool} {missing ended : Option α}
    {a : α} :
    (slot key c skip missing ended).Reads a ↔ if skip a then missing = some a else c.Reads a := by
  unfold Reads slot Codec.Reads
  dsimp only
  cases h : skip a with
  | true => simp [Slot.ofOption]
  | false => simp [Slot.ofOption]

/-- A field that must be there. -/
@[simp] theorem required_reads {key : String} {c : Codec α} {a : α} :
    (required key c).Reads a ↔ c.Reads a := by
  simp [required]

/-- A field that may be missing or `null`. -/
@[simp] theorem optional_reads {key : String} {c : Codec α} {a : Option α} :
    (optional key c).Reads a ↔ c.option.Reads a := by
  simp [optional]

/-- A field with a default, which is always written. -/
@[simp] theorem defaulted_reads {key : String} {c : Codec α} {a d : α} :
    (defaulted key c d).Reads a ↔ c.Reads a := by
  simp [defaulted]

/-- A field that is left out for some values. -/
@[simp] theorem skipped_reads {key : String} {c : Codec α} {a d : α} {skip : α → Bool} :
    (skipped key c d skip).Reads a ↔ if skip a then d = a else c.Reads a := by
  simp [skipped]

/-- Two fields, or groups of fields, are read back when both are. -/
@[simp] theorem and_reads {p : Fields α} {q : Fields β} {a : α × β} :
    (p.and q).Reads a ↔ p.Reads a.1 ∧ q.Reads a.2 := by
  obtain ⟨a, b⟩ := a
  have htake : ((p.put a ++ q.put b).map Slot.ofOption).take p.keys.length
      = (p.put a).map Slot.ofOption := by
    rw [List.map_append, List.take_left' (by rw [List.length_map, p.length_put])]
  have hdrop : ((p.put a ++ q.put b).map Slot.ofOption).drop p.keys.length
      = (q.put b).map Slot.ofOption := by
    rw [List.map_append, List.drop_left' (by rw [List.length_map, p.length_put])]
  unfold Reads
  show (match p.get (((p.put a ++ q.put b).map Slot.ofOption).take p.keys.length),
      q.get (((p.put a ++ q.put b).map Slot.ofOption).drop p.keys.length) with
    | some a, some b => some (a, b)
    | _, _ => none) = some (a, b) ↔ _
  rw [htake, hdrop]
  cases p.get ((p.put a).map Slot.ofOption) with
  | none => simp
  | some x =>
    cases q.get ((q.put b).map Slot.ofOption) with
    | none => simp
    | some y => simp

/-- Both groups of fields were found in some slots of their own. -/
theorem and_get_some {p : Fields α} {q : Fields β} {l : List Slot} {a : α × β}
    (h : (p.and q).get l = some a) : (∃ l, p.get l = some a.1) ∧ ∃ l, q.get l = some a.2 := by
  change (match p.get (l.take p.keys.length), q.get (l.drop p.keys.length) with
    | some a, some b => some (a, b)
    | _, _ => none) = some a at h
  split at h
  · rename_i hp hq
    cases h
    exact ⟨⟨_, hp⟩, _, hq⟩
  · cases h

/-- The value that is mapped was found in the same slots. -/
theorem map_get_some {p : Fields α} {f : α → β} {g : β → α} {l : List Slot} {b : β}
    (h : (p.map f g).get l = some b) : ∃ a, p.get l = some a ∧ f a = b :=
  Option.map_eq_some_iff.mp h

/-- A field is what was read, or what it is when it is not there. -/
theorem slot_get_some {key : String} {c : Codec α} {skip : α → Bool} {missing ended : Option α}
    {l : List Slot} {a : α} (h : (slot key c skip missing ended).get l = some a) :
    (∃ j, c.read j = some a) ∨ missing = some a ∨ ended = some a := by
  unfold slot at h
  dsimp only at h
  split at h
  · exact .inl ⟨_, h⟩
  · exact .inr (.inl h)
  · exact .inr (.inr h)
  · cases h

/-- One unreadable field is enough. -/
theorem and_get_eq_none {p : Fields α} {q : Fields β} {l : List Slot}
    (h : p.get (l.take p.keys.length) = none) : (p.and q).get l = none := by
  unfold Fields.and
  dsimp only
  rw [h]

/-- The same for fields. -/
theorem map_reads {p : Fields α} {f : α → β} {g : β → α} {b : β} (hfg : f (g b) = b)
    (h : p.Reads (g b)) : (p.map f g).Reads b := by
  show (p.get ((p.put (g b)).map Slot.ofOption)).map f = some b
  rw [show p.get ((p.put (g b)).map Slot.ofOption) = some (g b) from h, Option.map_some, hfg]

/-- A text, empty by default. -/
def text (key : String) : Fields String := defaulted key .string ""

/-- A text that is left out when it is empty. -/
def omitEmpty (key : String) : Fields String := skipped key .string "" (· == "")

/-- A number, zero by default. -/
def number (key : String) : Fields Int64 := defaulted key .int64 0

/-- A number that is left out when it is zero. -/
def omitZero (key : String) : Fields Int64 := skipped key .int64 0 (· == 0)

/-- A truth value, false by default. -/
def flag (key : String) : Fields Bool := defaulted key .bool false

/-- A truth value that is left out when it is false. -/
def omitFalse (key : String) : Fields Bool := skipped key .bool false (!·)

/-- A list that is left out when it is empty. -/
def omitNil (key : String) (c : Codec α) : Fields (List α) := skipped key c.list [] List.isEmpty

/-- An optional value that is left out when there is none. -/
def omitNone (key : String) (c : Codec α) : Fields (Option α) :=
  skipped key c.option none Option.isNone

/-- A text field is read back. -/
@[simp] theorem text_reads {key : String} {s : String} : (text key).Reads s := by
  simp [text]

/-- Also if it is left out when empty. -/
@[simp] theorem omitEmpty_reads {key : String} {s : String} : (omitEmpty key).Reads s := by
  rw [omitEmpty, skipped_reads]
  split
  · rename_i h
    exact (eq_of_beq h).symm
  · exact Codec.string_reads s

/-- A number field is read back. -/
@[simp] theorem number_reads {key : String} {n : Int64} : (number key).Reads n := by
  simp [number]

/-- Also if it is left out when zero. -/
@[simp] theorem omitZero_reads {key : String} {n : Int64} : (omitZero key).Reads n := by
  rw [omitZero, skipped_reads]
  split
  · rename_i h
    exact (eq_of_beq h).symm
  · exact Codec.int64_reads n

/-- A flag is read back. -/
@[simp] theorem flag_reads {key : String} {b : Bool} : (flag key).Reads b := by
  simp [flag]

/-- Also if it is left out when false. -/
@[simp] theorem omitFalse_reads {key : String} {b : Bool} : (omitFalse key).Reads b := by
  rw [omitFalse, skipped_reads]
  cases b with
  | false => rfl
  | true => exact Codec.bool_reads true

/-- A list that is left out when it has no elements. -/
@[simp] theorem omitNil_reads {key : String} {c : Codec α} {l : List α} :
    (omitNil key c).Reads l ↔ c.list.Reads l := by
  rw [omitNil, skipped_reads]
  cases l with
  | nil => exact iff_of_true rfl rfl
  | cons a l => rfl

/-- A value that is left out when there is none. -/
@[simp] theorem omitNone_reads {key : String} {c : Codec α} {x : Option α} :
    (omitNone key c).Reads x ↔ c.option.Reads x := by
  rw [omitNone, skipped_reads]
  cases x with
  | none => exact iff_of_true rfl rfl
  | some a => rfl

/-- The fields that were written, with their keys. -/
def pairs : List String → List (Option Json) → List (String × Json)
  | key :: keys, some j :: l => (key, j) :: pairs keys l
  | _ :: keys, none :: l => pairs keys l
  | _, _ => []

/-- Every key is known and none occurs twice. -/
def accepted (keys : List String) (fields : List (String × Json)) : Bool :=
  (fields.all fun e => keys.contains e.1) && decide (fields.map Prod.fst).Nodup

/-- What an object holds for each key. -/
def slots (keys : List String) (fields : List (String × Json)) : List Slot :=
  keys.map fun key => Slot.ofOption (fields.lookup key)

/-- The keys that are written are some of the keys of the object, in their order. -/
theorem pairs_keys (keys : List String) (l : List (Option Json)) :
    ((pairs keys l).map Prod.fst).Sublist keys := by
  induction keys generalizing l with
  | nil => simp [pairs]
  | cons key keys ih =>
    cases l with
    | nil => simp [pairs]
    | cons o l =>
      cases o with
      | none =>
        rw [pairs]
        exact (ih l).cons _
      | some j =>
        rw [pairs, List.map_cons]
        exact (ih l).cons_cons _

/-- What is written has no unknown and no double key. -/
theorem pairs_accepted {keys : List String} (hnodup : keys.Nodup) (l : List (Option Json)) :
    accepted keys (pairs keys l) = true := by
  have hsub := pairs_keys keys l
  unfold accepted
  rw [Bool.and_eq_true, List.all_eq_true, decide_eq_true_eq]
  refine ⟨fun e he => ?_, hnodup.sublist hsub⟩
  exact List.contains_iff_mem.mpr (hsub.subset (List.mem_map_of_mem he))

/-- A key that is not there has no value. -/
theorem lookup_pairs_of_notMem {key : String} {keys : List String} (h : key ∉ keys)
    (l : List (Option Json)) : (pairs keys l).lookup key = none := by
  rw [List.lookup_eq_none_iff]
  intro e he
  have hmem : e.1 ∈ keys := (pairs_keys keys l).subset (List.mem_map_of_mem he)
  rw [bne_iff_ne]
  rintro rfl
  exact h hmem

/-- Every slot gets back what was put into it. -/
theorem slots_pairs {keys : List String} (hnodup : keys.Nodup) {l : List (Option Json)}
    (hlen : l.length = keys.length) : slots keys (pairs keys l) = l.map Slot.ofOption := by
  unfold slots
  induction keys generalizing l with
  | nil =>
    rw [List.length_nil, List.length_eq_zero_iff] at hlen
    rw [hlen]
    rfl
  | cons key keys ih =>
    obtain ⟨hkey, hnodup⟩ := List.nodup_cons.mp hnodup
    cases l with
    | nil => cases hlen
    | cons o l =>
      have ih := ih hnodup (Nat.succ.inj hlen)
      have hnone := lookup_pairs_of_notMem hkey l
      cases o with
      | none =>
        rw [pairs, List.map_cons, List.map_cons, hnone, ih]
      | some j =>
        have hrest : (keys.map fun k => Slot.ofOption (((key, j) :: pairs keys l).lookup k))
            = keys.map fun k => Slot.ofOption ((pairs keys l).lookup k) := by
          refine List.map_congr_left fun k hk => ?_
          have hne : k ≠ key := fun h => hkey (h ▸ hk)
          rw [List.lookup_cons, beq_false_of_ne hne]
        rw [pairs, List.map_cons, List.map_cons, List.lookup_cons_self, hrest, ih]

end Fields

namespace Codec

/-- The fields of an object. -/
def readFields (f : Fields α) (fields : List (String × Json)) : Option α :=
  if Fields.accepted f.keys fields then f.get (Fields.slots f.keys fields) else none

/-- A derived structure, which may also stand as the sequence of its fields. -/
def object (f : Fields α) : Codec α where
  write a := .obj (Fields.pairs f.keys (f.put a))
  read
    | .obj fields => readFields f fields
    | .arr items =>
      if items.length ≤ f.keys.length then
        f.get (items.map Slot.present ++ List.replicate (f.keys.length - items.length) .ended)
      else none
    | _ => none

/-- A derived structure that skips unknown keys. -/
def openObject (f : Fields α) : Codec α where
  write a := .obj (Fields.pairs f.keys (f.put a))
  read
    | .obj fields =>
      let known := fields.filter fun e => f.keys.contains e.1
      if (known.map Prod.fst).Nodup then f.get (Fields.slots f.keys known) else none
    | .arr items =>
      if items.length ≤ f.keys.length then
        f.get (items.map Slot.present ++ List.replicate (f.keys.length - items.length) .ended)
      else none
    | _ => none

/-- A structure that is an object or a null. -/
def objectOrNull (f : Fields α) (d : α) : Codec α where
  write a := .obj (Fields.pairs f.keys (f.put a))
  read
    | .obj fields => readFields f fields
    | .null => some d
    | _ => none

/-- A structure that is an object and nothing else. -/
def strictObject (f : Fields α) : Codec α where
  write a := .obj (Fields.pairs f.keys (f.put a))
  read
    | .obj fields => readFields f fields
    | _ => none

/-- An object is written as its pairs. -/
@[simp] theorem object_write (f : Fields α) (a : α) :
    (object f).write a = .obj (Fields.pairs f.keys (f.put a)) := rfl

@[simp] theorem objectOrNull_write (f : Fields α) (a d : α) :
    (objectOrNull f d).write a = .obj (Fields.pairs f.keys (f.put a)) := rfl

/-- Reading the pairs is getting the values from their slots. -/
theorem readFields_pairs {f : Fields α} (hnodup : f.keys.Nodup) (a : α) :
    readFields f (Fields.pairs f.keys (f.put a)) = f.get ((f.put a).map Slot.ofOption) := by
  rw [readFields, if_pos (Fields.pairs_accepted hnodup _),
    Fields.slots_pairs hnodup (f.length_put a)]

/-- **A structure is read back when its fields are.** -/
theorem object_reads {f : Fields α} (hnodup : f.keys.Nodup) {a : α} :
    (object f).Reads a ↔ f.Reads a := by
  show readFields f (Fields.pairs f.keys (f.put a)) = some a ↔ _
  rw [readFields_pairs hnodup]
  rfl

/-- What is read of a structure is read of its fields. -/
theorem openObject_get {f : Fields α} {j : Json} {a : α} (h : (openObject f).read j = some a) :
    ∃ l, f.get l = some a := by
  unfold openObject at h
  dsimp only at h
  split at h
  · split at h
    · exact ⟨_, h⟩
    · cases h
  · split at h
    · exact ⟨_, h⟩
    · cases h
  · cases h

/-- A list that is read as a whole keeps its length. -/
theorem length_of_mapM {f : Json → Option α} {items : List Json} {l : List α}
    (h : items.mapM f = some l) : l.length = items.length := by
  induction items generalizing l with
  | nil => cases h; rfl
  | cons j items ih =>
    rw [List.mapM_cons] at h
    obtain ⟨a, -, h⟩ := Option.bind_eq_some_iff.mp h
    obtain ⟨rest, hrest, h⟩ := Option.bind_eq_some_iff.mp h
    cases h
    rw [List.length_cons, List.length_cons, ih hrest]

/-- A bounded list that is read is no longer than its bound. -/
theorem bounded_read_length {c : Codec α} {max : ℕ} {j : Json} {l : List α}
    (h : (c.bounded max).read j = some l) : l.length ≤ max := by
  unfold bounded at h
  dsimp only at h
  split at h
  · split at h
    · rename_i items hlen
      rw [length_of_mapM h]
      exact hlen
    · cases h
  · cases h

/-- An object without unknown keys is read back when its fields are. -/
theorem strictObject_reads {f : Fields α} (hnodup : f.keys.Nodup) {a : α} :
    (strictObject f).Reads a ↔ f.Reads a := by
  show readFields f (Fields.pairs f.keys (f.put a)) = some a ↔ _
  rw [readFields_pairs hnodup]
  rfl

/-- So is one for which `null` may stand. -/
theorem objectOrNull_reads {f : Fields α} (hnodup : f.keys.Nodup) {a d : α} :
    (objectOrNull f d).Reads a ↔ f.Reads a := by
  show readFields f (Fields.pairs f.keys (f.put a)) = some a ↔ _
  rw [readFields_pairs hnodup]
  rfl

end Codec

end Hmux.Lib
