import Hmux.Lib.Proto.Normal

namespace Hmux.Lib.Proto

/-!
# Typed messages

`Part` reads and writes some of the fields of a message: how a value is obtained from the
fields that were received (the last of a scalar, all of a repeated field, nested messages
merged) and which fields are sent for it, with the laws that tie the two together.  A message
is built from its fields with `and` and `map`; `Covers` says that no field is missing.

`zero` is the identity except for doubles without presence, where a negative zero is not sent.
`k` bounds how deep `normal` is known to hold, for messages that may contain themselves.

The laws of a part are its fields: what it reads from the fields of a value it sent is that value,
and what it sends for what it read is a normal form of what was received.  A generated message is
then a term built from parts, and its round trip is a field of that term rather than a proof of its
own.
-/

variable {σ : Type}

/-! ### Scalars

A scalar is known by the range of what may travel and by the two conversions, which are inverse on
that range. -/

/-- A scalar type of a kind of field: reading truncates, writing does not. -/
structure Scalar (σ : Type) (α : Type) where
  kind : Kind σ
  dec : Val → α
  enc : α → Val
  default : α
  /-- Not sent when the field has no presence. -/
  skips : α → Bool
  zero : α → α
  dec_enc : ∀ a, dec (enc a) = a
  /-- A value in range comes back as it was. -/
  enc_dec : ∀ (P : σ → Wire → Prop) (v : Val), v.InRange P kind → enc (dec v) = v
  skips_dec : ∀ (P : σ → Wire → Prop) (v : Val), v.InRange P kind →
    skips (dec v) = v.isDefault
  zero_eq : ∀ a, zero a = if skips a then default else a
  skips_default : skips default = true
  same : ∀ (P : σ → Wire → Wire → Prop) (v : Val), v.Same P kind v

namespace Scalar

/-- A scalar that travels as a varint below `bound`. -/
def ofVarint {α : Type} [DecidableEq α] (kind : Kind σ) (bound : ℕ)
    (hkind : ∀ (P : σ → Wire → Prop) (v : Val), v.InRange P kind →
      ∃ n, v = .varint n ∧ n < bound)
    (hsame : ∀ (P : σ → Wire → Wire → Prop) (v : Val), v.Same P kind v)
    (ofNat : ℕ → α) (toNat : α → ℕ) (hof : ∀ a, ofNat (toNat a) = a)
    (hto : ∀ n < bound, toNat (ofNat n) = n) : Scalar σ α where
  kind := kind
  dec := fun | .varint n => ofNat n | _ => ofNat 0
  enc a := .varint (toNat a)
  default := ofNat 0
  skips a := a = ofNat 0
  zero a := a
  dec_enc := hof
  enc_dec P v h := by
    obtain ⟨n, rfl, hn⟩ := hkind P v h
    exact congrArg Val.varint (hto n hn)
  skips_dec P v h := by
    obtain ⟨n, rfl, hn⟩ := hkind P v h
    rw [Val.isDefault, Bool.eq_iff_iff, decide_eq_true_eq, beq_iff_eq]
    constructor
    · intro h0
      have hzero := congrArg toNat h0
      rw [hto n hn, hto 0 (by omega)] at hzero
      exact hzero
    · rintro rfl
      rfl
  zero_eq a := by
    split
    · rename_i h
      exact of_decide_eq_true h
    · rfl
  skips_default := decide_eq_true rfl
  same := hsame

/-- `uint32`, read with `as u32`. -/
def uint32 : Scalar σ UInt32 :=
  ofVarint .uint32 (2 ^ 32)
    (fun _ v h => match v, h with | .varint n, h => ⟨n, rfl, h⟩) (fun _ _ => rfl)
    UInt32.ofNat UInt32.toNat (fun _ => UInt32.ofNat_toNat)
    (fun _ h => UInt32.toNat_ofNat_of_lt' h)

/-- `uint64`. -/
def uint64 : Scalar σ UInt64 :=
  ofVarint .uint64 (2 ^ 64)
    (fun _ v h => match v, h with | .varint n, h => ⟨n, rfl, h⟩) (fun _ _ => rfl)
    UInt64.ofNat UInt64.toNat (fun _ => UInt64.ofNat_toNat)
    (fun _ h => UInt64.toNat_ofNat_of_lt' h)

/-- `int64`, read with `as i64`. -/
def int64 : Scalar σ Int64 :=
  ofVarint .int64 (2 ^ 64)
    (fun _ v h => match v, h with | .varint n, h => ⟨n, rfl, h⟩) (fun _ _ => rfl)
    (fun n => (UInt64.ofNat n).toInt64) (fun a => a.toUInt64.toNat)
    (fun a => by rw [UInt64.ofNat_toNat]; rfl)
    (fun _ h => UInt64.toNat_ofNat_of_lt' h)

/-- A non-negative `i32` is the varint it came from. -/
theorem toNat_toInt32 {n : ℕ} (h : n < 2 ^ 31) :
    (UInt64.ofNat n).toInt64.toInt32.toInt64.toUInt64.toNat = n := by
  have hcast : (UInt64.ofNat n).toInt64.toInt32 = Int32.ofNat n := by
    rw [UInt64.toInt64_ofNat', Int64.toInt32_ofNat']
  have hback : (Int32.ofNat n).toInt64 = Int64.ofNat n := by
    apply Int32.toInt64_ofNat'
    rw [Int32.toInt_maxValue]
    omega
  rw [hcast, hback, Int64.toUInt64_ofNat']
  exact UInt64.toNat_ofNat_of_lt' (lt_trans h (by norm_num))

/-- An enumeration, read with `as i32` and sent sign-extended. -/
def enum : Scalar σ Int32 :=
  ofVarint .enum (2 ^ 31)
    (fun _ v h => match v, h with | .varint n, h => ⟨n, rfl, h⟩) (fun _ _ => rfl)
    (fun n => (UInt64.ofNat n).toInt64.toInt32) (fun a => a.toInt64.toUInt64.toNat)
    (fun a => by rw [UInt64.ofNat_toNat]; exact Int32.toInt32_toInt64 a)
    (fun _ h => toNat_toInt32 h)

/-- `bool`: anything but zero is true. -/
def bool : Scalar σ Bool :=
  ofVarint .bool 2
    (fun _ v h => match v, h with | .varint n, h => ⟨n, rfl, h⟩) (fun _ _ => rfl)
    (fun n => n != 0) Bool.toNat (fun a => by cases a <;> rfl)
    (fun n h => by
      match n, h with
      | 0, _ => rfl
      | 1, _ => rfl)

/-- The bits of the negative zero. -/
def negativeZero : UInt64 := 9223372036854775808

/-- `double`, by its bits. -/
def double : Scalar σ UInt64 where
  kind := .double
  dec := fun | .fixed64 n => UInt64.ofNat n | _ => 0
  enc a := .fixed64 a.toNat
  default := 0
  skips a := a == 0 || a == negativeZero
  zero a := if a = negativeZero then 0 else a
  dec_enc a := UInt64.ofNat_toNat
  enc_dec P v h := by
    match v, h with
    | .fixed64 n, h => exact congrArg Val.fixed64 (UInt64.toNat_ofNat_of_lt' h)
  skips_dec P v h := by
    match v, h with
    | .fixed64 n, h =>
      have hn : (UInt64.ofNat n).toNat = n := UInt64.toNat_ofNat_of_lt' h
      have hneg : negativeZero.toNat = 2 ^ 63 := rfl
      have hzero : (0 : UInt64).toNat = 0 := rfl
      rw [Val.isDefault, Bool.eq_iff_iff, Bool.or_eq_true, Bool.or_eq_true, beq_iff_eq, beq_iff_eq,
        beq_iff_eq, beq_iff_eq, ← UInt64.toNat_inj, ← UInt64.toNat_inj, hn, hneg, hzero]
  zero_eq a := by
    by_cases h0 : a = 0
    · subst h0
      rfl
    · by_cases h1 : a = negativeZero
      · subst h1
        rfl
      · simp [h0, h1]
  skips_default := rfl
  same P v := rfl

/-- `string`. -/
def text : Scalar σ String where
  kind := .text
  dec := fun | .bytes b => (utf8 b).getD "" | _ => ""
  enc a := .bytes (bytes a)
  default := ""
  skips a := a == ""
  zero a := a
  dec_enc a := by
    change (utf8 (bytes a)).getD "" = a
    rw [utf8_bytes]
    rfl
  enc_dec P v h := by
    match v, h with
    | .bytes _, ⟨_, s, rfl⟩ =>
      change Val.bytes (bytes ((utf8 (bytes s)).getD "")) = _
      rw [utf8_bytes]
      rfl
  skips_dec P v h := by
    match v, h with
    | .bytes _, ⟨_, s, rfl⟩ =>
      change ((utf8 (bytes s)).getD "" == "") = (bytes s).isEmpty
      rw [utf8_bytes, Bool.eq_iff_iff, beq_iff_eq, List.isEmpty_iff, bytes_eq_nil]
      rfl
  zero_eq a := by
    split
    · rename_i h
      exact eq_of_beq h
    · rfl
  skips_default := rfl
  same P v := rfl

/-- `bytes`. -/
def blob : Scalar σ (List UInt8) where
  kind := .blob
  dec := fun | .bytes b => b | _ => []
  enc a := .bytes a
  default := []
  skips a := a.isEmpty
  zero a := a
  dec_enc a := rfl
  enc_dec P v h := by
    match v, h with
    | .bytes b, _ => rfl
  skips_dec P v h := by
    match v, h with
    | .bytes b, _ => rfl
  zero_eq a := by cases a <;> rfl
  skips_default := rfl
  same P v := rfl

end Scalar

/-! ### Parts of a message

Two parts may be put together when no tag belongs to both. -/

/-- The fields of the given tags. -/
def own (tags : List ℕ) (w : Wire) : Wire := w.filter fun e => e.1 ∈ tags

/-- The fields of some tags are among those of more. -/
theorem own_own {tags tags' : List ℕ} (h : tags' ⊆ tags) (w : Wire) :
    own tags' (own tags w) = own tags' w := by
  unfold own
  rw [List.filter_filter]
  refine List.filter_congr fun e _ => ?_
  rw [Bool.eq_iff_iff, Bool.and_eq_true, decide_eq_true_eq, decide_eq_true_eq]
  exact ⟨And.left, fun he => ⟨he, h he⟩⟩

/-- They are taken out part by part. -/
theorem own_append (tags : List ℕ) (u w : Wire) : own tags (u ++ w) = own tags u ++ own tags w :=
  List.filter_append ..

/-- If there are no other fields all stay. -/
theorem own_of_forall {tags : List ℕ} {w : Wire} (h : ∀ e ∈ w, e.1 ∈ tags) : own tags w = w :=
  List.filter_eq_self.mpr fun e he => decide_eq_true (h e he)

/-- If there are only other fields none stays. -/
theorem own_of_disjoint {tags tags' : List ℕ} (hd : ∀ t ∈ tags, t ∉ tags') {w : Wire}
    (h : ∀ e ∈ w, e.1 ∈ tags') : own tags w = [] := by
  rw [own, List.filter_eq_nil_iff]
  intro e he hmem
  exact hd e.1 (of_decide_eq_true hmem) (h e he)

/-- Tags are disjoint by evaluation. -/
theorem disjoint_of_all {tags tags' : List ℕ}
    (h : (tags.all fun t => !tags'.contains t) = true) : ∀ t ∈ tags, t ∉ tags' := by
  intro t ht hmem
  have hnot := List.all_eq_true.mp h t ht
  rw [List.contains_iff_mem.mpr hmem] at hnot
  cases hnot

/-- Some of the fields of the message `name`, as values of type `α`. -/
structure Part (table : Table σ) (k : ℕ) (name : σ) (α : Type) where
  tags : List ℕ
  get : Wire → α
  put : α → Wire
  zero : α → α
  /-- Other fields are not looked at. -/
  get_own : ∀ w, get (own tags w) = get w
  /-- Other fields are not sent. -/
  put_tags : ∀ a, ∀ e ∈ put a, e.1 ∈ tags
  /-- What is sent is received, up to the sign of a zero. -/
  get_put : ∀ a, get (put a) = zero a
  put_zero : ∀ a, put (zero a) = put a
  /-- What is received is sent on, up to order and defaults. -/
  normal : ∀ n ≤ k, ∀ w, Clean table n name w → Normal table n name (put (get w)) (own tags w)

namespace Part

variable {table : Table σ} {k : ℕ} {name inner : σ} {α β : Type}

/-- All known fields of the message are there. -/
def Covers (p : Part table k name α) : Prop := ∀ t d, table name t = some d → t ∈ p.tags

/-- A part that covers a message has all its fields. -/
theorem Covers.own_eq {p : Part table k name α} (hp : p.Covers) {n : ℕ} {w : Wire}
    (h : Clean table n name w) : own p.tags w = w := by
  cases n with
  | zero => exact h.elim
  | succ n =>
    refine own_of_forall fun e he => ?_
    obtain ⟨-, -, d, hd, -⟩ := h.1 e he
    exact hp e.1 d hd

/-- A message read and written again is its normal form. -/
theorem Covers.normal {p : Part table k name α} (hp : p.Covers) {n : ℕ} (hn : n ≤ k) {w : Wire}
    (h : Clean table n name w) : Normal table n name (p.put (p.get w)) w := by
  have hnormal := p.normal n hn w h
  rwa [hp.own_eq h] at hnormal

/-- Less depth. -/
def lower {j : ℕ} (hj : j ≤ k) (p : Part table k name α) : Part table j name α :=
  { p with normal := fun n hn => p.normal n (le_trans hn hj) }

/-- Two groups of fields. -/
def and (p : Part table k name α) (q : Part table k name β)
    (h : (p.tags.all fun t => !q.tags.contains t) = true := by rfl) :
    Part table k name (α × β) where
  tags := p.tags ++ q.tags
  get w := (p.get w, q.get w)
  put a := p.put a.1 ++ q.put a.2
  zero a := (p.zero a.1, q.zero a.2)
  get_own w := by
    have hp := own_own (List.subset_append_left p.tags q.tags) w
    have hq := own_own (List.subset_append_right p.tags q.tags) w
    refine Prod.ext ?_ ?_
    · change p.get (own _ w) = p.get w
      rw [← p.get_own (own _ w), hp, p.get_own]
    · change q.get (own _ w) = q.get w
      rw [← q.get_own (own _ w), hq, q.get_own]
  put_tags a e he := by
    rcases List.mem_append.mp he with hp | hq
    · exact List.mem_append_left _ (p.put_tags a.1 e hp)
    · exact List.mem_append_right _ (q.put_tags a.2 e hq)
  get_put a := by
    have hd := disjoint_of_all h
    have hp : own p.tags (p.put a.1 ++ q.put a.2) = p.put a.1 := by
      rw [own_append, own_of_forall (p.put_tags a.1), own_of_disjoint hd (q.put_tags a.2),
        List.append_nil]
    have hq : own q.tags (p.put a.1 ++ q.put a.2) = q.put a.2 := by
      rw [own_append, own_of_forall (q.put_tags a.2),
        own_of_disjoint (fun t hq hp => hd t hp hq) (p.put_tags a.1), List.nil_append]
    rw [← p.get_own (p.put a.1 ++ q.put a.2), ← q.get_own (p.put a.1 ++ q.put a.2), hp, hq,
      p.get_put, q.get_put]
  put_zero a := by
    change p.put (p.zero a.1) ++ q.put (q.zero a.2) = _
    rw [p.put_zero, q.put_zero]
  normal n hn w hw := by
    cases n with
    | zero => exact hw.elim
    | succ n =>
      have hboth := (p.normal _ hn w hw).append (q.normal _ hn w hw)
      refine hboth.perm ?_
      have hperm := filter_append_perm (fun e => decide (e.1 ∈ p.tags))
        (fun e => decide (e.1 ∈ q.tags))
        (fun e he => decide_eq_false (disjoint_of_all h e.1 (of_decide_eq_true he))) w
      refine hperm.trans (List.Perm.of_eq (List.filter_congr fun e _ => ?_))
      rw [Bool.eq_iff_iff, Bool.or_eq_true, decide_eq_true_eq, decide_eq_true_eq,
        decide_eq_true_eq, List.mem_append]

/-- The same fields as another type. -/
def map (p : Part table k name α) (f : α → β) (g : β → α) (z : β → β)
    (hgf : ∀ a, g (f a) = a := by exact fun _ => rfl)
    (hz : ∀ b, f (p.zero (g b)) = z b := by exact fun _ => rfl) :
    Part table k name β where
  tags := p.tags
  get w := f (p.get w)
  put b := p.put (g b)
  zero := z
  get_own w := by rw [p.get_own]
  put_tags b := p.put_tags (g b)
  get_put b := by rw [p.get_put, hz]
  put_zero b := by rw [← hz, hgf, p.put_zero]
  normal n hn w h := by
    rw [hgf]
    exact p.normal n hn w h

/-- No fields. -/
def none : Part table k name Unit where
  tags := []
  get _ := ()
  put _ := []
  zero a := a
  get_own _ := rfl
  put_tags _ _ h := nomatch h
  get_put _ := rfl
  put_zero _ := rfl
  normal n _ w h := by
    cases n with
    | zero => exact h.elim
    | succ n =>
      have hnil : own [] w = [] := List.filter_eq_nil_iff.mpr fun e _ => by simp
      rw [hnil]
      exact normal_nil

/-- A message that is not looked into; it stands below the last level. -/
def cut (tags : List ℕ) (a : α) : Part table 0 name α where
  tags := tags
  get _ := a
  put _ := []
  zero _ := a
  get_own _ := rfl
  put_tags _ _ h := nomatch h
  get_put _ := rfl
  put_zero _ := rfl
  normal n hn w h := by
    rw [Nat.le_zero.mp hn] at h
    exact h.elim

/-! ### Scalar fields

The three ways in which the last or all of the values of a tag become the value of a field. -/

/-- The values of one field, in wire order. -/
def vals (tag : ℕ) (w : Wire) : List Val := (own [tag] w).map Prod.snd

/-- The values of a tag are those of its own fields. -/
theorem vals_own (tag : ℕ) (w : Wire) : vals tag (own [tag] w) = vals tag w := by
  rw [vals, own_own (List.Subset.refl _)]
  rfl

/-- The own fields of a tag are its values under that tag. -/
theorem own_eq_map (tag : ℕ) (w : Wire) : own [tag] w = (vals tag w).map fun v => (tag, v) := by
  rw [vals, List.map_map]
  refine ((List.map_congr_left ?_).trans (List.map_id _)).symm
  rintro ⟨t, v⟩ he
  have ht : t ∈ [tag] := of_decide_eq_true (List.mem_filter.mp he).2
  rw [List.mem_singleton.mp ht]
  rfl

/-- Fields of one tag have just their values. -/
theorem vals_map (tag : ℕ) (vs : List Val) : vals tag (vs.map fun v => (tag, v)) = vs := by
  have hown : own [tag] (vs.map fun v => (tag, v)) = vs.map fun v => (tag, v) := by
    refine own_of_forall fun e he => ?_
    obtain ⟨v, -, rfl⟩ := List.mem_map.mp he
    exact List.mem_singleton.mpr rfl
  rw [vals, hown, List.map_map]
  exact List.map_id _

/-- What is known of the values of a field of an unambiguous message. -/
theorem clean_vals {n : ℕ} {w : Wire} (h : Clean table (n + 1) name w) {tag : ℕ}
    {d : FieldDesc σ} (hd : table name tag = some d) :
    (∀ v ∈ vals tag w, v.InRange (Clean table n) d.kind) ∧
      (d.label ≠ .repeated → (vals tag w).length ≤ 1) := by
  have hmem : ∀ v ∈ vals tag w, (tag, v) ∈ w := by
    intro v hv
    have hv' : (tag, v) ∈ own [tag] w := by
      rw [own_eq_map]
      exact List.mem_map_of_mem hv
    exact (List.mem_filter.mp hv').1
  have hdesc : ∀ v ∈ vals tag w, v.InRange (Clean table n) d.kind ∧
      (d.label ≠ .repeated → countTag tag w ≤ 1) := by
    intro v hv
    obtain ⟨-, -, d', hd', hr, hc⟩ := h.1 _ (hmem v hv)
    rw [hd] at hd'
    cases hd'
    exact ⟨hr, hc⟩
  refine ⟨fun v hv => (hdesc v hv).1, fun hl => ?_⟩
  have hlen : (vals tag w).length = countTag tag w := by
    rw [vals, List.length_map, own, countTag, List.countP_eq_length_filter]
    refine congrArg List.length (List.filter_congr fun e _ => ?_)
    simp
  cases hv : vals tag w with
  | nil => exact Nat.zero_le _
  | cons v vs =>
    rw [← hv, hlen]
    exact (hdesc v (by rw [hv]; exact List.mem_cons_self)).2 hl

/-- A field is dropped when its value is the default of an implicit one. -/
theorem dropped_eq {tag : ℕ} {d : FieldDesc σ} (hd : table name tag = some d) (v : Val) :
    dropped table name (tag, v) = (d.label == .implicit && v.isDefault) := by
  rw [dropped, hd]
  rfl

/-- All values of a field stay, one by one. -/
theorem normal_vals {n : ℕ} {tag : ℕ} {d : FieldDesc σ} (hd : table name tag = some d)
    {vs' vs : List Val} (hkept : ∀ v ∈ vs, dropped table name (tag, v) = false)
    (hrel : List.Forall₂ (Val.Same (Normal table n) d.kind) vs' vs) :
    Normal table (n + 1) name (vs'.map fun v => (tag, v)) (vs.map fun v => (tag, v)) := by
  induction hrel with
  | nil => exact normal_nil
  | @cons v' v vs' vs hv _ ih =>
    have hhead := normal_kept hd (hkept v List.mem_cons_self) hv
    exact hhead.append (ih fun v hv => hkept v (List.mem_cons_of_mem _ hv))

/-- A field without presence: the last value counts, the default is not sent. -/
def implicit (s : Scalar σ α) (tag : ℕ)
    (hd : table name tag = some ⟨s.kind, .implicit⟩ := by rfl) :
    Part table k name α where
  tags := [tag]
  get w := ((vals tag w).getLast?.map s.dec).getD s.default
  put a := if s.skips a then [] else [(tag, s.enc a)]
  zero := s.zero
  get_own w := by rw [vals_own]
  put_tags a e he := by
    split at he
    · cases he
    · rw [List.mem_singleton.mp he]
      exact List.mem_singleton.mpr rfl
  get_put a := by
    rw [s.zero_eq]
    split
    · rfl
    · have hvals : vals tag [(tag, s.enc a)] = [s.enc a] := vals_map tag [s.enc a]
      rw [hvals]
      exact s.dec_enc a
  put_zero a := by
    rw [s.zero_eq]
    by_cases hs : s.skips a = true
    · rw [if_pos hs, if_pos s.skips_default, if_pos hs]
    · rw [if_neg hs]
  normal n _ w h := by
    cases n with
    | zero => exact h.elim
    | succ n =>
      obtain ⟨hrange, hlen⟩ := clean_vals h hd
      have hlen := hlen (by simp)
      rw [own_eq_map]
      match hv : vals tag w with
      | [] =>
        rw [List.getLast?_nil, Option.map_none, Option.getD_none, if_pos s.skips_default]
        exact normal_nil
      | [v] =>
        have hin := hrange v (by rw [hv]; exact List.mem_singleton.mpr rfl)
        have hdrop : dropped table name (tag, v) = s.skips (s.dec v) := by
          rw [dropped_eq hd, s.skips_dec _ v hin]
          rfl
        rw [List.getLast?_singleton, Option.map_some, Option.getD_some]
        by_cases hs : s.skips (s.dec v) = true
        · rw [if_pos hs]
          exact normal_dropped (hdrop.trans hs)
        · rw [if_neg hs, s.enc_dec _ v hin]
          exact normal_kept hd (hdrop.trans (Bool.eq_false_iff.mpr hs)) (s.same _ v)
      | _ :: _ :: _ =>
        rw [hv, List.length_cons, List.length_cons] at hlen
        omega

/-- A field with presence: the last value counts. -/
def optional (s : Scalar σ α) (tag : ℕ)
    (hd : table name tag = some ⟨s.kind, .optional⟩ := by rfl) :
    Part table k name (Option α) where
  tags := [tag]
  get w := (vals tag w).getLast?.map s.dec
  put a := a.toList.map fun a => (tag, s.enc a)
  zero a := a
  get_own w := by rw [vals_own]
  put_tags a e he := by
    obtain ⟨b, -, rfl⟩ := List.mem_map.mp he
    exact List.mem_singleton.mpr rfl
  get_put a := by
    cases a with
    | none => rfl
    | some a =>
      have hvals : vals tag [(tag, s.enc a)] = [s.enc a] := vals_map tag [s.enc a]
      change (vals tag [(tag, s.enc a)]).getLast?.map s.dec = some a
      rw [hvals]
      exact congrArg some (s.dec_enc a)
  put_zero _ := rfl
  normal n _ w h := by
    cases n with
    | zero => exact h.elim
    | succ n =>
      obtain ⟨hrange, hlen⟩ := clean_vals h hd
      have hlen := hlen (by simp)
      rw [own_eq_map]
      match hv : vals tag w with
      | [] => exact normal_nil
      | [v] =>
        have hin := hrange v (by rw [hv]; exact List.mem_singleton.mpr rfl)
        change Normal table (n + 1) name [(tag, s.enc (s.dec v))] [(tag, v)]
        rw [s.enc_dec _ v hin]
        exact normal_kept hd (dropped_eq hd v) (s.same _ v)
      | _ :: _ :: _ =>
        rw [hv, List.length_cons, List.length_cons] at hlen
        omega

/-- A repeated field: all values count. -/
def repeated (s : Scalar σ α) (tag : ℕ)
    (hd : table name tag = some ⟨s.kind, .repeated⟩ := by rfl) :
    Part table k name (List α) where
  tags := [tag]
  get w := (vals tag w).map s.dec
  put a := (a.map s.enc).map fun v => (tag, v)
  zero a := a
  get_own w := by rw [vals_own]
  put_tags a e he := by
    obtain ⟨b, -, rfl⟩ := List.mem_map.mp he
    exact List.mem_singleton.mpr rfl
  get_put a := by
    rw [vals_map, List.map_map]
    exact (List.map_congr_left fun a _ => s.dec_enc a).trans (List.map_id a)
  put_zero _ := rfl
  normal n _ w h := by
    cases n with
    | zero => exact h.elim
    | succ n =>
      obtain ⟨hrange, -⟩ := clean_vals h hd
      have hback : ((vals tag w).map s.dec).map s.enc = vals tag w := by
        rw [List.map_map]
        exact (List.map_congr_left fun v hv => s.enc_dec _ v (hrange v hv)).trans (List.map_id _)
      rw [hback, own_eq_map]
      refine normal_vals hd (fun v _ => dropped_eq hd v) ?_
      exact List.forall₂_same.mpr fun v _ => s.same _ v

/-! ### Nested messages

A nested message that occurs twice is merged: its fields are read as if they had come one after the
other. -/

/-- The nested messages among the values of a field. -/
def msgs (tag : ℕ) (w : Wire) : List Wire :=
  (vals tag w).filterMap fun | .msg x => some x | _ => Option.none

/-- The messages of a tag are those that were put there. -/
theorem msgs_map (tag : ℕ) (ws : List Wire) :
    msgs tag ((ws.map Val.msg).map fun v => (tag, v)) = ws := by
  rw [msgs, vals_map, List.filterMap_map]
  exact List.filterMap_some

/-- The values of a field of message kind are messages. -/
theorem vals_eq_msgs {n : ℕ} {w : Wire} (h : Clean table (n + 1) name w) {tag : ℕ} {label : Label}
    (hd : table name tag = some ⟨.message inner, label⟩) :
    vals tag w = (msgs tag w).map Val.msg ∧ ∀ x ∈ msgs tag w, Clean table n inner x := by
  have hrange := (clean_vals h hd).1
  unfold msgs
  generalize vals tag w = vs at hrange
  induction vs with
  | nil => exact ⟨rfl, fun _ hx => nomatch hx⟩
  | cons v vs ih =>
    obtain ⟨heq, hall⟩ := ih fun v hv => hrange v (List.mem_cons_of_mem _ hv)
    match v, hrange v List.mem_cons_self with
    | .msg x, hx =>
      refine ⟨congrArg (Val.msg x :: ·) heq, fun y hy => ?_⟩
      rcases List.mem_cons.mp hy with rfl | hy
      · exact hx.2
      · exact hall y hy

/-- A nested message: what was received for it is merged.  `z` is the `zero` of the field. -/
def messageSucc (p : Part table k inner α) (hp : p.Covers) (z : Option α → Option α)
    (hz : ∀ a, a.map p.zero = z a) (tag : ℕ)
    (hd : table name tag = some ⟨.message inner, .optional⟩ := by rfl) :
    Part table (k + 1) name (Option α) where
  tags := [tag]
  get w := if (msgs tag w).isEmpty then Option.none else some (p.get (msgs tag w).flatten)
  put a := (a.toList.map fun a => Val.msg (p.put a)).map fun v => (tag, v)
  zero := z
  get_own w := by rw [msgs, vals_own]; rfl
  put_tags a e he := by
    obtain ⟨b, -, rfl⟩ := List.mem_map.mp he
    exact List.mem_singleton.mpr rfl
  get_put a := by
    rw [← hz]
    cases a with
    | none => rfl
    | some a =>
      have hmsgs : msgs tag [(tag, Val.msg (p.put a))] = [p.put a] := msgs_map tag [p.put a]
      change (if (msgs tag [(tag, Val.msg (p.put a))]).isEmpty then Option.none
        else some (p.get (msgs tag [(tag, Val.msg (p.put a))]).flatten)) = some (p.zero a)
      rw [hmsgs, List.flatten_singleton, p.get_put]
      rfl
  put_zero a := by
    rw [← hz]
    cases a with
    | none => rfl
    | some a =>
      change [(tag, Val.msg (p.put (p.zero a)))] = [(tag, Val.msg (p.put a))]
      rw [p.put_zero]
  normal n hn w h := by
    cases n with
    | zero => exact h.elim
    | succ n =>
      obtain ⟨hmsgs, hclean⟩ := vals_eq_msgs h hd
      have hlen := (clean_vals h hd).2 (by simp)
      rw [own_eq_map, hmsgs]
      rw [hmsgs, List.length_map] at hlen
      match hx : msgs tag w with
      | [] => exact normal_nil
      | [x] =>
        have hin := hclean x (by rw [hx]; exact List.mem_singleton.mpr rfl)
        have hnormal := hp.normal (by omega) hin
        rw [List.flatten_singleton]
        exact normal_kept hd (dropped_eq hd _) ⟨_, _, rfl, rfl, hnormal⟩
      | _ :: _ :: _ =>
        rw [hx, List.length_cons, List.length_cons] at hlen
        omega

/-- A list of nested messages. -/
def messages (p : Part table k inner α) (hp : p.Covers) (z : List α → List α)
    (hz : ∀ a, a.map p.zero = z a) (tag : ℕ)
    (hd : table name tag = some ⟨.message inner, .repeated⟩ := by rfl) :
    Part table k name (List α) where
  tags := [tag]
  get w := (msgs tag w).map p.get
  put a := ((a.map p.put).map Val.msg).map fun v => (tag, v)
  zero := z
  get_own w := by rw [msgs, vals_own]; rfl
  put_tags a e he := by
    obtain ⟨b, -, rfl⟩ := List.mem_map.mp he
    exact List.mem_singleton.mpr rfl
  get_put a := by
    rw [← hz, msgs_map, List.map_map]
    exact List.map_congr_left fun a _ => p.get_put a
  put_zero a := by
    have hput : (a.map p.zero).map p.put = a.map p.put := by
      rw [List.map_map]
      exact List.map_congr_left fun a _ => p.put_zero a
    rw [← hz, hput]
  normal n hn w h := by
    cases n with
    | zero => exact h.elim
    | succ n =>
      obtain ⟨hmsgs, hclean⟩ := vals_eq_msgs h hd
      rw [own_eq_map, hmsgs]
      refine normal_vals hd (fun v _ => dropped_eq hd v) ?_
      rw [List.map_map, List.map_map, List.forall₂_map_left_iff, List.forall₂_map_right_iff]
      refine List.forall₂_same.mpr fun x hx => ?_
      exact ⟨_, _, rfl, rfl, hp.normal (by omega) (hclean x hx)⟩

/-! ### Choices

The fields of a `oneof` cancel each other: only the last run of fields of one variant counts. -/

/-- The variants of a `oneof`: how the merged fields of a tag become a variant, and what is
    sent for one. -/
structure Choice (table : Table σ) (k : ℕ) (name : σ) (α : Type) where
  tags : List ℕ
  read : ℕ → Wire → Option α
  write : α → ℕ × Wire
  zero : α → α
  write_tag : ∀ a, (write a).1 ∈ tags
  read_write : ∀ a, read (write a).1 (write a).2 = some (zero a)
  write_zero : ∀ a, write (zero a) = write a
  normal : ∀ t ∈ tags, ∃ inner, table name t = some ⟨.message inner, .oneof⟩ ∧
    ∀ w, ∃ a, read t w = some a ∧ (write a).1 = t ∧
      ∀ n ≤ k, Clean table n inner w → Normal table n inner (write a).2 w

/-- The fields of the last variant, up to the first of another one. -/
def lastRun (w : Wire) : Option (ℕ × Wire) :=
  w.getLast?.map fun e =>
    (e.1, (w.reverse.takeWhile fun x => x.1 = e.1).reverse)

/-- The last variant counts; fields of the same variant that follow each other are merged. -/
def oneof (c : Choice table k name α) (z : Option α → Option α) (hz : ∀ a, a.map c.zero = z a) :
    Part table k name (Option α) where
  tags := c.tags
  get w := (lastRun (own c.tags w)).bind fun r => c.read r.1 (msgs r.1 r.2).flatten
  put a := a.toList.map fun a => ((c.write a).1, Val.msg (c.write a).2)
  zero := z
  get_own w := by rw [own_own (List.Subset.refl _)]
  put_tags a e he := by
    obtain ⟨b, -, rfl⟩ := List.mem_map.mp he
    exact c.write_tag b
  get_put a := by
    rw [← hz]
    cases a with
    | none => rfl
    | some a =>
      have hown : own c.tags [((c.write a).1, Val.msg (c.write a).2)]
          = [((c.write a).1, Val.msg (c.write a).2)] := by
        refine own_of_forall fun e he => ?_
        rw [List.mem_singleton.mp he]
        exact c.write_tag a
      have hrun : lastRun [((c.write a).1, Val.msg (c.write a).2)]
          = some ((c.write a).1, [((c.write a).1, Val.msg (c.write a).2)]) := by
        simp [lastRun]
      have hmsgs : msgs (c.write a).1 [((c.write a).1, Val.msg (c.write a).2)] = [(c.write a).2] :=
        msgs_map _ [(c.write a).2]
      change (lastRun (own c.tags [((c.write a).1, Val.msg (c.write a).2)])).bind _ = _
      rw [hown, hrun, Option.bind_some, hmsgs, List.flatten_singleton]
      exact c.read_write a
  put_zero a := by
    rw [← hz]
    cases a with
    | none => rfl
    | some a =>
      change [((c.write (c.zero a)).1, Val.msg (c.write (c.zero a)).2)] = _
      rw [c.write_zero]
      rfl
  normal n hn w h := by
    cases n with
    | zero => exact h.elim
    | succ n =>
      have hmem : ∀ e ∈ own c.tags w, e ∈ w ∧ e.1 ∈ c.tags := fun e he =>
        ⟨(List.mem_filter.mp he).1, of_decide_eq_true (List.mem_filter.mp he).2⟩
      have hlen : (own c.tags w).length ≤ 1 := by
        refine le_trans ?_ h.2
        rw [own, ← List.countP_eq_length_filter]
        refine List.countP_mono_left fun e _ he => ?_
        obtain ⟨inner, hd, -⟩ := c.normal e.1 (of_decide_eq_true he)
        rw [isOneof, hd]
        rfl
      match hw : own c.tags w with
      | [] => exact normal_nil
      | [(tag, v)] =>
        obtain ⟨hin, htag⟩ := hmem (tag, v) (by rw [hw]; exact List.mem_singleton.mpr rfl)
        obtain ⟨inner, hd, hread⟩ := c.normal tag htag
        obtain ⟨-, -, d, hd', hrange, -⟩ := h.1 _ hin
        rw [hd] at hd'
        cases hd'
        match v, hrange with
        | .msg x, ⟨_, hclean⟩ =>
          obtain ⟨a, ha, hwrite, hnormal⟩ := hread x
          have hrun : lastRun [(tag, Val.msg x)] = some (tag, [(tag, Val.msg x)]) := by
            simp [lastRun]
          have hmsgs : msgs tag [(tag, Val.msg x)] = [x] := msgs_map tag [x]
          rw [hrun, Option.bind_some, hmsgs, List.flatten_singleton, ha]
          change Normal table (n + 1) name [((c.write a).1, Val.msg (c.write a).2)] _
          rw [hwrite]
          refine normal_kept hd (dropped_eq hd _) ⟨_, _, rfl, rfl, hnormal n (by omega) hclean⟩
      | _ :: _ :: _ =>
        rw [hw, List.length_cons, List.length_cons] at hlen
        omega

end Part

end Hmux.Lib.Proto
