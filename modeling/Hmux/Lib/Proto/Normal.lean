import Mathlib.Data.List.Perm.Basic
import Mathlib.Algebra.Order.BigOperators.Group.List
import Mathlib.Algebra.BigOperators.Group.List.Basic
import Hmux.Lib.Proto.Wire

namespace Hmux.Lib.Proto

/-!
# What a message looks like after it was read and written again

A writer puts the fields in its own order and leaves out the defaults of fields without
presence.  `Normal w' w` says that `w'` is `w` up to just that, at every level: in
particular every value of `w'` is the value that was on the wire.

* `Normal.append`, `Normal.perm` — parts of a message may be taken apart;
* `Normal.mem`, `Normal.countP_le`, `Normal.sum_le`, `Normal.clean` — what a normal form
  inherits.

A message that was received, decoded and encoded again is rarely the same bytes: fields have moved,
defaults are gone, and varints have lost their padding.  The relation allows just that, so that
every fact that does not depend on the order of the fields carries over from what was received to
what is sent.
-/

variable {σ : Type} (table : Table σ)

/-- The default of its kind; both zeros of a double are. -/
def Val.isDefault : Val → Bool
  | .varint n => n == 0
  | .fixed64 n => n == 0 || n == 2 ^ 63
  | .bytes b => b.isEmpty
  | .msg _ => false

/-- A field that a writer leaves out. -/
def dropped (name : σ) (e : ℕ × Val) : Bool :=
  (table name e.1).any fun d => d.label == .implicit && e.2.isDefault

/-- The same value, up to the form of a nested message. -/
def Val.Same (nested : σ → Wire → Wire → Prop) : Kind σ → Val → Val → Prop
  | .message name, v', v => ∃ w' w, v' = .msg w' ∧ v = .msg w ∧ nested name w' w
  | _, v', v => v' = v

/-- `w'` has the fields of `w` in some order, defaults left out, to a depth of `n` levels. -/
def Normal : ℕ → σ → Wire → Wire → Prop
  | 0, _, _, _ => False
  | n + 1, name, w', w =>
    ∃ u, u.Perm (w.filter fun e => !dropped table name e) ∧
      List.Forall₂ (fun e' e => e'.1 = e.1 ∧
        ∃ d, table name e.1 = some d ∧ e'.2.Same (Normal n) d.kind e.2) w' u

variable {table} {n : ℕ} {name : σ} {w w' u u' : Wire}

theorem normal_nil : Normal table (n + 1) name [] [] := ⟨[], List.Perm.refl _, List.Forall₂.nil⟩

/-- A default is left out. -/
theorem normal_dropped {e : ℕ × Val} (h : dropped table name e = true) :
    Normal table (n + 1) name [] [e] := by
  refine ⟨[], ?_, List.Forall₂.nil⟩
  rw [List.filter_cons_of_neg (by simp [h]), List.filter_nil]

/-- Any other field stays. -/
theorem normal_kept {tag : ℕ} {v' v : Val} {d : FieldDesc σ} (hd : table name tag = some d)
    (hkept : dropped table name (tag, v) = false) (hv : v'.Same (Normal table n) d.kind v) :
    Normal table (n + 1) name [(tag, v')] [(tag, v)] := by
  refine ⟨[(tag, v)], ?_, List.Forall₂.cons ⟨rfl, d, hd, hv⟩ List.Forall₂.nil⟩
  rw [List.filter_cons_of_pos (by simp [hkept]), List.filter_nil]

theorem Normal.append (h : Normal table (n + 1) name w' w) (h' : Normal table (n + 1) name u' u) :
    Normal table (n + 1) name (w' ++ u') (w ++ u) := by
  obtain ⟨x, hx, hrel⟩ := h
  obtain ⟨y, hy, hrel'⟩ := h'
  refine ⟨x ++ y, ?_, List.rel_append hrel hrel'⟩
  rw [List.filter_append]
  exact hx.append hy

theorem Normal.perm (h : Normal table (n + 1) name w' w) (hperm : w.Perm u) :
    Normal table (n + 1) name w' u := by
  obtain ⟨x, hx, hrel⟩ := h
  exact ⟨x, hx.trans (hperm.filter _), hrel⟩

/-- Fields of separate tags together are the fields of any of these tags. -/
theorem filter_append_perm (P Q : ℕ × Val → Bool) (hPQ : ∀ e, P e = true → Q e = false)
    (w : Wire) : (w.filter P ++ w.filter Q).Perm (w.filter fun e => P e || Q e) := by
  induction w with
  | nil => exact List.Perm.refl _
  | cons e w ih =>
    by_cases hP : P e = true
    · have hQ := hPQ e hP
      simp only [List.filter_cons, hP, hQ, Bool.true_or, if_true, List.cons_append]
      exact ih.cons e
    · by_cases hQ : Q e = true
      · simp only [List.filter_cons, hP, hQ, Bool.or_true, if_true]
        exact List.perm_middle.trans (ih.cons e)
      · simp only [List.filter_cons, hP, hQ, Bool.or_self, Bool.false_eq_true, if_false]
        exact ih

/-- Every field of a normal form was on the wire. -/
theorem Normal.mem (h : Normal table (n + 1) name w' w) {e' : ℕ × Val} (he' : e' ∈ w') :
    ∃ e ∈ w, e'.1 = e.1 ∧ ∃ d, table name e.1 = some d ∧
      e'.2.Same (Normal table n) d.kind e.2 := by
  obtain ⟨x, hx, hrel⟩ := h
  obtain ⟨e, he, hsame⟩ : ∃ e ∈ x, e'.1 = e.1 ∧ ∃ d, table name e.1 = some d ∧
      e'.2.Same (Normal table n) d.kind e.2 := by
    clear hx
    induction hrel with
    | nil => cases he'
    | cons hab _ ih =>
      rcases List.mem_cons.mp he' with rfl | hmem
      · exact ⟨_, List.mem_cons_self, hab⟩
      · obtain ⟨e, he, hsame⟩ := ih hmem
        exact ⟨e, List.mem_cons_of_mem _ he, hsame⟩
  exact ⟨e, (List.mem_filter.mp (hx.mem_iff.mp he)).1, hsame⟩

/-- No tag occurs more often in a normal form. -/
theorem Normal.countP_le (h : Normal table (n + 1) name w' w) (P : ℕ → Bool) :
    w'.countP (fun e => P e.1) ≤ w.countP (fun e => P e.1) := by
  obtain ⟨x, hx, hrel⟩ := h
  have hcount : w'.countP (fun e => P e.1) = x.countP (fun e => P e.1) := by
    clear hx
    induction hrel with
    | nil => rfl
    | cons hab _ ih => rw [List.countP_cons, List.countP_cons, ih, hab.1]
  rw [hcount, hx.countP_eq]
  exact List.Sublist.countP_le List.filter_sublist

theorem Normal.countTag_le (h : Normal table (n + 1) name w' w) (tag : ℕ) :
    countTag tag w' ≤ countTag tag w := h.countP_le fun t => t = tag

/-- What no field gains, the whole does not gain. -/
theorem Normal.sum_le (h : Normal table (n + 1) name w' w) (f : ℕ × Val → ℕ)
    (hf : ∀ e' e d, e'.1 = e.1 → e ∈ w → table name e.1 = some d →
      e'.2.Same (Normal table n) d.kind e.2 → f e' ≤ f e) :
    (w'.map f).sum ≤ (w.map f).sum := by
  obtain ⟨x, hx, hrel⟩ := h
  have hsub : ∀ e ∈ x, e ∈ w := fun e he => (List.mem_filter.mp (hx.mem_iff.mp he)).1
  have hsum : (w'.map f).sum ≤ (x.map f).sum := by
    clear hx
    induction hrel with
    | nil => exact le_refl _
    | @cons e' e w' x hab _ ih =>
      obtain ⟨htag, d, hd, hsame⟩ := hab
      have hle := hf e' e d htag (hsub e List.mem_cons_self) hd hsame
      have hrest := ih fun e he => hsub e (List.mem_cons_of_mem _ he)
      rw [List.map_cons, List.map_cons, List.sum_cons, List.sum_cons]
      exact Nat.add_le_add hle hrest
  refine le_trans hsum ?_
  rw [(hx.map f).sum_eq]
  exact List.Sublist.sum_le_sum (List.filter_sublist.map f) fun _ _ => Nat.zero_le _

/-- A message is as long as its fields together. -/
theorem length_encodeWire (w : Wire) :
    (encodeWire w).length = (w.map fun e => (encodeEntry e).length).sum := by
  induction w with
  | nil => rfl
  | cons e w ih => rw [encodeWire, List.length_append, ih, List.map_cons, List.sum_cons]

/-- A normal form is not written longer. -/
theorem Normal.length_le (h : Normal table n name w' w) :
    (encodeWire w').length ≤ (encodeWire w).length := by
  induction n generalizing name w' w with
  | zero => exact h.elim
  | succ n ih =>
    rw [length_encodeWire, length_encodeWire]
    refine h.sum_le _ ?_
    rintro ⟨tag', v'⟩ ⟨tag, v⟩ d htag - - hsame
    dsimp only at htag hsame
    subst htag
    rw [encodeEntry, encodeEntry, List.length_append, List.length_append]
    cases hkind : d.kind with
    | message inner =>
      rw [hkind] at hsame
      obtain ⟨x', x, rfl, rfl, hx⟩ := hsame
      have hle := ih hx
      have hpre := length_varintBytes_mono 9 hle
      simp only [Val.wireType, Val.encode, encodeVarint, List.length_append]
      omega
    | _ =>
      rw [hkind] at hsame
      rw [show v' = v from hsame]

/-- A normal form of an unambiguous message is unambiguous. -/
theorem Normal.clean (hw : Clean table n name w) (h : Normal table n name w' w) :
    Clean table n name w' := by
  induction n generalizing name w' w with
  | zero => exact hw
  | succ n ih =>
    refine ⟨fun e' he' => ?_, le_trans (h.countP_le _) hw.2⟩
    obtain ⟨e, he, htag, d, hd, hsame⟩ := h.mem he'
    obtain ⟨hpos, hlt, d', hd', hrange, hcount⟩ := hw.1 e he
    rw [hd] at hd'
    cases hd'
    rw [htag]
    refine ⟨hpos, hlt, d, hd, ?_, fun hl => le_trans (h.countTag_le _) (hcount hl)⟩
    cases hkind : d.kind with
    | message inner =>
      rw [hkind] at hsame hrange
      obtain ⟨x', x, hx', hx, hnormal⟩ := hsame
      rw [hx] at hrange
      rw [hx']
      exact ⟨lt_of_le_of_lt hnormal.length_le hrange.1, ih hrange.2 hnormal⟩
    | _ =>
      rw [hkind] at hsame hrange
      rw [show e'.2 = e.2 from hsame]
      exact hrange

end Hmux.Lib.Proto
