import Mathlib.Tactic.Common

namespace Hmux.Lib

/-!
# The latest of every key

Things arrive in some order, each with a key, and of every key the latest one is kept.  As long as
no two things of a key are equally late, what is kept in the end depends on what arrived and not on
the order.

* `Latest key newer seen kept` — among the things `seen`, those `kept` are the latest of their keys;
* `Latest.skip`, `Latest.insert` — one more thing arrives, and it is too late or it is entered;
* `Latest.kept_iff` — what is kept, from what was seen alone.

The relation says nothing about how the things are stored.  A ledger that keeps its rows in a list
and one that keeps them in a file instantiate it by the set of things they have, and the order in
which the things came is forgotten with `kept_iff`.
-/

variable {α κ : Type*}

/-- One thing of every key is kept, and no other thing of that key is newer. -/
structure Latest (key : α → κ) (newer : α → α → Prop) (seen kept : α → Prop) : Prop where
  arrived : ∀ a, kept a → seen a
  covered : ∀ b, seen b → ∃ a, kept a ∧ key a = key b ∧ (a = b ∨ newer a b)
  unique : ∀ a b, kept a → kept b → key a = key b → a = b

namespace Latest

variable {key : α → κ} {newer : α → α → Prop} {seen kept kept' : α → Prop} {x old : α}

theorem empty : Latest key newer (fun _ => False) (fun _ => False) :=
  ⟨fun _ h => h, fun _ h => h.elim, fun _ _ h => h.elim⟩

/-- A thing that is not newer than the one of its key changes nothing. -/
theorem skip (h : Latest key newer seen kept) (hold : kept old) (hkey : key old = key x)
    (hx : old = x ∨ newer old x) :
    Latest key newer (fun a => seen a ∨ a = x) kept where
  arrived a ha := .inl (h.arrived a ha)
  covered b hb := by
    rcases hb with hb | rfl
    · exact h.covered b hb
    · exact ⟨old, hold, hkey, hx⟩
  unique := h.unique

/-- A thing that is newer than the one of its key takes its place. -/
theorem insert (h : Latest key newer seen kept)
    (htrans : ∀ a b c, newer a b → newer b c → newer a c)
    (hx : ∀ a, kept a → key a = key x → newer x a)
    (hkept : ∀ a, kept' a ↔ (kept a ∧ key a ≠ key x) ∨ a = x) :
    Latest key newer (fun a => seen a ∨ a = x) kept' where
  arrived a ha := by
    rcases (hkept a).mp ha with ⟨ha, -⟩ | rfl
    · exact .inl (h.arrived a ha)
    · exact .inr rfl
  covered b hb := by
    by_cases hkey : key b = key x
    · refine ⟨x, (hkept x).mpr (.inr rfl), hkey.symm, ?_⟩
      rcases hb with hb | rfl
      · -- the thing of this key before, which `x` replaces
        obtain ⟨a, ha, hab, hnewer⟩ := h.covered b hb
        have hxa := hx a ha (hab.trans hkey)
        rcases hnewer with rfl | hnewer
        · exact .inr hxa
        · exact .inr (htrans _ _ _ hxa hnewer)
      · exact .inl rfl
    · rcases hb with hb | rfl
      · obtain ⟨a, ha, hab, hnewer⟩ := h.covered b hb
        exact ⟨a, (hkept a).mpr (.inl ⟨ha, fun h => hkey (hab.symm.trans h)⟩), hab, hnewer⟩
      · exact absurd rfl hkey
  unique a b ha hb hab := by
    rcases (hkept a).mp ha with ⟨ha, hax⟩ | rfl <;> rcases (hkept b).mp hb with ⟨hb, hbx⟩ | rfl
    · exact h.unique a b ha hb hab
    · exact absurd hab hax
    · exact absurd hab.symm hbx
    · rfl

/-- **What is kept** is the latest of what was seen. -/
theorem kept_iff (h : Latest key newer seen kept)
    (hasymm : ∀ a b, newer a b → ¬ newer b a) (a : α) :
    kept a ↔ seen a ∧ ∀ b, seen b → key b = key a → b = a ∨ newer a b := by
  constructor
  · intro ha
    refine ⟨h.arrived a ha, fun b hb hba => ?_⟩
    obtain ⟨c, hc, hcb, hnewer⟩ := h.covered b hb
    rw [h.unique c a hc ha (hcb.trans hba)] at hnewer
    exact hnewer.imp_left Eq.symm
  · rintro ⟨ha, hlatest⟩
    obtain ⟨c, hc, hca, hnewer⟩ := h.covered a ha
    rcases hnewer with rfl | hnewer
    · exact hc
    · rcases hlatest c (h.arrived c hc) hca with rfl | hback
      · exact hc
      · exact absurd hback (hasymm _ _ hnewer)

end Latest

end Hmux.Lib
