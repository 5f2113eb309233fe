import Hmux.Lib.History

namespace Hmux.Lib.Ring

/-!
# Bounded rings with a quota

A ring of at most `limit` entries in which a kind of entries (`mine`) has at most `quota` places.
An entry of the kind that enters a ring where the quota is used up takes the place of the oldest
of its kind; one that enters a full ring takes the place of the oldest entry of all.

* `length_pushAll_le`, `countP_pushAll_le` — the two bounds are kept;
* `pushAll_sublist` — nothing enters but what is pushed, and nothing changes its place;
* `mem_pushAll` — an entry of another kind leaves only a ring that is full.

The quota is about one kind at a time, the kind of the entries that enter; the bound of the ring is
about all of them.  Entries of another kind are therefore only in danger when the ring is full, and
this is what an owner is promised: his entries do not leave because another owner has many.
-/

variable {α : Type*}

/-- The oldest entry of the kind leaves when its quota is used up. -/
def makeRoom (quota : ℕ) (mine : α → Bool) (ring : List α) : List α :=
  if quota ≤ ring.countP mine then ring.eraseP mine else ring

/-- An entry of the kind enters. -/
def push (limit quota : ℕ) (mine : α → Bool) (ring : List α) (a : α) : List α :=
  History.push limit (makeRoom quota mine ring) a

/-- Entries of the kind enter one after the other. -/
def pushAll (limit quota : ℕ) (mine : α → Bool) (ring entering : List α) : List α :=
  entering.foldl (push limit quota mine) ring

variable {limit quota : ℕ} {mine : α → Bool} {ring entering : List α} {a x : α}

/-! ### One entry

Room is made first, in the quota and then in the ring, and the entry takes the last place. -/

theorem makeRoom_sublist : (makeRoom quota mine ring).Sublist ring := by
  unfold makeRoom
  split
  · exact List.eraseP_sublist
  · exact List.Sublist.refl _

theorem countP_eraseP_lt (h : 0 < ring.countP mine) :
    (ring.eraseP mine).countP mine < ring.countP mine := by
  obtain ⟨b, hb, hmine⟩ := List.countP_pos_iff.mp h
  obtain ⟨c, before, after, -, hc, heq, herase⟩ := List.exists_of_eraseP hb hmine
  rw [herase, heq, List.countP_append, List.countP_append, List.countP_cons_of_pos hc]
  omega

theorem countP_makeRoom_lt (hquota : 0 < quota) (h : ring.countP mine ≤ quota) :
    (makeRoom quota mine ring).countP mine < quota := by
  unfold makeRoom
  split
  · rename_i hfull
    have hlt := countP_eraseP_lt (by omega : 0 < ring.countP mine)
    omega
  · omega

theorem mem_makeRoom (hx : x ∈ ring) (hmine : mine x = false) : x ∈ makeRoom quota mine ring := by
  unfold makeRoom
  split
  · exact (List.mem_eraseP_of_neg (by rw [hmine]; exact Bool.false_ne_true)).mpr hx
  · exact hx

theorem push_sublist : (push limit quota mine ring a).Sublist (ring ++ [a]) := by
  unfold push History.push
  apply List.Sublist.append_right
  split
  · exact (List.tail_sublist _).trans makeRoom_sublist
  · exact makeRoom_sublist

theorem length_push_le (hlimit : 0 < limit) (h : ring.length ≤ limit) :
    (push limit quota mine ring a).length ≤ limit :=
  History.length_push_le a hlimit (le_trans makeRoom_sublist.length_le h)

theorem countP_push_mine (hquota : 0 < quota) (h : ring.countP mine ≤ quota) :
    (push limit quota mine ring a).countP mine ≤ quota := by
  have hroom := countP_makeRoom_lt hquota h
  have hone : [a].countP mine ≤ 1 := List.countP_le_length
  unfold push History.push
  rw [List.countP_append]
  split
  · have htail := (List.tail_sublist (makeRoom quota mine ring)).countP_le (p := mine)
    omega
  · omega

/-- What is not of the kind of the entry does not become more. -/
theorem countP_push_other {p : α → Bool} (hp : p a = false) :
    (push limit quota mine ring a).countP p ≤ ring.countP p := by
  have hsub : (push limit quota mine ring a).Sublist (ring ++ [a]) := push_sublist
  have hle := hsub.countP_le (p := p)
  rw [List.countP_append, List.countP_singleton, hp] at hle
  simpa using hle

/-- **Another kind's entry leaves only a full ring.** -/
theorem mem_push (hring : ring.length ≤ limit) (hx : x ∈ ring) (hmine : mine x = false) :
    x ∈ push limit quota mine ring a ∨ ring.length = limit := by
  have hroom : x ∈ makeRoom quota mine ring := mem_makeRoom hx hmine
  have hsub : (makeRoom quota mine ring).Sublist ring := makeRoom_sublist
  have hle := hsub.length_le
  unfold push History.push
  split
  · right
    omega
  · left
    exact List.mem_append_left _ hroom

/-! ### Several entries

The same, by induction on the entries that enter. -/

theorem pushAll_sublist : (pushAll limit quota mine ring entering).Sublist (ring ++ entering) := by
  induction entering generalizing ring with
  | nil => simp [pushAll]
  | cons a entering ih =>
    have hsub : (push limit quota mine ring a).Sublist (ring ++ [a]) := push_sublist
    have hone := hsub.append_right entering
    rw [List.append_assoc, List.singleton_append] at hone
    exact ih.trans hone

theorem length_pushAll_le (hlimit : 0 < limit) (h : ring.length ≤ limit) :
    (pushAll limit quota mine ring entering).length ≤ limit := by
  induction entering generalizing ring with
  | nil => exact h
  | cons a entering ih => exact ih (length_push_le hlimit h)

/-- The quota is kept, and no other kind grows. -/
theorem countP_pushAll_le {p : α → Bool} (hquota : 0 < quota) (h : ring.countP p ≤ quota)
    (hp : p = mine ∨ ∀ a ∈ entering, p a = false) :
    (pushAll limit quota mine ring entering).countP p ≤ quota := by
  induction entering generalizing ring with
  | nil => exact h
  | cons a entering ih =>
    have htail : p = mine ∨ ∀ b ∈ entering, p b = false :=
      hp.imp_right fun hnone b hb => hnone b (List.mem_cons_of_mem _ hb)
    refine ih ?_ htail
    rcases hp with rfl | hnone
    · exact countP_push_mine hquota h
    · exact le_trans (countP_push_other (hnone a List.mem_cons_self)) h

/-- **Another kind's entry leaves only a full ring**: where it does, the ring that the entries
    before the one that replaced it had left was full. -/
theorem mem_pushAll (hlimit : 0 < limit) (hring : ring.length ≤ limit) (hx : x ∈ ring)
    (hmine : mine x = false) (hgone : x ∉ pushAll limit quota mine ring entering) :
    ∃ before a after, entering = before ++ a :: after ∧
      x ∈ pushAll limit quota mine ring before ∧
      (pushAll limit quota mine ring before).length = limit ∧
      x ∉ push limit quota mine (pushAll limit quota mine ring before) a := by
  induction entering generalizing ring with
  | nil => exact absurd hx hgone
  | cons a entering ih =>
    by_cases hstays : x ∈ push limit quota mine ring a
    · obtain ⟨before, b, after, heq, hrest⟩ := ih (length_push_le hlimit hring) hstays hgone
      exact ⟨a :: before, b, after, congrArg (a :: ·) heq, hrest⟩
    · have hor : x ∈ push limit quota mine ring a ∨ ring.length = limit := mem_push hring hx hmine
      rcases hor with hmem | hfull
      · exact absurd hmem hstays
      · exact ⟨[], a, entering, rfl, hx, hfull, hstays⟩

end Hmux.Lib.Ring
