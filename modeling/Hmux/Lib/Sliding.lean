import Hmux.Lib.Table
import Mathlib.Data.Finset.Card
import Mathlib.Data.List.Induction
import Mathlib.Data.List.Pairwise

namespace Hmux.Lib.Sliding

/-!
# Limits over a sliding window

A limiter admits a few attempts of a key in any window of time and keeps the times of the admitted
ones in a map of bounded size.  It forgets a key once its last admitted attempt is out of the
window, and prunes the times of a key only when the key is tried again.

* `attempt`, `run` — the algorithm, over any kind of time;
* `recent` — the admitted attempts of a key that lie in the window, by the whole history;
* `Inv.attempt` — the map always shows the recent attempts of every key, and no key without any;
* `run_spec` — what a run admits and refuses, in terms of its history.

The map is smaller than the history: it forgets attempts out of the window and keys without any.
The invariant therefore compares the two only on what lies in the window, from some time on, and an
attempt moves that time forward.
-/

variable {κ τ σ : Type} [DecidableEq κ]

/-! ### The algorithm

A refused attempt leaves the times of its key as they are, except for those out of the window; an
admitted one is added to them. -/

/-- One attempt: whether it is admitted, and the map after it. -/
def attempt (within : τ → τ → Bool) (limit cap : ℕ) (map : Table κ (List τ)) (key : κ) (now : τ) :
    Bool × Table κ (List τ) :=
  let map := map.retain fun _ times => times.getLast?.any (within now)
  match map.get? key with
  | some times =>
    let times := times.filter (within now)
    if limit ≤ times.length then (false, map.insert key times)
    else (true, map.insert key (times ++ [now]))
  | none => if cap ≤ map.entries.length then (false, map) else (true, map.insert key [now])

/-- Attempts one after the other: which of them are admitted, and the map after them. -/
def run (within : τ → τ → Bool) (limit cap : ℕ) (map : Table κ (List τ)) :
    List (κ × τ) → List Bool × Table κ (List τ)
  | [] => ([], map)
  | a :: attempts =>
    let first := attempt within limit cap map a.1 a.2
    let rest := run within limit cap first.2 attempts
    (first.1 :: rest.1, rest.2)

/-- The attempts that were admitted. -/
def admitted (attempts : List (κ × τ)) (decisions : List Bool) : List (κ × τ) :=
  ((attempts.zip decisions).filter Prod.snd).map Prod.fst

/-! ### Another kind of time

The algorithm only subtracts times and compares the difference with the window, so two runs over
different kinds of time agree when the differences do. -/

theorem attempt_map {within : τ → τ → Bool} {within' : σ → σ → Bool} {f : τ → σ}
    (h : ∀ now t, within' (f now) (f t) = within now t) (limit cap : ℕ) (map : Table κ (List τ))
    (key : κ) (now : τ) :
    attempt within' limit cap (map.mapValues (List.map f)) key (f now) =
      ((attempt within limit cap map key now).1,
        (attempt within limit cap map key now).2.mapValues (List.map f)) := by
  have hlast : ∀ times : List τ,
      (times.map f).getLast?.any (within' (f now)) = times.getLast?.any (within now) := by
    intro times
    rw [List.getLast?_map, Option.any_map]
    exact congrArg (fun p => Option.any p times.getLast?) (funext (h now))
  have hfilter : ∀ times : List τ,
      (times.map f).filter (within' (f now)) = (times.filter (within now)).map f := by
    intro times
    rw [List.filter_map]
    exact congrArg (fun p => (List.filter p times).map f) (funext (h now))
  unfold attempt
  simp only [Table.retain_mapValues, hlast, Table.get?_mapValues, Table.length_mapValues]
  cases (map.retain fun _ times => times.getLast?.any (within now)).get? key with
  | none =>
    dsimp only [Option.map_none]
    split
    · rfl
    · rw [show [f now] = List.map f [now] from rfl, Table.insert_mapValues]
  | some times =>
    dsimp only [Option.map_some]
    rw [hfilter, List.length_map]
    split
    · rw [Table.insert_mapValues]
    · rw [show [f now] = List.map f [now] from rfl, ← List.map_append, Table.insert_mapValues]

/-- **The kind of time does not matter** as long as the same attempts are in the window. -/
theorem run_map {within : τ → τ → Bool} {within' : σ → σ → Bool} {f : τ → σ}
    (h : ∀ now t, within' (f now) (f t) = within now t) (limit cap : ℕ) (map : Table κ (List τ))
    (attempts : List (κ × τ)) :
    run within' limit cap (map.mapValues (List.map f)) (attempts.map fun a => (a.1, f a.2)) =
      ((run within limit cap map attempts).1,
        (run within limit cap map attempts).2.mapValues (List.map f)) := by
  induction attempts generalizing map with
  | nil => rfl
  | cons a attempts ih =>
    rw [List.map_cons, run, run]
    dsimp only
    rw [attempt_map h, ih]

/-! ### Runs

What is known of the first attempts stays true when one more is made. -/

section

variable {within : τ → τ → Bool} {limit cap : ℕ} {map : Table κ (List τ)}

theorem run_concat (attempts : List (κ × τ)) (a : κ × τ) :
    run within limit cap map (attempts ++ [a]) =
      let before := run within limit cap map attempts
      let last := attempt within limit cap before.2 a.1 a.2
      (before.1 ++ [last.1], last.2) := by
  induction attempts generalizing map with
  | nil => rfl
  | cons b attempts ih =>
    rw [List.cons_append, run, ih]
    rfl

theorem length_run (attempts : List (κ × τ)) :
    (run within limit cap map attempts).1.length = attempts.length := by
  induction attempts generalizing map with
  | nil => rfl
  | cons a attempts ih =>
    rw [run, List.length_cons, List.length_cons, ih]

omit [DecidableEq κ] in
theorem admitted_concat {attempts : List (κ × τ)} {decisions : List Bool} {a : κ × τ} {b : Bool}
    (h : decisions.length = attempts.length) :
    admitted (attempts ++ [a]) (decisions ++ [b]) =
      admitted attempts decisions ++ if b then [a] else [] := by
  unfold admitted
  rw [List.zip_append h.symm, List.filter_append, List.map_append]
  cases b
  · rfl
  · rfl

omit [DecidableEq κ] in
theorem mem_admitted {attempts : List (κ × τ)} {decisions : List Bool} {a : κ × τ}
    (h : a ∈ admitted attempts decisions) : a ∈ attempts := by
  obtain ⟨⟨b, d⟩, hmem, rfl⟩ := List.mem_map.mp h
  exact (List.of_mem_zip (List.mem_filter.mp hmem).1).1

end

/-! ### The history

The same notions again, from the attempts alone and without the map. -/

section

/-- An attempt less than `window` ago. -/
def inWindow (window : ℤ) (now t : ℤ) : Bool := now - t < window

variable {window : ℤ} {limit cap : ℕ} {history : List (κ × ℤ)} {map : Table κ (List ℤ)}

/-- The admitted attempts of a key. -/
def timesOf (history : List (κ × ℤ)) (key : κ) : List ℤ :=
  (history.filter fun a => a.1 = key).map Prod.snd

/-- The admitted attempts of a key that lie in the window. -/
def recent (window : ℤ) (history : List (κ × ℤ)) (key : κ) (now : ℤ) : List ℤ :=
  (timesOf history key).filter (inWindow window now)

/-- The other keys with an admitted attempt in the window. -/
def others (window : ℤ) (history : List (κ × ℤ)) (key : κ) (now : ℤ) : Finset κ :=
  ((history.filter fun a => a.1 ≠ key ∧ inWindow window now a.2).map Prod.fst).toFinset

theorem timesOf_concat (history : List (κ × ℤ)) (a : κ × ℤ) (key : κ) :
    timesOf (history ++ [a]) key = timesOf history key ++ if a.1 = key then [a.2] else [] := by
  unfold timesOf
  rw [List.filter_append, List.map_append]
  split
  · next h =>
    rw [List.filter_cons_of_pos (by simpa using h)]
    rfl
  · next h =>
    rw [List.filter_cons_of_neg (by simpa using h)]
    rfl

theorem mem_others {key k : κ} {now : ℤ} :
    k ∈ others window history key now ↔ k ≠ key ∧ recent window history k now ≠ [] := by
  unfold others recent timesOf
  rw [List.mem_toFinset, List.mem_map]
  constructor
  · rintro ⟨a, ha, rfl⟩
    obtain ⟨hmem, ha⟩ := List.mem_filter.mp ha
    obtain ⟨hne, hwindow⟩ := of_decide_eq_true ha
    refine ⟨hne, List.ne_nil_of_mem (a := a.2) ?_⟩
    exact List.mem_filter.mpr
      ⟨List.mem_map_of_mem (List.mem_filter.mpr ⟨hmem, decide_eq_true rfl⟩), hwindow⟩
  · rintro ⟨hne, hrecent⟩
    obtain ⟨t, ht⟩ := List.exists_mem_of_ne_nil _ hrecent
    obtain ⟨ht, hwindow⟩ := List.mem_filter.mp ht
    obtain ⟨a, ha, rfl⟩ := List.mem_map.mp ht
    obtain ⟨hmem, hkey⟩ := List.mem_filter.mp ha
    have hkey : a.1 = k := of_decide_eq_true hkey
    exact ⟨a, List.mem_filter.mpr ⟨hmem, decide_eq_true ⟨hkey ▸ hne, hwindow⟩⟩, hkey⟩

/-- What is recent at one time is recent before it. -/
theorem inWindow_mono {now later t : ℤ} (hle : now ≤ later) (h : inWindow window later t = true) :
    inWindow window now t = true := by
  have h : later - t < window := of_decide_eq_true h
  exact decide_eq_true (by omega)

theorem filter_later {now later : ℤ} (hle : now ≤ later) (times : List ℤ) :
    (times.filter (inWindow window now)).filter (inWindow window later) =
      times.filter (inWindow window later) := by
  rw [List.filter_filter]
  apply List.filter_congr
  intro t _
  cases h : inWindow window later t with
  | false => rfl
  | true => rw [inWindow_mono hle h, Bool.and_self]

/-- The last of the times tells whether any of them is recent. -/
theorem last_inWindow {times : List ℤ} (hne : times ≠ []) (hsorted : times.Pairwise (· ≤ ·))
    (now : ℤ) : times.getLast?.any (inWindow window now) = true ↔
      times.filter (inWindow window now) ≠ [] := by
  rw [List.getLast?_eq_some_getLast hne, Option.any_some]
  constructor
  · intro h
    exact List.ne_nil_of_mem (List.mem_filter.mpr ⟨List.getLast_mem hne, h⟩)
  · intro h
    obtain ⟨t, ht⟩ := List.exists_mem_of_ne_nil _ h
    obtain ⟨hmem, hwindow⟩ := List.mem_filter.mp ht
    have hle : t ≤ times.getLast hne := hsorted.rel_getLast hmem
    have hwindow : now - t < window := of_decide_eq_true hwindow
    exact decide_eq_true (by omega)

/-! ### The invariant

The map shows what the history says, and is no larger than the number of keys that are tried in the
window. -/

/-- **The map shows the recent attempts of every key**, from the time `since` on. -/
structure Inv (window : ℤ) (cap : ℕ) (map : Table κ (List ℤ)) (history : List (κ × ℤ)) (since : ℤ) :
    Prop where
  nonempty : ∀ key times, map.get? key = some times → times ≠ []
  sorted : ∀ key times, map.get? key = some times → times.Pairwise (· ≤ ·)
  past : ∀ key times, map.get? key = some times → ∀ t ∈ times, t ≤ since
  shows : ∀ key now, since ≤ now →
    ((map.get? key).getD []).filter (inWindow window now) = recent window history key now
  bounded : map.entries.length ≤ cap

theorem Inv.empty (since : ℤ) : Inv window cap (Table.empty : Table κ (List ℤ)) [] since where
  nonempty _ _ h := by cases h
  sorted _ _ h := by cases h
  past _ _ h := by cases h
  shows _ _ _ := rfl
  bounded := Nat.zero_le _

/-- What is left of the map when an attempt is made: the keys with a recent attempt. -/
def pruned (window : ℤ) (map : Table κ (List ℤ)) (now : ℤ) : Table κ (List ℤ) :=
  map.retain fun _ times => times.getLast?.any (inWindow window now)

variable {since now : ℤ} {key : κ} {times : List ℤ}

theorem Inv.get?_pruned (h : Inv window cap map history since) (hnow : since ≤ now) :
    (pruned window map now).get? key = some times ↔
      map.get? key = some times ∧ recent window history key now ≠ [] := by
  unfold pruned
  rw [Table.get?_retain]
  constructor
  · rintro ⟨hget, hlast⟩
    have hshows := h.shows key now hnow
    rw [hget] at hshows
    exact ⟨hget, hshows ▸
      (last_inWindow (h.nonempty key times hget) (h.sorted key times hget) now).mp hlast⟩
  · rintro ⟨hget, hrecent⟩
    have hshows := h.shows key now hnow
    rw [hget] at hshows
    exact ⟨hget, (last_inWindow (h.nonempty key times hget) (h.sorted key times hget) now).mpr
      (hshows.symm ▸ hrecent)⟩

theorem Inv.get?_pruned_eq_none (h : Inv window cap map history since) (hnow : since ≤ now) :
    (pruned window map now).get? key = none ↔ recent window history key now = [] := by
  constructor
  · intro hnone
    by_contra hrecent
    cases hget : map.get? key with
    | none =>
      have hshows := h.shows key now hnow
      rw [hget] at hshows
      exact hrecent hshows.symm
    | some times =>
      rw [(h.get?_pruned hnow).mpr ⟨hget, hrecent⟩] at hnone
      cases hnone
  · intro hrecent
    cases hget : (pruned window map now).get? key with
    | none => rfl
    | some times => exact absurd hrecent ((h.get?_pruned hnow).mp hget).2

/-- Pruning forgets nothing that is recent. -/
theorem Inv.pruned (h : Inv window cap map history since) (hnow : since ≤ now) :
    Inv window cap (pruned window map now) history now where
  nonempty k times hget := h.nonempty k times ((h.get?_pruned hnow).mp hget).1
  sorted k times hget := h.sorted k times ((h.get?_pruned hnow).mp hget).1
  past k times hget t ht :=
    le_trans (h.past k times ((h.get?_pruned hnow).mp hget).1 t ht) hnow
  shows k later hlater := by
    have hshows := h.shows k later (le_trans hnow hlater)
    cases hget : (Sliding.pruned window map now).get? k with
    | some times =>
      rw [((h.get?_pruned hnow).mp hget).1] at hshows
      exact hshows
    | none =>
      have hnone : recent window history k now = [] := (h.get?_pruned_eq_none hnow).mp hget
      have hlast : recent window history k later = [] := by
        unfold recent at hnone ⊢
        rw [← filter_later hlater, hnone]
        rfl
      rw [hlast]
      rfl
  bounded := le_trans (List.length_filter_le _ _) h.bounded

/-- The keys that are left, when the key of the attempt is not among them. -/
theorem Inv.length_pruned (h : Inv window cap map history since) (hnow : since ≤ now)
    (hnone : (Sliding.pruned window map now).get? key = none) :
    (Sliding.pruned window map now).entries.length = (others window history key now).card := by
  have hkeys : ((Sliding.pruned window map now).entries.map Prod.fst).toFinset =
      others window history key now := by
    apply Finset.ext
    intro k
    rw [List.mem_toFinset, List.mem_map, mem_others]
    constructor
    · rintro ⟨⟨k, times⟩, hmem, rfl⟩
      have hget := Table.mem_entries.mp hmem
      refine ⟨?_, ((h.get?_pruned hnow).mp hget).2⟩
      rintro rfl
      rw [hget] at hnone
      cases hnone
    · rintro ⟨-, hrecent⟩
      cases hget : (Sliding.pruned window map now).get? k with
      | none => exact absurd ((h.get?_pruned_eq_none hnow).mp hget) hrecent
      | some times => exact ⟨(k, times), Table.mem_entries.mpr hget, rfl⟩
  rw [← hkeys, List.toFinset_card_of_nodup (Sliding.pruned window map now).nodup, List.length_map]

/-- What holds from a time on holds from any later one. -/
theorem Inv.later (h : Inv window cap map history since) (hnow : since ≤ now) :
    Inv window cap map history now :=
  { h with
    past := fun k times hget t ht => le_trans (h.past k times hget t ht) hnow
    shows := fun k later hlater => h.shows k later (le_trans hnow hlater) }

/-- The times of a key are replaced by those of them that are recent, and perhaps by the attempt. -/
theorem Inv.insert (h : Inv window cap map history now) {more : List ℤ} {admitted : Bool}
    (hwindow : 0 < window) (hmore : more = if admitted then [now] else [])
    (hne : recent window history key now ++ more ≠ [])
    (hsorted : (recent window history key now).Pairwise (· ≤ ·))
    (hpast : ∀ t ∈ recent window history key now, t ≤ now)
    (hroom : (map.insert key (recent window history key now ++ more)).entries.length ≤ cap) :
    Inv window cap (map.insert key (recent window history key now ++ more))
      (history ++ if admitted then [(key, now)] else []) now := by
  -- nothing is added but the present time
  have hnew : ∀ t ∈ more, t = now := by
    intro t ht
    rw [hmore] at ht
    cases admitted
    · cases ht
    · exact List.mem_singleton.mp ht
  have hself : inWindow window now now = true := decide_eq_true (by omega)
  constructor
  -- each part of the invariant for the key and for the others
  · intro k times hget
    rcases Table.get?_insert_some hget with ⟨-, rfl⟩ | hget
    · exact hne
    · exact h.nonempty k times hget
  · intro k times hget
    rcases Table.get?_insert_some hget with ⟨-, rfl⟩ | hget
    · rw [List.pairwise_append]
      refine ⟨hsorted, ?_, fun a ha b hb => hnew b hb ▸ hpast a ha⟩
      rw [hmore]
      cases admitted
      · exact List.Pairwise.nil
      · exact List.pairwise_singleton _ _
    · exact h.sorted k times hget
  · intro k times hget t ht
    rcases Table.get?_insert_some hget with ⟨-, rfl⟩ | hget
    · rcases List.mem_append.mp ht with ht | ht
      · exact hpast t ht
      · exact le_of_eq (hnew t ht)
    · exact h.past k times hget t ht
  · intro k later hlater
    -- the history of the key grows by the attempt, if it was admitted
    have hhistory : timesOf (history ++ if admitted then [(key, now)] else []) k =
        timesOf history k ++ if k = key then more else [] := by
      rw [hmore]
      cases admitted with
      | false => simp
      | true =>
        rw [if_pos rfl, if_pos rfl, timesOf_concat]
        by_cases hk : k = key
        · rw [if_pos hk, if_pos hk.symm]
        · rw [if_neg hk, if_neg (Ne.symm hk)]
    unfold recent
    rw [hhistory, List.filter_append, Table.get?_insert]
    by_cases hk : k = key
    · rw [if_pos hk, if_pos hk, Option.getD_some, List.filter_append, hk, filter_later hlater]
    · rw [if_neg hk, if_neg hk, List.filter_nil, List.append_nil]
      exact h.shows k later hlater
  · exact hroom

/-! ### One attempt

A key that is known is refused when it has as many recent attempts as the limit allows; a new one
is refused when the map has no room for another key. -/

/-- The times of a key that is still in the map are in order and in the past. -/
theorem Inv.recent_sorted (h : Inv window cap map history now)
    (hget : map.get? key = some times) :
    times.filter (inWindow window now) = recent window history key now ∧
      (recent window history key now).Pairwise (· ≤ ·) ∧
      ∀ t ∈ recent window history key now, t ≤ now := by
  have hshows := h.shows key now (le_refl now)
  rw [hget, Option.getD_some] at hshows
  refine ⟨hshows, ?_, ?_⟩
  · rw [← hshows]
    exact (h.sorted key times hget).filter _
  · intro t ht
    rw [← hshows] at ht
    exact h.past key times hget t (List.mem_filter.mp ht).1

theorem attempt_known {left : List ℤ} (hget : (pruned window map now).get? key = some times)
    (hleft : times.filter (inWindow window now) = left) :
    attempt (inWindow window) limit cap map key now =
      if limit ≤ left.length then (false, (pruned window map now).insert key left)
      else (true, (pruned window map now).insert key (left ++ [now])) := by
  unfold pruned at hget ⊢
  unfold Sliding.attempt
  dsimp only
  rw [hget]
  dsimp only
  rw [hleft]

theorem attempt_new (hget : (pruned window map now).get? key = none) :
    attempt (inWindow window) limit cap map key now =
      if cap ≤ (pruned window map now).entries.length then (false, pruned window map now)
      else (true, (pruned window map now).insert key [now]) := by
  unfold pruned at hget ⊢
  unfold Sliding.attempt
  dsimp only
  rw [hget]

/-- **What an attempt does**: when it is refused, and what the map shows after it. -/
theorem Inv.attempt (h : Inv window cap map history since) (hwindow : 0 < window)
    (hlimit : 0 < limit) (hnow : since ≤ now) (key : κ) :
    let next := attempt (inWindow window) limit cap map key now
    Inv window cap next.2 (history ++ if next.1 then [(key, now)] else []) now ∧
      (next.1 = false ↔ limit ≤ (recent window history key now).length ∨
        (recent window history key now = [] ∧ cap ≤ (others window history key now).card)) ∧
      (next.1 = false → (next.2.get? key).getD [] = recent window history key now) := by
  have hpruned := h.pruned hnow
  dsimp only
  cases hget : (Sliding.pruned window map now).get? key with
  -- the key was there
  | some times =>
    obtain ⟨htimes, hsorted, hpast⟩ := hpruned.recent_sorted hget
    have hne : recent window history key now ≠ [] := ((h.get?_pruned hnow).mp hget).2
    have hroom : ∀ value : List ℤ,
        ((Sliding.pruned window map now).insert key value).entries.length ≤ cap :=
      fun value => le_trans (Table.length_insert_of_get? hget) hpruned.bounded
    rw [attempt_known hget htimes]
    split
    · next hfull =>
      -- its window is full
      have hmore : ([] : List ℤ) = if false then [now] else [] := rfl
      have hinsert := hpruned.insert hwindow hmore
        (by rwa [List.append_nil]) hsorted hpast (hroom _)
      rw [List.append_nil] at hinsert
      refine ⟨hinsert, iff_of_true rfl (.inl hfull), fun _ => ?_⟩
      rw [Table.get?_insert_self, Option.getD_some]
    · next hfree =>
      -- its window has room
      have hmore : [now] = if true then [now] else [] := rfl
      have hinsert := hpruned.insert hwindow hmore
        (List.append_ne_nil_of_left_ne_nil hne _) hsorted hpast (hroom _)
      refine ⟨hinsert, iff_of_false Bool.noConfusion ?_, Bool.noConfusion⟩
      rintro (hfull | ⟨hnil, -⟩)
      · exact hfree hfull
      · exact hne hnil
  -- the key is new, so nothing of it lies in the window
  | none =>
    have hnil : recent window history key now = [] := (h.get?_pruned_eq_none hnow).mp hget
    rw [attempt_new hget, h.length_pruned hnow hget]
    split
    -- the map is full
    · next hfull =>
      refine ⟨?_, iff_of_true rfl (.inr ⟨hnil, hfull⟩), fun _ => ?_⟩
      · rw [if_neg Bool.noConfusion, List.append_nil]
        exact hpruned
      · rw [hget, hnil]
        rfl
    -- the map has room
    · next hfree =>
      have hroom : ((Sliding.pruned window map now).insert key [now]).entries.length ≤ cap := by
        have hlength : ((Sliding.pruned window map now).insert key [now]).entries.length ≤
            (Sliding.pruned window map now).entries.length + 1 := Table.length_insert_le
        rw [h.length_pruned hnow hget] at hlength
        omega
      have hmore : [now] = if true then [now] else [] := rfl
      have hroom' : ((Sliding.pruned window map now).insert key
          (recent window history key now ++ [now])).entries.length ≤ cap := by
        rw [hnil]
        exact hroom
      have hinsert := hpruned.insert hwindow hmore
        (List.append_ne_nil_of_right_ne_nil _ (List.cons_ne_nil _ _)) (hnil ▸ List.Pairwise.nil)
        (by rw [hnil]; exact fun t ht => absurd ht List.not_mem_nil) hroom'
      rw [hnil] at hinsert
      refine ⟨hinsert, iff_of_false Bool.noConfusion ?_, Bool.noConfusion⟩
      rintro (hfull | ⟨-, hfull⟩)
      · rw [hnil] at hfull
        exact absurd hfull (Nat.not_le.mpr hlimit)
      · exact hfree hfull

/-- One more attempt keeps the number of admitted attempts in every window within the limit. -/
theorem countP_concat {start : ℤ}
    (h : (timesOf history key).countP (fun t => start ≤ t ∧ t < start + window) ≤ limit)
    (hroom : (recent window history key now).length < limit) (a : κ × ℤ) (ha : a.2 = now) :
    (timesOf (history ++ [a]) key).countP (fun t => start ≤ t ∧ t < start + window) ≤ limit := by
  rw [timesOf_concat, List.countP_append]
  by_cases hkey : a.1 = key
  · rw [if_pos hkey, ha, List.countP_singleton]
    by_cases hin : start ≤ now ∧ now < start + window
    · -- the attempts that share a window with this one are recent
      have hle : (timesOf history key).countP (fun t => start ≤ t ∧ t < start + window) ≤
          (recent window history key now).length := by
        unfold recent
        rw [← List.countP_eq_length_filter]
        apply List.countP_mono_left
        intro t _ ht
        have ht : start ≤ t ∧ t < start + window := of_decide_eq_true ht
        exact decide_eq_true (by omega)
      rw [if_pos (decide_eq_true hin)]
      omega
    · rw [if_neg (by rwa [decide_eq_true_eq])]
      exact h
  · rw [if_neg hkey, List.countP_nil]
    exact h

/-! ### Runs from the empty map

By induction on the attempts, with the last one taken off. -/

/-- **What a run shows.**  `attempts` are in the order of time. -/
theorem run_spec (hwindow : 0 < window) (hlimit : 0 < limit) (attempts : List (κ × ℤ))
    (hsorted : (attempts.map Prod.snd).Pairwise (· ≤ ·)) :
    let ran := run (inWindow window) limit cap (Table.empty : Table κ (List ℤ)) attempts
    let history := admitted attempts ran.1
    (∀ since, (∀ a ∈ attempts, a.2 ≤ since) → Inv window cap ran.2 history since) ∧
      ran.2.entries.length ≤ cap ∧
      ∀ key start,
        (timesOf history key).countP (fun t => start ≤ t ∧ t < start + window) ≤ limit := by
  induction attempts using List.reverseRecOn with
  | nil => exact ⟨fun since _ => Inv.empty since, Nat.zero_le _, fun _ _ => Nat.zero_le _⟩
  | append_singleton attempts a ih =>
    rw [List.map_append, List.pairwise_append] at hsorted
    obtain ⟨hinv, -, hcount⟩ := ih hsorted.1
    have hpast : ∀ b ∈ attempts, b.2 ≤ a.2 := fun b hb =>
      hsorted.2.2 b.2 (List.mem_map_of_mem hb) a.2 (List.mem_singleton_self _)
    obtain ⟨hnext, hrefused, -⟩ := (hinv a.2 hpast).attempt hwindow hlimit (le_refl _) a.1
    dsimp only
    rw [run_concat, admitted_concat (length_run attempts)]
    refine ⟨fun since hsince => ?_, hnext.bounded, fun key start => ?_⟩
    · exact hnext.later (hsince a (List.mem_append_right _ (List.mem_singleton_self _)))
    · split
      · next hok =>
        by_cases hkey : a.1 = key
        · subst hkey
          refine countP_concat (hcount a.1 start) ?_ a rfl
          by_contra hfull
          rw [hrefused.mpr (.inl (Nat.not_lt.mp hfull))] at hok
          cases hok
        · rw [timesOf_concat, if_neg hkey, List.append_nil]
          exact hcount key start
      · rw [List.append_nil]
        exact hcount key start

end

end Hmux.Lib.Sliding
