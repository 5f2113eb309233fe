import Mathlib.Data.List.Nodup
import Hmux.Lib.History
import Hmux.Model.Session

namespace Hmux.Workspace

/-!
# Shared workspace — the data model

The open tabs shared by every device of one account (`hmux-model/src/workspace.rs`):
`Snapshot` is the stored state, `Change` an edit a device made against the tab list it
last saw, `SessionLineage` one entry of the live session catalog.

`validIds_iff` reads the nested prefix scan of `valid_ids` as what it decides: at most 32
identities, each with a well-formed tmux id and a positive creation time, and no tmux id
twice.  Every later proof uses that reading.
-/

/-- `MAX_TABS`. -/
def maxTabs : ℕ := 32

/-- `HISTORY`: how many applied operation ids a snapshot remembers. -/
def history : ℕ := 64

/-- One catalog entry, reduced to what tab reconciliation reads. -/
structure SessionLineage where
  id : String
  createdAt : Int64
  restoredFrom : Option SessionIdentity
  deriving DecidableEq, Repr

/-- The identity of the session an entry lists. -/
def SessionLineage.identity (s : SessionLineage) : SessionIdentity := ⟨s.id, s.createdAt⟩

/-- The stored tab state of one account. -/
structure Snapshot where
  conflict : String
  applied : List String
  version : Int64
  initialized : Bool
  revision : UInt64
  tabs : List SessionIdentity
  selected : Option SessionIdentity
  deriving DecidableEq, Repr

/-- An edit of one device: the tab list it started from and the one it wants. -/
structure Change where
  operationId : String
  revision : UInt64
  base : List SessionIdentity
  tabs : List SessionIdentity
  selected : Option SessionIdentity
  deriving DecidableEq, Repr

/-- `workspace::Error`. -/
inductive Error where
  | invalid
  | tooManyTabs
  | revisionExhausted
  deriving DecidableEq, Repr

/-- `valid_ids`: every entry is checked against the entries before it. -/
def validIds (ids : List SessionIdentity) : Bool :=
  ids.length ≤ maxTabs &&
    ids.zipIdx.all fun p =>
      validateSessionId p.1.id && 0 < p.1.createdAt &&
        !(ids.take p.2).any fun previous => previous.id == p.1.id

/-- `Snapshot::empty`. -/
def Snapshot.empty : Snapshot :=
  { conflict := "", applied := [], version := 1, initialized := false, revision := 0,
    tabs := [], selected := none }

/-- `Snapshot::valid`. -/
def Snapshot.valid (s : Snapshot) : Bool :=
  (s.conflict == "" || s.conflict == "workspace_conflict") &&
    s.applied.length ≤ history && s.version == 1 && validIds s.tabs &&
    s.selected.all s.tabs.contains

/-- `Change::valid`. -/
def Change.valid (c : Change) : Bool :=
  16 ≤ (bytes c.operationId).length && (bytes c.operationId).length ≤ 80 &&
    (bytes c.operationId).all (fun b => isAsciiAlphanumeric b || b == 45) &&
    validIds c.base && validIds c.tabs && c.selected.all c.tabs.contains

/-! ### What `validIds` decides

A scan that compares every entry with those before it decides whether some two are equal. -/

/-- A well-formed identity on its own, apart from the list it stands in. -/
def ValidIdentity (id : SessionIdentity) : Prop :=
  validateSessionId id.id = true ∧ 0 < id.createdAt

/-- No tmux id occurs twice. -/
def DistinctIds (ids : List SessionIdentity) : Prop := (ids.map (·.id)).Nodup

/-- The prefix scan rejects a list exactly when two positions share a tmux id. -/
theorem prefixScan_iff (ids : List SessionIdentity) :
    (∀ p ∈ ids.zipIdx, ¬ ∃ previous ∈ ids.take p.2, previous.id = p.1.id) ↔ DistinctIds ids := by
  unfold DistinctIds
  rw [List.nodup_iff_pairwise_ne, List.pairwise_map, List.pairwise_iff_getElem]
  constructor
  · intro h i j hi hj hij heq
    refine h (ids[j], j) ?_ ⟨ids[i], ?_, heq⟩
    · simp [List.mem_zipIdx_iff_getElem?]
    · rw [List.mem_take_iff_getElem]
      exact ⟨i, by omega, rfl⟩
  · rintro h ⟨id, j⟩ hmem ⟨previous, hprev, heq⟩
    rw [List.mem_zipIdx_iff_getElem?] at hmem
    dsimp only at hmem hprev heq
    obtain ⟨hj, rfl⟩ := List.getElem?_eq_some_iff.mp hmem
    obtain ⟨i, hi, rfl⟩ := List.mem_take_iff_getElem.mp hprev
    exact h i j (by omega) hj (by omega) heq

/-- **Reading of `valid_ids`.** -/
theorem validIds_iff (ids : List SessionIdentity) :
    validIds ids = true ↔
      ids.length ≤ maxTabs ∧ (∀ id ∈ ids, ValidIdentity id) ∧ DistinctIds ids := by
  rw [← prefixScan_iff]
  simp only [validIds, Bool.and_eq_true, decide_eq_true_eq, List.all_eq_true,
    Bool.not_eq_true', List.any_eq_false, beq_iff_eq, ValidIdentity, not_exists, not_and]
  constructor
  · rintro ⟨hlen, hall⟩
    refine ⟨hlen, fun id hid => ?_, fun p hp => (hall p hp).2⟩
    obtain ⟨j, hj, rfl⟩ := List.getElem_of_mem hid
    exact (hall (ids[j], j) (by simp [List.mem_zipIdx_iff_getElem?])).1
  · rintro ⟨hlen, hids, hdist⟩
    exact ⟨hlen, fun p hp => ⟨hids p.1 (List.fst_mem_of_mem_zipIdx hp), hdist p hp⟩⟩

/-- Distinct tmux ids: two listed identities with one tmux id are the same identity. -/
theorem DistinctIds.eq_of_id_eq {ids : List SessionIdentity} (h : DistinctIds ids)
    {a b : SessionIdentity} (ha : a ∈ ids) (hb : b ∈ ids) (hab : a.id = b.id) : a = b :=
  List.inj_on_of_nodup_map h ha hb hab

theorem DistinctIds.sublist {ids ids' : List SessionIdentity} (h : DistinctIds ids)
    (hsub : ids'.Sublist ids) : DistinctIds ids' :=
  List.Nodup.sublist (hsub.map _) h

theorem DistinctIds.nodup {ids : List SessionIdentity} (h : DistinctIds ids) : ids.Nodup :=
  List.Nodup.of_map _ h

/-- What a valid snapshot guarantees about its tabs. -/
theorem Snapshot.valid_tabs {s : Snapshot} (h : s.valid = true) :
    s.tabs.length ≤ maxTabs ∧ (∀ id ∈ s.tabs, ValidIdentity id) ∧ DistinctIds s.tabs := by
  rw [Snapshot.valid] at h
  simp only [Bool.and_eq_true] at h
  exact (validIds_iff _).mp h.1.2

theorem Snapshot.valid_applied {s : Snapshot} (h : s.valid = true) :
    s.applied.length ≤ history := by
  rw [Snapshot.valid] at h
  simp only [Bool.and_eq_true, decide_eq_true_eq] at h
  exact h.1.1.1.2

theorem Change.valid_tabs {c : Change} (h : c.valid = true) :
    (∀ id ∈ c.tabs, ValidIdentity id) ∧ DistinctIds c.tabs := by
  rw [Change.valid] at h
  simp only [Bool.and_eq_true] at h
  exact ((validIds_iff _).mp h.1.2).2

end Hmux.Workspace
