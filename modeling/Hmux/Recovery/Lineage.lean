import Hmux.Lib.Json.Reader
import Hmux.Workspace.Snapshot
import Mathlib.Data.List.Perm.Subperm

namespace Hmux.Recovery

/-!
# Lineages

`workspace_lineages` of `restore.rs`: which session of today continues a tab of before the last
reboots.  Every reboot leaves mappings from old sessions to new ones, and a mapping is followed from
its new session on as long as exactly one mapping leaves from there.

* `walk`, `workspaceLineages` — the walk, with the bound of its loop;
* `Chain` — the mappings that are followed, as a list without a bound;
* `walk_eq_some` — the walk finds the end of a chain, and the bound is never in its way, since the
  mappings after the first leave from different sessions.
-/

open Workspace

/-! ### The walk

The loop of the source, with the keys it has visited and the number of rounds it may still make. -/

/-- What `workspace_lineages` reads of a `Mapping`. -/
structure Mapping where
  fromId : SessionIdentity
  toId : SessionIdentity
  name : String
  deriving DecidableEq

/-- What it reads of a session of the `Snapshot`. -/
structure LiveSession where
  identity : SessionIdentity
  name : String
  deriving DecidableEq

/-- `key`. -/
def key (id : SessionIdentity) : String := id.id ++ "/" ++ toString id.createdAt

section

variable (links : List Mapping) (live : List LiveSession)

/-- The inner loop; the number is that of its rounds. -/
def walk : ℕ → SessionIdentity → String → List String → Option SessionIdentity
  | 0, _, _, _ => none
  | n + 1, target, name, seen =>
    if key target ∈ seen then none
    else if live.any fun s => s.identity = target && s.name = name then some target
    else
      match links.filter fun l => l.fromId = target with
      | [next] => walk n next.toId next.name (key target :: seen)
      | _ => none

/-- The entry of a live session. -/
def plain (s : LiveSession) : SessionLineage := ⟨s.identity.id, s.identity.createdAt, none⟩

/-- The entry for a mapping that ends at a session. -/
def restored (m : Mapping) (target : SessionIdentity) : SessionLineage :=
  ⟨target.id, target.createdAt, some m.fromId⟩

end

/-- `workspace_lineages`. -/
def workspaceLineages (previous added : List Mapping) (live : List LiveSession) :
    List SessionLineage :=
  let links := added ++ previous
  live.map plain ++ links.filterMap fun m =>
    (walk links live (links.length + 1) m.toId m.name [key m.fromId]).map (restored m)

/-! ### Chains

A chain is a path in the graph of the mappings, from the mapping that starts it to the live session
at its end. -/

section

variable (links : List Mapping) (live : List LiveSession)

/-- A live session has the identity and the name of the mapping. -/
def Arrives (l : Mapping) : Prop := ∃ s ∈ live, s.identity = l.toId ∧ s.name = l.name

/-- The single mapping from where the other one leads to. -/
def Next (l l' : Mapping) : Prop := links.filter (fun x => x.fromId = l.toId) = [l']

/-- **The mappings that are followed** from one on: each is the single one that leaves from the
    session before, no session is visited again, and the last one is the first that arrives at a
    live session. -/
structure Chain (seen : List SessionIdentity) (m arrival : Mapping) (path : List Mapping) :
    Prop where
  head : path.head? = some m
  last : path.getLast? = some arrival
  next : path.IsChain (Next links)
  fresh : (path.map Mapping.toId).Nodup ∧ ∀ id ∈ path.map Mapping.toId, id ∉ seen
  arrives : Arrives live arrival
  first : ∀ l ∈ path.dropLast, ¬Arrives live l

end

/-- The decimals of a time have no slash. -/
theorem slash_notMem_toString (n : Int64) : '/' ∉ (toString n).toList := by
  have hrepr : toString n = n.toInt.repr := rfl
  have hdigits : ∀ k : ℕ, '/' ∉ k.repr.toList := by
    intro k hk
    rw [Nat.toList_repr] at hk
    have hdigit := Nat.isDigit_of_mem_toDigits (by decide) (by decide) hk
    exact absurd hdigit (by decide)
  rw [hrepr]
  cases n.toInt with
  | ofNat k => exact hdigits k
  | negSucc k =>
    show '/' ∉ ("-" ++ (k + 1).repr).toList
    rw [String.toList_append, List.mem_append]
    rintro (h | h)
    · exact absurd h (by decide)
    · exact hdigits _ h

/-- Different sessions have different keys. -/
theorem key_inj {a b : SessionIdentity} : key a = key b ↔ a = b := by
  constructor
  · intro h
    have hlist : ∀ id : SessionIdentity,
        (key id).toList.reverse = (toString id.createdAt).toList.reverse ++
        '/' :: id.id.toList.reverse := by
      intro id
      unfold key
      rw [String.toList_append, String.toList_append, List.reverse_append, List.reverse_append]
      rfl
    have hslash : ∀ id : SessionIdentity, '/' ∉ (toString id.createdAt).toList.reverse := by
      intro id hmem
      exact slash_notMem_toString _ (List.mem_reverse.mp hmem)
    obtain ⟨htime, hid⟩ := append_cons_inj (hslash a) (hslash b)
      ((hlist a).symm.trans ((congrArg (fun s => s.toList.reverse) h).trans (hlist b)))
    have hcreated := Lib.Json.Compact.int64_toString_inj
      (String.toList_inj.mp (List.reverse_inj.mp htime))
    cases a
    cases b
    cases hcreated
    cases String.toList_inj.mp (List.reverse_inj.mp hid)
    rfl
  · rintro rfl
    rfl

section

variable {links : List Mapping} {live : List LiveSession} {seen : List SessionIdentity}
  {m last : Mapping} {path : List Mapping} {n : ℕ}

theorem any_iff_arrives :
    (live.any fun s => s.identity = m.toId && s.name = m.name) = true ↔ Arrives live m := by
  unfold Arrives
  simp only [List.any_eq_true, Bool.and_eq_true, decide_eq_true_eq]

theorem key_mem_map {id : SessionIdentity} : key id ∈ seen.map key ↔ id ∈ seen := by
  rw [List.mem_map]
  constructor
  · rintro ⟨a, ha, hkey⟩
    rw [← key_inj.mp hkey]
    exact ha
  · intro h
    exact ⟨id, h, rfl⟩

/-- A mapping that arrives is a chain of its own. -/
theorem chain_singleton (hseen : m.toId ∉ seen) (hlive : Arrives live m) :
    Chain links live seen m m [m] where
  head := rfl
  last := rfl
  next := List.IsChain.singleton _
  fresh := by
    refine ⟨List.nodup_singleton _, ?_⟩
    intro id hid
    rw [List.mem_singleton.mp hid]
    exact hseen
  arrives := hlive
  first := nofun

/-- A mapping goes before a chain. -/
theorem Chain.cons {l : Mapping} (h : Chain links live (m.toId :: seen) l last path)
    (hseen : m.toId ∉ seen) (hlive : ¬Arrives live m) (hnext : Next links m l) :
    Chain links live seen m last (m :: path) := by
  cases path with
  | nil => cases h.head
  | cons l' path =>
    obtain rfl : l' = l := Option.some.inj h.head
    constructor
    · rfl
    · exact h.last
    · exact List.isChain_cons_cons.mpr ⟨hnext, h.next⟩
    · constructor
      · refine List.nodup_cons.mpr ⟨fun hmem => ?_, h.fresh.1⟩
        exact h.fresh.2 _ hmem (List.mem_cons_self ..)
      · intro id hid
        rcases List.mem_cons.mp hid with rfl | hid
        · exact hseen
        · intro hmem
          exact h.fresh.2 id hid (List.mem_cons_of_mem _ hmem)
    · exact h.arrives
    · intro l hl
      rcases List.mem_cons.mp hl with rfl | hl
      · exact hlive
      · exact h.first l hl

/-- What is left of a chain after its first mapping. -/
theorem Chain.tail {l : Mapping} (h : Chain links live seen m last (m :: l :: path)) :
    Next links m l ∧ ¬Arrives live m ∧ Chain links live (m.toId :: seen) l last (l :: path) := by
  obtain ⟨hnext, hrest⟩ := List.isChain_cons_cons.mp h.next
  obtain ⟨hfirst, hfresh⟩ := List.nodup_cons.mp h.fresh.1
  refine ⟨hnext, h.first m (List.mem_cons_self ..), rfl, h.last, hrest, ⟨hfresh, ?_⟩, h.arrives, ?_⟩
  · intro id hid hmem
    rcases List.mem_cons.mp hmem with rfl | hmem
    · exact hfirst hid
    · exact h.fresh.2 id (List.mem_cons_of_mem _ hid) hmem
  · intro x hx
    exact h.first x (List.mem_cons_of_mem _ hx)

/-- **The walk finds the end of a chain**, if its rounds are enough for the chain. -/
theorem walk_eq_some {target : SessionIdentity} :
    walk links live n m.toId m.name (seen.map key) = some target ↔
      ∃ path last, Chain links live seen m last path ∧ path.length ≤ n ∧ last.toId = target := by
  -- induction on the number of steps that are left; a chain is walked from its first mapping on
  induction n generalizing m seen with
  | zero =>
    constructor
    · nofun
    · rintro ⟨path, last, h, hlength, -⟩
      rw [List.length_eq_zero_iff.mp (Nat.le_zero.mp hlength)] at h
      cases h.head
  | succ n ih =>
    unfold walk
    constructor
    · intro h
      split at h
      · cases h
      · rename_i hseen
        rw [key_mem_map] at hseen
        split at h
        · rename_i hlive
          cases h
          exact ⟨[m], m, chain_singleton hseen (any_iff_arrives.mp hlive), Nat.le_add_left .., rfl⟩
        · rename_i hlive
          rw [any_iff_arrives] at hlive
          split at h
          · rename_i l hnext
            have hwalk : walk links live n l.toId l.name ((m.toId :: seen).map key) = some target :=
              h
            obtain ⟨path, last, hchain, hlength, htarget⟩ := ih.mp hwalk
            exact ⟨m :: path, last, hchain.cons hseen hlive hnext, Nat.succ_le_succ hlength,
              htarget⟩
          · cases h
    -- a chain is either its first mapping, or goes on with the one mapping that leaves from there
    · rintro ⟨path, last, h, hlength, rfl⟩
      cases path with
      | nil => cases h.head
      | cons m' path =>
        obtain rfl : m' = m := Option.some.inj h.head
        have hseen : key m'.toId ∉ seen.map key := by
          rw [key_mem_map]
          exact h.fresh.2 _ (List.mem_cons_self ..)
        rw [if_neg hseen]
        cases path with
        | nil =>
          obtain rfl : m' = last := Option.some.inj h.last
          rw [if_pos (any_iff_arrives.mpr h.arrives)]
        | cons l path =>
          obtain ⟨hnext, hlive, hrest⟩ := h.tail
          rw [if_neg (fun hany => hlive (any_iff_arrives.mp hany))]
          have hfilter : (links.filter fun l => l.fromId = m'.toId) = [l] := hnext
          rw [hfilter]
          show walk links live n l.toId l.name ((m'.toId :: seen).map key) = _
          exact ih.mpr
            ⟨l :: path, last, hrest, Nat.le_of_succ_le_succ hlength, rfl⟩

/-- Every mapping after the first leaves from where the one before leads to. -/
theorem fromId_of_chain (h : (m :: path).IsChain (Next links)) :
    path.map Mapping.fromId = (m :: path).dropLast.map Mapping.toId ∧ ∀ l ∈ path, l ∈ links := by
  induction path generalizing m with
  | nil => exact ⟨rfl, nofun⟩
  | cons l path ih =>
    obtain ⟨hnext, hrest⟩ := List.isChain_cons_cons.mp h
    have hl : l ∈ links.filter fun x => x.fromId = m.toId := by
      rw [hnext]
      exact List.mem_singleton_self l
    obtain ⟨hlinks, hfrom⟩ := List.mem_filter.mp hl
    obtain ⟨hmap, hmem⟩ := ih hrest
    constructor
    · rw [List.map_cons, hmap, of_decide_eq_true hfrom]
      rfl
    · intro x hx
      rcases List.mem_cons.mp hx with rfl | hx
      · exact hlinks
      · exact hmem x hx

/-- **The bound of the loop is never reached.** -/
theorem Chain.length_le (h : Chain links live seen m last path) :
    path.length ≤ links.length + 1 := by
  cases path with
  | nil => exact Nat.zero_le _
  | cons m' path =>
    obtain ⟨hmap, hmem⟩ := fromId_of_chain h.next
    have hnodup : path.Nodup := by
      apply List.Nodup.of_map Mapping.fromId
      rw [hmap]
      exact h.fresh.1.sublist ((List.dropLast_sublist _).map _)
    exact Nat.succ_le_succ (List.subperm_of_subset hnodup hmem).length_le

end

/-- **Lineages are exactly the chains.**  After the live sessions there is one entry for each
    mapping that a chain starts with, in the order of the mappings, and it has the session at the
    end of the chain; chains of any length are found. -/
theorem lineages_exact (previous added : List Mapping) (live : List LiveSession) :
    ∃ ends : Mapping → Option SessionIdentity,
      (∀ m target, ends m = some target ↔
        ∃ path last, Chain (added ++ previous) live [m.fromId] m last path ∧ last.toId = target) ∧
      workspaceLineages previous added live =
        live.map plain ++ (added ++ previous).filterMap fun m => (ends m).map (restored m) := by
  refine ⟨fun m => walk (added ++ previous) live ((added ++ previous).length + 1) m.toId m.name
    [key m.fromId], ?_, rfl⟩
  intro m target
  show walk _ _ _ _ _ ([m.fromId].map key) = some target ↔ _
  rw [walk_eq_some]
  constructor
  · rintro ⟨path, last, hchain, -, htarget⟩
    exact ⟨path, last, hchain, htarget⟩
  · rintro ⟨path, last, hchain, htarget⟩
    exact ⟨path, last, hchain, hchain.length_le, htarget⟩

end Hmux.Recovery
