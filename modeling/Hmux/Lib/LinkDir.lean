import Mathlib.Logic.Function.Basic
import Mathlib.Tactic.Common

namespace Hmux.Lib

/-!
# Directories with hard links

A directory maps names to inodes; an inode has its bytes and a link count.  A file is published
under a name that must be free by linking it there and unlinking the name it was written under; a
private file is read only if it has a single link.

A crash may come between any two of these steps.  After a link and before the unlink the same inode
has two names; a reader of private files refuses such a file, since another name could still be
used to write it.
-/

/-- The kinds of an I/O error that callers tell apart. -/
inductive IoKind
  | notFound | alreadyExists | permissionDenied | invalidData | other
  deriving DecidableEq, Repr

/-- A directory. -/
structure LinkDir (ν : Type) where
  names : ν → Option ℕ
  links : ℕ → ℕ
  bytes : ℕ → List UInt8

namespace LinkDir

variable {ν : Type}

/-- The directory without files. -/
def empty : LinkDir ν := ⟨fun _ => none, fun _ => 0, fun _ => []⟩

/-- `read_private`: the file must have a single link and at most `max` bytes. -/
def readPrivate (d : LinkDir ν) (name : ν) (max : ℕ) : Except IoKind (List UInt8) :=
  match d.names name with
  | none => .error .notFound
  | some inode =>
    if d.links inode ≠ 1 then .error .permissionDenied
    else if max < (d.bytes inode).length then .error .invalidData
    else .ok (d.bytes inode)

section

variable {d : LinkDir ν} {name : ν} {max : ℕ} {data : List UInt8}

/-- A file that is missing, and only such a one, is not found. -/
theorem readPrivate_notFound : d.readPrivate name max = .error .notFound ↔ d.names name = none := by
  unfold readPrivate
  cases d.names name with
  | none => exact ⟨fun _ => rfl, fun _ => rfl⟩
  | some j =>
    dsimp only
    constructor
    · intro h
      split at h
      · cases h
      · split at h <;> cases h
    · nofun

/-- A file that is refused for its link count. -/
theorem readPrivate_denied (h : d.readPrivate name max = .error .permissionDenied) :
    ∃ j, d.names name = some j ∧ d.links j ≠ 1 := by
  unfold readPrivate at h
  cases hname : d.names name with
  | none =>
    rw [hname] at h
    cases h
  | some j =>
    rw [hname] at h
    dsimp only at h
    split at h
    · next hlinks => exact ⟨j, rfl, hlinks⟩
    · split at h <;> cases h

/-- **A private file is read** if it has a single link and is not too large, and only then. -/
theorem readPrivate_ok : d.readPrivate name max = .ok data ↔
    ∃ j, d.names name = some j ∧ d.links j = 1 ∧ (d.bytes j).length ≤ max ∧ d.bytes j = data := by
  unfold readPrivate
  cases d.names name with
  | none =>
    constructor
    · nofun
    · rintro ⟨j, hj, -⟩
      cases hj
  | some j =>
    dsimp only
    constructor
    · intro h
      split at h
      · cases h
      · rename_i hlinks
        split at h
        · cases h
        · rename_i hlength
          exact ⟨j, rfl, not_not.mp hlinks, Nat.not_lt.mp hlength, Except.ok.inj h⟩
    · rintro ⟨j', ⟨⟩, hlinks, hlength, hdata⟩
      rw [if_neg (not_not.mpr hlinks), if_neg (Nat.not_lt.mpr hlength), hdata]

end

variable [DecidableEq ν]

/-- `openat` with `O_CREAT | O_EXCL`, for a free name and a fresh inode. -/
def create (d : LinkDir ν) (name : ν) (inode : ℕ) : LinkDir ν where
  names := Function.update d.names name (some inode)
  links := Function.update d.links inode 1
  bytes := Function.update d.bytes inode []

/-- `write_all`. -/
def write (d : LinkDir ν) (inode : ℕ) (data : List UInt8) : LinkDir ν :=
  { d with bytes := Function.update d.bytes inode data }

/-- `linkat`, to a name that is free. -/
def link (d : LinkDir ν) (inode : ℕ) (name : ν) : LinkDir ν :=
  { d with
    names := Function.update d.names name (some inode)
    links := Function.update d.links inode (d.links inode + 1) }

/-- `unlinkat`. -/
def unlink (d : LinkDir ν) (name : ν) : LinkDir ν :=
  match d.names name with
  | none => d
  | some inode =>
    { d with
      names := Function.update d.names name none
      links := Function.update d.links inode (d.links inode - 1) }

variable {d : LinkDir ν} {name n : ν} {inode i : ℕ}

theorem names_create :
    (d.create name inode).names n = if n = name then some inode else d.names n := by
  show Function.update d.names name (some inode) n = _
  rw [Function.update_apply]

theorem names_link : (d.link inode name).names n = if n = name then some inode else d.names n := by
  show Function.update d.names name (some inode) n = _
  rw [Function.update_apply]

theorem names_unlink : (d.unlink name).names n = if n = name then none else d.names n := by
  unfold unlink
  cases h : d.names name with
  | none =>
    dsimp only
    split
    · rename_i heq
      rw [heq, h]
    · rfl
  | some j =>
    show Function.update d.names name none n = _
    rw [Function.update_apply]

@[simp] theorem bytes_unlink : (d.unlink name).bytes = d.bytes := by
  unfold unlink
  split <;> rfl

theorem links_unlink :
    (d.unlink name).links i = if d.names name = some i then d.links i - 1 else d.links i := by
  unfold unlink
  cases h : d.names name with
  | none => rw [if_neg nofun]
  | some j =>
    show Function.update d.links j (d.links j - 1) i = _
    rw [Function.update_apply]
    by_cases hij : i = j
    · rw [if_pos hij, if_pos (by rw [hij]), hij]
    · rw [if_neg hij, if_neg fun heq => hij (Option.some.inj heq).symm]

end LinkDir

end Hmux.Lib
