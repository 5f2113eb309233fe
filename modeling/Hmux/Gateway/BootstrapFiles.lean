import Hmux.Gateway.Bootstrap

namespace Hmux.Bootstrap

open Lib

/-!
# The files of an enrollment

Which files the writers leave behind, whatever the order of their operations, their errors and the
crashes of their processes:

* `WriterOk` — a file has the link count of its names, its whole text once it is published, and two
  names only between the two operations of its writer, or if these were cut off;
* `Files`, `Files.spawn`, `Files.stepWriter`, `Files.killWriters` — all writers together.

The invariant is about each writer on its own, and the steps of one writer leave the names and the
inodes of the others alone; that is what makes the number of processes and of writers irrelevant.
-/

/-- The file of the writer is under its name, unless the name was retired. -/
def Phase.published : Phase → Bool
  | .unlinking | .syncing | .retiring | .done (.ok ()) => true
  | _ => false

/-- What a directory has of a writer. -/
structure WriterOk (d : LinkDir Name) (k : ℕ) (w : Writer) (cut : Bool) : Prop where
  target : ∀ m, w.target ≠ .temp m
  links : d.links k =
    (if d.names (.temp k) = some k then 1 else 0) + (if d.names w.target = some k then 1 else 0)
  creating : w.phase = .creating → d.names (.temp k) ≠ some k ∧ d.names w.target ≠ some k
  staged : w.phase = .writing ∨ w.phase = .linking →
    d.names (.temp k) = some k ∧ d.names w.target ≠ some k
  failed : ∀ e, w.phase = .cleaning false e → d.names w.target ≠ some k
  data : w.phase = .linking ∨ d.names w.target = some k → d.bytes k = w.data
  both : d.names (.temp k) = some k → d.names w.target = some k → w.phase.linked = true ∨ cut = true
  published : w.phase.published = true → w.target ≠ .setup → d.names w.target ≠ none
  retiring : w.phase = .retiring → w.target = .credentials

namespace WriterOk

variable {d d' : LinkDir Name} {k : ℕ} {w : Writer} {cut cut' : Bool}

/-- A writer does not notice what happens to other files. -/
theorem frame (h : WriterOk d k w cut) (hnames : ∀ n, d'.names n = some k ↔ d.names n = some k)
    (hlinks : d'.links k = d.links k) (hbytes : d'.bytes k = d.bytes k)
    (hkept : w.target ≠ .setup → d.names w.target ≠ none → d'.names w.target ≠ none)
    (hcut : cut = true → cut' = true) : WriterOk d' k w cut' where
  target := h.target
  links := by
    simp only [hnames]
    rw [hlinks, h.links]
  creating hphase := by
    simp only [ne_eq, hnames]
    exact h.creating hphase
  staged hphase := by
    simp only [ne_eq, hnames]
    exact h.staged hphase
  failed e hphase := by
    simp only [ne_eq, hnames]
    exact h.failed e hphase
  data hdata := by
    rw [hnames] at hdata
    rw [hbytes]
    exact h.data hdata
  both htemp htarget := by
    rw [hnames] at htemp htarget
    exact (h.both htemp htarget).imp id hcut
  published hphase hsetup := hkept hsetup (h.published hphase hsetup)
  retiring := h.retiring

/-- A name of the file goes, but not one that its writer still needs. -/
theorem unlink (h : WriterOk d k w cut) {n : Name}
    (hown : d.names n = some k → n = .temp k ∨ n = w.target)
    (htemp : n = .temp k → w.phase ≠ .writing ∧ w.phase ≠ .linking)
    (htarget : n = w.target → w.target = .setup) : WriterOk (d.unlink n) k w cut where
  target := h.target
  links := by
    have hne := h.target k
    have hnone : ¬(none : Option ℕ) = some k := nofun
    rw [LinkDir.links_unlink, LinkDir.names_unlink, LinkDir.names_unlink, h.links]
    by_cases hn : d.names n = some k
    -- one of the two names goes, so there is one link less
    · rw [if_pos hn]
      rcases hown hn with rfl | rfl
      · rw [if_pos rfl, if_pos hn, if_neg hnone, if_neg hne]
        omega
      · rw [if_neg hne.symm, if_pos rfl, if_pos hn, if_neg hnone]
        omega
    · rw [if_neg hn]
      -- the name that goes was none of the file's
      have hsame : ∀ m, ((if m = n then none else d.names m) = some k) ↔ d.names m = some k := by
        intro m
        by_cases hm : m = n
        · rw [if_pos hm, hm]
          exact ⟨nofun, fun heq => absurd heq hn⟩
        · rw [if_neg hm]
      simp only [hsame]
  creating hphase := by
    have := h.creating hphase
    rw [LinkDir.names_unlink, LinkDir.names_unlink]
    constructor
    · split
      · nofun
      · exact this.1
    · split
      · nofun
      · exact this.2
  staged hphase := by
    have := h.staged hphase
    rw [LinkDir.names_unlink, LinkDir.names_unlink]
    constructor
    -- the temporary name is still needed in these phases
    · rw [if_neg]
      · exact this.1
      · intro heq
        have hne := htemp heq.symm
        exact hphase.elim hne.1 hne.2
    · split
      · nofun
      · exact this.2
  failed e hphase := by
    rw [LinkDir.names_unlink]
    split
    · nofun
    · exact h.failed e hphase
  data hdata := by
    rw [LinkDir.bytes_unlink]
    refine h.data (hdata.imp id fun hname => ?_)
    rw [LinkDir.names_unlink] at hname
    split at hname
    · cases hname
    · exact hname
  both hname htarget' := by
    rw [LinkDir.names_unlink] at hname htarget'
    split at hname
    · cases hname
    · split at htarget'
      · cases htarget'
      · exact h.both hname htarget'
  published hphase hsetup := by
    rw [LinkDir.names_unlink, if_neg]
    · exact h.published hphase hsetup
    -- only the setup token is ever retired
    · intro heq
      exact hsetup (htarget heq.symm)
  retiring := h.retiring

/-- A writer whose temporary file is gone may go on to any of the phases after it. -/
theorem settle (h : WriterOk d k w cut) (phase : Phase) (htemp : d.names (.temp k) ≠ some k)
    (hphase : phase = .syncing ∨ phase = .retiring ∨ ∃ r, phase = .done r)
    (hpublished : phase.published = true → w.target ≠ .setup → d.names w.target ≠ none)
    (hretiring : phase = .retiring → w.target = .credentials) :
    WriterOk d k { w with phase } cut where
  target := h.target
  links := h.links
  creating heq := by rcases hphase with rfl | rfl | ⟨r, rfl⟩ <;> cases heq
  staged heq := by
    rcases hphase with rfl | rfl | ⟨r, rfl⟩ <;> rcases heq with heq | heq <;> cases heq
  failed e heq := by rcases hphase with rfl | rfl | ⟨r, rfl⟩ <;> cases heq
  data hdata := by
    rcases hdata with heq | hname
    · rcases hphase with rfl | rfl | ⟨r, rfl⟩ <;> cases heq
    · exact h.data (.inr hname)
  both hname _ := absurd hname htemp
  published := hpublished
  retiring := hretiring

/-- A writer that ends with an error, with nothing else done. -/
theorem give_up (h : WriterOk d k w cut) (e : WriteError)
    (hcut : w.phase.linked = true → cut' = true)
    (hmono : cut = true → cut' = true) :
    WriterOk d k { w with phase := .done (.error e) } cut' where
  target := h.target
  links := h.links
  creating := nofun
  staged := nofun
  failed := nofun
  data hdata := h.data (.inr (hdata.resolve_left nofun))
  both htemp htarget := .inr ((h.both htemp htarget).elim hcut hmono)
  published := nofun
  retiring := nofun

/-- A writer dies with its process. -/
theorem dead (h : WriterOk d k w cut) (hcut : w.phase.linked = true → cut' = true)
    (hmono : cut = true → cut' = true) : WriterOk d k { w with phase := .dead } cut' where
  target := h.target
  links := h.links
  creating := nofun
  staged := nofun
  failed := nofun
  data hdata := h.data (.inr (hdata.resolve_left nofun))
  both htemp htarget := .inr ((h.both htemp htarget).elim hcut hmono)
  published := nofun
  retiring := nofun

end WriterOk

/-- What the writers have done to the directory. -/
structure Files (s : State) : Prop where
  owned : ∀ n k, s.dir.names n = some k → k < s.started ∧ (n = .temp k ∨ n = (s.writers k).target)
  published : ∀ n k, s.dir.names n = some k → n = (s.writers k).target → s.published k = true
  writers : ∀ k, WriterOk s.dir k (s.writers k) (s.cut k)

namespace Files

variable {s s' : State} {k : ℕ}

/-- Nothing has happened to the directory and the writers. -/
theorem same (h : Files s) (hdir : s'.dir = s.dir) (hwriters : s'.writers = s.writers)
    (hstarted : s'.started = s.started) (hpublished : s'.published = s.published)
    (hcut : s'.cut = s.cut) : Files s' where
  owned := by
    rw [hdir, hwriters, hstarted]
    exact h.owned
  published := by
    rw [hdir, hwriters, hpublished]
    exact h.published
  writers := by
    rw [hdir, hwriters, hcut]
    exact h.writers

/-- The temporary name of a writer is never that of another file. -/
theorem temp (h : Files s) {j : ℕ} (hj : s.dir.names (.temp k) = some j) : j = k := by
  rcases (h.owned _ _ hj).2 with heq | heq
  · injection heq with heq
    exact heq.symm
  · exact absurd heq.symm ((h.writers j).target k)

/-- A new writer has no files. -/
theorem spawn (h : Files s) {owner : Owner} {target : Name} {data : List UInt8}
    (htarget : ∀ m, target ≠ .temp m) : Files (s.spawn owner target data) := by
  have hfresh : ∀ n, s.dir.names n ≠ some s.started := by
    intro n hn
    exact Nat.lt_irrefl _ (h.owned n _ hn).1
  constructor
  · intro n k hn
    have hk := h.owned n k hn
    refine ⟨Nat.lt_succ_of_lt hk.1, ?_⟩
    show n = .temp k ∨ n = (Function.update s.writers s.started _ k).target
    rw [Function.update_of_ne (Nat.ne_of_lt hk.1)]
    exact hk.2
  · intro n k hn hname
    change n = (Function.update s.writers s.started _ k).target at hname
    rw [Function.update_of_ne (Nat.ne_of_lt (h.owned n k hn).1)] at hname
    exact h.published n k hn hname
  · intro k
    show WriterOk s.dir k (Function.update s.writers s.started _ k) (s.cut k)
    by_cases hk : k = s.started
    · subst hk
      rw [Function.update_self]
      refine ⟨htarget, ?_, fun _ => ⟨hfresh _, hfresh _⟩, nofun, nofun, ?_, ?_, nofun, nofun⟩
      · have hlinks := (h.writers s.started).links
        rw [if_neg (hfresh _), if_neg (hfresh _)] at hlinks
        rw [if_neg (hfresh _), if_neg (hfresh _)]
        exact hlinks
      · rintro (heq | hn)
        · cases heq
        · exact absurd hn (hfresh _)
      · intro hn
        exact absurd hn (hfresh _)
    · rw [Function.update_of_ne hk]
      exact h.writers k

/-- The writers of a process die. -/
theorem killWriters (h : Files s) (owner : Owner) : Files (s.killWriters owner) := by
  constructor
  · intro n k hn
    have hk := h.owned n k hn
    refine ⟨hk.1, ?_⟩
    show n = .temp k ∨ n = (if (s.writers k).owner = owner then { s.writers k with phase := .dead }
      else s.writers k).target
    split
    · exact hk.2
    · exact hk.2
  · intro n k hn hname
    refine h.published n k hn (hname.trans ?_)
    show (if _ then _ else _ : Writer).target = _
    split
    · rfl
    · rfl
  · intro k
    have hw := h.writers k
    have hmono : s.cut k = true → (s.killWriters owner).cut k = true := by
      intro hcut
      show (s.cut k || _) = true
      rw [hcut, Bool.true_or]
    show WriterOk s.dir k (if (s.writers k).owner = owner then { s.writers k with phase := .dead }
      else s.writers k) _
    split
    · rename_i howner
      refine hw.dead (fun hlinked => ?_) hmono
      show (s.cut k || (_ && (s.writers k).phase.linked)) = true
      rw [hlinked, Bool.and_true, decide_eq_true howner, Bool.or_true]
    · exact hw.frame (fun _ => Iff.rfl) rfl rfl (fun _ hname => hname) hmono

end Files

/-! ### One operation of a writer

One lemma for each phase, with the case that the operation fails. -/

section

variable {d : LinkDir Name} {j k : ℕ} {w : Writer} {cut : Bool} {data : List UInt8} {n : Name}

/-- The file of a writer comes up under its temporary name. -/
theorem WriterOk.create_other (h : WriterOk d j w cut) (hj : j ≠ k) :
    WriterOk (d.create (.temp k) k) j w cut := by
  have htemp : ∀ n, (d.create (.temp k) k).names n = some j ↔ d.names n = some j ∧ n ≠ .temp k := by
    intro n
    rw [LinkDir.names_create]
    by_cases hn : n = .temp k
    · rw [if_pos hn]
      exact ⟨fun heq => absurd (Option.some.inj heq).symm hj, fun heq => absurd hn heq.2⟩
    · rw [if_neg hn]
      exact ⟨fun heq => ⟨heq, hn⟩, fun heq => heq.1⟩
  have hne : (Name.temp j) ≠ .temp k := by
    intro heq
    exact hj (Name.temp.inj heq)
  have hown : (d.create (.temp k) k).names (.temp j) = some j ↔ d.names (.temp j) = some j := by
    rw [htemp, and_iff_left hne]
  have htarget : (d.create (.temp k) k).names w.target = some j ↔ d.names w.target = some j := by
    rw [htemp, and_iff_left (h.target k)]
  have hlinks : (d.create (.temp k) k).links j = d.links j := Function.update_of_ne hj _ _
  have hbytes : (d.create (.temp k) k).bytes j = d.bytes j := Function.update_of_ne hj _ _
  refine ⟨h.target, ?_, ?_, ?_, ?_, ?_, ?_, ?_, h.retiring⟩
  · simp only [hown, htarget]
    rw [hlinks, h.links]
  · simpa only [ne_eq, hown, htarget] using h.creating
  · simpa only [ne_eq, hown, htarget] using h.staged
  · simpa only [ne_eq, htarget] using h.failed
  · simpa only [htarget, hbytes] using h.data
  · simpa only [hown, htarget] using h.both
  · intro hphase hsetup
    rw [LinkDir.names_create, if_neg (h.target k)]
    exact h.published hphase hsetup

theorem WriterOk.write_other (h : WriterOk d j w cut) (hj : j ≠ k) :
    WriterOk (d.write k data) j w cut :=
  h.frame (fun _ => Iff.rfl) rfl (Function.update_of_ne hj _ _) (fun _ hname => hname) id

/-- The file of another writer is linked to a name that was free. -/
theorem WriterOk.link_other (h : WriterOk d j w cut) (hj : j ≠ k) (hfree : d.names n = none) :
    WriterOk (d.link k n) j w cut := by
  apply h.frame
  · intro m
    rw [LinkDir.names_link]
    by_cases hm : m = n
    · rw [if_pos hm, hm, hfree]
      exact ⟨fun heq => absurd (Option.some.inj heq).symm hj, nofun⟩
    · rw [if_neg hm]
  · exact Function.update_of_ne hj _ _
  · rfl
  · intro _ hname
    rw [LinkDir.names_link]
    split
    · nofun
    · exact hname
  · exact id

end

namespace Files

variable {s : State} {k : ℕ}

/-- The temporary name of another writer goes. -/
theorem unlink_temp (h : Files s) {j : ℕ} (hj : j ≠ k) :
    WriterOk (s.dir.unlink (.temp k)) j (s.writers j) (s.cut j) := by
  refine (h.writers j).unlink (fun hn => ?_) (fun heq => ?_) (fun heq => ?_)
  · exact absurd (h.temp hn) hj
  · exact absurd (Name.temp.inj heq).symm hj
  · exact absurd heq.symm ((h.writers j).target k)

/-- The setup token is retired. -/
theorem unlink_setup (h : Files s) (j : ℕ) :
    WriterOk (s.dir.unlink .setup) j (s.writers j) (s.cut j) :=
  (h.writers j).unlink (fun hn => (h.owned _ _ hn).2) nofun Eq.symm

/-- A writer goes on, and leaves only names of its own. -/
theorem move (h : Files s) {phase : Phase} {dir : LinkDir Name} {cut : Bool} (hk : k < s.started)
    (howned : ∀ n j, dir.names n = some j →
      s.dir.names n = some j ∨
        j = k ∧ (n = .temp k ∨ n = (s.writers k).target ∧ phase.linked = true))
    (hself : WriterOk dir k { s.writers k with phase } cut)
    (hother : ∀ j, j ≠ k → WriterOk dir j (s.writers j) (s.cut j)) :
    Files { s with
      dir, cut := Function.update s.cut k cut
      published := Function.update s.published k (phase.linked || s.published k)
      writers := Function.update s.writers k { s.writers k with phase } } := by
  -- a step of a writer changes neither its own target nor that of another
  have htarget : ∀ j, (Function.update s.writers k { s.writers k with phase } j).target =
      (s.writers j).target := by
    intro j
    by_cases hj : j = k
    · subst hj
      rw [Function.update_self]
    · rw [Function.update_of_ne hj]
  constructor
  · intro n j hn
    show j < s.started ∧ (n = .temp j ∨ n = (Function.update s.writers k _ j).target)
    rw [htarget]
    -- a name is owned by who owned it, or it is this writer's temporary name or its target
    rcases howned n j hn with hold | ⟨rfl, hnew⟩
    · exact h.owned n j hold
    · exact ⟨hk, hnew.imp id And.left⟩
  · intro n j hn hname
    change n = (Function.update s.writers k _ j).target at hname
    rw [htarget] at hname
    show Function.update s.published k _ j = true
    -- only the writer that links its target publishes it
    by_cases hj : j = k
    · subst hj
      rw [Function.update_self, Bool.or_eq_true]
      rcases howned n j hn with hold | ⟨-, rfl | ⟨-, hlinked⟩⟩
      · exact .inr (h.published n j hold hname)
      · exact absurd hname.symm ((h.writers j).target j)
      · exact .inl hlinked
    · rw [Function.update_of_ne hj]
      exact h.published n j ((howned n j hn).resolve_right fun hself => hj hself.1) hname
  · intro j
    show WriterOk dir j (Function.update s.writers k _ j) (Function.update s.cut k cut j)
    by_cases hj : j = k
    · subst hj
      rw [Function.update_self, Function.update_self]
      exact hself
    · rw [Function.update_of_ne hj, Function.update_of_ne hj]
      exact hother j hj

end Files

section

variable {d : LinkDir Name} {k : ℕ} {w : Writer} {cut : Bool}

/-- The temporary file is created. -/
theorem WriterOk.created (h : WriterOk d k w cut) (hphase : w.phase = .creating) :
    WriterOk (d.create (.temp k) k) k { w with phase := .writing } cut := by
  have hne := h.target k
  have htemp : (d.create (.temp k) k).names (.temp k) = some k := by
    rw [LinkDir.names_create, if_pos rfl]
  have htarget : (d.create (.temp k) k).names w.target ≠ some k := by
    rw [LinkDir.names_create, if_neg hne]
    exact (h.creating hphase).2
  refine ⟨h.target, ?_, nofun, fun _ => ⟨htemp, htarget⟩, nofun, ?_, ?_, nofun, nofun⟩
  · rw [if_pos htemp, if_neg htarget]
    exact Function.update_self ..
  · rintro (heq | hname)
    · cases heq
    · exact absurd hname htarget
  · intro _ hname
    exact absurd hname htarget

/-- The whole text is written before the file gets its name. -/
theorem WriterOk.written (h : WriterOk d k w cut) (hphase : w.phase = .writing) :
    WriterOk (d.write k w.data) k { w with phase := .linking } cut where
  target := h.target
  links := h.links
  creating := nofun
  staged _ := h.staged (.inl hphase)
  failed := nofun
  data _ := Function.update_self ..
  both _ hname := absurd hname (h.staged (.inl hphase)).2
  published := nofun
  retiring := nofun

/-- A writer that has not linked its file gives up. -/
theorem WriterOk.fail (h : WriterOk d k w cut) (e : WriteError)
    (hphase : w.phase = .writing ∨ w.phase = .linking) :
    WriterOk d k { w with phase := .cleaning false e } cut where
  target := h.target
  links := h.links
  creating := nofun
  staged := nofun
  failed _ _ := (h.staged hphase).2
  data hdata := h.data (.inr (hdata.resolve_left nofun))
  both _ hname := absurd hname (h.staged hphase).2
  published := nofun
  retiring := nofun

/-- The file gets its name. -/
theorem WriterOk.link (h : WriterOk d k w cut) (hphase : w.phase = .linking) :
    WriterOk (d.link k w.target) k { w with phase := .unlinking } cut := by
  have hstaged := h.staged (.inr hphase)
  have htemp : (d.link k w.target).names (.temp k) = some k := by
    rw [LinkDir.names_link, if_neg (h.target k).symm]
    exact hstaged.1
  have htarget : (d.link k w.target).names w.target = some k := by
    rw [LinkDir.names_link, if_pos rfl]
  refine ⟨h.target, ?_, nofun, nofun, nofun, ?_, fun _ _ => .inl rfl, ?_, nofun⟩
  · show Function.update d.links k (d.links k + 1) k = _
    rw [Function.update_self, if_pos htemp, if_pos htarget, h.links, if_pos hstaged.1,
      if_neg hstaged.2]
  · intro _
    exact h.data (.inl hphase)
  · intro _ _
    rw [htarget]
    nofun

/-- The removal of the temporary name failed; the guard will try it again. -/
theorem WriterOk.retry (h : WriterOk d k w cut) (e : WriteError) :
    WriterOk d k { w with phase := .cleaning true e } cut where
  target := h.target
  links := h.links
  creating := nofun
  staged := nofun
  failed := nofun
  data hdata := h.data (.inr (hdata.resolve_left nofun))
  both _ _ := .inl rfl
  published := nofun
  retiring := nofun

/-- The temporary name is removed, and the writer goes on to one of the phases after that. -/
theorem WriterOk.cleaned (h : WriterOk d k w cut) {phase : Phase}
    (hnot : w.phase ≠ .writing ∧ w.phase ≠ .linking)
    (hphase : phase = .syncing ∨ phase = .retiring ∨ ∃ r, phase = .done r)
    (hpublished : phase.published = true → w.phase.published = true)
    (hretiring : phase = .retiring → w.target = .credentials) :
    WriterOk (d.unlink (.temp k)) k { w with phase } cut := by
  have hgone : (d.unlink (.temp k)).names (.temp k) ≠ some k := by
    rw [LinkDir.names_unlink, if_pos rfl]
    nofun
  have hunlink := h.unlink (n := .temp k) (fun _ => .inl rfl) (fun _ => hnot)
    (fun heq => absurd heq.symm (h.target k))
  exact hunlink.settle phase hgone hphase
    (fun heq hsetup => hunlink.published (hpublished heq) hsetup) hretiring

end

namespace Files

variable {s : State}

/-- A removed name is nobody's. -/
theorem names_of_unlink {d : LinkDir Name} {n m : Name} {j : ℕ}
    (h : (d.unlink n).names m = some j) : d.names m = some j := by
  rw [LinkDir.names_unlink] at h
  split at h
  · cases h
  · exact h

/-- **One operation of a writer**, whether it succeeds or not. -/
theorem stepWriter (h : Files s) (k : ℕ) (fault : Option IoKind) :
    Files (s.stepWriter k fault) := by
  unfold State.stepWriter
  split
  · rename_i hk
    have hw := h.writers k
    -- a step that changes no name
    have hkept : ∀ {phase : Phase}, WriterOk s.dir k { s.writers k with phase } (s.cut k) →
        Files { s with
          dir := s.dir, cut := Function.update s.cut k (s.cut k)
          published := Function.update s.published k (phase.linked || s.published k)
          writers := Function.update s.writers k { s.writers k with phase } } :=
      fun hself => h.move hk (fun n j hn => .inl hn) hself fun j _ => h.writers j
    -- a step that removes the temporary name
    have hcleaned : ∀ {phase : Phase},
        WriterOk (s.dir.unlink (.temp k)) k { s.writers k with phase } (s.cut k) →
        Files { s with
          dir := s.dir.unlink (.temp k), cut := Function.update s.cut k (s.cut k)
          published := Function.update s.published k (phase.linked || s.published k)
          writers := Function.update s.writers k { s.writers k with phase } } :=
      fun hself => h.move hk (fun n j hn => .inl (names_of_unlink hn)) hself
        fun j hj => h.unlink_temp hj
    unfold Writer.step
    cases hphase : (s.writers k).phase with
    | creating =>
      cases fault with
      | some e =>
        simp only [Phase.linked, Bool.false_and, Bool.or_false]
        exact hkept (hw.give_up _ (by rw [hphase]; nofun) id)
      | none =>
        simp only [Phase.linked, Bool.false_and, Bool.or_false]
        -- the new name is the temporary one
        refine h.move hk (fun n j hn => ?_) (hw.created hphase)
          fun j hj => (h.writers j).create_other hj
        rw [LinkDir.names_create] at hn
        split at hn
        · rename_i heq
          exact .inr ⟨(Option.some.inj hn).symm, .inl heq⟩
        · exact .inl hn
    | writing =>
      cases fault with
      | some e =>
        simp only [Phase.linked, Bool.false_and, Bool.or_false]
        exact hkept (hw.fail _ (.inl hphase))
      | none =>
        simp only [Phase.linked, Bool.false_and, Bool.or_false]
        exact h.move hk (fun n j hn => .inl hn) (hw.written hphase)
          fun j hj => (h.writers j).write_other hj
    | linking =>
      cases fault with
      | some e =>
        simp only [Phase.linked, Bool.false_and, Bool.or_false]
        exact hkept (hw.fail _ (.inr hphase))
      | none =>
        dsimp only
        split
        · simp only [Phase.linked, Bool.false_and, Bool.or_false]
          exact hkept (hw.fail _ (.inr hphase))
        · rename_i hfree
          simp only [Phase.linked, Bool.false_and, Bool.or_false]
          -- the new name is the target, which was free
          refine h.move hk (fun n j hn => ?_) (hw.link hphase)
            fun j hj => (h.writers j).link_other hj (by simpa using hfree)
          rw [LinkDir.names_link] at hn
          split at hn
          · rename_i heq
            exact .inr ⟨(Option.some.inj hn).symm, .inr ⟨heq, rfl⟩⟩
          · exact .inl hn
    | unlinking =>
      cases fault with
      | some e =>
        simp only [Phase.linked, Bool.not_true, Bool.and_false, Bool.false_and, Bool.or_false]
        exact hkept (hw.retry _)
      | none =>
        simp only [Phase.linked, Option.isSome_none, Bool.and_false, Bool.or_false]
        exact hcleaned (hw.cleaned (by rw [hphase]; exact ⟨nofun, nofun⟩) (.inl rfl)
          (fun _ => by rw [hphase]; rfl) nofun)
    | syncing =>
      cases fault with
      | some e =>
        simp only [Phase.linked, Bool.false_and, Bool.or_false]
        exact hcleaned (hw.cleaned (by rw [hphase]; exact ⟨nofun, nofun⟩) (.inr (.inr ⟨_, rfl⟩))
          nofun nofun)
      | none =>
        simp only [Phase.linked, Bool.false_and, Bool.or_false]
        -- credentials retire the setup token next, everything else is done
        refine hcleaned (hw.cleaned (by rw [hphase]; exact ⟨nofun, nofun⟩) ?_ ?_ ?_)
        · split
          · exact .inr (.inl rfl)
          · exact .inr (.inr ⟨_, rfl⟩)
        · intro _
          rw [hphase]
          rfl
        · intro heq
          split at heq
          · assumption
          · cases heq
    | retiring =>
      -- whether the setup token could be removed does not matter
      have hsettle : ∀ {d : LinkDir Name}, WriterOk d k (s.writers k) (s.cut k) →
          WriterOk d k { s.writers k with phase := .done (.ok ()) } (s.cut k) := by
        intro d hd
        refine ⟨hd.target, hd.links, nofun, nofun, nofun, ?_, ?_, ?_, nofun⟩
        · intro hdata
          exact hd.data (.inr (hdata.resolve_left nofun))
        · intro hname htarget
          refine (hd.both hname htarget).imp (fun hlinked => ?_) id
          rw [hphase] at hlinked
          cases hlinked
        · intro _ hsetup
          exact hd.published (by rw [hphase]; rfl) hsetup
      cases fault with
      | some e =>
        simp only [Phase.linked, Bool.false_and, Bool.or_false]
        exact hkept (hsettle hw)
      | none =>
        simp only [Phase.linked, Bool.false_and, Bool.or_false]
        exact h.move hk (fun n j hn => .inl (names_of_unlink hn)) (hsettle (h.unlink_setup k))
          fun j _ => h.unlink_setup j
    | cleaning linked e =>
      cases fault with
      | some e' =>
        dsimp only
        -- a guard that fails leaves both names, if its file was linked
        refine h.move hk (fun n j hn => .inl hn) (hw.give_up _ ?_ ?_) fun j _ => h.writers j
        · intro hlinked
          rw [hphase] at hlinked
          simp only [Phase.linked] at hlinked ⊢
          simp [hlinked]
        · intro hcut
          simp [hcut]
      | none =>
        simp only [Option.isSome_none, Bool.and_false, Bool.or_false]
        exact hcleaned (hw.cleaned (by rw [hphase]; exact ⟨nofun, nofun⟩) (.inr (.inr ⟨_, rfl⟩))
          nofun nofun)
    | done r =>
      simp only [Phase.linked, Bool.false_and, Bool.or_false]
      refine hkept ?_
      rw [← hphase]
      exact hw
    | dead =>
      simp only [Phase.linked, Bool.false_and, Bool.or_false]
      refine hkept ?_
      rw [← hphase]
      exact hw
  · exact h

end Files

end Hmux.Bootstrap
