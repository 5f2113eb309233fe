import Hmux.Home.CompletionRuns

namespace Hmux.Home.CompletionTracker

open Lib

/-!
# Completions do not depend on polling

A file is read in parts, each up to its last line feed at that time.  However often it is looked at
while it grows, the completions are those of its lines.

* `unread_append` — the lines of a file, in two parts;
* `observe_poll` — one observation of a session hands out what is due in the lines it reads;
* `reads_run` — every cursor of a run has read a file as it was;
* `polls_due` — several observations hand out what is due in all lines together.

What is compared is always the lines of a file from a place on, and `due`, which looks at lines and
not at polls.  A poll that reads up to the last line feed leaves the rest for the next one, so two
polls are one poll of all their lines, and any number of them are too.
-/

variable {L : Libraries} {opened : Files} {cursors cursors' : Tracker} {item : Observation}
  {binding : Binding} {info : Record} {emitted : ℕ} {cursor old : Cursor}
  {bytes bytes' : List UInt8} {start offset : ℕ} {armed : Bool} {lines : List (List UInt8 × ℕ)}

/-! ### Lines in parts

The lines from a place on, when the file has grown, are those it had and those that came since. -/

/-- The lines of a file from a place on. -/
def unread (bytes : List UInt8) (start : ℕ) : List (List UInt8 × ℕ) :=
  (LineReader.read 10 lineMax (.init start false) (bytes.drop start)).visited

/-- The end of the last of them. -/
def readUpTo (bytes : List UInt8) (start : ℕ) : ℕ :=
  (LineReader.read 10 lineMax (.init start false) (bytes.drop start)).complete

/-- A scan from a cursor that is near reads all that is unread. -/
theorem scan_false (hstart : start ≤ bytes.length) (hnear : bytes.length - start ≤ tailMax) :
    scan bytes start false = .ok (readUpTo bytes start, unread bytes start) := by
  unfold scan skips
  dsimp only
  rw [if_neg]
  · rfl
  · rw [Bool.or_eq_true, decide_eq_true_eq, decide_eq_true_eq]
    omega

/-- It ends between the cursor and the end of the file. -/
theorem readUpTo_le (hstart : start ≤ bytes.length) :
    start ≤ readUpTo bytes start ∧ readUpTo bytes start ≤ bytes.length := by
  refine ⟨LineReader.start_le_complete, ?_⟩
  have hle : readUpTo bytes start ≤ start + (bytes.drop start).length :=
    LineReader.complete_le_position
  rw [List.length_drop] at hle
  omega

/-- **The lines of a file, in two parts**: those it had, and those that came since. -/
theorem unread_append (hgrows : bytes <+: bytes') (hstart : start ≤ bytes.length) :
    unread bytes' start = unread bytes start ++ unread bytes' (readUpTo bytes start) ∧
      readUpTo bytes' start = readUpTo bytes' (readUpTo bytes start) := by
  obtain ⟨more, rfl⟩ := hgrows
  have hdrop : (bytes ++ more).drop start = bytes.drop start ++ more :=
    List.drop_append_of_le_length hstart
  have hlater : ((bytes ++ more).drop start).drop (readUpTo bytes start - start) =
      (bytes ++ more).drop (readUpTo bytes start) := by
    rw [List.drop_drop]
    congr 1
    have hle := (readUpTo_le hstart).1
    omega
  have hread : LineReader.read 10 lineMax (.init start false) (bytes.drop start ++ more) = _ :=
    LineReader.read_resume
  rw [← hdrop] at hread
  have hcomplete : (LineReader.read 10 lineMax (.init start false) (bytes.drop start)).complete =
      readUpTo bytes start := rfl
  rw [hcomplete, hlater] at hread
  unfold unread readUpTo at *
  rw [hread]
  exact ⟨rfl, rfl⟩

/-- Where no line feed follows there are no lines. -/
theorem unread_eq_nil (h : 10 ∉ bytes.drop start) :
    unread bytes start = [] ∧ readUpTo bytes start = start := by
  unfold unread readUpTo
  rw [LineReader.read_free h]
  exact ⟨rfl, rfl⟩

/-- What is due goes on from line to line. -/
theorem due_append {lines' : List (List UInt8 × ℕ)} : due L armed (lines ++ lines') =
    ((due L (due L armed lines).1 lines').1,
      (due L armed lines).2 ++ (due L (due L armed lines).1 lines').2) := by
  induction lines generalizing armed with
  | nil => rfl
  | cons line lines ih =>
    rw [List.cons_append]
    cases hevent : event L line.1 with
    | none => rw [due_cons_none hevent, due_cons_none hevent, ih]
    | some e =>
      obtain ⟨kind, timestamp⟩ := e
      cases kind with
      | taskStarted => rw [due_cons_started hevent, due_cons_started hevent, ih]
      | taskComplete =>
        rw [due_cons_complete hevent, due_cons_complete hevent, ih, List.append_assoc]

/-! ### One poll

The cursor of a session that was read says where its file was read up to and whether a task runs
there; a reading that goes on from it leaves such a cursor again. -/

/-- The anchor does not change when the file grows. -/
theorem anchor_append (hgrows : bytes <+: bytes') (hinside : offset ≤ bytes.length) :
    anchor L bytes' offset = anchor L bytes offset := by
  obtain ⟨more, rfl⟩ := hgrows
  unfold anchor
  dsimp only
  rw [List.drop_append_of_le_length (by omega), List.take_append_of_le_length]
  rw [List.length_drop]
  omega

/-- The session can be watched. -/
structure Watched (item : Observation) (binding : Binding) : Prop where
  valid : validateSessionId item.identity.id = true
  created : 1 ≤ item.identity.createdAt
  bound : item.binding = some binding
  usable : binding.usable = true

variable (L) in
/-- The cursor of a session that has read a file as it is. -/
structure Reads (cursor : Cursor) (item : Observation) (binding : Binding) (info : Record) :
    Prop where
  own : cursor.Of item binding info
  inside : cursor.offset ≤ info.bytes.length
  anchored : anchor L info.bytes cursor.offset = (cursor.anchor, cursor.anchorLen)
  passed : 10 ∉ info.bytes.drop cursor.offset

variable (L) in
/-- The cursor after a reading that goes on. -/
def nextCursor (item : Observation) (binding : Binding) (info : Record) (old : Cursor) : Cursor :=
  { ownership := item.ownership, root := binding.root, path := binding.path,
    recordId := binding.recordId, dev := info.dev, ino := info.ino,
    offset := readUpTo info.bytes old.offset,
    anchor := (anchor L info.bytes (readUpTo info.bytes old.offset)).1,
    anchorLen := (anchor L info.bytes (readUpTo info.bytes old.offset)).2,
    armed := (due L old.armed (unread info.bytes old.offset)).1 }

/-- The next cursor has read the file. -/
theorem nextCursor_reads (hinside : old.offset ≤ info.bytes.length) :
    Reads L (nextCursor L item binding info old) item binding info where
  own := ⟨rfl, rfl, rfl, rfl, rfl, rfl⟩
  inside := (readUpTo_le hinside).2
  anchored := rfl
  passed := by
    obtain ⟨done, rest, hsplit, hcut⟩ := LineReader.exists_cut 10 (info.bytes.drop old.offset)
    have hoffset : readUpTo info.bytes old.offset = old.offset + done.length := by
      unfold readUpTo
      rw [hsplit, LineReader.complete_cut hcut]
    show 10 ∉ info.bytes.drop (readUpTo info.bytes old.offset)
    rw [hoffset, ← List.drop_drop, hsplit, List.drop_left]
    exact hcut.2

/-- A file that has only grown is read on. -/
theorem Reads.same {earlier : Record} (h : Reads L old item binding earlier)
    (hdev : earlier.dev = info.dev) (hino : earlier.ino = info.ino)
    (hgrows : earlier.bytes <+: info.bytes)
    (hnear : info.bytes.length - old.offset ≤ tailMax) : old.same L item binding info = true := by
  have hanchor := (anchor_append (L := L) hgrows h.inside).trans h.anchored
  have hinside := le_trans h.inside hgrows.length_le
  unfold Cursor.same
  simp only [Bool.and_eq_true, beq_iff_eq, decide_eq_true_eq]
  obtain ⟨hownership, hroot, hpath, hrecord, hdev', hino'⟩ := h.own
  exact ⟨⟨⟨⟨⟨⟨⟨⟨hownership, hroot⟩, hpath⟩, hrecord⟩, hdev'.trans hdev⟩, hino'.trans hino⟩,
    hinside⟩, hnear⟩, hanchor⟩

/-- **`observe_one`** with a cursor of the file: the next cursor, and what is due. -/
theorem observeOne_next (hown : ¬ 256 < (Hmux.bytes item.ownership).length)
    (hfile : opened binding.root binding.path = some info)
    (hold : cursors.get? item.identity = some old) (hsame : old.same L item binding info = true) :
    observeOne L opened cursors item binding emitted .done =
      .ok (nextCursor L item binding info old,
        ((due L old.armed (unread info.bytes old.offset)).2.take
          (emittedMax - emitted)).map fun e =>
            (markOf item.identity binding.recordId e).completion L) := by
  have hfilter : (cursors.get? item.identity).filter
      (fun cursor => cursor.same L item binding info) = some old :=
    Option.filter_eq_some_iff.mpr ⟨hold, hsame⟩
  have hscan : scan info.bytes old.offset false =
      .ok (readUpTo info.bytes old.offset, unread info.bytes old.offset) := by
    unfold Cursor.same at hsame
    simp only [Bool.and_eq_true, decide_eq_true_eq] at hsame
    exact scan_false hsame.1.1.2 hsame.1.2
  unfold observeOne
  rw [if_neg hown, hfile]
  dsimp only
  rw [hfilter, Option.map_some, Option.getD_some, Option.isNone_some, hscan]
  dsimp only
  rw [foldl_visit]
  simp only [Option.isSome_some, if_true, List.nil_append, List.length_nil, Nat.sub_zero,
    Option.map_some, Option.getD_some]
  rfl

/-- The session is observed. -/
theorem observeItem_next {inner inner' : Inner} (hwatched : Watched item binding)
    (hfile : opened binding.root binding.path = some info)
    (hold : inner.cursors.get? item.identity = some old)
    (hsame : old.same L item binding info = true)
    (h : observeItem L inner ⟨item, opened, .done⟩ = .ok inner') :
    inner'.cursors = inner.cursors.insert item.identity (nextCursor L item binding info old) ∧
      inner'.output = inner.output ++ ((due L old.armed (unread info.bytes old.offset)).2.take
        (emittedMax - inner.output.length)).map fun e =>
          (markOf item.identity binding.recordId e).completion L := by
  have hfilter : item.binding.filter Binding.usable = some binding :=
    Option.filter_eq_some_iff.mpr ⟨hwatched.bound, hwatched.usable⟩
  have hcreated : ¬ item.identity.createdAt < 1 := by
    have hle := hwatched.created
    rw [Int64.le_iff_toInt_le] at hle
    rw [Int64.lt_iff_toInt_lt]
    omega
  unfold observeItem at h
  dsimp only at h
  rw [if_neg (by decide), hwatched.valid, decide_eq_false hcreated, Bool.not_true, Bool.or_false,
    if_neg Bool.false_ne_true, hfilter] at h
  dsimp only at h
  by_cases hown : 256 < (Hmux.bytes item.ownership).length
  · have hlimit : observeOne L opened inner.cursors item binding inner.output.length .done =
        .error .limit := by
      unfold observeOne
      rw [if_pos hown]
    rw [hlimit] at h
    cases h
  · rw [observeOne_next hown hfile hold hsame] at h
    dsimp only at h
    split at h
    · cases h
    · cases h
      exact ⟨rfl, rfl⟩

/-- Another session is observed. -/
theorem observeItem_other {identity : SessionIdentity} {inner inner' : Inner} {other : Item}
    (hother : other.observation.identity ≠ identity) (h : observeItem L inner other = .ok inner') :
    inner'.cursors.get? identity = inner.cursors.get? identity ∧
      ∃ new, inner'.output = inner.output ++ new ∧ ∀ c ∈ new, c.identity ≠ identity := by
  rcases observeItem_ok h with ⟨hcursors, hsame⟩ |
    ⟨binding, info, cursor, found, -, -, -, -, -, hobserved, hcursors, hnext⟩
  · refine ⟨?_, [], by rw [hsame, List.append_nil], fun c hc => by cases hc⟩
    rw [hcursors, if_neg (Ne.symm hother)]
  · refine ⟨?_, found, hnext, fun c hc => ?_⟩
    · rw [hcursors, Table.get?_insert, if_neg (Ne.symm hother)]
    · cases hobserved with
      | first => cases hc
      | next old lines =>
        obtain ⟨e, -, rfl⟩ := List.mem_map.mp hc
        exact hother

/-- Items of other sessions change neither its cursor nor its completions. -/
theorem items_other {identity : SessionIdentity} {items : List Item} (inner : Inner)
    {inner' : Inner} (hother : ∀ x ∈ items, x.observation.identity ≠ identity)
    (hfold : items.foldlM (observeItem L) inner = .ok inner') :
    inner'.cursors.get? identity = inner.cursors.get? identity ∧
      ∃ new, inner'.output = inner.output ++ new ∧ ∀ c ∈ new, c.identity ≠ identity := by
  induction items generalizing inner with
  | nil =>
    cases hfold
    exact ⟨rfl, [], (List.append_nil _).symm, fun c hc => by cases hc⟩
  | cons x items ih =>
    rw [List.foldlM_cons] at hfold
    cases hitem : observeItem L inner x with
    | error e =>
      rw [hitem] at hfold
      cases hfold
    | ok next =>
      rw [hitem] at hfold
      obtain ⟨hcursor, new, hnew, hfree⟩ := observeItem_other (hother x List.mem_cons_self) hitem
      obtain ⟨hcursor', new', hnew', hfree'⟩ :=
        ih next (fun y hy => hother y (List.mem_cons_of_mem _ hy)) hfold
      refine ⟨hcursor'.trans hcursor, new ++ new', ?_, fun c hc => ?_⟩
      · rw [hnew', hnew, List.append_assoc]
      · rcases List.mem_append.mp hc with hc | hc
        · exact hfree c hc
        · exact hfree' c hc

/-- **One observation** of a session hands out what is due in the lines it reads, and no other
    session hands out anything for it. -/
theorem observe_poll {before after : List Item} {first last : Bool} {output : List Completion}
    (hwatched : Watched item binding)
    (hother : ∀ x ∈ before ++ after, x.observation.identity ≠ item.identity)
    (hfile : opened binding.root binding.path = some info)
    (hold : cursors.get? item.identity = some old) (hsame : old.same L item binding info = true)
    (hroom : output.length < emittedMax)
    (h : (observe L cursors (before ++ ⟨item, opened, .done⟩ :: after) first last).1 =
      .ok output) :
    (observe L cursors (before ++ ⟨item, opened, .done⟩ :: after) first last).2.get?
        item.identity = some (nextCursor L item binding info old) ∧
      output.filter (fun c => c.identity = item.identity) =
        (due L old.armed (unread info.bytes old.offset)).2.map fun e =>
          (markOf item.identity binding.recordId e).completion L := by
  obtain ⟨kept, retained, inner, hkept, hfold, rfl, hafter⟩ := observe_ok h
  have hmem : item.identity ∈ (before ++ ⟨item, opened, Fate.done⟩ :: after).map fun item =>
      item.observation.identity :=
    List.mem_map.mpr ⟨_, List.mem_append_right _ List.mem_cons_self, rfl⟩
  have hstart : kept.get? item.identity = some old := (hkept _ _).mpr ⟨hold, hmem⟩
  -- the call goes through the items before this one, this one and those after it
  rw [List.foldlM_append] at hfold
  cases hearly : before.foldlM (observeItem L) ⟨kept, retained, []⟩ with
  | error e =>
    rw [hearly] at hfold
    cases hfold
  | ok early =>
    rw [hearly] at hfold
    -- what is before has other identities, so the cursor is still the old one
    obtain ⟨hcursor, new, hnew, hfree⟩ :=
      items_other _ (fun x hx => hother x (List.mem_append_left _ hx)) hearly
    change List.foldlM (observeItem L) early (⟨item, opened, Fate.done⟩ :: after) = _ at hfold
    rw [List.foldlM_cons] at hfold
    cases hitem : observeItem L early ⟨item, opened, .done⟩ with
    | error e =>
      rw [hitem] at hfold
      cases hfold
    | ok next =>
      rw [hitem] at hfold
      obtain ⟨hnext, hdue⟩ :=
        observeItem_next hwatched hfile (hcursor.trans hstart) hsame hitem
      obtain ⟨hcursor', new', hnew', hfree'⟩ :=
        items_other next (fun x hx => hother x (List.mem_append_right _ hx)) hfold
      -- and what the others hand out is not of this identity
      have hclean : ∀ l : List Completion, (∀ c ∈ l, c.identity ≠ item.identity) →
          l.filter (fun c => c.identity = item.identity) = [] := by
        intro l hl
        rw [List.filter_eq_nil_iff]
        intro c hc
        rw [decide_eq_true_eq]
        exact hl c hc
      constructor
      · rw [hafter, hcursor', hnext, Table.get?_insert, if_pos rfl]
      · -- the room was not used up, so nothing was cut off
        have hshort : (due L old.armed (unread info.bytes old.offset)).2.length ≤
            emittedMax - early.output.length := by
          rw [hnew', hdue, List.length_append, List.length_append, List.length_map,
            List.length_take] at hroom
          omega
        rw [hnew', hdue, hnew, List.nil_append, List.filter_append, List.filter_append,
          hclean new hfree, hclean new' hfree', List.nil_append, List.append_nil]
        rw [hnew, List.nil_append] at hshort
        rw [List.take_of_length_le hshort, List.filter_eq_self]
        intro c hc
        obtain ⟨e, -, rfl⟩ := List.mem_map.mp hc
        exact decide_eq_true rfl

/-! ### All polls

By induction on the polls, with the lines of the last one put behind those of the others. -/

variable (L item binding) in
/-- Observations of a session while its file grows: the tracker and the file before and after
    them, and what they handed out.  None of them fills the list of completions, and each finds the
    file grown by no more than a reading takes. -/
inductive Polls : Tracker → Record → List Completion → Tracker → Record → Prop
  | none (cursors : Tracker) (info : Record) : Polls cursors info [] cursors info
  | more {cursors cursors' : Tracker} {info earlier later : Record}
      {handed output : List Completion} {opened : Files} (before after : List Item)
      (first last : Bool) :
      Polls cursors info handed cursors' earlier →
      opened binding.root binding.path = some later →
      earlier.dev = later.dev → earlier.ino = later.ino → earlier.bytes <+: later.bytes →
      (∀ cursor, cursors'.get? item.identity = some cursor →
        later.bytes.length - cursor.offset ≤ tailMax) →
      (∀ x ∈ before ++ after, x.observation.identity ≠ item.identity) →
      (observe L cursors' (before ++ ⟨item, opened, .done⟩ :: after) first last).1 = .ok output →
      output.length < emittedMax →
      Polls cursors info (handed ++ output)
        (observe L cursors' (before ++ ⟨item, opened, .done⟩ :: after) first last).2 later

/-- All polls together read what one reading would. -/
theorem Polls.due {info' : Record} {handed : List Completion} (hwatched : Watched item binding)
    (hpolls : Polls L item binding cursors info handed cursors' info')
    (hold : cursors.get? item.identity = some old) (hreads : Reads L old item binding info) :
    handed.filter (fun c => c.identity = item.identity) =
        ((due L old.armed (unread info'.bytes old.offset)).2.map fun e =>
          (markOf item.identity binding.recordId e).completion L) ∧
      ∃ cursor, cursors'.get? item.identity = some cursor ∧ Reads L cursor item binding info' ∧
        cursor.offset = readUpTo info'.bytes old.offset ∧
        cursor.armed = (due L old.armed (unread info'.bytes old.offset)).1 := by
  induction hpolls with
  | none info =>
    obtain ⟨hunread, hread⟩ := unread_eq_nil hreads.passed
    rw [hunread, hread]
    exact ⟨rfl, old, hold, hreads, rfl, rfl⟩
  | @more middle info earlier later handed output opened before after first last _ hfile hdev hino
      hgrows hnear hother hok hroom ih =>
    obtain ⟨hhanded, cursor, hcursor, hreads', hoffset, harmed⟩ := ih hreads
    have hsame := hreads'.same hdev hino hgrows (hnear cursor hcursor)
    obtain ⟨hnext, houtput⟩ := observe_poll hwatched hother hfile hcursor hsame hroom hok
    have hinside : cursor.offset ≤ later.bytes.length :=
      le_trans hreads'.inside hgrows.length_le
    have hbegun : old.offset ≤ earlier.bytes.length := by
      have hle : old.offset ≤ readUpTo earlier.bytes old.offset := LineReader.start_le_complete
      have hend := hreads'.inside
      omega
    obtain ⟨hunread, hread⟩ := unread_append hgrows hbegun
    have hdue : CompletionTracker.due L old.armed (unread later.bytes old.offset) =
        ((CompletionTracker.due L cursor.armed (unread later.bytes cursor.offset)).1,
          (CompletionTracker.due L old.armed (unread earlier.bytes old.offset)).2 ++
            (CompletionTracker.due L cursor.armed (unread later.bytes cursor.offset)).2) := by
      rw [hunread, due_append, ← harmed, ← hoffset]
    refine ⟨?_, nextCursor L item binding later cursor, hnext, nextCursor_reads hinside, ?_, ?_⟩
    · rw [List.filter_append, hhanded, houtput, hdue, List.map_append]
    · rw [hread, ← hoffset]
      rfl
    · rw [hdue]
      rfl

/-! ### The cursors of a run

A cursor can only come from an observation that read the file of the session, and it is that of the
file as it was then. -/

/-- An observation leaves a cursor that has read the file as it is. -/
theorem Observed.reads (hof : cursor.Of item binding info)
    (hanchor : anchor L info.bytes cursor.offset = (cursor.anchor, cursor.anchorLen))
    {found : List Completion}
    (hobserved : Observed L cursors item binding info emitted cursor found) :
    Reads L cursor item binding info := by
  have hscan : ∃ start tail lines, scan info.bytes start tail = .ok (cursor.offset, lines) := by
    cases hobserved with
    | first lines hscan => exact ⟨_, _, _, hscan⟩
    | next old lines hold hsame hscan => exact ⟨_, _, _, hscan⟩
  obtain ⟨start, tail, lines, hscan⟩ := hscan
  refine ⟨hof, (scan_le hscan).2, hanchor, fun hfeed => ?_⟩
  obtain ⟨n, hn⟩ := List.mem_iff_getElem?.mp hfeed
  rw [List.getElem?_drop] at hn
  exact absurd (scan_passes hscan hn) (Nat.not_lt.mpr (Nat.le_add_right _ n))

variable (L) in
/-- A session of an observation was read, and this is its cursor since. -/
structure ReadBy (seen : Item) (binding : Binding) (info : Record) (cursor : Cursor) : Prop where
  bound : seen.observation.binding = some binding
  file : seen.files binding.root binding.path = some info
  reads : Reads L cursor seen.observation binding info

/-- A cursor is an old one or that of an item of the call. -/
theorem items_read {items : List Item} (inner : Inner) {inner' : Inner}
    (hfold : items.foldlM (observeItem L) inner = .ok inner') {identity : SessionIdentity}
    (hcursor : inner'.cursors.get? identity = some cursor) :
    inner.cursors.get? identity = some cursor ∨ ∃ seen ∈ items, ∃ binding info,
      seen.observation.identity = identity ∧ ReadBy L seen binding info cursor := by
  induction items generalizing inner with
  | nil =>
    cases hfold
    exact .inl hcursor
  | cons x items ih =>
    rw [List.foldlM_cons] at hfold
    cases hitem : observeItem L inner x with
    | error e =>
      rw [hitem] at hfold
      cases hfold
    | ok next =>
      rw [hitem] at hfold
      rcases ih next hfold with hbefore | ⟨seen, hseen, hread⟩
      · rcases observeItem_ok hitem with ⟨hcursors, -⟩ |
          ⟨binding, info, new, found, -, hbound, hfile, hof, hanchor, hobserved, hcursors, -⟩
        · rw [hcursors] at hbefore
          split at hbefore
          · cases hbefore
          · exact .inl hbefore
        · rw [hcursors] at hbefore
          rcases Table.get?_insert_some hbefore with ⟨hsame, rfl⟩ | hbefore
          · exact .inr ⟨x, List.mem_cons_self, binding, info, hsame.symm, hbound, hfile,
              hobserved.reads hof hanchor⟩
          · exact .inl hbefore
      · exact .inr ⟨seen, List.mem_cons_of_mem _ hseen, hread⟩

/-- **Every cursor of a run** is that of a file as an observation has read it. -/
theorem reads_run {history : List Entry} (hrun : Run L history cursors)
    {identity : SessionIdentity} (hcursor : cursors.get? identity = some cursor) :
    ∃ e ∈ history, ∃ seen ∈ e.call.items, ∃ binding info,
      seen.observation.identity = identity ∧ ReadBy L seen binding info cursor := by
  induction hrun with
  | new => cases hcursor
  | step history cursors call hrun ih =>
    rcases step_cases call rfl with ⟨-, hcursors⟩ | ⟨kept, retained, inner, hkept, hfold, -, hafter⟩
    · obtain ⟨e, he, hread⟩ := ih (hcursors _ _ hcursor)
      exact ⟨e, List.mem_cons_of_mem _ he, hread⟩
    · rw [hafter] at hcursor
      rcases items_read _ hfold hcursor with hold | hread
      · obtain ⟨e, he, hread⟩ := ih (hkept _ _ hold)
        exact ⟨e, List.mem_cons_of_mem _ he, hread⟩
      · exact ⟨_, List.mem_cons_self, hread⟩

/-- **Completions do not depend on polling.**  In any run the cursor of a session is that of a file
    as an observation has read it.  However often the session is observed from there on while the
    file grows, what is handed out for it is what is due in all the lines that came, and its cursor
    is that of one reading of them. -/
theorem polls_due {history : List Entry} (hrun : Run L history cursors)
    {identity : SessionIdentity} (hold : cursors.get? identity = some old) :
    ∃ e ∈ history, ∃ seen ∈ e.call.items, ∃ bound info,
      seen.observation.identity = identity ∧ ReadBy L seen bound info old ∧
      ∀ (item : Observation) (binding : Binding) (handed : List Completion) (cursors' : Tracker)
        (info' : Record), item.identity = identity → Watched item binding →
        old.Of item binding info → Polls L item binding cursors info handed cursors' info' →
        handed.filter (fun c => c.identity = identity) =
            ((due L old.armed (unread info'.bytes old.offset)).2.map fun e =>
              (markOf identity binding.recordId e).completion L) ∧
          ∃ cursor, cursors'.get? identity = some cursor ∧ Reads L cursor item binding info' ∧
            cursor.offset = readUpTo info'.bytes old.offset ∧
            cursor.armed = (due L old.armed (unread info'.bytes old.offset)).1 := by
  obtain ⟨e, he, seen, hseen, bound, info, hidentity, hread⟩ := reads_run hrun hold
  refine ⟨e, he, seen, hseen, bound, info, hidentity, hread, ?_⟩
  rintro item binding handed cursors' info' rfl hwatched hof hpolls
  have hreads : Reads L old item binding info :=
    ⟨hof, hread.reads.inside, hread.reads.anchored, hread.reads.passed⟩
  exact hpolls.due hwatched hold hreads

namespace TaskExample

/-- The cursor after the first look. -/
def seenCursor : Cursor :=
  { ownership := "fd:20:20", root := root, path := path, recordId := "test", dev := 1, ino := 7,
    offset := 24, anchor := (anchor libraries startedLine 24).1,
    anchorLen := (anchor libraries startedLine 24).2, armed := true }

/-- The session has been seen. -/
theorem seen_cursor : seen.get? session = some seenCursor := by decide +kernel

/-- The file after the task is completed. -/
def completed : Record := ⟨1, 7, startedLine ++ completeLine⟩

def bound : Binding := ⟨.codex, path, root, "test", .ready⟩

/-- The second call is one poll of it. -/
theorem polls : Polls libraries watched bound seen ⟨1, 7, startedLine⟩ ([] ++ [done])
    (observe libraries seen ([] ++ [watchedAt completed.bytes]) true true).2 completed := by
  have hlength : completed.bytes.length ≤ tailMax := by decide +kernel
  exact .more [] [] true true (.none seen ⟨1, 7, startedLine⟩) (if_pos ⟨rfl, rfl⟩) rfl rfl
    (List.prefix_append _ _) (fun cursor _ => le_trans (Nat.sub_le _ _) hlength)
    (fun x hx => by cases hx) (by decide +kernel) (by decide +kernel)

/-- The run of the first look. -/
theorem looked : Run libraries [⟨.empty, look startedLine, (step libraries .empty
    (look startedLine)).1⟩] seen := .step _ _ _ .new

theorem done_due : [done].filter (fun c => c.identity = session) =
    (due libraries true (unread completed.bytes 24)).2.map fun e =>
      (markOf session "test" e).completion libraries := by
  obtain ⟨e, he, x, hx, binding, info, -, hread, hall⟩ := polls_due looked seen_cursor
  obtain rfl := List.mem_singleton.mp he
  obtain rfl := List.mem_singleton.mp hx
  obtain rfl := Option.some.inj hread.bound
  have hfile : filed startedLine root path = some info := hread.file
  obtain rfl := filed_some hfile
  exact (hall watched bound _ _ _ rfl ⟨by decide +kernel, by decide, rfl, by decide +kernel⟩
    ⟨rfl, rfl, rfl, rfl, rfl, rfl⟩ polls).1

end TaskExample

end Hmux.Home.CompletionTracker
